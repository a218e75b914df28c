import MbrcPlugin.Commands.V6
import MbrcPlugin.Library.TrackFilter

/-!
# Listing and queueing a scope of the library

`library_tracks` lists what a scope selects and `library_queue` queues it, each from a source of its
own choice: the album walk, a scan of the tags, the ordinal index, a walk of the host.  Of a scope
that names something, or that is searched, both take the same tracks; the library itself is listed
from the index and queued by a scan, which passes over the tracks without tags.  So the two agree
exactly when each of those is banned anyway (`queued_eq_listed_iff`).
-/

namespace Mbrc.LibraryV6

open Text Cache Providers CommandsV6 Interaction

/-! ## The host -/

/-- A track of a walk of the host. -/
structure Track where
  src : String
  artist : String := ""
  title : String := ""
  trackno : Int := 0
  disc : Int := 0
  album : String := ""
  albumArtist : String := ""
  genre : String := ""
  deriving DecidableEq

def Track.toTags (t : Track) : CachedTags :=
  { src := t.src, artist := t.artist, title := t.title, album := t.album
    albumArtist := t.albumArtist, trackNo := t.trackno, discNo := t.disc, genre := t.genre }

/-- What the host answers. -/
structure Host where
  albumTracks : String → Except String (List Track)
  /-- The names of the albums. -/
  artistAlbums : String → Except String (List String)
  genreTracks : String → Except String (List Track)
  trackPaths : Except String (List String)
  excludedPaths : Except String (List String)

namespace Host

variable (host : Host)

/-- The banned tracks; none where the host cannot tell. -/
def excluded : List String := host.excludedPaths.toOption.getD []

end Host

/-! ## The request -/

section

variable (lower : String → String)

/-- A blank query is no query. -/
def needle (data : Value) : Except V6Error (Option String) := do
  let query ← optStr data "query"
  return (query.map fun q => lower (trim q)).filter (· ≠ "")

/-- Against a needle in lower case. -/
def contains (haystack needle : String) : Bool :=
  decide (needle.toList <:+: (lower haystack).toList)

/-- `SortField::parse`. -/
def parseSortField : String → Option SortField
  | "title" => some .title
  | "artist" => some .artist
  | "album" => some .album
  | "album_artist" => some .albumArtist
  | "track" => some .track
  | "year" => some .year
  | "original_year" => some .originalYear
  | "rating" => some .rating
  | "date_added" => some .dateAdded
  | _ => none

def sortField (data : Value) : Except V6Error (Option SortField) := do
  match ← optStr data "sort" with
  | none => return none
  | some raw =>
    match parseSortField raw with
    | some field => return some field
    | none => throw (invalid "sort" ("unknown sort field: " ++ raw))

def descending (data : Value) : Except V6Error Bool := do
  match ← optStr data "order" with
  | none | some "asc" => return false
  | some "desc" => return true
  | some other => throw (invalid "order" ("unknown order: " ++ other))

/-- `DEFAULT_PAGE_LIMIT`. -/
def defaultPageLimit : Int := 1000

def clampI32 (i : Int) : Nat := (min i (2 ^ 31 - 1)).toNat

/-- `page_args`: the offset and the limit, zero meaning to the end. -/
def pageArgs (data : Value) : Except V6Error (Nat × Nat) := do
  let offset ← optI64 data "offset"
  let limit ← optI64 data "limit"
  return (clampI32 (offset.getD 0), clampI32 (limit.getD defaultPageLimit))

def slice {α : Type} (all : List α) (offset limit : Nat) : List α :=
  (all.drop offset).take (if limit > 0 then limit else all.length)

/-- A failure of the host. -/
def fromHost {α : Type} (answer : Except String α) : Except V6Error α := answer.mapError internal

/-! ## Albums -/

/-- `chooses_between_albums`: the artist, where it files some of the walk. -/
def choosesBetweenAlbums (tracks : List Track) (artist : Option String) : Option String :=
  artist.filter fun a => tracks.any fun t => MultiValue.sameName t.albumArtist a

def oneAlbum (tracks : List Track) (artist : Option String) : List Track :=
  tracks.filter fun t => artist.all (MultiValue.sameName t.albumArtist ·)

def answersQuery (query : Option String) (t : Track) : Bool :=
  query.all fun q => contains lower t.title q || contains lower t.artist q

/-- `album_page`. -/
def albumPage (host : Host) (album : String) (artist needle : Option String)
    (sort : Option SortField) (descending : Bool) (offset limit : Nat) :
    Except V6Error (Nat × List String) := do
  let walk ← fromHost (host.albumTracks album)
  let chooses := choosesBetweenAlbums walk artist
  let tracks := ((oneAlbum walk chooses).filter (answersQuery lower needle)).map Track.toTags
  let tracks := match sort with
    | some field =>
      let sorted := Comparator.sortBy (field.compare lower) tracks
      if descending then sorted.reverse else sorted
    | none => tracks
  let paths := tracks.map (·.src)
  return (paths.length, slice paths offset limit)

/-- `album_scope_paths`. -/
def albumScopePaths (filter : TrackFilter) (tracks : List Track) : List String :=
  let chooses := choosesBetweenAlbums tracks filter.artist
  ((oneAlbum tracks chooses).filter (answersQuery lower filter.query)).map (·.src)

/-! ## Listing -/

/-- `track_page_paths`. -/
def trackPagePaths (c : MetadataCache) (offset limit : Nat) : List String :=
  slice c.trackPaths offset limit

/-- `sorted_track_page`: descending is the mirrored window read backwards, where the order is not
stored in both directions. -/
def sortedTrackPage (c : MetadataCache) (field : SortField) (offset limit : Nat)
    (descending : Bool) : List String :=
  let (key, mirrored) := match field.descendingKey with
    | some key => if descending then (key, false) else (.ascending field, descending)
    | none => (.ascending field, descending)
  let total := c.sortedTrackCount field
  let limit := if limit = 0 then total - offset else limit
  let first := if mirrored then total - offset - limit else offset
  let last := if mirrored then total - offset else min (offset + limit) total
  let page := ((c.storedOrder key).take last).drop first
  if mirrored then page.reverse else page

def sortedReady (c : MetadataCache) (field : SortField) : Bool :=
  c.trackCount > 0 && c.sortedTrackCount field = c.trackCount

/-- The path list of the host, filtered on the path itself. -/
def coldPaths (host : Host) (query : Option String) : Except V6Error (List String) := do
  let paths ← fromHost host.trackPaths
  return paths.filter fun path => query.all (contains lower path ·)

/-- `unalbumed_page`. -/
def unalbumedPage (host : Host) (cache : Option MetadataCache) (scope : TrackFilter)
    (sort : Option SortField) (descending : Bool) (offset limit : Nat) :
    Except V6Error (Nat × List String) :=
  let narrowed := scope.query.isSome || scope.artist.isSome || scope.genre.isSome
  match cache.filter (·.trackCount > 0), sort with
  | some c, sort =>
    if narrowed then
      let paths := c.trackPathsWhere lower scope sort descending
      .ok (paths.length, slice paths offset limit)
    else
      match sort.filter (sortedReady c ·) with
      | some field => .ok (c.trackCount, sortedTrackPage c field offset limit descending)
      | none => .ok (c.trackCount, trackPagePaths c offset limit)
  | none, _ => do
    let paths ← coldPaths lower host scope.query
    return (paths.length, slice paths offset limit)

/-- `library_tracks`: how many tracks there are, and the paths of the page. -/
def tracks (host : Host) (cache : Option MetadataCache) (data : Value) :
    Except V6Error (Nat × List String) := do
  let (offset, limit) ← pageArgs data
  let query ← needle lower data
  let sort ← sortField data
  let descending ← descending data
  match ← optStr data "album" with
  | some album =>
    let artist ← optStr data "artist"
    albumPage lower host album artist query sort descending offset limit
  | none =>
    let artist ← optStr data "artist"
    let genre ← optStr data "genre"
    unalbumedPage lower host cache { query, artist, genre } sort descending offset limit

/-! ## Queueing -/

/-- `admits`: a track of an album walk carries no genre to compare. -/
def admits (filter : TrackFilter) (t : Track) : Bool :=
  (filter.artist.all fun a =>
    MultiValue.sameName t.artist a || MultiValue.sameName t.albumArtist a) &&
      answersQuery lower filter.query t

/-- `cold_scope_paths`. -/
def coldScopePaths (host : Host) (filter : TrackFilter) : Except V6Error (List String) :=
  match filter.album, filter.artist, filter.genre with
  | some album, _, _ => do
    let tracks ← fromHost (host.albumTracks album)
    return albumScopePaths lower filter tracks
  | none, some artist, _ => do
    let albums ← fromHost (host.artistAlbums artist)
    let walks ← albums.mapM fun album => fromHost (host.albumTracks album)
    return (walks.flatten.filter (admits lower filter)).map (·.src)
  | none, none, some genre => do
    let tracks ← fromHost (host.genreTracks genre)
    return (tracks.filter (admits lower { query := filter.query })).map (·.src)
  | none, none, none => coldPaths lower host filter.query

/-- The scope a request names. -/
def scopeOf (data : Value) : Except V6Error TrackFilter := do
  let query ← needle lower data
  let artist ← optStr data "artist"
  let album ← optStr data "album"
  let genre ← optStr data "genre"
  return { query, artist, album, genre }

/-- Where a scope's tracks are taken from. -/
def pathsOf (host : Host) (cache : Option MetadataCache) (filter : TrackFilter) :
    Except V6Error (List String) :=
  let byTags := filter.album.isNone && (filter.genre.isSome || filter.artist.isSome)
  let named := filter.artist.isSome || filter.album.isSome || filter.genre.isSome
  match cache with
  | some c =>
    if byTags && c.tagsComplete then .ok (c.trackPathsWhere lower filter none false)
    else if named then coldScopePaths lower host filter
    else if c.trackCount > 0 then .ok (c.trackPathsWhere lower filter none false)
    else coldScopePaths lower host filter
  | none => coldScopePaths lower host filter

/-- `scope_paths`. -/
def scopePaths (host : Host) (cache : Option MetadataCache) (data : Value) :
    Except V6Error (List String) := do
  let filter ← scopeOf lower data
  pathsOf lower host cache filter

/-- The calls of `library_queue` are answered by the host and the cache; `others` answers what it
does not ask. -/
def answers (host : Host) (cache : Option MetadataCache) (others : (call : Call) → Answer call) :
    Unit → (call : Call) → Answer call × Unit
  | (), .reading (.scopePaths data) => (scopePaths lower host cache data, ())
  | (), .query .excludedPaths => (host.excludedPaths, ())
  | (), call => (others call, ())

/-- The paths handed to the host's queue. -/
def handed (commands : List Command) : List String :=
  commands.flatMap fun
    | .queue _ files _ => files
    | _ => []

/-! ## Both take the same tracks -/

section

variable {lower}

theorem tracks_eq {host : Host} {cache : Option MetadataCache} {data : Value}
    {filter : TrackFilter} {down : Bool} {offset limit : Nat}
    (hscope : scopeOf lower data = .ok filter) (hpage : pageArgs data = .ok (offset, limit))
    (hsort : sortField data = .ok none) (hdown : descending data = .ok down) :
    tracks lower host cache data =
      match filter.album with
      | some album => albumPage lower host album filter.artist filter.query none down offset limit
      | none =>
        unalbumedPage lower host cache { filter with album := none } none down offset limit := by
  obtain ⟨query, hquery, hscope⟩ := bind_eq_ok.mp hscope
  obtain ⟨artist, hartist, hscope⟩ := bind_eq_ok.mp hscope
  obtain ⟨album, halbum, hscope⟩ := bind_eq_ok.mp hscope
  obtain ⟨genre, hgenre, hscope⟩ := bind_eq_ok.mp hscope
  obtain rfl := Except.ok.inj hscope
  simp only [tracks, hpage, hquery, hsort, hdown, halbum, hartist, hgenre]
  cases album <;> rfl

theorem handed_queue {host : Host} {cache : Option MetadataCache}
    {others : (call : Call) → Answer call} {request : QueueRequest} {paths : List String}
    (hshuffle : request.shuffle = false) :
    handed (commands (answers lower host cache others) (request.queue paths) ()) = paths := by
  obtain ⟨mode, play, shuffle⟩ := request
  obtain rfl : shuffle = false := hshuffle
  cases paths with
  | nil => rfl
  | cons path rest =>
    show handed (commands _ (perform internal (.queue mode (path :: rest) play) >>= fun _ =>
      pure (Value.object [("count", .int (path :: rest).length)])) ()) = _
    rw [perform, commands_attempt_bind]
    simp only [Call.command?, Option.toList_some, List.singleton_append, handed, List.flatMap_cons]
    split
    · exact List.append_nil _
    · exact List.append_nil _

/-- **What is queued** is what the scope selects, less the banned tracks. -/
theorem handed_queueScope {host : Host} {cache : Option MetadataCache}
    {others : (call : Call) → Answer call} {data : Value} {request : QueueRequest}
    (hrequest : parseQueueRequest data = .ok request) (hshuffle : request.shuffle = false) :
    handed (commands (answers lower host cache others) (queueScope data) ()) =
      match scopePaths lower host cache data with
      | .ok paths => paths.filter (· ∉ host.excluded)
      | .error _ => [] := by
  rw [queueScope, hrequest, commands_check_bind]
  refine (congrArg handed (commands_attempt_bind _ (.reading (.scopePaths data)) _ _ _)).trans ?_
  have hanswer : (answers lower host cache others () (.reading (.scopePaths data))).1 =
      scopePaths lower host cache data := rfl
  rw [hanswer]
  cases scopePaths lower host cache data with
  | error e => rfl
  | ok paths =>
    show handed (commands _ (if paths = [] then _ else _) ()) = _
    split
    · rename_i hnil
      rw [handed_queue hshuffle, hnil]
      rfl
    · refine (congrArg handed (commands_attempt_bind _ (.query .excludedPaths) _ _ _)).trans ?_
      exact handed_queue hshuffle

@[simp] theorem slice_all {α : Type} (all : List α) : slice all 0 0 = all := by
  simp [slice]

/-- The walk of an album is narrowed the same way for both. -/
theorem albumPage_eq (host : Host) (filter : TrackFilter) (album : String) (down : Bool) :
    albumPage lower host album filter.artist filter.query none down 0 0 =
      (fromHost (host.albumTracks album)).map fun walk =>
        ((albumScopePaths lower filter walk).length, albumScopePaths lower filter walk) := by
  unfold albumPage
  cases host.albumTracks album with
  | error e => rfl
  | ok walk =>
    have hpaths : (((oneAlbum walk (choosesBetweenAlbums walk filter.artist)).filter
        (answersQuery lower filter.query)).map Track.toTags).map (·.src) =
        albumScopePaths lower filter walk := by
      rw [List.map_map]
      rfl
    show Except.ok (List.length _, slice _ 0 0) = Except.ok _
    rw [hpaths, slice_all]

/-- A scan for nothing finds the tracks with tags, as the index has them. -/
theorem trackPathsWhere_nothing (c : MetadataCache) (down : Bool) :
    c.trackPathsWhere lower {} none down =
      c.trackPaths.filter fun path => (c.tags.get? path).isSome := by
  have hranks : ∀ m ∈ c.matched lower {}, m.1 = 0 := by
    intro m hm
    obtain ⟨path, -, rfl⟩ := List.mem_map.mp hm
    rfl
  have hsorted : Comparator.sortBy (compareOn fun m : Match => m.1) (c.matched lower {}) =
      c.matched lower {} := by
    apply Comparator.sortBy_of_tied
    intro a ha b hb
    simp [compareOn, hranks a ha, hranks b hb]
  have hadmits : ∀ path, TrackFilter.admits lower {} (c.tags.get? path) path =
      (c.tags.get? path).isSome := by
    intro path
    cases c.tags.get? path <;> rfl
  show List.map _ (Comparator.sortBy _ (c.matched lower {})) = _
  rw [hsorted, MetadataCache.matched, List.map_map]
  simp only [hadmits]
  exact List.map_id _

/-- Without a name to narrow it, a list is scanned for when it is searched. -/
theorem unalbumedPage_eq {host : Host} {c : MetadataCache} (hindex : 0 < c.trackCount)
    (filter : TrackFilter) (down : Bool) :
    unalbumedPage lower host (some c) filter none down 0 0 =
      if filter.query.isSome || filter.artist.isSome || filter.genre.isSome then
        .ok ((c.trackPathsWhere lower filter none down).length,
          c.trackPathsWhere lower filter none down)
      else .ok (c.trackCount, c.trackPaths) := by
  have hsome : (some c).filter (fun c : MetadataCache => decide (c.trackCount > 0)) = some c :=
    Option.filter_some_pos (decide_eq_true hindex)
  unfold unalbumedPage
  rw [hsome]
  simp only [Option.filter_none, slice_all, trackPagePaths]

theorem pathsOf_album {host : Host} {c : MetadataCache} {filter : TrackFilter} {album : String}
    (halbum : filter.album = some album) :
    pathsOf lower host (some c) filter =
      (fromHost (host.albumTracks album)).map (albumScopePaths lower filter) := by
  simp only [pathsOf, halbum, Option.isNone_some, Bool.false_and, Bool.false_eq_true, if_false,
    Option.isSome_some, Bool.or_true, Bool.true_or, if_true, coldScopePaths]
  cases host.albumTracks album <;> rfl

/-- Without an album the tracks are scanned for. -/
theorem pathsOf_scan {host : Host} {c : MetadataCache} {filter : TrackFilter}
    (halbum : filter.album = none) (hindex : 0 < c.trackCount)
    (htags : c.tagsComplete = true ∨ filter.artist = none ∧ filter.genre = none) :
    pathsOf lower host (some c) filter = .ok (c.trackPathsWhere lower filter none false) := by
  unfold pathsOf
  simp only [halbum, Option.isNone_none, Bool.true_and, Option.isSome_none, Bool.or_false]
  by_cases hnamed : (filter.genre.isSome || filter.artist.isSome) = true
  · have hcomplete : c.tagsComplete = true := by
      refine htags.resolve_right fun h => ?_
      simp [h.1, h.2] at hnamed
    rw [if_pos (by rw [hnamed, hcomplete]; rfl)]
  · have hartist : (filter.artist.isSome || filter.genre.isSome) = false := by
      rw [Bool.or_comm]
      exact Bool.not_eq_true _ ▸ hnamed
    rw [Bool.not_eq_true] at hnamed
    rw [hnamed, hartist, if_neg (by simp), if_neg (by simp), if_pos hindex]

/-- What is left of the tracks with tags, of the unbanned ones. -/
theorem filter_tagged_iff {paths excluded : List String} {tags : Table String CachedTags} :
    (paths.filter fun path => (tags.get? path).isSome).filter (· ∉ excluded) =
        paths.filter (· ∉ excluded) ↔
      ∀ path ∈ paths, tags.get? path = none → path ∈ excluded := by
  rw [List.filter_filter]
  constructor
  · intro h path hpath hnone
    by_contra hout
    have hmem : path ∈ paths.filter (· ∉ excluded) :=
      List.mem_filter.mpr ⟨hpath, decide_eq_true hout⟩
    rw [← h, List.mem_filter, hnone] at hmem
    simp at hmem
  · intro h
    apply List.filter_congr
    intro path hpath
    cases hget : tags.get? path with
    | none => simp [h path hpath hget]
    | some t => simp

/-- The scope names something, or is searched. -/
def Narrowed (filter : TrackFilter) : Prop :=
  filter.query.isSome ∨ filter.artist.isSome ∨ filter.album.isSome ∨ filter.genre.isSome

/-- What is listed of the scope, less the banned tracks, is what is queued. -/
def Agree (lower : String → String) (host : Host) (c : MetadataCache)
    (others : (call : Call) → Answer call) (list order : Value) : Prop :=
  handed (commands (answers lower host (some c) others) (queueScope order) ()) =
    match tracks lower host (some c) list with
    | .ok (_, paths) => paths.filter (· ∉ host.excluded)
    | .error _ => []

/-- **A list and what it queues agree** exactly when the scope is narrowed, or every track of the
index without tags is banned. -/
theorem queued_eq_listed_iff {host : Host} {c : MetadataCache}
    {others : (call : Call) → Answer call} {list order : Value} {filter : TrackFilter}
    {request : QueueRequest} {down : Bool}
    (hindex : 0 < c.trackCount) (hlist : scopeOf lower list = .ok filter)
    (horder : scopeOf lower order = .ok filter) (hpage : pageArgs list = .ok (0, 0))
    (hsort : sortField list = .ok none) (hdown : descending list = .ok down)
    (hrequest : parseQueueRequest order = .ok request) (hshuffle : request.shuffle = false)
    (htags : c.tagsComplete = true ∨ filter.artist = none ∧ filter.genre = none) :
    Agree lower host c others list order ↔
      Narrowed filter ∨
        ∀ path ∈ c.trackPaths, c.tags.get? path = none → path ∈ host.excluded := by
  have hpaths : scopePaths lower host (some c) order = pathsOf lower host (some c) filter := by
    rw [scopePaths, horder]
    rfl
  rw [Agree, handed_queueScope hrequest hshuffle, hpaths, tracks_eq hlist hpage hsort hdown]
  cases halbum : filter.album with
  | some album =>
    refine iff_of_true ?_ (Or.inl (Or.inr (Or.inr (Or.inl (by rw [halbum]; rfl)))))
    simp only [pathsOf_album halbum, albumPage_eq]
    cases host.albumTracks album <;> rfl
  | none =>
    have heta : { filter with album := none } = filter := by rw [← halbum]
    simp only [pathsOf_scan halbum hindex htags, heta, unalbumedPage_eq hindex]
    by_cases hnarrowed : (filter.query.isSome || filter.artist.isSome || filter.genre.isSome) = true
    · rw [if_pos hnarrowed]
      refine iff_of_true rfl (Or.inl ?_)
      simpa [Narrowed, halbum, or_assoc] using hnarrowed
    · rw [if_neg hnarrowed]
      have hnothing : filter = {} := by
        obtain ⟨query, artist, album, genre⟩ := filter
        simp only [Bool.or_eq_true, not_or, Bool.not_eq_true, Option.isSome_eq_false_iff,
          Option.isNone_iff_eq_none] at hnarrowed halbum
        simp [hnarrowed, halbum]
      have hwide : ¬Narrowed filter := by simp [hnothing, Narrowed]
      rw [hnothing, trackPathsWhere_nothing, filter_tagged_iff, or_iff_right (hnothing ▸ hwide)]

end

end

/-! ## A library half read -/

/-- Two tracks, of which one has its tags. -/
def halfRead : MetadataCache :=
  { MetadataCache.initial with
    validated := true
    index := ["/one.mp3", "/two.mp3"]
    tags := Table.empty.insert "/one.mp3" { src := "/one.mp3", title := "One" } }

/-- A host with a list of banned tracks. -/
def banning (excluded : List String) : Host :=
  { albumTracks := fun _ => .ok [], artistAlbums := fun _ => .ok [], genreTracks := fun _ => .ok []
    trackPaths := .ok ["/one.mp3", "/two.mp3"], excludedPaths := .ok excluded }

/-- A host that fails every other call. -/
def refusing : (call : Call) → Answer call
  | .command _ => .error "unavailable"
  | .query _ => .error "unavailable"
  | .reading (.replies _) => .error "unavailable"
  | .reading (.answer _) => .error (internal "unavailable")
  | .reading .nowRating => .error "unavailable"
  | .reading .nowLfm => .error "unavailable"
  | .reading (.scopePaths _) => .error (internal "unavailable")
  | .reading (.mediaPaths _) => .error (internal "unavailable")
  | .reading (.storedTag _) => .error (internal "unavailable")
  | .reading (.refreshRows _) => ()
  | .reading (.refusedWrite ..) => none
  | .reading (.shapedField ..) => .null
  | .reading (.parsedRating _) => .null
  | .reading (.randomPicks _) => none

def everything : Value := .object [("limit", .int 0)]

/-- With the unread track banned, the list of everything and what it queues agree. -/
theorem queued_eq_listed_banned :
    Agree String.toLower (banning ["/two.mp3"]) halfRead refusing everything (.object []) :=
  (queued_eq_listed_iff (by decide) rfl rfl rfl rfl rfl rfl rfl (Or.inr ⟨rfl, rfl⟩)).mpr
    (Or.inr (by decide +kernel))

/-- **An unread track is listed and not queued.** -/
theorem untagged_not_queued :
    0 < halfRead.trackCount ∧
      ¬Agree String.toLower (banning []) halfRead refusing everything (.object []) := by
  refine ⟨by decide, fun h => ?_⟩
  have hqueued : handed (commands
      (answers String.toLower (banning []) (some halfRead) refusing) (queueScope (.object [])) ()) =
      ["/one.mp3"] := by rfl
  have hlisted : tracks String.toLower (banning []) (some halfRead) everything =
      .ok (2, ["/one.mp3", "/two.mp3"]) := by rfl
  rw [Agree, hqueued, hlisted] at h
  revert h
  decide

end Mbrc.LibraryV6
