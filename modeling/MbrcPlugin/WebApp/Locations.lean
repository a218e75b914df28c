import MbrcPlugin.Lib.TextLines
import MbrcPlugin.WebApp.LibraryStore
import MbrcPlugin.WebApp.MediaStore
import Mathlib.Data.List.Induction

/-!
# Addresses of the web app

A place of the web app, the address the app makes for it, and the place that is read back from an
address.  The playlists are a tree of folders, made of the separators in their names.
`places_survive` says which places come back as they were.
-/

namespace Mbrc.WebApp.Locations

open Browse

/-! ## Addresses -/

/-- A value of a query: a text, or something else, such as several of them. -/
inductive QueryValue where
  | text (text : String)
  | other
  deriving DecidableEq

abbrev Query := List (String × QueryValue)

/-- What is set, in order. -/
def queryOf (entries : List (String × Option String)) : Query :=
  entries.filterMap fun e => e.2.map fun value => (e.1, .text value)

/-- An empty value is none. -/
def one (value : Option QueryValue) : Option String :=
  match value with
  | some (.text text) => if text = "" then none else some text
  | _ => none

/-- An empty value is a value: the records filed under no name. -/
def scopeValue (value : Option QueryValue) : Option String :=
  match value with
  | some (.text text) => some text
  | _ => none

/-- A search without the blanks around it, where there is one. -/
def searchValue (search : String) : Option String :=
  if trim search ≠ "" then some (trim search) else none

def flagValue (value : String) (flag : Bool) : Option String := if flag then some value else none

/-! ## The library -/

def levelText : LibraryLevel → String
  | .genres => "genres"
  | .artists => "artists"
  | .albums => "albums"
  | .tracks => "tracks"

/-- What is no level is the artists. -/
def levelOf (value : Option QueryValue) : LibraryLevel :=
  match value with
  | some (.text "genres") => .genres
  | some (.text "albums") => .albums
  | some (.text "tracks") => .tracks
  | _ => .artists

/-- The orders each level can be asked for. -/
def sortFields : LibraryLevel → List String
  | .genres => ["name"]
  | .artists => ["name"]
  | .albums => ["name", "artist", "year", "original_year"]
  | .tracks => ["title", "artist", "album", "album_artist", "track", "year", "original_year",
      "rating", "date_added"]

/-- What a library address says. -/
structure LibraryView where
  position : Position
  options : ViewOptions := {}
  deriving DecidableEq

structure Route where
  level : Option QueryValue := none
  query : Query
  deriving DecidableEq

def libraryRoute (v : LibraryView) : Route where
  level := some (.text (levelText v.position.level))
  query := queryOf [
    ("genre", v.position.scope.genre),
    ("artist", v.position.scope.artist),
    ("album", v.position.scope.album),
    ("q", searchValue v.options.query),
    ("sort", v.options.sort),
    ("order", flagValue "desc" v.options.descending),
    ("aa", flagValue "1" v.options.albumArtists)]

def positionFromRoute (level : Option QueryValue) (query : Query) : LibraryView :=
  let level := levelOf level
  { position :=
      { level
        scope :=
          { genre := scopeValue (query.lookup "genre")
            artist := scopeValue (query.lookup "artist")
            album := scopeValue (query.lookup "album") } }
    options :=
      { query := (one (query.lookup "q")).getD ""
        sort := (one (query.lookup "sort")).filter (· ∈ sortFields level)
        descending := one (query.lookup "order") = some "desc"
        albumArtists := one (query.lookup "aa") = some "1" } }

/-! ## Playlists -/

/-- The column a search in a playlist reads. -/
inductive QueryField where
  | any | title | artist | album
  deriving DecidableEq

def QueryField.text : QueryField → String
  | any => "any"
  | title => "title"
  | artist => "artist"
  | album => "album"

/-- `path.join('/')`, where there is one. -/
def joined (path : List String) : Option String :=
  if path = [] then none else some (String.intercalate "/" path)

def playlistsRoute (path : List String) : Route where
  query := queryOf [("path", joined path)]

def playlistTracksRoute (url : String) (path : List String) (search : String := "")
    (field : QueryField := .any) : Route where
  query := queryOf [
    ("playlist", some url),
    ("path", joined path),
    ("q", searchValue search),
    ("qf", if (searchValue search).isSome ∧ field ≠ .any then some field.text else none)]

/-- `split` at the characters, without the empty pieces. -/
def segmentsAt (separator : Char → Bool) (s : String) : List String :=
  ((s.toList.splitOnP separator).map String.ofList).filter (· ≠ "")

def playlistPathFromRoute (query : Query) : List String :=
  segmentsAt (· = '/') ((one (query.lookup "path")).getD "")

def openPlaylistFromRoute (query : Query) : Option String := one (query.lookup "playlist")

def playlistQueryFromRoute (query : Query) : String := (one (query.lookup "q")).getD ""

def playlistQueryFieldFromRoute (query : Query) : QueryField :=
  match one (query.lookup "qf") with
  | some "title" => .title
  | some "artist" => .artist
  | some "album" => .album
  | _ => .any

/-! ## Media -/

def sourceText : MediaSource → String
  | .audiobooks => "audiobooks"
  | .videos => "videos"
  | .inbox => "inbox"

def sourceOf : Option String → Option MediaSource
  | some "audiobooks" => some .audiobooks
  | some "videos" => some .videos
  | some "inbox" => some .inbox
  | _ => none

/-- A category, and inside it a book or every file. -/
structure MediaPlace where
  source : Option MediaSource := none
  album : Option String := none
  artist : Option String := none
  all : Bool := false
  deriving DecidableEq

def mediaRoute (p : MediaPlace) : Route where
  query := queryOf [
    ("source", p.source.map sourceText),
    ("album", p.album),
    ("artist", p.album.bind fun _ => p.artist),
    ("all", flagValue "1" (p.album.isNone && p.all))]

def mediaFromRoute (query : Query) : MediaPlace :=
  let source := sourceOf (one (query.lookup "source"))
  match one (query.lookup "album") with
  | some album => { source, album := some album, artist := scopeValue (query.lookup "artist") }
  | none => { source, all := one (query.lookup "all") = some "1" }

/-! ## Playlist folders -/

structure PlaylistEntry where
  url : String
  name : String
  editable : Bool
  deriving DecidableEq

/-- Both separators occur. -/
def playlistSegments (name : String) : List String :=
  segmentsAt (fun c => c = '\\' || c = '/') name

/-- The segments start with every segment of the path, in order. -/
def isUnder (segments path : List String) : Bool :=
  path.zipIdx.all fun s => segments[s.2]? = some s.1

/-- The segments below a path, none where they are not under it. -/
def below (segments path : List String) : List String :=
  if isUnder segments path then segments.drop path.length else []

structure PlaylistFolder where
  folders : List String := []
  playlists : List PlaylistEntry := []
  deriving DecidableEq

/-- The contents of one folder, with one more entry. -/
def PlaylistFolder.add (path : List String) (folder : PlaylistFolder) (entry : PlaylistEntry) :
    PlaylistFolder :=
  match below (playlistSegments entry.name) path with
  | [] => folder
  | [_] => { folder with playlists := folder.playlists ++ [entry] }
  | child :: _ :: _ =>
    if child ∈ folder.folders then folder
    else { folder with folders := folder.folders ++ [child] }

def browsePlaylists (entries : List PlaylistEntry) (path : List String) : PlaylistFolder :=
  entries.foldl (PlaylistFolder.add path) {}

/-! ## Reading values -/

variable {key key' : String} {value : Option String} {entries : List (String × Option String)}

@[simp] theorem lookup_queryOf_self :
    (queryOf ((key, value) :: entries)).lookup key =
      (value.map QueryValue.text).or ((queryOf entries).lookup key) := by
  cases value with
  | none => rfl
  | some value => simp [queryOf]

@[simp] theorem lookup_queryOf_ne (h : key ≠ key') :
    (queryOf ((key', value) :: entries)).lookup key = (queryOf entries).lookup key := by
  cases value with
  | none => rfl
  | some value =>
    have hbeq : (key == key') = false := by simpa using h
    simp [queryOf, List.lookup_cons, hbeq]

@[simp] theorem lookup_queryOf_nil : (queryOf []).lookup key = none := rfl

@[simp] theorem scopeValue_map (value : Option String) :
    scopeValue (value.map QueryValue.text) = value := by
  cases value <;> rfl

theorem one_map {value : Option String} (h : value ≠ some "") :
    one (value.map QueryValue.text) = value := by
  cases value with
  | none => rfl
  | some value =>
    have hne : value ≠ "" := fun hempty => h (by rw [hempty])
    simp [one, hne]

theorem searchValue_ne (search : String) : searchValue search ≠ some "" := by
  unfold searchValue
  split
  · rename_i h
    simpa using h
  · simp

theorem getD_searchValue (search : String) : (searchValue search).getD "" = trim search := by
  unfold searchValue
  split
  · rfl
  · rename_i h
    simpa using h

theorem flagValue_ne {value : String} (h : value ≠ "") (flag : Bool) :
    flagValue value flag ≠ some "" := by
  cases flag <;> simp [flagValue, h]

theorem flagValue_eq_some (value : String) (flag : Bool) :
    decide (flagValue value flag = some value) = flag := by
  cases flag <;> simp [flagValue]

/-! ## The library -/

@[simp] theorem levelOf_levelText (l : LibraryLevel) :
    levelOf (some (.text (levelText l))) = l := by
  cases l <;> rfl

/-- A view whose order its level can be asked for. -/
def LibraryView.Offered (v : LibraryView) : Prop :=
  ∀ sort, v.options.sort = some sort → sort ∈ sortFields v.position.level

/-- No order is empty. -/
theorem LibraryView.Offered.sort_ne {v : LibraryView} (h : v.Offered) :
    v.options.sort ≠ some "" := by
  intro hsort
  have hmem := h "" hsort
  revert hmem
  cases v.position.level <;> decide

theorem LibraryView.Offered.filter_sort {v : LibraryView} (h : v.Offered) :
    v.options.sort.filter (· ∈ sortFields v.position.level) = v.options.sort := by
  cases hsort : v.options.sort with
  | none => rfl
  | some sort => simp [Option.filter_some, h sort hsort]

theorem positionFromRoute_libraryRoute (v : LibraryView)
    (hquery : trim v.options.query = v.options.query) (hsort : v.Offered) :
    positionFromRoute (libraryRoute v).level (libraryRoute v).query = v := by
  have hlevel : levelOf (libraryRoute v).level = v.position.level := levelOf_levelText _
  have hgenre : scopeValue ((libraryRoute v).query.lookup "genre") = v.position.scope.genre := by
    simp [libraryRoute]
  have hartist : scopeValue ((libraryRoute v).query.lookup "artist") = v.position.scope.artist := by
    simp [libraryRoute]
  have halbum : scopeValue ((libraryRoute v).query.lookup "album") = v.position.scope.album := by
    simp [libraryRoute]
  have hq : one ((libraryRoute v).query.lookup "q") = searchValue v.options.query := by
    simp [libraryRoute, one_map (searchValue_ne _)]
  have hsorted : one ((libraryRoute v).query.lookup "sort") = v.options.sort := by
    simp [libraryRoute, one_map hsort.sort_ne]
  have horder : one ((libraryRoute v).query.lookup "order") =
      flagValue "desc" v.options.descending := by
    simp [libraryRoute, one_map (flagValue_ne _ _)]
  have haa : one ((libraryRoute v).query.lookup "aa") = flagValue "1" v.options.albumArtists := by
    simp [libraryRoute, one_map (flagValue_ne _ _)]
  unfold positionFromRoute
  rw [hlevel, hgenre, hartist, halbum, hq, hsorted, horder, haa, getD_searchValue, hquery,
    flagValue_eq_some, flagValue_eq_some]
  dsimp only
  rw [hsort.filter_sort]

/-! ## Paths -/

/-- A segment is not empty and holds no separator. -/
theorem segment_of_mem {separator : Char → Bool} {s seg : String}
    (h : seg ∈ segmentsAt separator s) : seg ≠ "" ∧ ∀ c ∈ seg.toList, separator c = false := by
  obtain ⟨hmem, hne⟩ := List.mem_filter.mp h
  obtain ⟨piece, hpiece, rfl⟩ := List.mem_map.mp hmem
  refine ⟨by simpa using hne, ?_⟩
  rw [String.toList_ofList]
  exact Text.not_of_mem_splitOnP hpiece

/-- A path of segments of playlist names. -/
def IsFolder (path : List String) : Prop := ∀ seg ∈ path, ∃ name, seg ∈ playlistSegments name

/-- What was joined splits into the same segments. -/
theorem segmentsAt_joined {path : List String} (h : IsFolder path) :
    segmentsAt (· = '/') ((joined path).getD "") = path := by
  unfold joined
  split
  · rename_i hnil
    rw [hnil]
    rfl
  · rename_i hne
    have hseg (seg : String) (hmem : seg ∈ path) : seg ≠ "" ∧ '/' ∉ seg.toList := by
      obtain ⟨name, hname⟩ := h seg hmem
      obtain ⟨hseg, hfree⟩ := segment_of_mem hname
      refine ⟨hseg, fun hslash => ?_⟩
      have := hfree _ hslash
      revert this
      decide
    have hsplit : (String.intercalate "/" path).toList.splitOn '/' = path.map String.toList := by
      rw [String.toList_intercalate]
      refine List.splitOn_intercalate '/' (fun l hl => ?_) (by simpa using hne)
      obtain ⟨seg, hmem, rfl⟩ := List.mem_map.mp hl
      exact (hseg seg hmem).2
    have hmap : (path.map String.toList).map String.ofList = path := by simp
    rw [List.splitOn_eq_splitOnP] at hsplit
    unfold segmentsAt
    rw [Option.getD_some, show (fun c : Char => decide (c = '/')) = (· == '/') from rfl, hsplit,
      hmap, List.filter_eq_self]
    exact fun seg hmem => by simpa using (hseg seg hmem).1

theorem joined_ne {path : List String} (h : IsFolder path) : joined path ≠ some "" := by
  intro hjoined
  have hpath := segmentsAt_joined h
  rw [hjoined, Option.getD_some] at hpath
  have hnil : path = [] := hpath.symm.trans (by decide)
  rw [hnil] at hjoined
  cases hjoined

theorem playlistPath_of_lookup {query : Query} {path : List String} (h : IsFolder path)
    (hlookup : query.lookup "path" = (joined path).map QueryValue.text) :
    playlistPathFromRoute query = path := by
  rw [playlistPathFromRoute, hlookup, one_map (joined_ne h)]
  exact segmentsAt_joined h

theorem playlistPathFromRoute_playlistsRoute {path : List String} (h : IsFolder path) :
    playlistPathFromRoute (playlistsRoute path).query = path :=
  playlistPath_of_lookup h (by simp [playlistsRoute])

/-- What the address of an open playlist is read back as: the column only with a search. -/
theorem playlist_read {url : String} {path : List String} (hurl : url ≠ "") (hpath : IsFolder path)
    (search : String) (field : QueryField) :
    let query := (playlistTracksRoute url path search field).query
    openPlaylistFromRoute query = some url ∧ playlistPathFromRoute query = path ∧
      playlistQueryFromRoute query = trim search ∧
      playlistQueryFieldFromRoute query = if trim search = "" then .any else field := by
  intro query
  refine ⟨?_, playlistPath_of_lookup hpath (by simp [query, playlistTracksRoute]), ?_, ?_⟩
  · have hne : some url ≠ some "" := by simpa using hurl
    have hopen : query.lookup "playlist" = (some url).map QueryValue.text := by
      simp [query, playlistTracksRoute]
    rw [openPlaylistFromRoute, hopen, one_map hne]
  · have hq : query.lookup "q" = (searchValue search).map QueryValue.text := by
      simp [query, playlistTracksRoute]
    rw [playlistQueryFromRoute, hq, one_map (searchValue_ne _), getD_searchValue]
  · have hqf : query.lookup "qf" = (if (searchValue search).isSome ∧ field ≠ .any
        then some field.text else none : Option String).map QueryValue.text := by
      simp [query, playlistTracksRoute]
    rw [playlistQueryFieldFromRoute, hqf]
    by_cases hsearch : trim search = ""
    · simp [searchValue, hsearch, one]
    · cases field <;> simp [searchValue, hsearch, one, QueryField.text]

/-! ## Media -/

@[simp] theorem sourceOf_map (source : Option MediaSource) :
    sourceOf (source.map sourceText) = source := by
  cases source with
  | none => rfl
  | some source => cases source <;> rfl

theorem source_ne (source : Option MediaSource) : source.map sourceText ≠ some "" := by
  cases source with
  | none => simp
  | some source => cases source <;> decide

theorem read_source (p : MediaPlace) :
    sourceOf (one ((mediaRoute p).query.lookup "source")) = p.source := by
  have hsource : (mediaRoute p).query.lookup "source" =
      (p.source.map sourceText).map QueryValue.text := by
    simp [mediaRoute]
  rw [hsource, one_map (source_ne _), sourceOf_map]

theorem media_book (source : Option MediaSource) {album : String} (h : album ≠ "")
    (artist : Option String) :
    mediaFromRoute (mediaRoute { source, album := some album, artist }).query =
      { source, album := some album, artist } := by
  have halbum : one ((mediaRoute { source, album := some album, artist }).query.lookup "album") =
      some album := by
    simp [mediaRoute, one, h]
  unfold mediaFromRoute
  rw [halbum, read_source]
  simp [mediaRoute]

/-- A place with no book, or with one of no name. -/
theorem media_files (source : Option MediaSource) {album : Option String}
    (h : album = none ∨ album = some "") (artist : Option String) (all : Bool) :
    mediaFromRoute (mediaRoute { source, album, artist, all }).query =
      { source, all := album.isNone && all } := by
  have halbum : one ((mediaRoute { source, album, artist, all }).query.lookup "album") = none := by
    rcases h with rfl | rfl <;> simp [mediaRoute, one]
  have hall : one ((mediaRoute { source, album, artist, all }).query.lookup "all") =
      flagValue "1" (album.isNone && all) := by
    simp [mediaRoute, one_map (flagValue_ne _ _)]
  unfold mediaFromRoute
  rw [halbum, read_source, hall, flagValue_eq_some]

/-! ## Folders -/

theorem isUnder_iff {segments path : List String} :
    isUnder segments path = true ↔ path <+: segments := by
  rw [List.prefix_iff_getElem?]
  simp only [isUnder, List.all_eq_true, decide_eq_true_eq]
  constructor
  · intro h i hi
    exact h (path[i], i) (List.mk_mem_zipIdx_iff_getElem?.mpr (List.getElem?_eq_getElem hi))
  · rintro h ⟨seg, i⟩ hmem
    obtain ⟨hi, rfl⟩ := List.getElem?_eq_some_iff.mp (List.mk_mem_zipIdx_iff_getElem?.mp hmem)
    exact h i hi

theorem below_iff {segments path rest : List String} (hrest : rest ≠ []) :
    below segments path = rest ↔ segments = path ++ rest := by
  unfold below
  constructor
  · intro h
    split at h
    · rename_i hunder
      obtain ⟨tail, rfl⟩ := isUnder_iff.mp hunder
      rw [List.drop_left] at h
      rw [h]
    · exact absurd h.symm hrest
  · rintro rfl
    rw [if_pos (isUnder_iff.mpr (List.prefix_append ..)), List.drop_left]

namespace PlaylistFolder

variable {path : List String} {folder : PlaylistFolder} {entry e : PlaylistEntry} {f : String}

/-- An entry is shown right in the folder that its path leads to. -/
theorem mem_playlists_add : e ∈ (folder.add path entry).playlists ↔ e ∈ folder.playlists ∨
    e = entry ∧ ∃ last, playlistSegments entry.name = path ++ [last] := by
  have hlast : (∃ last, playlistSegments entry.name = path ++ [last]) ↔
      ∃ last, below (playlistSegments entry.name) path = [last] :=
    exists_congr fun last => (below_iff (List.cons_ne_nil _ _)).symm
  rw [hlast]
  unfold add
  split
  case h_1 h => simp [h]
  case h_2 last h => simp [h]
  case h_3 child b t h => split <;> simp [h]

/-- Deeper than the folder, an entry names a folder inside it. -/
theorem mem_folders_add : f ∈ (folder.add path entry).folders ↔ f ∈ folder.folders ∨
    ∃ rest, rest ≠ [] ∧ playlistSegments entry.name = path ++ f :: rest := by
  have hrest : (∃ rest, rest ≠ [] ∧ playlistSegments entry.name = path ++ f :: rest) ↔
      ∃ rest, rest ≠ [] ∧ below (playlistSegments entry.name) path = f :: rest :=
    exists_congr fun rest => and_congr_right fun _ => (below_iff (List.cons_ne_nil _ _)).symm
  rw [hrest]
  unfold add
  split
  case h_1 h => simp [h]
  case h_2 last h => simp [h]
  case h_3 child b t h =>
    have hchild : (∃ rest, rest ≠ [] ∧ child :: b :: t = f :: rest) ↔ f = child := by
      constructor
      · rintro ⟨rest, -, heq⟩
        exact (List.cons.inj heq).1.symm
      · rintro rfl
        exact ⟨b :: t, List.cons_ne_nil _ _, rfl⟩
    rw [h, hchild]
    split
    · rename_i hmem
      exact ⟨.inl, fun hf => hf.elim id fun heq => heq ▸ hmem⟩
    · simp

theorem mem_playlists_foldl (entries : List PlaylistEntry) :
    e ∈ (entries.foldl (add path) folder).playlists ↔ e ∈ folder.playlists ∨
      e ∈ entries ∧ ∃ last, playlistSegments e.name = path ++ [last] := by
  induction entries generalizing folder with
  | nil => simp
  | cons entry entries ih =>
    rw [List.foldl_cons, ih, mem_playlists_add, or_assoc, List.mem_cons, or_and_right]
    exact or_congr_right (or_congr_left (and_congr_right fun h => by rw [h]))

theorem mem_folders_foldl (entries : List PlaylistEntry) :
    f ∈ (entries.foldl (add path) folder).folders ↔ f ∈ folder.folders ∨
      ∃ entry ∈ entries, ∃ rest, rest ≠ [] ∧ playlistSegments entry.name = path ++ f :: rest := by
  induction entries generalizing folder with
  | nil => simp
  | cons entry entries ih =>
    rw [List.foldl_cons, ih, mem_folders_add, or_assoc]
    simp only [List.mem_cons, exists_eq_or_imp]

end PlaylistFolder

/-- The folders a reader gets to from the root. -/
inductive Reachable (entries : List PlaylistEntry) : List String → Prop where
  | root : Reachable entries []
  | folder {path : List String} {f : String} (h : Reachable entries path)
      (hf : f ∈ (browsePlaylists entries path).folders) : Reachable entries (path ++ [f])

/-- The folders an entry stands in are shown, from the root on. -/
theorem reachable_of_segments {entries : List PlaylistEntry} {entry : PlaylistEntry}
    (hentry : entry ∈ entries) {path rest : List String} (hrest : rest ≠ [])
    (h : playlistSegments entry.name = path ++ rest) : Reachable entries path := by
  induction path using List.reverseRecOn generalizing rest with
  | nil => exact .root
  | append_singleton path f ih =>
    rw [List.append_assoc, List.singleton_append] at h
    refine .folder (ih (List.cons_ne_nil _ _) h) ?_
    exact (PlaylistFolder.mem_folders_foldl entries).mpr (.inr ⟨entry, hentry, rest, hrest, h⟩)

/-! ## Places -/

/-- Places come back from their addresses, and folders hold what their addresses say. -/
structure PlacesSurvive : Prop where
  library : ∀ v : LibraryView, trim v.options.query = v.options.query → v.Offered →
    positionFromRoute (libraryRoute v).level (libraryRoute v).query = v
  folders : ∀ path, IsFolder path → playlistPathFromRoute (playlistsRoute path).query = path
  /-- A search comes back without the blanks around it, and a column with a search. -/
  playlists : ∀ url path search field, url ≠ "" → IsFolder path →
    let query := (playlistTracksRoute url path search field).query
    openPlaylistFromRoute query = some url ∧ playlistPathFromRoute query = path ∧
      playlistQueryFromRoute query = trim search ∧
      playlistQueryFieldFromRoute query = if trim search = "" then .any else field
  books : ∀ source album artist, album ≠ "" →
    mediaFromRoute (mediaRoute { source, album := some album, artist }).query =
      { source, album := some album, artist }
  files : ∀ source all, mediaFromRoute (mediaRoute { source, all }).query = { source, all }
  /-- A book of no name is the category it is in. -/
  unnamed : ∀ source artist,
    mediaFromRoute (mediaRoute { source, album := some "", artist }).query = { source }
  listed : ∀ entries path entry, IsFolder path →
    (entry ∈ (browsePlaylists entries
        (playlistPathFromRoute (playlistsRoute path).query)).playlists ↔
      entry ∈ entries ∧ ∃ last, playlistSegments entry.name = path ++ [last])
  reached : ∀ entries, ∀ entry ∈ entries, playlistSegments entry.name ≠ [] →
    ∃ path, Reachable entries path ∧ entry ∈ (browsePlaylists entries path).playlists

/-- **Places survive their addresses.** -/
theorem places_survive : PlacesSurvive where
  library := positionFromRoute_libraryRoute
  folders := fun _ => playlistPathFromRoute_playlistsRoute
  playlists := fun _ _ search field hurl hpath => playlist_read hurl hpath search field
  books := fun source _ artist h => media_book source h artist
  files := fun source all => media_files source (.inl rfl) none all
  unnamed := fun source artist => media_files source (.inr rfl) artist false
  listed := by
    intro entries path entry hpath
    rw [playlistPathFromRoute_playlistsRoute hpath, browsePlaylists,
      PlaylistFolder.mem_playlists_foldl]
    simp
  reached := by
    intro entries entry hentry hne
    obtain ⟨path, last, h⟩ : ∃ path last, playlistSegments entry.name = path ++ [last] :=
      ⟨_, _, (List.dropLast_append_getLast hne).symm⟩
    refine ⟨path, reachable_of_segments hentry (List.cons_ne_nil _ _) h, ?_⟩
    exact (PlaylistFolder.mem_playlists_foldl entries).mpr (.inr ⟨hentry, last, h⟩)

def unnamedEntry : PlaylistEntry := { url := "a.mbp", name := "/", editable := true }

/-- A blank search, a book of no name and a playlist of no name do not come back. -/
theorem places_lost :
    playlistQueryFromRoute (playlistTracksRoute "a.mbp" ["tracks"] " " .title).query ≠ " " ∧
      playlistQueryFieldFromRoute (playlistTracksRoute "a.mbp" ["tracks"] " " .title).query ≠
        .title ∧
      mediaFromRoute (mediaRoute { source := some .audiobooks, album := some "" }).query ≠
        { source := some .audiobooks, album := some "" } ∧
      ∀ path, unnamedEntry ∉ (browsePlaylists [unnamedEntry] path).playlists := by
  refine ⟨by decide, by decide, by decide, fun path h => ?_⟩
  have hnil : playlistSegments unnamedEntry.name = [] := by decide
  rcases (PlaylistFolder.mem_playlists_foldl [unnamedEntry]).mp h with h | ⟨-, last, hlast⟩
  · cases h
  · rw [hnil] at hlast
    exact absurd hlast.symm (by simp)

end Mbrc.WebApp.Locations
