import MbrcPlugin.Library.MetadataCache
import MbrcPlugin.Library.MultiValue
import Mathlib.Data.List.Infix
import Mathlib.Data.Prod.Lex

/-!
# Credits and the track filter

Who is credited on a track, which tracks a scope admits, and the lists the V6 library is browsed by,
counted from the tag rows once every track has its row.  Lower-casing is Unicode's and stays a
parameter.
-/

namespace Mbrc

open Text

/-! ## Credits -/

namespace Credits

/-- What a credited name did on the track. -/
inductive Role where
  | artist | guest | performer | remixer
  deriving DecidableEq

namespace Role

def fromPrefix (c : Char) : Option Role :=
  if c = '\x01' then some guest
  else if c = '\x02' then some performer
  else if c = '\x04' then some remixer
  else none

/-- The display artist names this role. -/
def isLead (role : Role) : Bool := role = artist || role = guest

end Role

end Credits

/-- One credited name; a performer has an instrument or part. -/
structure Credit where
  name : String
  role : Credits.Role
  detail : Option String := none
  deriving DecidableEq

namespace Credits

/-- The parts before and after the last place a text stands at. -/
def rsplitOnce (sep : List Char) : List Char → Option (List Char × List Char)
  | [] => none
  | c :: rest =>
    match rsplitOnce sep rest with
    | some (before, after) => some (c :: before, after)
    | none => if sep.isPrefixOf (c :: rest) then some ([], (c :: rest).drop sep.length) else none

/-- Without byte order marks and the space around it. -/
def clean (s : List Char) : String := trim (String.ofList (s.filter (· ≠ '\uFEFF')))

/-- `split_detail`: `Name (instrument)` as its two parts. -/
def splitDetail (entry : String) : String × Option String :=
  match entry.toList.reverse with
  | ')' :: before =>
    match rsplitOnce [' ', '('] before.reverse with
    | some (name, detail) =>
      if trim (String.ofList name) = "" then (entry, none)
      else (trim (String.ofList name), some (trim (String.ofList detail)))
    | none => (entry, none)
  | _ => (entry, none)

/-- The role an entry is led by, and the rest of it. -/
def entryRole : List Char → Option (Role × List Char)
  | [] => none
  | c :: rest =>
    if isControl c then (Role.fromPrefix c).map fun role => (role, rest)
    else some (.artist, c :: rest)

def parseEntry (entry : List Char) : Option Credit :=
  (entryRole entry).bind fun (role, rest) =>
    let rest := clean rest
    if rest = "" then none
    else
      let (name, detail) := if role = .performer then splitDetail rest else (rest, none)
      some { name, role, detail }

/-- `parse`. -/
def parse (raw : String) : List Credit := (raw.toList.splitOn '\x00').filterMap parseEntry

/-- More than one artist, or a guest. -/
def isSplit (credits : List Credit) : Bool :=
  credits.countP (·.role.isLead) > 1 || credits.any (·.role = .guest)

/-- `or_display`: the artist is the display string unless the track is split. -/
def orDisplay (raw display : String) : List Credit :=
  let credits := parse raw
  if trim display = "" || isSplit credits then credits
  else { name := trim display, role := .artist } :: credits.filter (·.role ≠ .artist)

def leadNames (credits : List Credit) : List String :=
  (credits.filter (·.role.isLead)).map (·.name)

example : leadNames (parse "A\x00\x01B\x00\x02C (drums)\x00\x04D\x00") = ["A", "B"] := by
  decide +kernel

end Credits

namespace Cache

/-- `credited_names`. -/
def CachedTags.creditedNames (t : CachedTags) : List String :=
  Credits.leadNames (Credits.orDisplay t.multiArtist t.artist)

/-! ## The filter -/

section

variable (lower : String → String)

/-- Without regard to Unicode case. -/
def contains (haystack needle : String) : Bool :=
  decide ((lower needle).toList <:+: (lower haystack).toList)

/-- `filed_under`: the empty name is that of the tracks without an artist. -/
def filedUnder (track : CachedTags) (artist : String) : Bool :=
  if artist = "" then track.artist = "" && track.albumArtist = ""
  else
    MultiValue.sameName track.artist artist || MultiValue.sameName track.albumArtist artist ||
      (contains lower track.multiArtist artist &&
        track.creditedNames.any (MultiValue.sameName · artist))

def fileName (path : String) : String :=
  ((path.toList.splitOnP fun c => c = '/' || c = '\\').getLast?.map String.ofList).getD path

def startsWith (s start : String) : Bool := start.toList.isPrefixOf s.toList

/-- `relevance`: how well a name answers a search, lower being better. -/
def relevance (name needle : String) : Nat :=
  let name := lower name
  if name = needle then 0
  else if startsWith name needle then 1
  else if startsWith (collate lower name) needle then 2
  else if (name.toList.splitOnP isWhiteSpace).any fun word =>
      word ≠ [] && needle.toList.isPrefixOf word then 3
  else 4

/-- What narrows a set of tracks: a search and a scope. -/
structure TrackFilter where
  query : Option String := none
  artist : Option String := none
  album : Option String := none
  genre : Option String := none
  deriving DecidableEq

namespace TrackFilter

variable (filter : TrackFilter)

/-- `relevance_of`. -/
def relevanceOf (track : Option CachedTags) (path : String) : Nat :=
  match filter.query with
  | none => 0
  | some needle =>
    match track with
    | some t => min (relevance lower t.title needle) (relevance lower t.artist needle)
    | none => relevance lower (fileName path) needle

/-- `admits`. -/
def admits (track : Option CachedTags) (path : String) : Bool :=
  match track with
  | none =>
    filter.artist.isNone && filter.album.isNone && filter.genre.isNone &&
      filter.query.any fun q => contains lower (fileName path) q
  | some track =>
    filter.artist.all (filedUnder lower track ·) &&
      filter.album.all (MultiValue.sameName track.album ·) &&
      filter.genre.all (MultiValue.holds track.genre ·) &&
      filter.query.all fun q => contains lower track.title q || contains lower track.artist q

end TrackFilter

/-- Rows without tags go last. -/
def tagged (cmp : Compare) : Option CachedTags → Option CachedTags → Ordering
  | some a, some b => cmp a b
  | some _, none => .lt
  | none, some _ => .gt
  | none, none => .eq

/-- A track a filter admits: its rank, its tags and its path. -/
abbrev Match := Nat × Option CachedTags × String

namespace MetadataCache

variable (c : MetadataCache)

/-- The indexed tracks a filter admits, in browse order. -/
def matched (filter : TrackFilter) : List Match :=
  (c.trackPaths.filter fun path => filter.admits lower (c.tags.get? path) path).map fun path =>
    (filter.relevanceOf lower (c.tags.get? path) path, c.tags.get? path, path)

/-- `track_paths_where`. -/
def trackPathsWhere (filter : TrackFilter) (sort : Option SortField) (descending : Bool) :
    List String :=
  let ranked := Comparator.sortBy (compareOn fun m : Match => m.1) (c.matched lower filter)
  let sorted := match sort with
    | some field =>
      let order : Match → Match → Ordering := fun a b =>
        tagged (field.order lower descending) a.2.1 b.2.1
      Comparator.sortBy order ranked
    | none => ranked
  sorted.map (·.2.2)

end MetadataCache

end

/-! ## The browse lists -/

/-- The part of a tag row the browse lists are counted from. -/
structure BrowseRow where
  genre : String
  artist : String
  credited : List String
  album : String
  /-- The album artist, else the artist. -/
  albumOwner : String
  deriving DecidableEq

def BrowseRow.ofTags (t : CachedTags) : BrowseRow :=
  { genre := t.genre, artist := t.artist, credited := t.creditedNames, album := t.album
    albumOwner := if t.albumArtist = "" then t.artist else t.albumArtist }

@[simp] theorem BrowseRow.genre_ofTags (t : CachedTags) : (BrowseRow.ofTags t).genre = t.genre :=
  rfl

@[simp] theorem BrowseRow.credited_ofTags (t : CachedTags) :
    (BrowseRow.ofTags t).credited = t.creditedNames := by
  rw [BrowseRow.ofTags]

/-- `genre_counts`. -/
def genreCounts (rows : List BrowseRow) : List (String × Nat) :=
  MultiValue.counts (rows.map (·.genre))

/-- The rows filed under a genre. -/
def ofGenre (genre : Option String) (rows : List BrowseRow) : List BrowseRow :=
  rows.filter fun r => genre.all (MultiValue.holds r.genre ·)

def BrowseRow.joined (row : BrowseRow) : String := String.intercalate "\x00" row.credited

/-- `credited_artists`. -/
def creditedArtists (rows : List BrowseRow) (genre : Option String) : List (String × Nat) :=
  MultiValue.counts ((ofGenre genre rows).map (·.joined))

/-- `credited_albums`: the owner and the name of each, with the tracks that credit the artist. -/
def creditedAlbums (rows : List BrowseRow) (artist : String) : List (String × String × Nat) :=
  let credits := rows.filter fun r =>
    r.credited.any (MultiValue.sameName · artist) || MultiValue.sameName r.albumOwner artist
  let counts := credits.foldl
    (fun counts r =>
      let key := toLex (r.albumOwner, r.album)
      counts.insert key ((counts.get? key).getD 0 + 1))
    (.empty : Table (String ×ₗ String) Nat)
  counts.rows.map fun row => ((ofLex row.1).1, (ofLex row.1).2, row.2)

namespace MetadataCache

variable (c : MetadataCache)

/-- `tags_complete`. -/
def tagsComplete : Bool := c.validated && c.trackCount > 0 && c.untaggedPaths 1 = []

/-- `genre_rows`, read from the tables. -/
def genreRows : Option (List BrowseRow) :=
  if c.tagsComplete then some (c.allCachedTags.map BrowseRow.ofTags) else none

theorem tagsComplete_iff :
    c.tagsComplete = true ↔ c.validated = true ∧ c.index ≠ [] ∧
      ∀ path ∈ c.index, ∃ t, c.tags.get? path = some t := by
  cases hv : c.validated with
  | false => simp [tagsComplete, hv]
  | true =>
    simp only [tagsComplete, trackCount, untaggedPaths, trackPaths, hv, if_true, Bool.true_and,
      Bool.and_eq_true, decide_eq_true_eq, List.length_pos_iff, List.take_eq_nil_iff,
      List.filter_eq_nil_iff, Option.isNone_iff_eq_none, one_ne_zero, false_or, true_and]
    simp only [← ne_eq, Option.ne_none_iff_exists']

end MetadataCache

end Cache

end Mbrc
