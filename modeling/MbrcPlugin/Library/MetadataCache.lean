import MbrcPlugin.Lib.Comparator
import MbrcPlugin.Lib.OrderedTable
import MbrcPlugin.Lib.Text
import Mathlib.Algebra.Order.Ring.Rat
import Mathlib.Order.WithBot

/-!
# The metadata cache

The tables of the cache that the track lists are served from: the index of the library, the tag
rows, and what is derived from the rows, the sort orders and the album years.  A row is dropped
when its track is edited and filled in again later; the derived tables are rebuilt by the scanner.
Lower-casing is Unicode's and stays a parameter.
-/

namespace Mbrc.Cache

open Text

/-! ## Rows and orders -/

/-- A rating as floats are ordered, nothing when it is not a number. -/
abbrev Rating := Option (WithBot (WithTop ℚ))

/-- A tag row. -/
structure CachedTags where
  src : String
  artist : String := ""
  title : String := ""
  album : String := ""
  albumArtist : String := ""
  trackNo : Int := 0
  discNo : Int := 0
  genre : String := ""
  multiArtist : String := ""
  multiComposer : String := ""
  /-- Zero when the tag carried no year. -/
  year : Int := 0
  originalYear : Int := 0
  rating : Rating := some ((0 : ℚ) : WithTop ℚ)
  dateAdded : String := ""
  durationMs : Int := 0
  deriving DecidableEq

/-- The original year, else the year. -/
def CachedTags.releaseYear (tags : CachedTags) : Int :=
  if tags.originalYear > 0 then tags.originalYear else tags.year

/-- An order a track list can be read in. -/
inductive SortField where
  | title | artist | album | albumArtist | track | year | originalYear | rating | dateAdded
  deriving DecidableEq

abbrev Compare := CachedTags → CachedTags → Ordering

section Orders

variable (lower : String → String)

/-- A name as a reader files it: in lower case, with a leading article dropped. -/
def collate (name : String) : String :=
  let lowered := lower (trim name)
  match ["the ", "a ", "an "].find? fun article => article.toList.isPrefixOf lowered.toList with
  | some article => String.ofList (trimStart (lowered.toList.drop article.length))
  | none => lowered

def byName (name : CachedTags → String) : Compare := compareOn fun tags => collate lower (name tags)

/-- Falls back to the reading order of an album. -/
def thenTrack (ord : Compare) : Compare :=
  compareLex ord
    (compareLex (compareLex (compareOn CachedTags.discNo) (compareOn CachedTags.trackNo))
      (byName lower CachedTags.title))

/-- `partial_cmp`, equal where there is no order. -/
def compareRating : Compare := fun a b =>
  match a.rating, b.rating with
  | some x, some y => compare x y
  | _, _ => .eq

namespace SortField

def all : List SortField :=
  [title, artist, album, albumArtist, track, year, originalYear, rating, dateAdded]

/-- `SortField::compare`. -/
def compare : SortField → Compare
  | title => byName lower CachedTags.title
  | artist => thenTrack lower (byName lower CachedTags.artist)
  | album => thenTrack lower (byName lower CachedTags.album)
  | albumArtist => thenTrack lower (byName lower CachedTags.albumArtist)
  | track => thenTrack lower fun _ _ => .eq
  | year => thenTrack lower (compareOn CachedTags.year)
  | originalYear =>
    thenTrack lower (compareLex (compareOn CachedTags.releaseYear) (compareOn CachedTags.year))
  | rating => thenTrack lower compareRating
  | dateAdded => thenTrack lower (compareOn CachedTags.dateAdded)

def hasUndatedTail (field : SortField) : Bool := field = originalYear

def undated (field : SortField) (tags : CachedTags) : Bool :=
  field.hasUndatedTail && tags.releaseYear = 0

end SortField

/-- `SortField::order`: in the asked direction, with undated rows last either way. -/
def SortField.order (field : SortField) (descending : Bool) : Compare :=
  Comparator.directed field.undated (field.compare lower) descending

end Orders

/-- What an order is stored under; one order is stored in both directions. -/
inductive SortKey where
  | ascending (field : SortField)
  | originalYearDesc
  deriving DecidableEq

namespace SortKey

def field : SortKey → SortField
  | ascending field => field
  | originalYearDesc => .originalYear

def descending : SortKey → Bool
  | ascending _ => false
  | originalYearDesc => true

end SortKey

/-- `SortField::descending_key`. -/
def SortField.descendingKey (field : SortField) : Option SortKey :=
  if field.hasUndatedTail then some .originalYearDesc else none

/-- The years of an album; zero is undated. -/
structure AlbumYears where
  year : Int := 0
  originalYear : Int := 0
  deriving DecidableEq

def earliest (kept seen : Int) : Int := if seen > 0 ∧ (kept = 0 ∨ seen < kept) then seen else kept

/-- Takes the years of one track in. -/
def AlbumYears.absorb (years : AlbumYears) (year originalYear : Int) : AlbumYears :=
  { year := earliest years.year year, originalYear := earliest years.originalYear originalYear }

/-- `album_key`. -/
def albumKey (lower : String → String) (albumArtist artist album : String) : String :=
  lower (if albumArtist = "" then artist else albumArtist) ++ " " ++ lower album

/-! ## The tables -/

structure MetadataCache where
  validated : Bool
  /-- `TRACK_PATHS`, in browse order. -/
  index : List String
  /-- `TRACK_TAGS`. -/
  tags : Table String CachedTags
  /-- `TRACK_SORT`: the paths stored under a key, in position order. -/
  sort : SortKey → List String
  /-- The entry `album_years` of `METADATA_CACHE`. -/
  years : Option (Table String AlbumYears)
  /-- `ALBUM_STAMPS`. -/
  stamps : Table String Int
  schema : Option Nat
  fingerprint : Option Nat
  syncedAt : Int
  /-- The rows the orders and years were built from: no step of the code reads them. -/
  builtFrom : Option (Table String CachedTags)

def tagsSchemaVersion : Nat := 5

namespace MetadataCache

/-- A new store. -/
def initial : MetadataCache :=
  { validated := false, index := [], tags := .empty, sort := fun _ => [], years := none
    stamps := .empty, schema := none, fingerprint := none, syncedAt := 0, builtFrom := none }

variable (c : MetadataCache)

/-! ## What the cache shows -/

def trackCount : Nat := if c.validated then c.index.length else 0

/-- `track_page_paths` of the whole index. -/
def trackPaths : List String := if c.validated then c.index else []

def allCachedTags : List CachedTags := if c.validated then c.tags.rows.map (·.2) else []

/-- The rows of one stored order. -/
def storedOrder (key : SortKey) : List String := if c.validated then c.sort key else []

/-- `sorted_track_count`. -/
def sortedTrackCount (field : SortField) : Nat :=
  let ascending := (c.storedOrder (.ascending field)).length
  match field.descendingKey with
  | some key => min ascending (c.storedOrder key).length
  | none => ascending

/-- `album_years`. -/
def albumYears : Table String AlbumYears :=
  if c.validated then c.years.getD .empty else .empty

/-- `untagged_paths`. -/
def untaggedPaths (limit : Nat) : List String :=
  (c.trackPaths.filter fun path => (c.tags.get? path).isNone).take limit

/-! ## Writes -/

/-- `clear`. -/
def clear : MetadataCache :=
  { c with
    index := [], tags := .empty, sort := fun _ => [], years := none, stamps := .empty
    builtFrom := none }

/-- `invalidate`. -/
def invalidate : MetadataCache := { c.clear with validated := false }

/-- `replace_track_index`: the rows of paths no longer listed go. -/
def replaceTrackIndex (paths : List String) : MetadataCache :=
  if c.validated then
    let gone := (c.tags.rows.map (·.1)).filter (· ∉ paths)
    { c with index := paths, tags := c.tags.eraseAll gone }
  else c

/-- `put_track_tags`. -/
def putTrackTags (tracks : List CachedTags) : MetadataCache :=
  if c.validated then
    { c with tags := tracks.foldl (fun table track => table.insert track.src track) c.tags }
  else c

/-- `drop_track_tags`. -/
def dropTrackTags (paths : List String) : MetadataCache :=
  if c.validated then { c with tags := c.tags.eraseAll paths } else c

section Derived

variable (lower : String → String)

/-- `drop_tags_of`: the rows of the albums, and what was built from them. -/
def dropTagsOf (albums : List String) : MetadataCache :=
  let doomed := (c.tags.rows.filter fun row =>
    albumKey lower row.2.albumArtist row.2.artist row.2.album ∈ albums).map (·.1)
  if doomed = [] then c
  else
    { c with
      tags := c.tags.eraseAll doomed, sort := fun _ => [], years := none, builtFrom := none }

/-- `drop_moved_albums`. -/
def dropMovedAlbums (albums : List (String × Int)) : MetadataCache :=
  if c.stamps.rows = [] then c.clear
  else
    let current := fun key => (albums.reverse.find? (·.1 = key)).map (·.2)
    let moved := (c.stamps.rows.filter fun row => current row.1 ≠ some row.2).map (·.1)
    let added := (albums.filter fun album => (c.stamps.get? album.1).isNone).map (·.1)
    let stale := moved ++ added
    if stale = [] then c else c.dropTagsOf lower stale

/-- `store_album_stamps`. -/
def storeAlbumStamps (albums : List (String × Int)) : MetadataCache :=
  { c with stamps := albums.foldl (fun table album => table.insert album.1 album.2) .empty }

/-- `reconcile`. -/
def reconcile (albums : List (String × Int)) (fingerprint : Nat) : MetadataCache :=
  let restaled := c.schema ≠ some tagsSchemaVersion
  let c := if restaled then { c.clear with schema := some tagsSchemaVersion } else c
  let moved := restaled || c.fingerprint ≠ some fingerprint
  let c :=
    if moved then
      let c := if restaled then c else c.dropMovedAlbums lower albums
      { c with fingerprint := some fingerprint }
    else c
  let c := if moved || c.stamps.rows = [] then c.storeAlbumStamps albums else c
  { c with validated := true }

/-- A stored order of the rows. -/
def sorted (rows : List CachedTags) (key : SortKey) : List CachedTags :=
  Comparator.sortBy (key.field.order lower key.descending) rows

/-- `rebuild_sort_orders`. -/
def rebuildSortOrders : MetadataCache :=
  let all := c.allCachedTags
  if all = [] then c else { c with sort := fun key => (sorted lower all key).map (·.src) }

/-- The years of every dated album of the rows. -/
def foldYears (rows : List CachedTags) : Table String AlbumYears :=
  rows.foldl
    (fun years tags =>
      if tags.year ≤ 0 ∧ tags.originalYear ≤ 0 then years
      else
        let key := albumKey lower tags.albumArtist tags.artist tags.album
        years.insert key (((years.get? key).getD {}).absorb tags.year tags.originalYear))
    .empty

/-- `rebuild_album_years`. -/
def rebuildAlbumYears : MetadataCache :=
  if c.validated then { c with years := some (foldYears lower c.allCachedTags) } else c

/-- Some order has another length than the index, or no album has years. -/
def needsRebuild : Bool :=
  (SortField.all.any fun field => c.sortedTrackCount field ≠ c.trackCount) ||
    c.albumYears.rows = []

/-- `rebuild_derived`. -/
def rebuildDerived : MetadataCache :=
  if c.needsRebuild then
    { (c.rebuildSortOrders lower).rebuildAlbumYears lower with
      builtFrom := if c.validated then some c.tags else c.builtFrom }
  else c

end Derived

end MetadataCache

/-! ## The passes -/

/-- `edited_since`: what the host reports updated and removed. -/
def editedSince (c : MetadataCache) (delta : Option (List String × List String)) : MetadataCache :=
  match delta with
  | some (updated, deleted) => c.dropTrackTags (updated ++ deleted)
  | none => c

/-- `build_track_index`. -/
def buildTrackIndex (c : MetadataCache) (paths : Option (List String))
    (delta : Option (List String × List String)) (now : Int) : MetadataCache :=
  match paths with
  | some paths =>
    let c := if c.syncedAt > 0 then editedSince c delta else c
    { c.replaceTrackIndex paths with syncedAt := now }
  | none => c

/-- `relist_library`. -/
def relistLibrary (c : MetadataCache) (edited : List String) (paths : Option (List String))
    (now : Int) : MetadataCache :=
  if c.validated then
    let c := c.dropTrackTags edited
    let c := match paths with
      | some paths => c.replaceTrackIndex paths
      | none => c
    { c with syncedAt := now }
  else c

/-- `file_reported_edits`. -/
def fileReportedEdits (c : MetadataCache) (paths : List String) (now : Int) : MetadataCache :=
  if paths = [] ∨ ¬ c.validated then c else { c.dropTrackTags paths with syncedAt := now }

/-- `BACKFILL_BATCH`. -/
def backfillBatch : Nat := 500

/-- The end of `backfill_tags`: nothing is missing. -/
def completeBackfill (lower : String → String) (c : MetadataCache) : Option MetadataCache :=
  if c.untaggedPaths backfillBatch = [] then some (c.rebuildDerived lower) else none

end Mbrc.Cache
