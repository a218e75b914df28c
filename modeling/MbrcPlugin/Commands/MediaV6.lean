import MbrcPlugin.Commands.LibraryV6
import MbrcPlugin.Commands.TrackV6

/-!
# The V6 media lists

`media_tracks` lists the files of a category outside the music library, narrowed and sorted by the
helpers of the music library.  A file is held as the host read it, which its row is built from, and
typed, which filters and sorts read.
-/

namespace Mbrc.MediaV6

open Text Cache Providers CommandsV6 LibraryV6 TrackV6

inductive MediaSource where
  | audiobooks | videos | inbox
  deriving DecidableEq

/-- `MediaSource::parse`. -/
def parseSource : String → Option MediaSource
  | "audiobooks" => some .audiobooks
  | "videos" => some .videos
  | "inbox" => some .inbox
  | _ => none

def source (data : Value) : Except V6Error MediaSource := do
  let name ← reqStr data "source"
  match parseSource name with
  | some source => return source
  | none => throw (invalid "source" ("unknown media source: " ++ name))

/-- A file of `MediaTags`; where the conversion panics there is none. -/
structure File where
  raw : TrackTags
  typed : CachedTags
  typed_eq : raw.toCached = some typed

section

variable (lower : String → String)

/-- `select`: the filter a request names. -/
def mediaFilter (data : Value) : Except V6Error TrackFilter := do
  let query ← needle lower data
  let artist ← optStr data "artist"
  let album ← optStr data "album"
  return { query, artist, album }

def selected (filter : TrackFilter) (files : List File) : List File :=
  files.filter fun file => filter.admits lower (some file.typed) ""

/-- `album_key_artist`. -/
def albumKeyArtist (tags : CachedTags) : String :=
  if tags.albumArtist = "" then tags.artist else tags.albumArtist

/-- `reading_order`: album artist, album, disc and track. -/
def readingOrder : Compare :=
  compareLex (byName lower albumKeyArtist)
    (compareLex (byName lower CachedTags.album) (thenTrack lower fun _ _ => .eq))

/-- The files in the order asked for. -/
def mediaRows (files : List File) (sort : Option SortField) (descending : Bool) : List File :=
  let sorted := match sort with
    | some field => Comparator.sortBy (Comparator.via File.typed (field.compare lower)) files
    | none => Comparator.sortBy (Comparator.via File.typed (readingOrder lower)) files
  if descending then sorted.reverse else sorted

/-- The list a request pages through. -/
def mediaList (media : MediaSource → Except String (List File)) (source : MediaSource)
    (data : Value) : Except V6Error (List File) := do
  let sort ← sortField data
  let descending ← descending data
  let files ← fromHost (media source)
  let filter ← mediaFilter lower data
  return mediaRows lower (selected lower filter files) sort descending

/-- `media_tracks`: how many files there are, and those of the page. -/
def mediaTracks (media : MediaSource → Except String (List File)) (data : Value) :
    Except V6Error (Nat × List File) := do
  let source ← source data
  let (offset, limit) ← pageArgs data
  let rows ← mediaList lower media source data
  return (rows.length, slice rows offset limit)

/-- What `media_tracks` answers is a page of the list, and how long that is. -/
theorem mediaTracks_page {media : MediaSource → Except String (List File)} {data : Value}
    {total : Nat} {page : List File} (h : mediaTracks lower media data = .ok (total, page)) :
    ∃ source rows offset limit, mediaList lower media source data = .ok rows ∧
      total = rows.length ∧ page = slice rows offset limit := by
  unfold mediaTracks at h
  obtain ⟨source, -, h⟩ := Interaction.bind_eq_ok.mp h
  obtain ⟨⟨offset, limit⟩, -, h⟩ := Interaction.bind_eq_ok.mp h
  obtain ⟨rows, hrows, h⟩ := Interaction.bind_eq_ok.mp h
  obtain ⟨rfl, rfl⟩ := Prod.mk.inj (Except.ok.inj h)
  exact ⟨source, rows, offset, limit, hrows, rfl, rfl⟩

/-! ## The rows of an album -/

/-- The rows of `library_tracks`: the host passes over a path that is empty. -/
def rowsOf (details : String → File) (paths : List String) : List File :=
  (paths.filter (· ≠ "")).map details

end

end Mbrc.MediaV6
