import MbrcPlugin.Lib.Interrupted
import MbrcPlugin.Library.ChangeLog
import MbrcPlugin.Library.MetadataCache

/-!
# Reconciling the library at a start

`reconcile_metadata` as the calls it makes: host calls, reads of the store and the transactions it
commits, one at a time.  What a reconcile rebuilds is decided by the stored fingerprint and by the
track index; the four flat browse lists are written after the fingerprint and before the index.
Run to its end, the reconcile changes the tables as `MetadataCache.reconcile` and
`buildTrackIndex` say.
-/

namespace Mbrc.Reconcile

open Cache Interaction Interaction.Program

/-! ## What the host answers -/

structure GenreData where
  genre : String := ""
  count : Int := 0
  deriving DecidableEq

structure ArtistData where
  artist : String := ""
  count : Int := 0
  deriving DecidableEq

structure AlbumData where
  album : String := ""
  artist : String := ""
  count : Int := 0
  deriving DecidableEq

structure Page (α : Type) where
  total : Int
  offset : Int
  limit : Int
  data : List α
  deriving DecidableEq

/-- A browse list that is cached whole, each under a key of its own. -/
inductive FlatList where
  | genres
  | artists (albumArtists : Bool)
  | albums
  deriving DecidableEq

abbrev FlatList.Item : FlatList → Type
  | genres => GenreData
  | artists _ => ArtistData
  | albums => AlbumData

structure AlbumIdentifier where
  artist : String := ""
  album : String := ""
  path : String := ""
  modified : Int := 0
  deriving DecidableEq

/-- The host during one run; `none` is a failed call. -/
structure Host where
  list : (f : FlatList) → Option (Page f.Item)
  paths : Option (List Path)
  /-- The files updated and the files deleted since a time. -/
  delta : Int → Option (List Path × List Path)
  /-- The unix seconds. -/
  now : Int
  /-- The name drawn if the change log starts. -/
  newEpoch : Epoch

/-- A state of the library. -/
structure Library where
  albums : List AlbumIdentifier
  list : (f : FlatList) → Page f.Item
  paths : List Path

/-- What a run meets besides the library. -/
structure Visit where
  delta : Int → List Path × List Path
  now : Int
  newEpoch : Epoch

/-- The host with this library, every call succeeding. -/
def Library.host (library : Library) (visit : Visit) : Host :=
  { list := fun f => some (library.list f), paths := some library.paths
    delta := fun since => some (visit.delta since), now := visit.now, newEpoch := visit.newEpoch }

/-! ## The fingerprint -/

/-- `fnv1a_64`. -/
def fnv1a64 (bytes : List UInt8) : UInt64 :=
  bytes.foldl (fun hash b => (hash ^^^ b.toUInt64) * 0x00000100000001b3) 0xcbf29ce484222325

/-- `fingerprint`. -/
def fingerprint (albums : List (String × Int)) : UInt64 :=
  let (acc, count) := albums.foldl
    (fun (acc, count) (key, modified) =>
      (acc + (fnv1a64 key.toUTF8.toList ^^^ UInt64.ofInt modified), count + 1))
    ((0, 0) : UInt64 × UInt64)
  acc ^^^ count * 0x9E3779B97F4A7C15

/-! ## The store -/

def navListsVersion : Nat := 1

structure Store where
  cache : MetadataCache
  /-- The flat browse lists, entries of `METADATA_CACHE`. -/
  lists : (f : FlatList) → Option (Page f.Item)
  navVersion : Option Nat
  log : ChangeLog

namespace Store

/-- A new store. -/
def initial : Store :=
  { cache := .initial, lists := fun _ => none, navVersion := none, log := .empty }

/-- The store as a new process opens it. -/
def reopen (s : Store) : Store := { s with cache := { s.cache with validated := false } }

/-- `tag_record_changed_shape`. -/
def tagRecordChangedShape (s : Store) : Bool := s.cache.schema ≠ some tagsSchemaVersion

def hasAlbumStamps (s : Store) : Bool := s.cache.stamps.rows ≠ []

/-- `browse_lists_cached`: some track is indexed. -/
def browseListsCached (s : Store) : Bool := s.cache.trackCount > 0

end Store

/-- A write transaction. -/
inductive Txn where
  | clear
  | storeTagsSchema
  | dropMovedAlbums (albums : List (String × Int))
  | storeFingerprint (fingerprint : UInt64)
  | storeAlbumStamps (albums : List (String × Int))
  | dropNavLists
  | put (f : FlatList) (page : Page f.Item)
  | dropTrackTags (paths : List Path)
  | replaceTrackIndex (paths : List Path)
  | recordChanges (paths : Option (List Path)) (edited : List Path)
  | setTracksSyncedAt (ts : Int)

section

variable (lower : String → String)

/-- The store after a transaction; those that are no-ops until the cache is validated look at
that themselves. -/
def Store.commit (newEpoch : Epoch) (s : Store) : Txn → Store
  | .clear => { s with cache := s.cache.clear, lists := fun _ => none }
  | .storeTagsSchema => { s with cache := { s.cache with schema := some tagsSchemaVersion } }
  | .dropMovedAlbums albums =>
    { s with
      cache := s.cache.dropMovedAlbums lower albums
      lists := if s.cache.stamps.rows = [] then fun _ => none else s.lists }
  | .storeFingerprint fingerprint =>
    { s with cache := { s.cache with fingerprint := some fingerprint.toNat } }
  | .storeAlbumStamps albums => { s with cache := s.cache.storeAlbumStamps albums }
  | .dropNavLists => { s with navVersion := some navListsVersion }
  | .put f page =>
    if s.cache.validated then { s with lists := Function.update s.lists f (some page) } else s
  | .dropTrackTags paths => { s with cache := s.cache.dropTrackTags paths }
  | .replaceTrackIndex paths => { s with cache := s.cache.replaceTrackIndex paths }
  | .recordChanges paths edited =>
    if s.cache.validated then { s with log := (s.log.record newEpoch paths edited).1 } else s
  | .setTracksSyncedAt ts => { s with cache := { s.cache with syncedAt := ts } }

end

/-! ## What a transaction leaves alone -/

/-- A write of the cache that adds no tag row and leaves the flag and the watermark. -/
structure Trims (c c' : MetadataCache) : Prop where
  tags : ∀ path, c'.tags.get? path ≠ none → c.tags.get? path ≠ none
  validated : c'.validated = c.validated
  syncedAt : c'.syncedAt = c.syncedAt

section Trims

variable {lower : String → String} (c : MetadataCache)

theorem Trims.refl : Trims c c := ⟨fun _ h => h, rfl, rfl⟩

theorem trims_clear : Trims c c.clear := ⟨fun _ h => absurd rfl h, rfl, rfl⟩

theorem get?_of_eraseAll {path : Path} (paths : List Path)
    (h : (c.tags.eraseAll paths).get? path ≠ none) : c.tags.get? path ≠ none := by
  rw [Table.get?_eraseAll] at h
  split at h
  · exact absurd rfl h
  · exact h

theorem trims_dropTrackTags (paths : List Path) : Trims c (c.dropTrackTags paths) := by
  unfold MetadataCache.dropTrackTags
  split
  · exact ⟨fun _ => get?_of_eraseAll c paths, rfl, rfl⟩
  · exact .refl c

theorem trims_replaceTrackIndex (paths : List Path) : Trims c (c.replaceTrackIndex paths) := by
  unfold MetadataCache.replaceTrackIndex
  split
  · exact ⟨fun _ => get?_of_eraseAll c _, rfl, rfl⟩
  · exact .refl c

theorem trims_dropTagsOf (albums : List String) : Trims c (c.dropTagsOf lower albums) := by
  unfold MetadataCache.dropTagsOf
  dsimp only
  split
  · exact .refl c
  · exact ⟨fun _ => get?_of_eraseAll c _, rfl, rfl⟩

theorem trims_dropMovedAlbums (albums : List (String × Int)) :
    Trims c (c.dropMovedAlbums lower albums) := by
  unfold MetadataCache.dropMovedAlbums
  dsimp only
  split
  · exact trims_clear c
  · split
    · exact .refl c
    · exact trims_dropTagsOf c _

end Trims

section Commit

variable {lower : String → String} {epoch : Epoch} {s : Store}

theorem commit_trims (txn : Txn) (h : ∀ ts, txn ≠ .setTracksSyncedAt ts) :
    Trims s.cache (s.commit lower epoch txn).cache := by
  cases txn with
  | setTracksSyncedAt ts => exact absurd rfl (h ts)
  | clear => exact trims_clear _
  | dropMovedAlbums albums => exact trims_dropMovedAlbums _ albums
  | dropTrackTags paths => exact trims_dropTrackTags _ paths
  | replaceTrackIndex paths => exact trims_replaceTrackIndex _ paths
  | put f page =>
    unfold Store.commit
    dsimp only
    split <;> exact .refl _
  | recordChanges paths edited =>
    unfold Store.commit
    dsimp only
    split <;> exact .refl _
  | storeTagsSchema | storeFingerprint _ | storeAlbumStamps _ | dropNavLists =>
    exact ⟨fun _ h => h, rfl, rfl⟩

/-- No transaction but `put` stores a list. -/
theorem commit_lists (txn : Txn) {f : FlatList} (h : ∀ g page, txn ≠ .put g page)
    (hf : (s.commit lower epoch txn).lists f ≠ none) : s.lists f ≠ none := by
  cases txn with
  | clear => exact absurd rfl hf
  | put g page => exact absurd rfl (h g page)
  | dropMovedAlbums albums =>
    simp only [Store.commit] at hf
    split at hf
    · exact absurd rfl hf
    · exact hf
  | recordChanges paths edited =>
    simp only [Store.commit] at hf
    split at hf <;> exact hf
  | _ => exact hf

theorem commit_log (txn : Txn) (h : ∀ paths edited, txn ≠ .recordChanges paths edited) :
    (s.commit lower epoch txn).log = s.log := by
  cases txn with
  | recordChanges paths edited => exact absurd rfl (h paths edited)
  | put f page =>
    unfold Store.commit
    dsimp only
    split <;> rfl
  | _ => rfl

end Commit

/-! ## The calls -/

inductive Call where
  | browse (f : FlatList)
  | trackPaths
  | syncDelta (since : Int)
  | now
  /-- A read of the store. -/
  | look
  | setValidated
  | commit (txn : Txn)

def Ans : Call → Type
  | .browse f => Option (Page f.Item)
  | .trackPaths => Option (List Path)
  | .syncDelta _ => Option (List Path × List Path)
  | .now => Int
  | .look => Store
  | .setValidated | .commit _ => Unit

abbrev Work (α : Type) := Program Ans α

def browse (f : FlatList) : Work (Option (Page f.Item)) := ask (Call.browse f)
def trackPaths : Work (Option (List Path)) := ask Call.trackPaths
def syncDelta (since : Int) : Work (Option (List Path × List Path)) := ask (Call.syncDelta since)
def now : Work Int := ask Call.now
def look : Work Store := ask Call.look
def setValidated : Work Unit := ask Call.setValidated
def commit (txn : Txn) : Work Unit := ask (Call.commit txn)

section

variable (lower : String → String)

/-- What the host and the store answer. -/
def answer (host : Host) (s : Store) : (c : Call) → Ans c × Store
  | .browse f => (host.list f, s)
  | .trackPaths => (host.paths, s)
  | .syncDelta since => (host.delta since, s)
  | .now => (host.now, s)
  | .look => (s, s)
  | .setValidated => ((), { s with cache := { s.cache with validated := true } })
  | .commit txn => ((), s.commit lower host.newEpoch txn)

end

/-! ## The passes -/

/-- The rest of `reconcile`, once the fingerprint is the library's. -/
def reconcileRest (albums : List (String × Int)) (moved : Bool) : Work Bool := do
  when (moved || !(← look).hasAlbumStamps) (commit (.storeAlbumStamps albums))
  when (moved || (← look).navVersion ≠ some navListsVersion) (commit .dropNavLists)
  setValidated
  return moved

/-- `MetadataCache::reconcile`. -/
def reconcile (albums : List (String × Int)) (fingerprint : UInt64) : Work Bool := do
  let restaled := (← look).tagRecordChangedShape
  when restaled do
    commit .clear
    commit .storeTagsSchema
  let moved := restaled || (← look).cache.fingerprint ≠ some fingerprint.toNat
  when moved do
    when (!restaled) (commit (.dropMovedAlbums albums))
    commit (.storeFingerprint fingerprint)
  reconcileRest albums moved

/-- One list of `prewarm_browse_lists`: a failed call leaves it unwarmed. -/
def prewarm (f : FlatList) : Work Unit := do
  match ← browse f with
  | some page => commit (.put f page)
  | none => return ()

def prewarmBrowseLists : Work Unit := do
  prewarm .genres
  prewarm (.artists false)
  prewarm (.artists true)
  prewarm .albums

/-- `edited_since`. -/
def editedSince (since : Int) : Work (List Path) := do
  match ← syncDelta since with
  | some (updated, deleted) =>
    commit (.dropTrackTags (updated ++ deleted))
    return updated ++ deleted
  | none => return []

/-- The rest of `build_track_index`, once the library is listed. -/
def fileListing (paths : List Path) : Work Unit := do
  let since := (← look).cache.syncedAt
  let edited ← (if since > 0 then editedSince since else pure [])
  commit (.replaceTrackIndex paths)
  commit (.recordChanges (some paths) edited)
  commit (.setTracksSyncedAt (← now))

def buildTrackIndex : Work Unit := do
  match ← trackPaths with
  | some paths => fileListing paths
  | none => return ()

section

variable (lower : String → String)

/-- The albums as the stamps and the fingerprint name them. -/
def stampsOf (identifiers : List AlbumIdentifier) : List (String × Int) :=
  identifiers.map fun a => (albumKey lower a.artist a.artist a.album, a.modified)

def reconcileMetadata (identifiers : List AlbumIdentifier) : Work Unit := do
  let albums := stampsOf lower identifiers
  let changed ← reconcile albums (fingerprint albums)
  let needsRebuild := changed || !(← look).browseListsCached
  when needsRebuild prewarmBrowseLists
  buildTrackIndex

end

/-! ## Rules of the calls -/

section

variable {lower : String → String} {host : Host} {I : List Call → Store → Prop}
  {made : List Call} {s : Store}

@[simp] theorem meets_look {Q : Store → List Call → Store → Prop} :
    look.Meets (answer lower host) I Q made s ↔ I made s ∧ Q s (made ++ [.look]) s := Iff.rfl

@[simp] theorem meets_now {Q : Int → List Call → Store → Prop} :
    now.Meets (answer lower host) I Q made s ↔ I made s ∧ Q host.now (made ++ [.now]) s := Iff.rfl

@[simp] theorem meets_browse {f : FlatList} {Q : Option (Page f.Item) → List Call → Store → Prop} :
    (browse f).Meets (answer lower host) I Q made s ↔
      I made s ∧ Q (host.list f) (made ++ [.browse f]) s := Iff.rfl

@[simp] theorem meets_trackPaths {Q : Option (List Path) → List Call → Store → Prop} :
    trackPaths.Meets (answer lower host) I Q made s ↔
      I made s ∧ Q host.paths (made ++ [.trackPaths]) s := Iff.rfl

@[simp] theorem meets_syncDelta {since : Int}
    {Q : Option (List Path × List Path) → List Call → Store → Prop} :
    (syncDelta since).Meets (answer lower host) I Q made s ↔
      I made s ∧ Q (host.delta since) (made ++ [.syncDelta since]) s := Iff.rfl

@[simp] theorem meets_setValidated {Q : Unit → List Call → Store → Prop} :
    setValidated.Meets (answer lower host) I Q made s ↔
      I made s ∧ Q () (made ++ [.setValidated])
        { s with cache := { s.cache with validated := true } } := Iff.rfl

@[simp] theorem meets_commit {txn : Txn} {Q : Unit → List Call → Store → Prop} :
    (commit txn).Meets (answer lower host) I Q made s ↔
      I made s ∧ Q () (made ++ [.commit txn]) (s.commit lower host.newEpoch txn) := Iff.rfl

end

/-! ## The tables after a whole run -/

/-- **The transactions of a reconcile** add up to `MetadataCache.reconcile`. -/
theorem reconcile_meets_cache {lower : String → String} {host : Host} {made : List Call}
    {s : Store} {albums : List (String × Int)} {fingerprint : UInt64} :
    (reconcile albums fingerprint).Meets (answer lower host) (fun _ _ => True)
      (fun _ _ t => t.cache = s.cache.reconcile lower albums fingerprint.toNat) made s := by
  unfold reconcile reconcileRest
  simp only [meets_bind, meets_look, meets_when, meets_commit, meets_setValidated, meets_pure,
    true_and, Store.commit, Store.tagRecordChangedShape, Store.hasAlbumStamps,
    MetadataCache.reconcile]
  by_cases hschema : s.cache.schema = some tagsSchemaVersion
  · by_cases hfp : s.cache.fingerprint = some fingerprint.toNat
    · by_cases hstamps : s.cache.stamps.rows = [] <;>
        by_cases hnav : s.navVersion = some navListsVersion <;>
        simp [hschema, hfp, hstamps, hnav]
    · simp [hschema, hfp]
  · simp [hschema]

/-- **Those of the index build** add up to `Cache.buildTrackIndex`, which files the change log as
well. -/
theorem buildTrackIndex_meets_cache {lower : String → String} {host : Host} {made : List Call}
    {s : Store} :
    buildTrackIndex.Meets (answer lower host) (fun _ _ => True)
      (fun _ _ t => t.cache =
        Cache.buildTrackIndex s.cache host.paths (host.delta s.cache.syncedAt) host.now)
      made s := by
  unfold buildTrackIndex
  rw [meets_bind, meets_trackPaths]
  refine ⟨trivial, ?_⟩
  cases hpaths : host.paths with
  | none => rfl
  | some paths =>
    show (fileListing paths).Meets _ _ _ _ s
    unfold fileListing
    by_cases hsince : s.cache.syncedAt > 0
    · cases hdelta : host.delta s.cache.syncedAt with
      | none =>
        simp only [hsince, if_true, meets_bind, meets_look, meets_commit, meets_now, editedSince,
          meets_syncDelta, hdelta, meets_pure, true_and, Store.commit, Cache.buildTrackIndex,
          Cache.editedSince]
        split <;> rfl
      | some delta =>
        simp only [hsince, if_true, meets_bind, meets_look, meets_commit, meets_now, editedSince,
          meets_syncDelta, hdelta, meets_pure, true_and, Store.commit, Cache.buildTrackIndex,
          Cache.editedSince]
        split <;> rfl
    · simp only [hsince, if_false, meets_bind, meets_look, meets_commit, meets_now, meets_pure,
        true_and, Store.commit, Cache.buildTrackIndex]
      split <;> rfl

end Mbrc.Reconcile
