import MbrcPlugin.Lib.Transition
import MbrcPlugin.Library.Scanner

/-!
# Readers of the cache and the passes

A reader that misses the cache asks the host and then stores what it was told; meanwhile a pass
drops what an edit made stale, or a library switch clears the cache.  Each is a thread that takes
its steps between those of the others: a host call, the look at the `validated` flag, and the
transaction that follows are three steps.

`changes`, `answered`, `through`, `applied` and the threads' `cover` and `since` are there for the
statements: no step of the code reads them.
-/

namespace Mbrc.Readers

open Cache Reconcile

/-! ## What changes on the host -/

inductive Change where
  | rated (path : Path)
  | tagged (path : Path)
  | added (path : Path)
  | removed (path : Path)
  | switched
  deriving DecidableEq

/-- An entry of the cache. -/
inductive Key where
  | row (path : Path)
  | list (f : FlatList)
  deriving DecidableEq

/-- What the host answered before the change is stale. -/
def Change.touches : Change → Key → Bool
  | .rated path, .row q | .tagged path, .row q | .removed path, .row q => q = path
  | .tagged _, .list _ | .added _, .list _ | .removed _, .list _ => true
  | .switched, _ => true
  | _, _ => false

/-! ## Writes -/

/-- A transaction that follows a look at the flag. -/
inductive Write where
  | tags (tracks : List CachedTags)
  | list (f : FlatList) (page : Page f.Item)
  | drop (paths : List Path)
  | index (paths : List Path)

def Write.commit (s : Store) : Write → Store
  | .tags tracks =>
    { s with
      cache.tags := tracks.foldl (fun table track => table.insert track.src track) s.cache.tags }
  | .list f page => { s with lists := Function.update s.lists f (some page) }
  | .drop paths => { s with cache.tags := s.cache.tags.eraseAll paths }
  | .index paths =>
    let gone := (s.cache.tags.rows.map (·.1)).filter (· ∉ paths)
    { s with cache.index := paths, cache.tags := s.cache.tags.eraseAll gone }

/-- Looked at and written in one step, the writes are those of the cache's operations. -/
theorem Write.commit_of_validated (lower : String → String) (epoch : Epoch) {s : Store}
    (hv : s.cache.validated = true) :
    (∀ tracks, commit s (.tags tracks) = { s with cache := s.cache.putTrackTags tracks }) ∧
      (∀ f page, commit s (.list f page) = s.commit lower epoch (.put f page)) ∧
      (∀ paths, commit s (.drop paths) = s.commit lower epoch (.dropTrackTags paths)) ∧
      ∀ paths, commit s (.index paths) = s.commit lower epoch (.replaceTrackIndex paths) := by
  refine ⟨fun tracks => ?_, fun f page => ?_, fun paths => ?_, fun paths => ?_⟩
  · rw [MetadataCache.putTrackTags, if_pos hv]
    rfl
  · rw [Store.commit, if_pos hv]
    rfl
  · rw [Store.commit, MetadataCache.dropTrackTags, if_pos hv]
    rfl
  · rw [Store.commit, MetadataCache.replaceTrackIndex, if_pos hv]
    rfl

/-- The entries it stores an answer under. -/
def Write.stores : Write → Key → Bool
  | .tags tracks, .row path => path ∈ tracks.map (·.src)
  | .list f _, .list g => g = f
  | _, _ => false

/-! ## Threads -/

inductive Op where
  /-- `tracks_detailed_for_paths`, and `put_track_tags` of the answer. -/
  | fill (paths : List Path)
  /-- A browse call, and `put` of the answer. -/
  | warm (f : FlatList)
  /-- `drop_track_tags`. -/
  | drop (paths : List Path)
  | trackPaths
  /-- `sync_delta`, and `drop_track_tags` of the answer. -/
  | syncDelta
  /-- `replace_track_index` of the listing. -/
  | index
  | commit (txn : Txn)
  | setValidated

/-- The values of the key which the change made stale are what the operation is to remove. -/
def Op.deals : Op → Change → Key → Bool
  | .drop paths, _, .row path => path ∈ paths
  | .index, .removed q, .row path => path = q
  | .warm f, _, .list g => g = f
  | .commit .clear, _, _ => true
  | _, _, _ => false

inductive Scope where
  | reader
  | pass (edited : List Path) (relist : Bool)
  | switch
  | reconcile
  deriving DecidableEq

namespace Scope

/-- The change is one the thread runs for. -/
def covers : Scope → Change → Bool
  | pass edited _, .rated path => path ∈ edited
  | pass edited relist, .tagged path => relist && path ∈ edited
  | pass _ relist, .added _ | pass _ relist, .removed _ => relist
  | switch, _ => true
  | _, _ => false

/-- It runs under the reconcile guard. -/
def guarded : Scope → Bool
  | pass _ _ | reconcile => true
  | _ => false

def isPass : Scope → Bool
  | pass _ _ => true
  | _ => false

end Scope

inductive Stage where
  | ready
  /-- A write is at hand, of what was answered after so many changes. -/
  | answered (write : Write) (date : Nat)
  /-- The flag was seen set. -/
  | checked (write : Write) (date : Nat)

structure Thread where
  scope : Scope
  /-- How many changes there were when it began. -/
  cover : Nat
  /-- How many passes and switches were through when it began. -/
  since : Nat
  todo : List Op
  listing : Option (List Path) := none
  stage : Stage := .ready

/-- An operation of a thread that began after so many changes. -/
structure Done where
  cover : Nat
  scope : Scope
  op : Op

namespace Thread

/-- On to the next operation. -/
def next (t : Thread) (rest : List Op) : Thread := { t with todo := rest, stage := .ready }

def doing (t : Thread) (op : Op) : Done := { cover := t.cover, scope := t.scope, op }

end Thread

/-- `prewarm_browse_lists`. -/
def prewarmBrowseLists : List Op :=
  [.warm .genres, .warm (.artists false), .warm (.artists true), .warm .albums]

/-- `relist_library`. -/
def relistLibrary (edited : List Path) : List Op :=
  [.drop edited, .trackPaths, .index] ++ prewarmBrowseLists

/-- `file_reported_edits`. -/
def fileReportedEdits (paths : List Path) : List Op := [.drop paths]

/-- `build_track_index`. -/
def buildTrackIndex : List Op := [.trackPaths, .syncDelta, .index]

/-- `reconcile_metadata`: which transactions it makes, and whether it rebuilds the lists, is left
open. -/
def reconcileMetadata (txns : List Txn) (rebuild : Bool) : List Op :=
  txns.map .commit ++ [.setValidated] ++ (if rebuild then prewarmBrowseLists else []) ++
    buildTrackIndex

/-! ## The world -/

structure World where
  changes : List Change
  store : Store
  threads : List Thread
  /-- How many changes there were when the stored value was answered. -/
  answered : Key → Nat
  /-- The operations that are through. -/
  through : List Done
  /-- The passes and switches that are through. -/
  applied : List (Nat × Scope)

def World.initial (store : Store) : World :=
  { changes := [], store := store.reopen, threads := [], answered := fun _ => 0
    through := [], applied := [] }

namespace World

variable (w : World)

def stored : Key → Bool
  | .row path => (w.store.cache.tags.get? path).isSome
  | .list f => (w.store.lists f).isSome

/-- `track_tags` and `get`. -/
def served (k : Key) : Bool := w.store.cache.validated && w.stored k

def guardFree : Bool := w.threads.all fun t => !t.scope.guarded

/-- The operation was to remove what the change of that number made stale. -/
def deals (d : Done) (k : Key) (i : Nat) : Bool :=
  decide (i < d.cover) &&
    (w.changes[i]?).any fun c => d.scope.covers c && c.touches k && d.op.deals c k

def dealt (k : Key) (i : Nat) : Bool := w.through.any fun d => w.deals d k i

/-- The thread is through with the operation. -/
def settle (t : Thread) (op : Op) : World :=
  { w with through := w.through ++ [t.doing op] }

/-- The transaction of a write. -/
def write (write : Write) (date : Nat) : World :=
  { w with
    store := write.commit w.store
    answered := fun k => if write.stores k then date else w.answered k }

def spawn (scope : Scope) (todo : List Op) : World :=
  { w with
    threads := w.threads ++
      [{ scope, cover := w.changes.length, since := w.applied.length, todo }] }

end World

/-! ## Steps -/

/-- An answer of the host; `nothing` where there is none, or none is asked for. -/
inductive Answer where
  | nothing
  | tracks (tracks : List CachedTags)
  | page (f : FlatList) (page : Page f.Item)
  | paths (paths : List Path)

section

variable (lower : String → String)

/-- The next step of a thread. -/
def threadStep (w : World) (t : Thread) (answer : Answer) : Option (World × Thread) :=
  match t.todo with
  | [] => none
  | op :: rest =>
    let hold (write : Write) : Option (World × Thread) :=
      some (w, { t with stage := .answered write w.changes.length })
    match t.stage with
    | .answered write date =>
      if w.store.cache.validated then some (w, { t with stage := .checked write date })
      else some (w, t.next rest)
    | .checked write date => some ((w.write write date).settle t op, t.next rest)
    | .ready =>
      match op, answer with
      | .fill _, .tracks tracks => hold (.tags tracks)
      | .fill _, .nothing => some (w, t.next rest)
      | .warm f, .page g page => if g = f then hold (.list g page) else none
      | .warm _, .nothing => some (w.settle t op, t.next rest)
      | .drop paths, .nothing => hold (.drop paths)
      | .trackPaths, .paths paths => some (w, { t.next rest with listing := some paths })
      | .trackPaths, .nothing => some (w, t.next rest)
      | .syncDelta, .paths changed => if t.listing.isSome then hold (.drop changed) else none
      | .syncDelta, .nothing => some (w, t.next rest)
      | .index, .nothing =>
        match t.listing with
        | some paths => hold (.index paths)
        | none => some (w.settle t op, t.next rest)
      | .commit txn, .nothing =>
        some (World.settle { w with store := w.store.commit lower "" txn } t op, t.next rest)
      | .setValidated, .nothing => some ({ w with store.cache.validated := true }, t.next rest)
      | _, _ => none

inductive Event where
  | change (c : Change)
  /-- `flat_browse` misses. -/
  | browse (f : FlatList)
  /-- A caller of `put_track_tags` is about to ask for the paths. -/
  | read (paths : List Path)
  | relist (edited : List Path)
  | file (paths : List Path)
  /-- `invalidate`, whose first step unsets the flag. -/
  | invalidate
  | reconcile (txns : List Txn) (rebuild : Bool)
  | run (n : Nat) (answer : Answer)
  | finish (n : Nat)

def step (w : World) : Event → Option World
  | .change c => some { w with changes := w.changes ++ [c] }
  | .browse f => if w.served (.list f) then none else some (w.spawn .reader [.warm f])
  | .read paths => some (w.spawn .reader [.fill paths])
  | .relist edited =>
    if w.guardFree && w.store.cache.validated then
      some (w.spawn (.pass edited true) (relistLibrary edited))
    else none
  | .file paths =>
    if w.guardFree && (w.store.cache.validated && paths ≠ []) then
      some (w.spawn (.pass paths false) (fileReportedEdits paths))
    else none
  | .invalidate =>
    some (World.spawn { w with store.cache.validated := false } .switch [.commit .clear])
  | .reconcile txns rebuild =>
    if w.guardFree && txns.all Scanner.isReconcileTxn then
      some (w.spawn .reconcile (reconcileMetadata txns rebuild))
    else none
  | .run n answer => do
    let t ← w.threads[n]?
    let (w', t') ← threadStep lower w t answer
    some { w' with threads := w.threads.set n t' }
  | .finish n => do
    let t ← w.threads[n]?
    if t.todo = [] then
      some { w with
        threads := w.threads.eraseIdx n
        applied := if t.scope.isPass || t.scope = .switch then w.applied ++ [(t.cover, t.scope)]
          else w.applied }
    else none

def system : Transition.System World Event where
  start w := ∃ store, w = World.initial store
  next := step lower

end

end Mbrc.Readers
