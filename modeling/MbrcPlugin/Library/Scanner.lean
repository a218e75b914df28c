import MbrcPlugin.Lib.Transition
import MbrcPlugin.Library.ChangeLogCounts
import MbrcPlugin.Library.Reconcile

/-!
# The scanner and the start's pass

The host edits files at times of its clock; while the plugin runs, each edit is reported and queued
in `LibraryEvents`.  The scanner takes what is queued and applies it under the reconcile guard
(`relist_library`, `file_reported_edits`), and the pass of a start (`build_track_index`) asks the
host for what was edited since the stored watermark.  Every host call and every transaction is a
step of its own, and the process may stop at any of them; its queue is then lost.

`edits`, `fetched`, `joined`, `seen` and `caughtUp` are there for the statements: no step of the
code reads them.
-/

namespace Mbrc.Scanner

open Cache Reconcile

/-! ## Reports -/

/-- A notification on its way into the queue. -/
inductive Report where
  | tagged (path : Path)
  | rated (path : Path)
  /-- A file was added or removed. -/
  | moved
  deriving DecidableEq

/-- What a pass has to apply. -/
structure Reported where
  relist : Bool := false
  tagged : List Path := []
  rated : List Path := []
  deriving DecidableEq

namespace Reported

def isEmpty (r : Reported) : Bool := !r.relist && r.tagged = [] && r.rated = []

/-- `tags_changed`, `rating_changed` and `membership_changed`. -/
def add (r : Reported) : Report → Reported
  | .tagged path => { r with tagged := r.tagged ++ [path] }
  | .rated path => { r with rated := r.rated ++ [path] }
  | .moved => { r with relist := true }

/-- `put_back`. -/
def putBack (queued batch : Reported) : Reported :=
  { relist := queued.relist || batch.relist, tagged := queued.tagged ++ batch.tagged
    rated := queued.rated ++ batch.rated }

def relists (r : Reported) : Bool := r.relist || r.tagged ≠ []

/-- The edited files, sorted and without repeats. -/
def edited (r : Reported) : List Path := ChangeLog.sortDedup (r.tagged ++ r.rated)

end Reported

/-! ## The two passes -/

/-- Where `apply_reported_now` stands. -/
inductive Scan where
  | idle
  /-- The queue is taken. -/
  | taken (r : Reported)
  /-- The guard is held. -/
  | began (r : Reported)
  /-- The tags of the edited files are dropped, and the library is to be listed. -/
  | dropped (edited : List Path)
  | listed (paths edited : List Path)
  /-- The index is written. -/
  | indexed (paths edited : List Path)
  /-- The tags are dropped, and the edits are to be filed without a listing. -/
  | unlisted (edited : List Path)
  | filed
  deriving DecidableEq

/-- How `build_track_index` came by the edits since the watermark. -/
inductive Asked where
  | answered
  | failed
  /-- There is no watermark yet. -/
  | notAsked
  deriving DecidableEq

/-- Where a reconcile stands. -/
inductive Build where
  | idle
  /-- The guard is held, and the cache is being reconciled. -/
  | began
  /-- The cache is validated. -/
  | ready
  | listed (paths : List Path)
  /-- The host named the files edited since the watermark. -/
  | told (paths edited : List Path)
  /-- Their tags are dropped. -/
  | dropped (paths edited : List Path) (asked : Asked)
  | indexed (paths edited : List Path) (asked : Asked)
  | filed (asked : Asked)
  /-- Every host call of the pass was answered. -/
  | done
  deriving DecidableEq

def Scan.holdsGuard : Scan → Bool
  | .idle | .taken _ => false
  | _ => true

def Build.holdsGuard : Build → Bool
  | .idle | .done => false
  | _ => true

structure Process where
  /-- The number of edits made before the process started. -/
  seen : Nat
  /-- Notifications that are not queued yet. -/
  unreported : List Report
  queue : Reported
  scan : Scan
  build : Build
  /-- A pass of this process was told what was edited before it. -/
  caughtUp : Bool

def Process.guardFree (p : Process) : Bool := !p.scan.holdsGuard && !p.build.holdsGuard

/-! ## The world -/

structure Edit where
  path : Path
  time : Nat
  /-- The log's generation when the edit was made. -/
  generation : Nat
  deriving DecidableEq

structure World where
  clock : Nat
  /-- Every edit so far. -/
  edits : List Edit
  /-- The library's files. -/
  library : List Path
  /-- How many edits were made when the path last came into the library. -/
  joined : Path → Nat
  store : Store
  /-- How many edits were made when the path's tag row was fetched. -/
  fetched : Path → Nat
  process : Option Process

/-- The files edited at or after a time. -/
def World.editedSince (w : World) (since : Int) : List Path :=
  (w.edits.filter fun e => since ≤ (e.time : Int)).map (·.path)

/-- Two lists of the same paths. -/
def samePaths (l l' : List Path) : Bool := l.all (· ∈ l') && l'.all (· ∈ l)

/-- Commits before the cache is validated. -/
def isReconcileTxn : Txn → Bool
  | .clear | .storeTagsSchema | .dropMovedAlbums _ | .storeFingerprint _ | .storeAlbumStamps _
  | .dropNavLists => true
  | _ => false

section

variable (lower : String → String)

/-- One step of `apply_reported_now` once it holds the guard: `paths` is the host's listing, where
it is asked for one, `epoch` the name drawn where the log starts. -/
def scanStep (w : World) (p : Process) (paths : Option (List Path)) (epoch : Epoch) :
    Option (Store × Process) :=
  let commit := w.store.commit lower epoch
  match p.scan with
  | .idle | .taken _ => none
  | .began r =>
    -- a pass does nothing until the cache is validated
    if !w.store.cache.validated || (!r.relists && r.edited = []) then
      some (w.store, { p with scan := .idle })
    else
      some (commit (.dropTrackTags r.edited),
        { p with scan := if r.relists then .dropped r.edited else .unlisted r.edited })
  | .dropped edited =>
    match paths with
    | some paths =>
      if samePaths paths w.library then some (w.store, { p with scan := .listed paths edited })
      else none
    | none => some (w.store, { p with scan := .unlisted edited })
  | .listed paths edited =>
    some (commit (.replaceTrackIndex paths), { p with scan := .indexed paths edited })
  | .indexed paths edited =>
    some (commit (.recordChanges (some paths) edited), { p with scan := .filed })
  | .unlisted edited => some (commit (.recordChanges none edited), { p with scan := .filed })
  | .filed => some (commit (.setTracksSyncedAt w.clock), { p with scan := .idle })

/-- One step of `build_track_index`: `delta` is what the host answers to `sync_delta`. -/
def buildStep (w : World) (p : Process) (paths : Option (List Path))
    (delta : Option (List Path × List Path)) (epoch : Epoch) : Option (Store × Process) :=
  let commit := w.store.commit lower epoch
  match p.build with
  | .idle | .began | .done => none
  | .ready =>
    match paths with
    | some paths =>
      if samePaths paths w.library then some (w.store, { p with build := .listed paths })
      else none
    | none => some (w.store, { p with build := .idle })
  | .listed paths =>
    if w.store.cache.syncedAt > 0 then
      match delta with
      | some (updated, deleted) =>
        if samePaths (updated ++ deleted) (w.editedSince w.store.cache.syncedAt) then
          some (w.store, { p with build := .told paths (updated ++ deleted) })
        else none
      | none => some (w.store, { p with build := .dropped paths [] .failed })
    else some (w.store, { p with build := .dropped paths [] .notAsked })
  | .told paths edited =>
    some (commit (.dropTrackTags edited), { p with build := .dropped paths edited .answered })
  | .dropped paths edited asked =>
    some (commit (.replaceTrackIndex paths), { p with build := .indexed paths edited asked })
  | .indexed paths edited asked =>
    some (commit (.recordChanges (some paths) edited),
      { p with build := .filed asked, caughtUp := p.caughtUp || asked = .answered })
  | .filed asked =>
    some (commit (.setTracksSyncedAt w.clock),
      { p with build := if asked = .failed then .idle else .done })

inductive Event where
  | tick
  /-- The host edits a file's rating or its tags. -/
  | edit (path : Path) (rating : Bool)
  | add (path : Path)
  | remove (path : Path)
  /-- A reader caches what the host answers now. -/
  | fill (tracks : List CachedTags)
  | start
  | stop
  /-- The `n`-th notification on its way is queued. -/
  | notify (n : Nat)
  | take
  | putBack
  | begin
  | scan (paths : Option (List Path)) (epoch : Epoch)
  | beginReconcile
  | reconcile (txn : Txn)
  | setValidated
  | build (paths : Option (List Path)) (delta : Option (List Path × List Path)) (epoch : Epoch)

/-- A report of what happened, where the plugin runs. -/
def World.report (w : World) (report : Report) : World :=
  { w with process := w.process.map fun p => { p with unreported := p.unreported ++ [report] } }

def step (w : World) : Event → Option World
  | .tick => some { w with clock := w.clock + 1 }
  | .edit path rating =>
    let edit := { path, time := w.clock, generation := w.store.log.generation }
    some (World.report { w with edits := w.edits ++ [edit] }
      (if rating then .rated path else .tagged path))
  | .add path =>
    if path ∈ w.library then none
    else
      some (World.report
        { w with
          library := path :: w.library, joined := Function.update w.joined path w.edits.length }
        .moved)
  | .remove path =>
    some (World.report { w with library := w.library.filter (· ≠ path) } .moved)
  | .fill tracks =>
    some { w with
      store := { w.store with cache := w.store.cache.putTrackTags tracks }
      fetched := fun path =>
        if w.store.cache.validated ∧ path ∈ tracks.map (·.src) then w.edits.length
        else w.fetched path }
  | .start =>
    if w.process.isSome then none
    else
      some { w with
        process := some
          { seen := w.edits.length, unreported := [], queue := {}, scan := .idle, build := .idle
            caughtUp := false } }
  | .stop => w.process.map fun _ => { w with store := w.store.reopen, process := none }
  | .notify n => do
    let p ← w.process
    let report ← p.unreported[n]?
    some { w with
      process := some { p with
        unreported := p.unreported.eraseIdx n, queue := p.queue.add report } }
  | .take => do
    let p ← w.process
    if p.scan = .idle ∧ p.queue.isEmpty = false then
      some { w with process := some { p with queue := {}, scan := .taken p.queue } }
    else none
  | .putBack => do
    let p ← w.process
    match p.scan with
    | .taken r =>
      if p.guardFree then none
      else some { w with process := some { p with queue := p.queue.putBack r, scan := .idle } }
    | _ => none
  | .begin => do
    let p ← w.process
    match p.scan with
    | .taken r =>
      if p.guardFree then some { w with process := some { p with scan := .began r } } else none
    | _ => none
  | .scan paths epoch => do
    let p ← w.process
    let (store, p) ← scanStep lower w p paths epoch
    some { w with store, process := some p }
  | .beginReconcile => do
    let p ← w.process
    if p.guardFree then some { w with process := some { p with build := .began } } else none
  | .reconcile txn => do
    let p ← w.process
    if p.build = .began ∧ isReconcileTxn txn = true then
      some { w with store := w.store.commit lower "" txn }
    else none
  | .setValidated => do
    let p ← w.process
    if p.build = .began then
      some { w with
        store := { w.store with cache := { w.store.cache with validated := true } }
        process := some { p with build := .ready } }
    else none
  | .build paths delta epoch => do
    let p ← w.process
    let (store, p) ← buildStep lower w p paths delta epoch
    some { w with store, process := some p }

/-- Nothing was ever edited or stored, whatever the library holds. -/
def initial (library : List Path) : World :=
  { clock := 0, edits := [], library, joined := fun _ => 0, store := .initial
    fetched := fun _ => 0, process := none }

def system : Transition.System World Event where
  start w := ∃ library, w = initial library
  next := step lower

end

end Mbrc.Scanner
