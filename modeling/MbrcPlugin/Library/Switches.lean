import MbrcPlugin.Lib.Interrupted
import MbrcPlugin.Library.ChangeLogCounts
import MbrcPlugin.Library.Reconcile

/-!
# Library switches

A reconcile reads the host and fills the caches while others wipe them.  The notification of a
switch unsets the flag, clears the tables and forgets the log, a rebuild from the panel does the
first two, each step on its own; each then makes an attempt at a reconcile, which is skipped while
one runs.  A write of the reconcile looks at the flag first and writes after.

Once every attempt has ended after a switch, the caches come from the library loaded last and are
filled, in every run where no wipe undoes what the reconcile under way still relies on and no
attempt is skipped that was needed.  The code takes no care of either: a switch during the covers
of a reconcile leaves the caches cleared, one before its fingerprint validates the old library.
-/

namespace Mbrc.Switches

open Cache Interaction Interaction.Program Reconcile Transition

/-! ## What is wiped -/

inductive RebuildScope where
  | metadata
  | covers
  /-- The reconcile of a start and of a switch. -/
  | both
  deriving DecidableEq

def RebuildScope.doesMetadata : RebuildScope → Bool
  | metadata | both => true
  | covers => false

/-- One step of `invalidate` or of `forget_library`. -/
inductive Wipe where
  | unvalidate
  | clear
  | forgetLog
  | forgetWatermark
  deriving DecidableEq

def invalidate : List Wipe := [.unvalidate, .clear]

def forgetLibrary : List Wipe := [.forgetLog, .forgetWatermark]

/-- What a switch wipes. -/
def switchWipes : List Wipe := invalidate ++ forgetLibrary

/-- What a rebuild from the panel wipes. -/
def rebuildWipes : RebuildScope → List Wipe
  | .metadata => invalidate
  | .covers | .both => []

def flagged (s : Store) (flag : Bool) : Store :=
  { s with cache := { s.cache with validated := flag } }

def Wipe.apply (s : Store) : Wipe → Store
  | unvalidate => flagged s false
  | clear => { s with cache := s.cache.clear, lists := fun _ => none }
  | forgetLog => { s with log := s.log.reset }
  | forgetWatermark => { s with cache := { s.cache with syncedAt := 0 } }

/-! ## The reconcile under way -/

/-- What the host answered. -/
inductive Heard where
  | albums (identifiers : List AlbumIdentifier)
  | page (f : FlatList) (page : Page f.Item)
  | paths (paths : List Path)

def heardOf : (c : Call) → Ans c → List Heard
  | .browse f, some page => [.page f page]
  | .trackPaths, some paths => [.paths paths]
  | _, _ => []

def callFailed : (c : Call) → Ans c → Bool
  | .browse _, none | .trackPaths, none | .syncDelta _, none => true
  | _, _ => false

/-- A thread that attempts a reconcile once its wipes are done. -/
structure Caller where
  todo : List Wipe
  scope : RebuildScope
  deriving DecidableEq

inductive Stage where
  | enumerating
  /-- The albums are read, the flag is not set. -/
  | fingerprinting
  /-- The flag is set, the tables are being filled. -/
  | filling
  | covers
  deriving DecidableEq

/-- The holder of the `ReconcileGuard`. -/
structure Running where
  scope : RebuildScope
  stage : Stage := .enumerating
  /-- Something was wiped since it set the flag. -/
  wiped : Bool := false
  deriving DecidableEq

structure World where
  store : Store
  /-- What the host answered since a library was loaded. -/
  heard : List Heard := []
  /-- A switch was notified. -/
  switched : Bool := false
  /-- Loaded libraries the core is still to be notified of. -/
  unannounced : Nat := 0
  callers : List Caller := []
  running : Option Running := none
  /-- What the write under way saw of the flag. -/
  gate : Option Bool := none
  /-- Some host call failed. -/
  failed : Bool := false

/-! ## The others -/

/-- What happens beside the reconcile under way. -/
inductive Outside where
  /-- MusicBee loads another library. -/
  | load
  /-- `LibrarySwitched`. -/
  | switched
  /-- A rebuild from the panel. -/
  | rebuild (scope : RebuildScope)
  /-- The reconcile of `initialize`. -/
  | reconcile
  /-- A caller makes its next wipe. -/
  | wipe (n : Nat)
  /-- `begin_reconcile` of a caller. -/
  | «begin» (n : Nat)
  deriving DecidableEq

namespace World

variable (w : World)

def call (caller : Caller) : World := { w with callers := w.callers ++ [caller] }

/-- The holder once something is wiped. -/
def mark (r : Running) : Running :=
  { r with wiped := r.wiped || r.stage = .filling || r.stage = .covers }

def wipe (n : Nat) (wipe : Wipe) (rest : Caller) : World :=
  { w with
    store := wipe.apply w.store, callers := w.callers.set n rest, running := w.running.map mark }

/-- An attempt that does not wait any more. -/
def take (n : Nat) (running : Running) : World :=
  { w with callers := w.callers.eraseIdx n, running := some running }

def outside : Outside → Option World
  | .load => some { w with heard := [], unannounced := w.unannounced + 1 }
  | .switched =>
    if w.unannounced = 0 then none
    else some { w.call ⟨switchWipes, .both⟩ with
      switched := true, unannounced := w.unannounced - 1 }
  | .rebuild scope => some (w.call ⟨rebuildWipes scope, scope⟩)
  | .reconcile => some (w.call ⟨[], .both⟩)
  | .wipe n =>
    match w.callers[n]? with
    | some ⟨first :: rest, scope⟩ => some (w.wipe n first ⟨rest, scope⟩)
    | _ => none
  | .«begin» n =>
    match w.callers[n]? with
    | some ⟨[], scope⟩ => some (w.take n (w.running.getD { scope }))
    | _ => none

end World

/-- The holder goes on to a stage, no write being under way. -/
def World.stage (w : World) (stage : Stage) : World :=
  { w with running := w.running.map fun r => { r with stage }, gate := none }

/-! ## The reconcile's calls -/

/-- The transactions that look at the flag first. -/
def gated : Txn → Bool
  | .put .. | .dropTrackTags _ | .replaceTrackIndex _ | .recordChanges .. => true
  | _ => false

section

variable (lower : String → String)

/-- A write by what its look at the flag saw. -/
def commitSeeing (seen : Bool) (newEpoch : Epoch) (s : Store) (txn : Txn) : Store :=
  flagged ((flagged s seen).commit lower newEpoch txn) s.cache.validated

/-- What a call answers; a gated write follows its look at the flag. -/
def answer (c : Call) (host : Host) (w : World) : Option (Ans c × World) :=
  match c with
  | .commit txn =>
    if gated txn then
      w.gate.map fun seen =>
        ((), { w with store := commitSeeing lower seen host.newEpoch w.store txn, gate := none })
    else some ((), { w with store := w.store.commit lower host.newEpoch txn })
  | .setValidated => some ((), { w with store := flagged w.store true }.stage .filling)
  | c =>
    let (ans, store) := Reconcile.answer lower host w.store c
    some (ans, { w with
      store, heard := w.heard ++ heardOf c ans, failed := w.failed || callFailed c ans })

/-- What happens while a call is under way: the others, and a write's look at the flag. -/
inductive Part where
  | outside (e : Outside)
  | look

def during (c : Call) : Part → World → Option World
  | .outside e, w => w.outside e
  | .look, w =>
    match c with
    | .commit txn =>
      if gated txn && w.gate.isNone then some { w with gate := some w.store.cache.validated }
      else none
    | _ => none

def machine : Machine Ans World Part Host where
  during := during
  answer := answer lower

/-! ## Runs -/

/-- The state, and what is still to be done of `reconcile_metadata`. -/
abbrev State := World × Work Unit


/-- A `reconcile_metadata` that is done goes on to the covers. -/
def settle : State → State
  | (w, .done _) => (w.stage .covers, .done ())
  | s => s

/-- What follows `album_identifiers`. -/
def enumerated (w : World) (r : Running) : Option (List AlbumIdentifier) → State
  | none => ({ w with failed := true }.stage .covers, .done ())
  | some identifiers =>
    let w := { w with heard := w.heard ++ [Heard.albums identifiers] }
    if r.scope.doesMetadata then
      settle (w.stage .fingerprinting, reconcileMetadata lower identifiers)
    else (w.stage .covers, .done ())

inductive Event where
  | outside (e : Outside)
  /-- The write under way looks at the flag. -/
  | look
  /-- `album_identifiers` answers. -/
  | enumerate (identifiers : Option (List AlbumIdentifier))
  /-- The call under way answers, of the host with these answers. -/
  | answer (host : Host)
  /-- The reconcile ends. -/
  | release

def next : State → Event → Option State
  | (w, p), .outside e => (w.outside e).map fun w => (w, p)
  | (w, p), .look =>
    match p with
    | .done _ => none
    | .call c _ => (during c .look w).map fun w => (w, p)
  | (w, _), .enumerate identifiers =>
    w.running.bind fun r =>
      if r.stage = .enumerating then some (enumerated lower w r identifiers) else none
  | (w, p), .answer host =>
    match p with
    | .done _ => none
    | .call c rest => (answer lower c host w).map fun a => settle (a.2, rest a.1)
  | (w, p), .release =>
    w.running.bind fun r =>
      if r.stage = .covers then some ({ w with running := none }, p) else none

/-- Any store, and nothing under way. -/
def World.fresh (store : Store) : World := { store }

def system : System State Event where
  start s := ∃ store, s = (World.fresh store, .done ())
  next := next lower

end

/-! ## What a switch promises -/

namespace World

/-- A switch was notified, of the library loaded last, and every attempt has ended. -/
structure AtRest (w : World) : Prop where
  switched : w.switched = true
  announced : w.unannounced = 0
  callers : w.callers = []
  running : w.running = none

end World

/-- The fingerprint is of albums that were heard. -/
def FingerprintRead (lower : String → String) (heard : List Heard) (s : Store) : Prop :=
  s.cache.validated = true → ∃ identifiers, Heard.albums identifiers ∈ heard ∧
    s.cache.fingerprint = some (fingerprint (stampsOf lower identifiers)).toNat

/-- The lists and the index are as heard, where they are there. -/
structure TablesRead (heard : List Heard) (s : Store) : Prop where
  lists : ∀ f page, s.lists f = some page → Heard.page f page ∈ heard
  index : s.cache.index = [] ∨ Heard.paths s.cache.index ∈ heard

/-- The log holds a listing that was heard, or nothing yet. -/
structure LogRead (heard : List Heard) (log : ChangeLog) : Prop where
  consistent : log.Consistent
  live : (∀ p, ¬ log.IsLive p) ∨ ∃ paths, Heard.paths paths ∈ heard ∧ ∀ p, log.IsLive p ↔ p ∈ paths

/-- Validated, with all its parts. -/
structure Filled (heard : List Heard) (s : Store) : Prop where
  validated : s.cache.validated = true
  lists : ∀ f, s.lists f ≠ none
  index : Heard.paths s.cache.index ∈ heard
  log : ∀ p, s.log.IsLive p ↔ p ∈ s.cache.index

/-- What the caches show is of the library loaded last, and they are filled if no call failed. -/
structure World.Settled (lower : String → String) (w : World) : Prop where
  read : w.store.cache.validated = true →
    FingerprintRead lower w.heard w.store ∧ TablesRead w.heard w.store ∧
      LogRead w.heard w.store.log
  filled : w.failed = false → Filled w.heard w.store

/-! ## When it is kept -/

/-- An attempt is not needed: the reconcile under way does its work. -/
def Running.maySkip (r : Running) (scope : RebuildScope) : Bool :=
  scope.doesMetadata → r.scope.doesMetadata ∧ r.wiped = false

namespace World

variable (w : World)

/-- The reconcile under way does not rely on what is wiped: the flag is not unset between its read
of the albums and its setting of it, the tables are not cleared while it fills them, and no write
that saw the flag set lands in a log that was forgotten. -/
def mayWipe (r : Running) : Wipe → Bool
  | .unvalidate => r.stage ≠ .fingerprinting
  | .clear => r.stage = .filling → w.store.cache.validated = false ∧ w.gate ≠ some true
  | .forgetLog => w.gate ≠ some true
  | .forgetWatermark => true

def allows : Outside → Bool
  | .wipe n =>
    match w.running, w.callers[n]? with
    | some r, some ⟨wipe :: _, _⟩ => w.mayWipe r wipe
    | _, _ => true
  | .«begin» n =>
    match w.running, w.callers[n]? with
    | some r, some ⟨[], scope⟩ => r.maySkip scope
    | _, _ => true
  | _ => true

end World

def guarded (s : State) : Event → Bool
  | .outside e => s.1.allows e
  | _ => true

end Mbrc.Switches
