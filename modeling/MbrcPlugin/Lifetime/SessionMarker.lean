import Mathlib.Logic.Function.Basic
import MbrcPlugin.Lib.Transition
import MbrcPlugin.Lifetime.Jobs

/-!
# The session marker

A marker is written when a core is made and removed when it shuts down, so that a start which finds
one knows that the session before it died.  The work of a core notes in it what it is at: cover
builds on the networking thread's runtime, which a shutdown waits for, and builds on threads of
their own, which it does not.

The processes share nothing but the storage directories.  A note is one write here: what a start
looks at is whether the file is there, and opening it for the write is what makes it.
-/

namespace Mbrc.Lifetime.Marker

open Transition

/-! ## Cores and their work -/

/-- Where the session of a core stands. -/
inductive Phase where
  /-- The marker was looked for and is yet to be written. -/
  | opening
  | running
  /-- `shutdown` has taken the core out of the state. -/
  | stopping
  /-- `shutdown` has removed the marker. -/
  | closed
  /-- It has returned, or the process is gone. -/
  | over
  deriving DecidableEq

/-- The networking of a core; `joining` while a call waits for its thread. -/
inductive Net where
  | down | up | joining
  deriving DecidableEq

structure Core where
  process : Nat := 0
  storage : String := ""
  phase : Phase := .over
  net : Net := .down
  stopping : Bool := false
  reconciling : Bool := false
  deriving DecidableEq

/-- The session holds the state of its process. -/
def Core.live (c : Core) : Bool := c.phase ≠ .over

/-- The lock of the state is free, with the core in it. -/
def Core.free (c : Core) : Bool := c.phase = .running && c.net ≠ .joining

inductive Source where
  /-- The reconcile that networking starts with. -/
  | networking
  | scanner
  | librarySwitch
  | panel (scope : RebuildScope)
  deriving DecidableEq

namespace Source

/-- The work runs on the networking thread's runtime, whose end waits for it. -/
def joined : Source → Bool
  | networking | scanner => true
  | librarySwitch | panel _ => false

def doesCovers : Source → Bool
  | networking | scanner | librarySwitch => true
  | panel scope => scope.doesCovers

end Source

/-- How far a reconcile is; from `listing` on it holds the right to reconcile. -/
inductive Stage where
  | queued
  | listing
  | building
  /-- The build was not told to stop, and takes an album. -/
  | album
  | built
  | noted
  deriving DecidableEq

structure Work where
  core : Nat
  source : Source
  stage : Stage := .queued
  deriving DecidableEq

/-! ## Sessions -/

/-- How a session ended. -/
structure Ending where
  storage : String
  clean : Bool
  deriving DecidableEq

/-- A session that opened: what it found, and the sessions that had ended before it, newest
first. -/
structure Opening where
  storage : String
  found : Option String
  ended : List Ending
  deriving DecidableEq

/-- A session of the directory died, and none has ended cleanly since. -/
def Crashed (storage : String) (ended : List Ending) : Prop :=
  ∃ later e earlier, ended = later ++ e :: earlier ∧ e.storage = storage ∧ e.clean = false ∧
    ∀ c ∈ later, c.storage = storage → c.clean = false

structure World where
  /-- The marker of each storage directory. -/
  marker : String → Option String := fun _ => none
  cores : Nat → Core := fun _ => {}
  made : Nat := 0
  works : List Work := []
  openings : List Opening := []
  endings : List Ending := []

namespace World

def set (w : World) (k : Nat) (c : Core) : World := { w with cores := Function.update w.cores k c }

/-- `SessionMarker::open`, as far as it looks; inert without a storage directory. -/
def find (w : World) (storage : String) : Option String :=
  if storage = "" then none else w.marker storage

/-- `SessionMarker::note` -/
def note (w : World) (storage activity : String) : World :=
  if storage = "" then w
  else { w with marker := Function.update w.marker storage (some activity) }

/-- `SessionMarker::close` -/
def close (w : World) (storage : String) : World :=
  if storage = "" then w else { w with marker := Function.update w.marker storage none }

/-- `note_cover_progress`, of the album at `path`. -/
def progress (done total : Nat) (path : String) : String :=
  s!"building the cover cache: album {done} of {total}, {path}"

/-! ## Calls -/

/-- What is called on a core, or is heard of for it; `starting`, `joined`, `close` and `returned`
are where a call that holds the lock has got to. -/
inductive Call where
  | starting
  | startNetworking (bound : Bool)
  | stopNetworking
  | beginStopping
  | joined
  | shutdown
  | close
  | returned
  | librarySwitched
  | rebuild (scope : RebuildScope)
  /-- The Scanner takes up what the host reported. -/
  | reported
  deriving DecidableEq

def spawn (w : World) (core : Nat) (source : Source) : World :=
  { w with works := w.works ++ [{ core, source }] }

def enter (w : World) (k : Nat) (c : Core) : Call → Option World
  | .starting =>
    if c.phase = .opening then
      some ((w.set k { c with phase := .running }).note c.storage "starting")
    else none
  | .startNetworking bound =>
    if c.free ∧ c.net = .down then
      if bound then some ((w.set k { c with stopping := false, net := .up }).spawn k .networking)
      else some (w.set k { c with stopping := false })
    else none
  | .stopNetworking =>
    if c.free ∧ c.net = .up then some (w.set k { c with stopping := true, net := .joining })
    else none
  | .beginStopping => if c.free then some (w.set k { c with stopping := true }) else none
  | .joined =>
    if c.net = .joining ∧ ∀ work ∈ w.works, work.core = k → work.source.joined = false then
      some (w.set k { c with net := .down })
    else none
  | .shutdown =>
    if c.free then
      some (w.set k { c with
        phase := .stopping
        stopping := true
        net := if c.net = .up then .joining else .down })
    else none
  | .close =>
    if c.phase = .stopping ∧ c.net = .down then
      some ((w.set k { c with phase := .closed }).close c.storage)
    else none
  | .returned =>
    if c.phase = .closed then
      some { w.set k { c with phase := .over } with
        endings := { storage := c.storage, clean := true } :: w.endings }
    else none
  | .librarySwitched => if c.free then some (w.spawn k .librarySwitch) else none
  | .rebuild scope => if c.free then some (w.spawn k (.panel scope)) else none
  | .reported => if c.net = .down then none else some (w.spawn k .scanner)

/-! ## Work -/

/-- One step of a reconcile. -/
inductive Move where
  | begin
  /-- The library was listed. -/
  | listed
  | take
  /-- A report is due, with this much done. -/
  | report (done total : Nat) (path : String)
  | skip
  /-- No album is left. -/
  | finish
  | running
  /-- It ends: done, with nothing to do, by a panic, or before it began. -/
  | leave
  deriving DecidableEq

def Move.notes : Move → Bool
  | .report .. | .running => true
  | _ => false

/-- The work goes on at this stage. -/
def goOn (w : World) (i : Nat) (work : Work) (stage : Stage) : World :=
  { w with works := w.works.set i { work with stage } }

/-- The work ends, and gives back the right to reconcile. -/
def finish (w : World) (i : Nat) (work : Work) (c : Core) : World :=
  { w.set work.core { c with reconciling := c.reconciling && work.stage = .queued } with
    works := w.works.eraseIdx i }

def advance (w : World) (i : Nat) (work : Work) (c : Core) : Move → Option World
  | .begin =>
    if work.stage ≠ .queued then none
    else if c.reconciling ∨ c.storage = "" ∧ work.source ≠ .scanner then
      some (w.finish i work c)
    else some ((w.set work.core { c with reconciling := true }).goOn i work .listing)
  | .listed =>
    if work.stage ≠ .listing then none
    else if work.source ≠ .scanner ∧ c.stopping ∨ work.source.doesCovers = false then
      some (w.finish i work c)
    else some (w.goOn i work .building)
  | .take =>
    if work.stage ≠ .building then none
    else some (w.goOn i work (if c.stopping then .built else .album))
  | .report done total path =>
    if work.stage ≠ .album then none
    else some ((w.goOn i work .building).note c.storage (progress done total path))
  | .skip => if work.stage ≠ .album then none else some (w.goOn i work .building)
  | .finish => if work.stage ≠ .building then none else some (w.goOn i work .built)
  | .running =>
    if work.stage ≠ .built then none
    else some ((w.goOn i work .noted).note c.storage "running")
  | .leave => some (w.finish i work c)

/-! ## One event -/

inductive Event where
  | initCore (process : Nat) (storage : String)
  | call (k : Nat) (call : Call)
  | move (i : Nat) (move : Move)
  /-- The process dies. -/
  | die (process : Nat)
  deriving DecidableEq

/-- The sessions of a process that dies end with it, and so does all its work. -/
def die (w : World) (process : Nat) : World :=
  { w with
    cores := fun k => if (w.cores k).process = process then { w.cores k with
      phase := .over, net := .down } else w.cores k
    works := w.works.filter fun work => (w.cores work.core).process ≠ process
    endings := ((List.range w.made).filter fun k =>
        (w.cores k).process = process && (w.cores k).live).map (fun k =>
          { storage := (w.cores k).storage, clean := false }) ++ w.endings }

/-- A call that finds no core, or another one, answers so and changes nothing: it is no event. -/
def step (w : World) : Event → Option World
  | .initCore process storage =>
    if ∀ k < w.made, (w.cores k).process = process → (w.cores k).live = false then
      some { w with
        cores := Function.update w.cores w.made { process, storage, phase := .opening }
        made := w.made + 1
        openings := w.openings ++
          [{ storage, found := w.find storage, ended := w.endings }] }
    else none
  | .call k call => w.enter k (w.cores k) call
  | .move i move => w.works[i]?.bind fun work => w.advance i work (w.cores work.core) move
  | .die process => some (w.die process)

def system : System World Event where
  start w := w = {}
  next := step

end World

end Mbrc.Lifetime.Marker
