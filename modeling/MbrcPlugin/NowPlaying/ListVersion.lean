import MbrcPlugin.Lib.Transition
import MbrcPlugin.Commands.V6

/-!
# The version of the now playing list

A page of the list carries the list's version, and a mutation that carries one is checked against
it.  A handler's host calls, its look at the version and its bump are steps of their own, and the
handlers of all connections run at once.  What the host makes of a call is left open: the queue
is of any type.

`rev`, `unsettled`, `pages` and the ghost fields of a mutation are there for the statements: no step
of the code reads them.
-/

namespace Mbrc.ListVersion

open Providers CommandsV6

/-! ## Requests -/

inductive Edit where
  | play (order : Int)
  /-- The slots, from the highest down. -/
  | remove (orders : List Int)
  | move (source target : Int)
  | clear
  deriving DecidableEq

namespace Edit

def calls : Edit → List Command
  | play order => [.playListItem order]
  | remove orders => orders.map .removeListItem
  | move source target => [.moveListItem source target]
  | clear => [.clearList]

def isRemove : Edit → Bool
  | remove _ => true
  | _ => false

end Edit

structure Mutation where
  edit : Edit
  version : Option Int
  deriving DecidableEq

/-- What a mutating op takes its request for. -/
def parse (op : String) (data : Value) : Option (Except V6Error Mutation) :=
  match op with
  | "now_playing_list_play" => some do
    let order ← reqI64 data "order"
    let version ← optI64 data "version"
    return { edit := .play (i32Saturating order), version }
  | "now_playing_list_remove" => some do
    let orders ← ordersHighestFirst data "orders"
    let version ← optI64 data "version"
    return { edit := .remove orders, version }
  | "now_playing_list_move" => some do
    let source ← reqI64 data "from"
    let target ← reqI64 data "to"
    let version ← optI64 data "version"
    return { edit := .move (i32Saturating source) (i32Saturating target), version }
  | "now_playing_list_clear" => some do
    let version ← optI64 data "version"
    return { edit := .clear, version }
  | _ => none

/-- `check_version` refuses it. -/
def stale (version : Option Int) (current : Nat) : Bool :=
  version.any (· ≠ (current : Int).bmod (2 ^ 64))

/-- The handlers refuse the same versions. -/
theorem checkVersion_eq {data : Value} {version : Option Int} (current : Nat)
    (h : optI64 data "version" = .ok version) :
    checkVersion data current =
      if stale version current then
        .error
          { code := .staleList
            message := "the now-playing list changed; re-read it and retry" }
      else .ok () := by
  unfold checkVersion stale
  rw [h]
  cases version with
  | none => rfl
  | some expected =>
    simp only [Option.any_some, decide_eq_true_eq]
    show (if expected ≠ (current : Int).bmod (2 ^ 64) then _ else _) = _
    split <;> rfl

/-! ## The host -/

/-- The host with a queue of any type. -/
structure Host (Q : Type) where
  /-- What playing, removing, moving and clearing make of the queue; `none` where the call fails,
  which leaves it. -/
  edit : Command → Q → Option Q
  /-- What queueing leaves, whether it fails or not. -/
  queue : QueueType → List String → String → Q → Q
  length : Q → Nat

/-! ## Handlers under way -/

/-- A step of `list` that looks at the queue or at its version. -/
inductive PageStep where
  | queue
  | version
  deriving DecidableEq

/-- The page and the play order are read, then the version, then what the totals need. -/
def pageSteps (upNext totals : Bool) : List PageStep :=
  [.queue, .queue, .version] ++ if totals && !upNext then [.queue] else []

/-- A page that is being made: what it saw of the queue at each of its reads. -/
structure Reading (Q : Type) where
  todo : List PageStep
  version : Option Nat := none
  reads : List Q := []

structure ListPage (Q : Type) where
  version : Nat
  reads : List Q

inductive Outcome where
  | ok
  | staleList
  /-- A slot past the end of the queue. -/
  | invalidField
  | internal
  deriving DecidableEq

inductive Stage where
  | received
  /-- A removal passed the check, and the length of the queue is to be read. -/
  | checked
  | calling (todo : List Command)
  | bumping (ok : Bool)
  | done (outcome : Outcome)

/-- The check is passed and the host calls are not through. -/
def Stage.isLive : Stage → Bool
  | .checked | .calling _ => true
  | _ => false

structure Handling (Q : Type) where
  mutation : Mutation
  stage : Stage := .received
  /-- The pages answered before it was sent. -/
  held : List (ListPage Q)
  /-- The version it was checked against. -/
  seen : Nat := 0
  /-- When it was checked, one of the same version had changed the queue. -/
  late : Bool := false
  /-- The changes of the queue up to its check, and its own. -/
  rev : Nat := 0
  /-- The queue before and after each of its calls. -/
  calls : List (Q × Q) := []

section

variable {Q : Type} [DecidableEq Q]

def Handling.changed (m : Handling Q) : Bool := m.calls.any fun call => call.1 ≠ call.2

/-! ## The world -/

structure World (Q : Type) where
  queue : Q
  version : Nat
  /-- How often the queue changed. -/
  rev : Nat
  /-- It changed since the version last moved. -/
  unsettled : Bool
  readings : List (Reading Q)
  pages : List (ListPage Q)
  mutations : List (Handling Q)

def World.initial (queue : Q) : World Q :=
  { queue, version := 0, rev := 0, unsettled := false, readings := [], pages := []
    mutations := [] }

namespace World

def put (w : World Q) (queue : Q) : World Q :=
  if queue = w.queue then w else { w with queue, rev := w.rev + 1, unsettled := true }

/-- `bump_list_version`. -/
def bump (w : World Q) : World Q :=
  { w with version := (w.version + 1) % 2 ^ 64, unsettled := false }

/-- Another mutation of the same version has changed the queue. -/
def overtaken (w : World Q) (m : Mutation) : Bool :=
  m.version.isSome &&
    w.mutations.any fun other => other.mutation.version = m.version && other.changed

end World

/-! ## Steps -/

/-- The next step of a page; `none` where its host call fails. -/
def Reading.step (w : World Q) (r : Reading Q) (fails : Bool) : Option (Reading Q) :=
  match r.todo with
  | .queue :: rest =>
    if fails then none else some { r with todo := rest, reads := r.reads ++ [w.queue] }
  | .version :: rest => some { r with todo := rest, version := some w.version }
  | [] => none

/-- The next step of a mutation; `fails` is for the read of the length. -/
def mutationStep (host : Host Q) (w : World Q) (m : Handling Q) (fails : Bool) :
    Option (World Q × Handling Q) :=
  match m.stage with
  | .received =>
    let m := { m with seen := w.version, rev := w.rev, late := w.overtaken m.mutation }
    if stale m.mutation.version w.version then some (w, { m with stage := .done .staleList })
    else if m.mutation.edit.isRemove then some (w, { m with stage := .checked })
    else some (w, { m with stage := .calling m.mutation.edit.calls })
  | .checked =>
    match m.mutation.edit with
    | .remove orders =>
      if fails then some (w, { m with stage := .done .internal })
      else if host.length w.queue ≤ (orders.headD 0).toNat then
        some (w, { m with stage := .done .invalidField })
      else some (w, { m with stage := .calling m.mutation.edit.calls })
    | _ => none
  | .calling [] => some (w, { m with stage := .bumping true })
  | .calling (c :: rest) =>
    match host.edit c w.queue with
    | some queue =>
      some (w.put queue,
        { m with
          stage := .calling rest, rev := (w.put queue).rev
          calls := m.calls ++ [(w.queue, queue)] })
    -- some slots may be gone already
    | none =>
      some (w, { m with
        stage := if m.mutation.edit.isRemove then .bumping false else .done .internal })
  | .bumping ok => some (w.bump, { m with stage := .done (if ok then .ok else .internal) })
  | .done _ => none

inductive Event where
  /-- `now_playing_list` begins. -/
  | list (upNext totals : Bool)
  | read (n : Nat) (fails : Bool)
  | answer (n : Nat)
  | send (op : String) (data : Value)
  | run (n : Nat) (fails : Bool)
  /-- The host call of `now_playing_queue` or `library_queue`. -/
  | queue (mode : QueueType) (paths : List String) (play : String)
  /-- The host reports that the queue changed. -/
  | notify

def step (host : Host Q) (w : World Q) : Event → Option (World Q)
  | .list upNext totals =>
    some { w with readings := w.readings ++ [{ todo := pageSteps upNext totals }] }
  | .read n fails => do
    let r ← w.readings[n]?
    if r.todo = [] then none
    else
      match r.step w fails with
      | some r => some { w with readings := w.readings.set n r }
      | none => some { w with readings := w.readings.eraseIdx n }
  | .answer n => do
    let r ← w.readings[n]?
    let version ← r.version
    if r.todo = [] then
      some { w with
        readings := w.readings.eraseIdx n, pages := w.pages ++ [{ version, reads := r.reads }] }
    else none
  | .send op data =>
    match parse op data with
    | some (.ok mutation) =>
      some { w with mutations := w.mutations ++ [{ mutation, held := w.pages }] }
    | some (.error _) => some w
    | none => none
  | .run n fails => do
    let m ← w.mutations[n]?
    let (w', m') ← mutationStep host w m fails
    some { w' with mutations := w.mutations.set n m' }
  | .queue mode paths play => some (w.put (host.queue mode paths play w.queue))
  | .notify => some w.bump

def system (host : Host Q) : Transition.System (World Q) Event where
  start w := ∃ queue, w = World.initial queue
  next := step host

end

end Mbrc.ListVersion
