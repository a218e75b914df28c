import MbrcPlugin.Lib.Transition
import Mathlib.Tactic.Common

/-!
# Starting and stopping the networking

`start_networking`, `stop_networking` and `shutdown` run one at a time, each under the state
lock until it returns.  A start spawns the networking thread and waits for its bind; a stop
signals the thread and joins it.  The signal is a `Notify`: it wakes the waits that exist and is
not remembered.  The thread's wait exists from the moment it enters its select, which is after
it has reported its bind and spawned its tasks.
-/

namespace Mbrc.Server

/-- Where `run_thread` stands. -/
inductive NetThread where
  /-- The runtime is built next. -/
  | building
  | binding
  /-- Bound; `ready.send(Ok(()))` next. -/
  | reporting
  /-- The discovery responder and the mDNS advertisement are spawned next. -/
  | advertising
  /-- The other tasks and the blocking jobs are spawned next. -/
  | spawning
  /-- The select is entered next: `shutdown.notified()` is created. -/
  | selecting
  | waiting (woken : Bool)
  /-- In `withdraw_mdns`. -/
  | withdrawing
  | aborting
  /-- `block_on` has returned; the runtime goes once nothing blocking is left in it. -/
  | dropping
  | ended
  deriving DecidableEq

/-- Where the mDNS task stands. -/
inductive MdnsTask where
  /-- Not spawned: a loopback listener, or the user has turned it off. -/
  | absent
  | starting
  /-- The services are registered; its wait on the signal is created next. -/
  | registered
  | waiting (woken : Bool)
  | withdrawing
  | ended
  deriving DecidableEq

/-- Where the call that holds the state lock stands. -/
inductive Caller where
  /-- Nobody holds the lock. -/
  | idle
  /-- `ready_rx.recv()`. -/
  | starting
  /-- The start failed: its thread is joined. -/
  | failing
  /-- `NetHandle::stop`: the signal comes next. -/
  | stopping
  /-- `NetHandle::stop`: the thread is joined. -/
  | joining
  deriving DecidableEq

/-- The runtime of the plugin, as far as networking goes. -/
structure Networking where
  /-- `STATE` holds a core. -/
  initialized : Bool
  /-- It holds a `NetHandle`. -/
  net : Bool
  caller : Caller
  thread : NetThread
  /-- What the thread put on the ready channel. -/
  ready : Option Bool
  mdns : MdnsTask
  /-- Tasks inside a host call and blocking jobs, which the runtime waits for. -/
  busy : Nat
  deriving DecidableEq

/-- The calls of the host. -/
inductive HostCall where
  | initCore
  | startNetworking
  | stopNetworking
  | shutdown
  deriving DecidableEq

namespace NetThread

/-- The thread has created its wait on the shutdown signal. -/
def hasWait : NetThread → Bool
  | .waiting _ | .withdrawing | .aborting | .dropping | .ended => true
  | _ => false

/-- It has seen the signal. -/
def sawStop : NetThread → Bool
  | .waiting woken => woken
  | .withdrawing | .aborting | .dropping | .ended => true
  | _ => false

/-- It has reported its bind and was not woken: networking is up. -/
def isUp : NetThread → Bool
  | .advertising | .spawning | .selecting | .waiting false => true
  | _ => false

/-- Its runtime takes new work. -/
def takesWork : NetThread → Bool
  | .building | .binding | .dropping | .ended => false
  | _ => true

/-- `notify_waiters`, at the thread's wait. -/
def notified : NetThread → NetThread
  | .waiting _ => .waiting true
  | t => t

end NetThread

/-- `notify_waiters`, at the wait of the mDNS task. -/
def MdnsTask.notified : MdnsTask → MdnsTask
  | .waiting _ => .waiting true
  | m => m

namespace Networking

/-- Before the first call. -/
def initial : Networking where
  initialized := false
  net := false
  caller := .idle
  thread := .ended
  ready := none
  mdns := .absent
  busy := 0

/-- A call takes the state lock and goes as far as it waits for something.  `spawns` says whether
the thread of a start can be spawned. -/
def enter (s : Networking) (call : HostCall) (spawns : Bool) : Option Networking :=
  if s.caller ≠ .idle then none
  else match call with
    | .initCore => some { s with initialized := true }
    | .startNetworking =>
      if !s.initialized || s.net || !spawns then some s
      else some { s with caller := .starting, thread := .building, ready := none, mdns := .absent }
    | .stopNetworking =>
      if s.initialized && s.net then some { s with net := false, caller := .stopping } else some s
    | .shutdown =>
      if s.initialized && s.net then
        some { s with initialized := false, net := false, caller := .stopping }
      else some { s with initialized := false }

/-- The call goes on: the bind is known, the signal is given, or the thread is joined. -/
def proceed (s : Networking) : Option Networking :=
  match s.caller with
  | .idle => none
  | .starting => match s.ready with
    | some true => some { s with net := true, caller := .idle }
    | some false => some { s with caller := .failing }
    | none => if s.thread = .ended then some { s with caller := .failing } else none
  | .stopping =>
    some { s with caller := .joining, thread := s.thread.notified, mdns := s.mdns.notified }
  | .failing | .joining => if s.thread = .ended then some { s with caller := .idle } else none

/-- One step of the thread.  `ok` says how the build of the runtime and the bind go and whether
mDNS is on, `jobs` how many blocking jobs are spawned. -/
def runThread (s : Networking) (ok : Bool) (jobs : Nat) : Option Networking :=
  match s.thread with
  | .building =>
    if ok then some { s with thread := .binding }
    else some { s with thread := .ended, ready := some false }
  | .binding =>
    if ok then some { s with thread := .reporting }
    else some { s with thread := .dropping, ready := some false }
  | .reporting => some { s with thread := .advertising, ready := some true }
  | .advertising => some { s with thread := .spawning, mdns := if ok then .starting else .absent }
  | .spawning => some { s with thread := .selecting, busy := s.busy + jobs }
  | .selecting => some { s with thread := .waiting false }
  | .waiting woken => if woken then some { s with thread := .withdrawing } else none
  | .withdrawing =>
    if s.mdns = .absent ∨ s.mdns = .ended then some { s with thread := .aborting } else none
  | .aborting => some { s with thread := .dropping }
  | .dropping => if s.busy = 0 then some { s with thread := .ended, mdns := .ended } else none
  | .ended => none

/-- One step of the mDNS task, `ok` saying whether its daemon starts. -/
def runMdns (s : Networking) (ok : Bool) : Option Networking :=
  match s.mdns with
  | .starting => some { s with mdns := if ok then .registered else .ended }
  | .registered => some { s with mdns := .waiting false }
  | .waiting true => some { s with mdns := .withdrawing }
  | .withdrawing => some { s with mdns := .ended }
  | .absent | .waiting false | .ended => none

/-- What happens next. -/
inductive Event where
  | enter (call : HostCall) (spawns : Bool)
  | proceed
  | thread (ok : Bool) (jobs : Nat)
  | mdns (ok : Bool)
  /-- `MDNS_SHUTDOWN_GRACE` is over. -/
  | timeout
  /-- A task or a job of the runtime goes into a host call. -/
  | workStarts
  | workReturns

/-- One event. -/
def step (s : Networking) : Event → Option Networking
  | .enter call spawns => s.enter call spawns
  | .proceed => s.proceed
  | .thread ok jobs => s.runThread ok jobs
  | .mdns ok => s.runMdns ok
  | .timeout => if s.thread = .withdrawing then some { s with thread := .aborting } else none
  | .workStarts => if s.thread.takesWork then some { s with busy := s.busy + 1 } else none
  | .workReturns => if s.busy = 0 then none else some { s with busy := s.busy - 1 }

/-- Networking, from before the first call. -/
def system : Transition.System Networking Event where
  start s := s = initial
  next := step

end Networking

end Mbrc.Server
