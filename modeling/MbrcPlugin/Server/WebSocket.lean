import MbrcPlugin.Lib.Transition
import MbrcPlugin.Server.SessionV6

/-!
# A V6 session over a WebSocket

One task drives the socket: its select takes either the next frame of the outbound channel or
the next message of the client, and it writes the replies to a message itself, before it looks
at the channel again.  The connection is registered with the broadcaster and its watch is
started after the replies to its handshake are written.
-/

namespace Mbrc.Server

/-- Where the task of a WebSocket stands. -/
inductive WsDoing (P E : Type) where
  /-- In its select. -/
  | selecting
  /-- Writing the replies to a message. -/
  | replying (replies : List (Frame P E)) (close : Bool)
  /-- The replies are written; registration comes next, for a main not registered yet. -/
  | subscribing (close : Bool)
  /-- Registered; the watch is started next. -/
  | watching (close : Bool)
  /-- The loop is left. -/
  | unregistering
  | over
  deriving DecidableEq

/-- A WebSocket: its task, the channel it drains, and what of Party Mode reaches it. -/
structure Ws (P E : Type) where
  doing : WsDoing P E
  session : V6Session P
  subscribed : Bool
  /-- Frames sent on the channel and not written yet. -/
  queue : List (Frame P E)
  /-- A write failed; a socket that failed once stays failed. -/
  failed : Bool
  /-- What the client was written. -/
  written : List (Frame P E)
  watch : Watch P
  permissions : P
  changes : Nat

namespace Ws

variable {P E : Type}

/-- An upgraded socket before its first message. -/
def opened (permissions : P) (changes : Nat) : Ws P E where
  doing := .selecting
  session := V6Session.initial
  subscribed := false
  queue := []
  failed := false
  written := []
  watch := .notStarted
  permissions := permissions
  changes := changes

/-- The receiver of the channel lives until the task returns. -/
def isOpen (w : Ws P E) : Bool :=
  match w.doing with
  | .over => false
  | _ => true

/-- The end of a turn of the loop. -/
def afterMessage (close : Bool) : WsDoing P E := if close then .unregistering else .selecting

/-- One step of the task past its select, `ok` being how a write goes.  A failed write leaves
the loop over the replies, and nothing else. -/
def run (w : Ws P E) (ok : Bool) : Option (Ws P E) :=
  match w.doing with
  | .selecting | .over => none
  | .replying (f :: replies) close =>
    if ok && !w.failed then
      some { w with written := w.written ++ [f], doing := .replying replies close }
    else some { w with failed := true, doing := .subscribing close }
  | .replying [] close => some { w with doing := .subscribing close }
  | .subscribing close =>
    if !w.subscribed && w.session.isMain then
      some { w with subscribed := true, doing := .watching close }
    else some { w with doing := afterMessage close }
  | .watching close =>
    some { w with
      watch := match w.session.told with
        | some told => .checking told w.changes
        | none => w.watch
      doing := afterMessage close }
  | .unregistering => some { w with subscribed := false, queue := [], doing := .over }

/-- The select takes the next frame of the channel. -/
def outbound (w : Ws P E) (ok : Bool) : Option (Ws P E) :=
  match w.doing, w.queue with
  | .selecting, f :: queue =>
    if ok && !w.failed then some { w with queue, written := w.written ++ [f] }
    else some { w with queue, failed := true, doing := .unregistering }
  | _, _ => none

variable [DecidableEq P]

/-- What happens next. -/
inductive Event (P E : Type) where
  /-- The client's next text message. -/
  | inbound (request : Request)
  /-- The client closes, or a read fails. -/
  | hangUp
  | run (ok : Bool)
  | outbound (ok : Bool)
  | watch (closes : Bool)
  | broadcast (frames : List E)
  /-- Party Mode changes, for this client or for another. -/
  | change (permissions : P)

/-- One event of the socket. -/
def step (w : Ws P E) : Event P E → Option (Ws P E)
  | .inbound request => match w.doing with
    | .selecting =>
      let (session, outcome) := w.session.handleFrame w.permissions request
      some { w with session, doing := .replying outcome.replies outcome.close }
    | _ => none
  | .hangUp => match w.doing with
    | .selecting => some { w with doing := .unregistering }
    | _ => none
  | .run ok => w.run ok
  | .outbound ok => w.outbound ok
  | .watch closes =>
    (w.watch.step w.permissions w.changes w.isOpen closes).map fun (watch, told) =>
      { w with watch, queue := w.queue ++ told.map .permissionsChanged }
  | .broadcast frames =>
    if w.subscribed then some { w with queue := w.queue ++ frames.map .event } else some w
  | .change permissions => some { w with permissions, changes := w.changes + 1 }

/-! ## What the task can do -/

/-- What one step of the task past its select leads to. -/
inductive RunStep (w : Ws P E) : Ws P E → Prop where
  | wrote (f : Frame P E) (replies : List (Frame P E)) (close : Bool)
      (h : w.doing = .replying (f :: replies) close) (hf : w.failed = false) :
    RunStep w { w with written := w.written ++ [f], doing := .replying replies close }
  | lost (f : Frame P E) (replies : List (Frame P E)) (close : Bool)
      (h : w.doing = .replying (f :: replies) close) :
    RunStep w { w with failed := true, doing := .subscribing close }
  | replied (close : Bool) (h : w.doing = .replying [] close) :
    RunStep w { w with doing := .subscribing close }
  | subscribe (close : Bool) (h : w.doing = .subscribing close) (hs : w.subscribed = false)
      (hm : w.session.isMain = true) :
    RunStep w { w with subscribed := true, doing := .watching close }
  | passed (close : Bool) (h : w.doing = .subscribing close)
      (hs : w.session.isMain = true → w.subscribed = true) :
    RunStep w { w with doing := afterMessage close }
  | watched (close : Bool) (h : w.doing = .watching close) :
    RunStep w { w with
      watch := match w.session.told with
        | some told => .checking told w.changes
        | none => w.watch
      doing := afterMessage close }
  | unregister (h : w.doing = .unregistering) :
    RunStep w { w with subscribed := false, queue := [], doing := .over }

omit [DecidableEq P] in
/-- **Every step of the task past its select.** -/
theorem run_cases {w w' : Ws P E} {ok : Bool} (hs : w.run ok = some w') : RunStep w w' := by
  unfold run at hs
  split at hs
  case h_1 | h_2 => simp at hs
  case h_3 f replies close h =>
    split at hs
    · rename_i hok
      obtain rfl := Option.some.inj hs
      exact .wrote f replies close h (by simp_all)
    · obtain rfl := Option.some.inj hs
      exact .lost f replies close h
  case h_4 close h =>
    obtain rfl := Option.some.inj hs
    exact .replied close h
  case h_5 close h =>
    split at hs
    · rename_i hreg
      obtain ⟨hsub, hm⟩ : w.subscribed = false ∧ w.session.isMain = true := by simpa using hreg
      obtain rfl := Option.some.inj hs
      exact .subscribe close h hsub hm
    · rename_i hreg
      obtain rfl := Option.some.inj hs
      refine .passed close h fun hm => ?_
      simpa [hm] using hreg
  case h_6 close h =>
    obtain rfl := Option.some.inj hs
    exact .watched close h
  case h_7 h =>
    obtain rfl := Option.some.inj hs
    exact .unregister h

omit [DecidableEq P] in
/-- The select takes a frame of the channel: it is written, or the socket has failed. -/
theorem outbound_cases {w w' : Ws P E} {ok : Bool} (hs : w.outbound ok = some w') :
    ∃ f queue, w.doing = .selecting ∧ w.queue = f :: queue ∧
      ((w.failed = false ∧ w' = { w with queue, written := w.written ++ [f] }) ∨
        w' = { w with queue, failed := true, doing := .unregistering }) := by
  unfold outbound at hs
  split at hs
  · rename_i f queue hd hq
    refine ⟨f, queue, hd, hq, ?_⟩
    split at hs
    · rename_i hok
      exact Or.inl ⟨by simp_all, (Option.some.inj hs).symm⟩
    · exact Or.inr (Option.some.inj hs).symm
  · simp at hs

/-- A WebSocket from the moment it is upgraded. -/
def system (P E : Type) [DecidableEq P] : Transition.System (Ws P E) (Event P E) where
  start w := ∃ permissions changes, w = opened permissions changes
  next := step

end Ws

end Mbrc.Server
