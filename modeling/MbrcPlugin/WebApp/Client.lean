import Mathlib.Logic.Function.Basic

/-!
# The V6 client of the web app

`connect`, `disconnect`, `reconnect` and `call` of the client, and its handlers for what the
browser reports: the events of its sockets, of its event stream and of its reconnect timer, and
the end of a call over HTTP.  `Client.step` takes one of them.

The sockets are numbered as they are made, and a socket keeps its ready state after the client has
dropped it, since its close event comes later.  `sent` and `settled` are histories of the calls:
the code keeps the promise of a call and no record of it.
-/

namespace Mbrc.WebApp

/-! ## What the browser has -/

/-- `WebSocket.readyState`. -/
inductive ReadyState where
  | connecting | opened | closing | closed
  deriving DecidableEq

/-- An `EventSource` that has not been closed. -/
structure Source where
  number : Nat
  opened : Bool
  deriving DecidableEq

/-! ## What the server says -/

/-- The error of an answer, with what `code` and `field` of it are. -/
structure V6Error where
  code : Option String
  field : Option String := none
  deriving DecidableEq

/-- Whether an error means this browser's token will never be accepted as it is. -/
def isAuthFailure (error : V6Error) : Bool :=
  error.code == some "unauthorized" || error.code == some "invalid_token"

/-- Whether the stored client id is spoken for. -/
def isIdentityRefusal (error : V6Error) : Bool :=
  error.code == some "invalid_token" && error.field == some "client_token"

/-- One frame, as `receive` reads it. -/
inductive Frame where
  /-- Not JSON, or of no kind the client knows. -/
  | unreadable
  | event (number : Nat)
  /-- `id` is what `Number` makes of the frame's id, `none` where that is no natural number. -/
  | response (id : Option Nat) (error : Option V6Error)
  deriving DecidableEq

/-! ## The client -/

/-- The payload of `connection_changed`. -/
structure Notice where
  connected : Bool
  retrying : Bool
  deriving DecidableEq

/-- A call that went over a socket. -/
structure Sent where
  id : Nat
  socket : Nat
  deriving DecidableEq

inductive Settlement where
  /-- By the response that carried this id. -/
  | response (id : Nat)
  | rejection
  deriving DecidableEq

/-- The pending calls, with the histories of the calls sent and settled. -/
structure Calls where
  nextId : Nat := 1
  pending : List Nat := []
  sent : List Sent := []
  settled : List (Nat × Settlement) := []
  deriving DecidableEq

namespace Calls

def add (c : Calls) (s : Nat) : Calls :=
  { c with
    nextId := c.nextId + 1
    pending := c.pending ++ [c.nextId]
    sent := c.sent ++ [{ id := c.nextId, socket := s }] }

/-- The answer to a call: the one with its id is settled, and nothing where there is none. -/
def answer (c : Calls) (id : Nat) : Calls :=
  if id ∈ c.pending then
    { c with
      pending := c.pending.filter (· ≠ id)
      settled := c.settled ++ [(id, .response id)] }
  else c

def failAll (c : Calls) : Calls :=
  { c with
    pending := []
    settled := c.settled ++ c.pending.map fun id => (id, .rejection) }

end Calls

/-- How many times a dropped connection is chased. -/
def maxAttempts : Nat := 8

structure Client extends Calls where
  /-- Every socket made, by its number; `closed` beyond `nextSocket`. -/
  readyState : Nat → ReadyState := fun _ => .closed
  nextSocket : Nat := 0
  socket : Option Nat := none
  attempt : Nat := 0
  reconnectTimer : Option Nat := none
  /-- The timers that are running. -/
  timers : List Nat := []
  nextTimer : Nat := 0
  closedDeliberately : Bool := false
  handshaked : Bool := false
  source : Option Source := none
  nextSource : Nat := 0
  /-- Whether this browser has event streams at all. -/
  hasEventSource : Bool := true
  /-- The last `connection_changed`. -/
  told : Option Notice := none
  /-- The calls over HTTP that are running. -/
  http : List Nat := []
  nextHttp : Nat := 0

namespace Client

/-! ## Opening and closing -/

/-- `retrying` says whether another attempt is already on a timer. -/
def emitConnection (c : Client) (connected : Bool) (retrying : Bool := !connected) : Client :=
  { c with told := some { connected, retrying } }

def clearTimer (c : Client) : Client :=
  { c with
    timers := c.timers.filter fun t => c.reconnectTimer ≠ some t
    reconnectTimer := none }

/-- The socket is connecting or open. -/
def live (c : Client) (s : Nat) : Bool :=
  c.readyState s = .connecting || c.readyState s = .opened

/-- The current socket is being closed. -/
def leaving (c : Client) : Bool := c.socket.any fun s => c.readyState s = .closing

/-- `close` of a socket: its close event comes later. -/
def closeSocket (c : Client) (s : Nat) : Client :=
  { c with
    readyState := if c.live s then Function.update c.readyState s .closing else c.readyState }

def openSocket (c : Client) : Client :=
  if c.socket.any c.live then { c with closedDeliberately := false }
  else
    { c with
      closedDeliberately := false
      readyState := Function.update c.readyState c.nextSocket .connecting
      socket := some c.nextSocket
      nextSocket := c.nextSocket + 1 }

def connect (c : Client) : Client := ({ c with attempt := 0 } : Client).clearTimer.openSocket

/-- Stops reconnecting. -/
def disconnect (c : Client) : Client :=
  let c := ({ c with closedDeliberately := true, source := none } : Client).clearTimer
  match c.socket with
  | none => c
  | some s => { c.closeSocket s with socket := none }

def failAllPending (c : Client) : Client := { c with toCalls := c.toCalls.failAll }

def reconnect (c : Client) : Client :=
  ({ c.disconnect with handshaked := false } : Client).failAllPending.connect

/-- Drops a token the server will not accept and stops reconnecting. -/
def rejectAuth (c : Client) : Client := c.disconnect

/-! ## Calls -/

/-- What carries a call. -/
inductive Carrier where
  | socket (id : Nat)
  | http (number : Nat)
  deriving DecidableEq

def callOverSocket (c : Client) (s : Nat) : Client × Carrier :=
  ({ c with toCalls := c.toCalls.add s }, .socket c.nextId)

def callOverHttp (c : Client) : Client × Carrier :=
  ({ c with nextHttp := c.nextHttp + 1, http := c.http ++ [c.nextHttp] }, .http c.nextHttp)

def call (c : Client) : Client × Carrier :=
  match c.socket with
  | some s =>
    if c.readyState s = .opened ∧ c.handshaked then c.callOverSocket s else c.callOverHttp
  | none => c.callOverHttp

/-- The end of a call over HTTP. -/
def httpDone (c : Client) (number : Nat) (error : Option V6Error) : Client :=
  let c := { c with http := c.http.filter (· ≠ number) }
  if error.any isAuthFailure then c.rejectAuth else c

/-! ## What the socket says -/

/-- The answer to a handshake. -/
def handshakeReply (c : Client) (error : Option V6Error) : Client :=
  let c := { c with handshaked := error.isNone }
  match error with
  | none => ({ c with attempt := 0, source := none } : Client).emitConnection true
  | some error =>
    if isIdentityRefusal error then c.emitConnection false
    else if isAuthFailure error then c.rejectAuth.emitConnection false
    else c.emitConnection false

def settle (c : Client) (id : Nat) : Client := { c with toCalls := c.toCalls.answer id }

def receive (c : Client) : Frame → Client
  | .unreadable => c
  | .event _ => c
  | .response (some 0) error => c.handshakeReply error
  | .response (some id) _ => c.settle id
  | .response none _ => c

/-- Backs off, and eventually stops. -/
def scheduleReconnect (c : Client) : Client :=
  if maxAttempts ≤ c.attempt then
    if c.source.isNone then c.emitConnection false false else c
  else
    let c := { c with attempt := c.attempt + 1 }
    let c := if c.source.isNone then c.emitConnection false else c
    { c with
      reconnectTimer := some c.nextTimer
      timers := c.timers ++ [c.nextTimer]
      nextTimer := c.nextTimer + 1 }

def startEventStream (c : Client) : Client :=
  if c.source.isSome || !c.hasEventSource then c
  else
    { c with
      source := some { number := c.nextSource, opened := false }
      nextSource := c.nextSource + 1 }

/-- The handler of a socket's close event. -/
def onClose (c : Client) (s : Nat) : Client :=
  let c := { c with readyState := Function.update c.readyState s .closed }
  if c.socket ≠ some s then c
  else
    let c := ({ c with handshaked := false } : Client).failAllPending
    if c.closedDeliberately then c.emitConnection false
    else c.scheduleReconnect.startEventStream

/-- The end of an event stream, or a moment in which it connects again by itself. -/
def onStreamError (c : Client) (source : Source) (final : Bool) : Client :=
  if final then
    ({ c with source := none } : Client).emitConnection false (c.attempt < maxAttempts)
  else { c with source := some { source with opened := false } }

/-! ## One event -/

inductive Event where
  | connect | disconnect | reconnect | call
  | httpDone (number : Nat) (error : Option V6Error)
  | opened (s : Nat)
  | message (s : Nat) (frame : Frame)
  | failed (s : Nat)
  | closed (s : Nat)
  | timer (t : Nat)
  | streamOpened
  | streamLine (frame : Frame)
  | streamError (final : Bool)
  deriving DecidableEq

/-- One event, `none` where the browser cannot report it.  A message may still come from a socket
that is being closed. -/
def step (c : Client) : Event → Option Client
  | .connect => some c.connect
  | .disconnect => some c.disconnect
  | .reconnect => some c.reconnect
  | .call => some c.call.1
  | .httpDone number error => if number ∈ c.http then some (c.httpDone number error) else none
  | .opened s =>
    if c.readyState s = .connecting then
      some { c with readyState := Function.update c.readyState s .opened }
    else none
  | .message s frame =>
    if c.readyState s = .opened ∨ c.readyState s = .closing then some (c.receive frame) else none
  | .failed s => if c.readyState s = .closed then none else some (c.closeSocket s)
  | .closed s => if c.readyState s = .closed then none else some (c.onClose s)
  | .timer t =>
    if t ∈ c.timers then
      some ({ c with timers := c.timers.filter (· ≠ t) } : Client).openSocket
    else none
  | .streamOpened =>
    match c.source with
    | some source =>
      some (({ c with source := some { source with opened := true } } : Client).emitConnection true)
    | none => none
  | .streamLine frame => if c.source.any (·.opened) then some (c.receive frame) else none
  | .streamError final => c.source.map fun source => c.onStreamError source final

/-! ## What the parts leave alone -/

variable {c c' : Client}

@[simp] theorem toCalls_openSocket : c.openSocket.toCalls = c.toCalls := by
  unfold openSocket
  split <;> rfl

@[simp] theorem timers_openSocket : c.openSocket.timers = c.timers := by
  unfold openSocket
  split <;> rfl

@[simp] theorem toCalls_connect : c.connect.toCalls = c.toCalls := by
  simp [connect, clearTimer]

@[simp] theorem toCalls_disconnect : c.disconnect.toCalls = c.toCalls := by
  unfold disconnect
  dsimp only
  split <;> rfl

@[simp] theorem socket_disconnect : c.disconnect.socket = none := by
  unfold disconnect
  dsimp only
  split
  · assumption
  · rfl

@[simp] theorem source_disconnect : c.disconnect.source = none := by
  unfold disconnect
  dsimp only
  split <;> rfl

@[simp] theorem timers_disconnect :
    c.disconnect.timers = c.timers.filter fun t => c.reconnectTimer ≠ some t := by
  unfold disconnect
  dsimp only
  split <;> rfl

@[simp] theorem told_disconnect : c.disconnect.told = c.told := by
  unfold disconnect
  dsimp only
  split <;> rfl

@[simp] theorem nextSocket_disconnect : c.disconnect.nextSocket = c.nextSocket := by
  unfold disconnect
  dsimp only
  split <;> rfl

@[simp] theorem handshaked_disconnect : c.disconnect.handshaked = c.handshaked := by
  unfold disconnect
  dsimp only
  split <;> rfl

/-- The sockets that go on are the ones that are being closed or are closed already. -/
theorem readyState_disconnect (s : Nat) :
    c.disconnect.readyState s =
      if c.socket = some s ∧ c.live s then .closing else c.readyState s := by
  unfold disconnect
  dsimp only
  split
  case h_1 h => simp_all [clearTimer]
  case h_2 t h =>
    have h : c.socket = some t := h
    simp only [closeSocket, clearTimer, live, h, Option.some.injEq]
    by_cases hts : t = s
    · subst hts
      split <;> simp_all
    · split <;> simp_all [Function.update, Ne.symm hts]

theorem toCalls_scheduleReconnect : c.scheduleReconnect.toCalls = c.toCalls := by
  unfold scheduleReconnect emitConnection
  dsimp only
  split <;> split <;> rfl

theorem toCalls_startEventStream : c.startEventStream.toCalls = c.toCalls := by
  unfold startEventStream
  split <;> rfl

/-- The sockets as they were, and the same one current. -/
def SameSockets (c c' : Client) : Prop := c'.readyState = c.readyState ∧ c'.socket = c.socket

theorem sameSockets_scheduleReconnect : SameSockets c c.scheduleReconnect := by
  unfold scheduleReconnect emitConnection SameSockets
  dsimp only
  split <;> split <;> exact ⟨rfl, rfl⟩

theorem sameSockets_startEventStream : SameSockets c c.startEventStream := by
  unfold startEventStream SameSockets
  split <;> exact ⟨rfl, rfl⟩

/-! ## The reconnect timer -/

/-- At most one timer runs, the client can stop it, and it runs only while the current socket is
closed. -/
structure Timed (c : Client) : Prop where
  owned : ∀ t ∈ c.timers, c.reconnectTimer = some t
  idle : c.timers ≠ [] → ∃ s, c.socket = some s ∧ c.readyState s = .closed

namespace Timed

theorem of_nil (h : c.timers = []) : Timed c where
  owned t ht := by simp [h] at ht
  idle hne := absurd h hne

theorem cleared (h : Timed c) :
    (c.timers.filter fun t => c.reconnectTimer ≠ some t) = [] := by
  simpa using h.owned

theorem fired (h : Timed c) {t : Nat} (ht : t ∈ c.timers) : c.timers.filter (· ≠ t) = [] := by
  have ht := h.owned t ht
  simpa using fun a ha => Option.some.inj ((h.owned a ha).symm.trans ht)

/-- While the current socket is not closed no timer runs. -/
theorem timers_eq_nil (h : Timed c) {s : Nat} (hs : c.socket = some s)
    (hopen : c.readyState s ≠ .closed) : c.timers = [] := by
  by_contra hne
  obtain ⟨t, ht, hclosed⟩ := h.idle hne
  obtain rfl : s = t := Option.some.inj (hs.symm.trans ht)
  exact hopen hclosed

theorem disconnect (h : Timed c) : Timed c.disconnect :=
  .of_nil (by rw [timers_disconnect]; exact h.cleared)

theorem connect (h : Timed c) : Timed c.connect :=
  .of_nil (by simpa [Client.connect, clearTimer] using h.cleared)

theorem congr (h : Timed c) (ht : c'.timers = c.timers)
    (hr : c'.reconnectTimer = c.reconnectTimer) (hs : c'.socket = c.socket)
    (hst : ∀ s, c.readyState s = .closed → c'.readyState s = .closed) : Timed c' where
  owned t hm := by
    rw [hr]
    exact h.owned t (ht ▸ hm)
  idle hne := by
    obtain ⟨s, hcur, hclosed⟩ := h.idle (ht ▸ hne)
    exact ⟨s, hs.trans hcur, hst s hclosed⟩

theorem closeSocket (h : Timed c) (s : Nat) : Timed (c.closeSocket s) := by
  refine h.congr rfl rfl rfl fun t ht => ?_
  unfold Client.closeSocket live
  by_cases hts : t = s
  · subst hts
    simp [ht]
  · dsimp only
    split <;> simp [Function.update, hts, ht]

theorem handshakeReply (h : Timed c) (error : Option V6Error) : Timed (c.handshakeReply error) := by
  have hflag : Timed { c with handshaked := error.isNone } := h.congr rfl rfl rfl fun _ hs => hs
  unfold Client.handshakeReply
  dsimp only
  split
  · exact h.congr rfl rfl rfl fun _ hs => hs
  · split
    · exact h.congr rfl rfl rfl fun _ hs => hs
    · split
      · exact hflag.disconnect.congr rfl rfl rfl fun _ hs => hs
      · exact h.congr rfl rfl rfl fun _ hs => hs

theorem receive (h : Timed c) (frame : Frame) : Timed (c.receive frame) := by
  unfold Client.receive
  split
  case h_3 => exact h.handshakeReply _
  all_goals exact h.congr rfl rfl rfl fun _ hs => hs

theorem startEventStream (h : Timed c) : Timed c.startEventStream := by
  unfold Client.startEventStream
  split
  · exact h
  · exact h.congr rfl rfl rfl fun _ hs => hs

theorem scheduleReconnect {s : Nat} (hnil : c.timers = []) (hcur : c.socket = some s)
    (hs : c.readyState s = .closed) : Timed c.scheduleReconnect := by
  unfold Client.scheduleReconnect
  dsimp only
  split
  · split <;> exact .of_nil hnil
  · split
    all_goals
      exact ⟨by simp [hnil, emitConnection], fun _ => ⟨s, hcur, hs⟩⟩

theorem onClose (h : Timed c) {s : Nat} (hs : c.readyState s ≠ .closed) : Timed (c.onClose s) := by
  unfold Client.onClose
  dsimp only
  split
  · refine h.congr rfl rfl rfl fun t ht => ?_
    by_cases hts : t = s <;> simp [Function.update, hts, ht]
  · rename_i hcur
    have hcur : c.socket = some s := not_not.mp hcur
    have hnil : c.timers = [] := h.timers_eq_nil hcur hs
    split
    · exact .of_nil hnil
    · exact startEventStream (scheduleReconnect hnil hcur (by simp [failAllPending]))

/-- **The reconnect timer.** -/
theorem step (h : Timed c) {e : Event} (hs : c.step e = some c') : Timed c' := by
  cases e with
  | connect =>
    obtain rfl := Option.some.inj hs
    exact h.connect
  | disconnect =>
    obtain rfl := Option.some.inj hs
    exact h.disconnect
  | reconnect =>
    obtain rfl := Option.some.inj hs
    have hd := h.disconnect
    exact connect (hd.congr rfl rfl rfl fun _ hs => hs)
  | call =>
    obtain rfl := Option.some.inj hs
    unfold call callOverSocket callOverHttp
    split <;> try split
    all_goals exact h.congr rfl rfl rfl fun _ hs => hs
  | httpDone number error =>
    simp only [Client.step] at hs
    split at hs
    case isFalse => cases hs
    case isTrue =>
      obtain rfl := Option.some.inj hs
      have hdone : Timed { c with http := c.http.filter (· ≠ number) } :=
        h.congr rfl rfl rfl fun _ hs => hs
      unfold Client.httpDone rejectAuth
      dsimp only
      split
      · exact hdone.disconnect
      · exact hdone
  | opened s =>
    simp only [Client.step] at hs
    split at hs
    case isFalse => cases hs
    case isTrue hconn =>
      obtain rfl := Option.some.inj hs
      refine h.congr rfl rfl rfl fun t ht => ?_
      have hts : t ≠ s := by
        rintro rfl
        rw [hconn] at ht
        cases ht
      simp [Function.update, hts, ht]
  | message s frame =>
    simp only [Client.step] at hs
    split at hs
    case isFalse => cases hs
    case isTrue =>
      obtain rfl := Option.some.inj hs
      exact h.receive frame
  | failed s =>
    simp only [Client.step] at hs
    split at hs
    case isTrue => cases hs
    case isFalse =>
      obtain rfl := Option.some.inj hs
      exact h.closeSocket s
  | closed s =>
    simp only [Client.step] at hs
    split at hs
    case isTrue => cases hs
    case isFalse hopen =>
      obtain rfl := Option.some.inj hs
      exact h.onClose hopen
  | timer t =>
    simp only [Client.step] at hs
    split at hs
    case isFalse => cases hs
    case isTrue ht =>
      obtain rfl := Option.some.inj hs
      exact .of_nil (by rw [timers_openSocket]; exact h.fired ht)
  | streamOpened =>
    simp only [Client.step] at hs
    split at hs
    case h_2 => cases hs
    case h_1 =>
      obtain rfl := Option.some.inj hs
      exact h.congr rfl rfl rfl fun _ hs => hs
  | streamLine frame =>
    simp only [Client.step] at hs
    split at hs
    case isFalse => cases hs
    case isTrue =>
      obtain rfl := Option.some.inj hs
      exact h.receive frame
  | streamError final =>
    obtain ⟨source, -, rfl⟩ := Option.map_eq_some_iff.mp hs
    unfold onStreamError
    split
    all_goals exact h.congr rfl rfl rfl fun _ hs => hs

end Timed

end Client

end Mbrc.WebApp
