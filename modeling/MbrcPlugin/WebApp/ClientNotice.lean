import Mathlib.Order.Nat
import MbrcPlugin.Lib.Transition
import MbrcPlugin.WebApp.Client

/-!
# What the app tells of its connection

The client as before, with a server that answers the handshake of a socket at most once and sends
its events over the sockets and the streams it carries.  The socket, the stream, the timer and the
user each tell the listeners from a place of their own, and some tell them nothing:
`notice_truthful` names the events after which the last notice is wrong and says that there are no
others.
-/

namespace Mbrc.WebApp

open Client

/-! ## Client and server -/

structure Traffic where
  client : Client := {}
  /-- The sockets whose handshake was accepted, and those where it was refused. -/
  accepted : List Nat := []
  refused : List Nat := []
  /-- The sockets and the streams the server sends its events to. -/
  carrying : List Nat := []
  streaming : List Nat := []
  nextEvent : Nat := 0
  /-- What was sent, and what of it was delivered: an event with its socket or stream. -/
  onSockets : List (Nat × Nat) := []
  onStreams : List (Nat × Nat) := []
  bySocket : List (Nat × Nat) := []
  byStream : List (Nat × Nat) := []

inductive Traffic.Event where
  | client (e : Client.Event)
  | carry (s : Nat)
  | drop (s : Nat)
  | stream (r : Nat)
  | endStream (r : Nat)
  | broadcast
  deriving DecidableEq

namespace Traffic

/-- The server has sent what the client hears. -/
def sends (w : Traffic) : Client.Event → Bool
  | .message s (.response (some 0) _) => s ∉ w.accepted && s ∉ w.refused
  | .message s (.event k) => (k, s) ∈ w.onSockets
  | .streamLine (.event k) => w.client.source.any fun r => (k, r.number) ∈ w.onStreams
  | .streamLine (.response _ _) => false
  | _ => true

/-- What the client has heard, beside what it has become. -/
def heard (w : Traffic) (e : Client.Event) (client : Client) : Traffic :=
  match e with
  | .message s (.response (some 0) none) => { w with client, accepted := s :: w.accepted }
  | .message s (.response (some 0) (some _)) => { w with client, refused := s :: w.refused }
  | .message s (.event k) => { w with client, bySocket := (k, s) :: w.bySocket }
  | .streamLine (.event k) =>
    { w with
      client
      byStream := (w.client.source.toList.map fun r => (k, r.number)) ++ w.byStream }
  | _ => { w with client }

def broadcast (w : Traffic) : Traffic :=
  { w with
    nextEvent := w.nextEvent + 1
    onSockets := w.carrying.map (fun s => (w.nextEvent, s)) ++ w.onSockets
    onStreams := w.streaming.map (fun r => (w.nextEvent, r)) ++ w.onStreams }

def step (w : Traffic) : Event → Option Traffic
  | .client e => if w.sends e then (w.client.step e).map (w.heard e) else none
  | .carry s =>
    if s < w.client.nextSocket then some { w with carrying := s :: w.carrying } else none
  | .drop s => some { w with carrying := w.carrying.filter (· ≠ s) }
  | .stream r =>
    if r < w.client.nextSource then some { w with streaming := r :: w.streaming } else none
  | .endStream r => some { w with streaming := w.streaming.filter (· ≠ r) }
  | .broadcast => some w.broadcast

def system : Transition.System Traffic Event where
  start w := ∃ hasEventSource, w = { client := { hasEventSource } }
  next := step

end Traffic

/-! ## A truthful notice -/

namespace Traffic

/-- No close event is to come, of a socket the client closes or of one the server has refused, and
no call is running. -/
structure Quiet (w : Traffic) : Prop where
  closing : ∀ s < w.client.nextSocket, w.client.readyState s ≠ .closing
  refused : ∀ s ∈ w.refused, w.client.readyState s = .closed
  calls : w.client.pending = [] ∧ w.client.http = []

/-- A socket is open with its handshake accepted. -/
def Up (w : Traffic) : Prop := ∃ s ∈ w.accepted, w.client.readyState s = .opened

/-- A timer runs, or a socket or a stream is on its way. -/
def Trying (w : Traffic) : Prop :=
  w.client.timers ≠ [] ∨
    (∃ s < w.client.nextSocket, w.client.readyState s = .connecting ∨
      w.client.readyState s = .opened ∧ s ∉ w.accepted ∧ s ∉ w.refused) ∨
    w.client.source.any (fun r => !r.opened) = true

/-- The last notice says what is so. -/
structure Truthful (w : Traffic) : Prop where
  connected : Up w ∨ (∃ r, w.client.source = some r ∧ r.opened = true) →
    ∃ n, w.client.told = some n ∧ n.connected = true
  disconnected : ¬ Up w → w.client.source = none →
    ∀ n, w.client.told = some n → n.connected = false
  retrying : ∀ n, w.client.told = some n → n.retrying = true → Trying w

/-- The notice is truthful whenever nothing is on its way, and no event comes by two roads. -/
structure Tells (w : Traffic) : Prop where
  truthful : Quiet w → Truthful w
  once : ∀ k s r, (k, s) ∈ w.bySocket → (k, r) ∉ w.byStream

end Traffic

/-! ## What keeps it truthful -/

namespace Client

/-- The listeners know of no connection. -/
def saysDown (c : Client) : Bool := c.told.all fun n => !n.connected

/-- The listeners know of no connection and of no attempt at one. -/
def saysOver (c : Client) : Bool := c.told.all fun n => !n.connected && !n.retrying

end Client

/-- What is not told changes nothing that was told: `disconnect` and a refused token find the
listeners knowing it is over, `reconnect`, and `connect` in place of a closing socket, find them
knowing there is no connection; a handshake reply comes on the current socket, a refusal is none
of the token and comes with no stream open; and no event is sent on two roads the client listens
to. -/
def KeepsTruth (w : Traffic) : Traffic.Event → Prop
  | .client .disconnect => w.client.saysOver
  | .client (.httpDone _ error) => error.any isAuthFailure → w.client.saysOver
  | .client .reconnect => w.client.saysDown
  | .client .connect => w.client.leaving → w.client.saysDown
  | .client (.message s (.response (some 0) none)) => w.client.socket = some s
  | .client (.message s (.response (some 0) (some error))) =>
    w.client.socket = some s ∧ (isAuthFailure error → isIdentityRefusal error) ∧
      w.client.source.all fun r => !r.opened
  | .broadcast => ∀ s ∈ w.carrying, ∀ r ∈ w.streaming,
    w.client.readyState s = .closed ∨ w.client.source.all fun q => q.number ≠ r
  | _ => True

instance (w : Traffic) (e : Traffic.Event) : Decidable (KeepsTruth w e) := by
  unfold KeepsTruth
  split <;> infer_instance

/-! ## What the client knows -/

namespace Client

variable {c c' : Client} {accepted refused : List Nat}

/-- The current socket is on its way: not closed, and not accepted either. -/
def Chasing (c : Client) (accepted : List Nat) : Prop :=
  c.timers ≠ [] ∨ ∃ s, c.socket = some s ∧ c.readyState s ≠ .closed ∧ s ∉ accepted

/-- What was told, against the sockets and the stream. -/
structure Honest (c : Client) (accepted refused : List Nat) : Prop where
  timed : Timed c
  deliberate : c.closedDeliberately → c.socket = none
  current : ∀ s, c.socket = some s → s < c.nextSocket
  others : ∀ s, c.socket ≠ some s → c.readyState s = .closing ∨ c.readyState s = .closed
  answered : ∀ s, s ∈ accepted ∨ s ∈ refused → s < c.nextSocket ∧ c.readyState s ≠ .connecting
  shaken : c.handshaked → ∃ s ∈ accepted, c.socket = some s ∧ c.readyState s ≠ .closed
  shakes : ∀ s ∈ accepted, c.socket = some s → c.readyState s ≠ .closed → c.handshaked
  up : c.handshaked → c.told = some ⟨true, false⟩ ∧ c.source = none
  streaming : ∀ r, c.source = some r → r.opened → c.told = some ⟨true, false⟩
  connected : ∀ n, c.told = some n → n.connected → c.handshaked ∨ c.source.isSome
  retrying : ∀ n, c.told = some n → n.retrying →
    Chasing c accepted ∨ ∃ r, c.source = some r ∧ r.opened = false
  chased : c.source.isSome → c.attempt < maxAttempts → Chasing c accepted

namespace Honest

/-- The listeners know there is no connection, so there is no handshaked socket. -/
theorem not_handshaked (h : Honest c accepted refused) (hdown : c.saysDown) :
    c.handshaked = false := by
  by_contra hne
  obtain ⟨htold, -⟩ := h.up (by simpa using hne)
  simp [saysDown, htold] at hdown

/-- A socket that is not closed and not accepted is chased. -/
theorem chasing_of_source (h : Honest c accepted refused) (hsource : c.source.isSome)
    {s : Nat} (hs : c.socket = some s) (hopen : c.readyState s ≠ .closed) :
    Chasing c accepted := by
  refine .inr ⟨s, hs, hopen, fun hacc => ?_⟩
  rw [(h.up (h.shakes s hacc hs hopen)).2] at hsource
  cases hsource

/-- Where no socket is live the new one is on its way; a live one stays, and no timer ran. -/
theorem openSocket (h : Honest c accepted refused) (hleave : c.leaving → c.saysDown)
    (attempt : Nat) (timer : Option Nat) :
    Honest ({ c with timers := [], attempt, reconnectTimer := timer } : Client).openSocket
      accepted refused := by
  unfold Client.openSocket
  split
  case isTrue hlive =>
    obtain ⟨s, hs, hlive⟩ := (Option.any_eq_true _ _).mp hlive
    have hs : c.socket = some s := hs
    have hopen : c.readyState s ≠ .closed := by
      intro hclosed
      simp [live, hclosed] at hlive
    have hnil : c.timers = [] := h.timed.timers_eq_nil hs hopen
    refine { h with
      timed := .of_nil rfl
      deliberate := by simp
      retrying := fun n hn hr => ?_
      chased := fun hsource _ => ?_ }
    · refine (h.retrying n hn hr).imp_left fun hch => ?_
      simpa [Chasing, hnil] using hch
    · simpa [Chasing, hnil] using h.chasing_of_source hsource hs hopen
  case isFalse hlive =>
    have hdown : c.handshaked = false := by
      by_contra hne
      obtain ⟨s, -, hs, hopen⟩ := h.shaken (by simpa using hne)
      have hclosing : c.readyState s = .closing := by
        cases hstate : c.readyState s with
        | closing => rfl
        | closed => exact absurd hstate hopen
        | connecting => simp [hs, live, hstate] at hlive
        | opened => simp [hs, live, hstate] at hlive
      exact hne (h.not_handshaked (hleave (by simp [leaving, hs, hclosing])))
    have hnew : c.nextSocket ∉ accepted := fun hin => Nat.lt_irrefl _ (h.answered _ (.inl hin)).1
    have hchasing (c' : Client) (hs : c'.socket = some c.nextSocket)
        (hst : c'.readyState = Function.update c.readyState c.nextSocket .connecting) :
        Chasing c' accepted := .inr ⟨_, hs, by simp [hst], hnew⟩
    refine {
      timed := .of_nil rfl
      deliberate := by simp
      current := by simp
      others := fun s hs => ?_
      answered := fun s hs => ?_
      shaken := by simp [hdown]
      shakes := fun s hacc hs => ?_
      up := by simp [hdown]
      streaming := h.streaming
      connected := h.connected
      retrying := fun _ _ _ => .inl (hchasing _ rfl rfl)
      chased := fun _ _ => hchasing _ rfl rfl }
    · have hsn : s ≠ c.nextSocket := fun hsn => hs (by rw [hsn])
      by_cases hcur : c.socket = some s
      · -- the socket that is replaced was not live
        simp only [hcur, Option.any_some, live] at hlive
        simp only [Function.update, hsn, dif_neg, not_false_eq_true]
        cases hstate : c.readyState s <;> simp_all
      · simpa [Function.update, hsn] using h.others s hcur
    · obtain ⟨hlt, hst⟩ := h.answered s hs
      have hsn : s ≠ c.nextSocket := Nat.ne_of_lt hlt
      exact ⟨Nat.lt_succ_of_lt hlt, by simpa [Function.update, hsn] using hst⟩
    · exact absurd (Option.some.inj hs ▸ hacc) hnew

/-- After `disconnect` every socket is being closed or closed. -/
theorem dropped (h : Honest c accepted refused) (s : Nat) :
    c.disconnect.readyState s = .closing ∨ c.disconnect.readyState s = .closed := by
  rw [readyState_disconnect]
  by_cases hcur : c.socket = some s
  · cases hstate : c.readyState s <;> simp [hcur, live, hstate]
  · simpa [hcur] using h.others s hcur

theorem answered_disconnect (h : Honest c accepted refused) {s : Nat}
    (hs : s ∈ accepted ∨ s ∈ refused) :
    s < c.nextSocket ∧ c.disconnect.readyState s ≠ .connecting := by
  refine ⟨(h.answered s hs).1, ?_⟩
  rcases h.dropped s with hst | hst <;> simp [hst]

/-- Nothing is left of the connection, and nobody was told of one or of an attempt. -/
theorem disconnect (h : Honest c accepted refused) (hover : c.saysOver) :
    Honest c.disconnect accepted refused := by
  have hdown : c.handshaked = false := by
    refine h.not_handshaked ?_
    cases htold : c.told <;> simp_all [saysOver, saysDown]
  refine {
    timed := h.timed.disconnect
    deliberate := by simp
    current := by simp
    others := fun s _ => h.dropped s
    answered := fun s hs => by
      rw [nextSocket_disconnect]
      exact h.answered_disconnect hs
    shaken := by simp [hdown]
    shakes := by simp
    up := by simp [hdown]
    streaming := by simp
    connected := fun n hn hc => ?_
    retrying := fun n hn hr => ?_
    chased := by simp }
  · simp only [told_disconnect] at hn
    simp [saysOver, hn, hc] at hover
  · simp only [told_disconnect] at hn
    simp [saysOver, hn, hr] at hover

theorem reconnect (h : Honest c accepted refused) (hdown : c.saysDown) :
    Honest c.reconnect accepted refused := by
  have hnil : c.disconnect.timers = [] := by
    rw [timers_disconnect]
    exact h.timed.cleared
  have hnew : c.nextSocket ∉ accepted := fun hin => Nat.lt_irrefl _ (h.answered _ (.inl hin)).1
  unfold Client.reconnect Client.connect Client.openSocket clearTimer failAllPending
  rw [if_neg (by simp)]
  refine {
    timed := .of_nil (by
      show c.disconnect.timers.filter _ = []
      rw [hnil]
      rfl)
    deliberate := nofun
    current := by simp
    others := fun s hs => ?_
    answered := fun s hs => ?_
    shaken := by simp
    shakes := fun s hacc hs => ?_
    up := by simp
    streaming := by simp
    connected := fun n hn hc => ?_
    retrying := fun _ _ _ => .inl (.inr ⟨c.nextSocket, by simp, by simp, hnew⟩)
    chased := by simp }
  · have hsn : s ≠ c.nextSocket := fun hsn => hs (by simp [hsn])
    simpa [Function.update, hsn] using h.dropped s
  · obtain ⟨hlt, hst⟩ := h.answered_disconnect hs
    have hsn : s ≠ c.nextSocket := Nat.ne_of_lt hlt
    refine ⟨?_, by simpa [Function.update, hsn] using hst⟩
    simp only [nextSocket_disconnect]
    omega
  · simp only [nextSocket_disconnect, Option.some.injEq] at hs
    exact absurd (hs ▸ hacc) hnew
  · simp only [told_disconnect] at hn
    simp [saysDown, hn, hc] at hdown

/-- Sockets that open or are being closed: none of them closes, and only the current one opens. -/
theorem restate (h : Honest c accepted refused) {states : Nat → ReadyState}
    (hopen : ∀ t, states t ≠ .closed ↔ c.readyState t ≠ .closed)
    (hst : ∀ t, states t = c.readyState t ∨ states t = .closing ∨
      c.socket = some t ∧ states t = .opened) :
    Honest { c with readyState := states } accepted refused := by
  have hchasing : Chasing c accepted → Chasing { c with readyState := states } accepted := by
    rintro (hne | ⟨t, ht, hne, hacc⟩)
    · exact .inl hne
    · exact .inr ⟨t, ht, (hopen t).mpr hne, hacc⟩
  refine { h with
    timed := h.timed.congr rfl rfl rfl fun t ht => not_not.mp fun hne => (hopen t).mp hne ht
    others := fun t ht => ?_
    answered := fun t ht => ⟨(h.answered t ht).1, ?_⟩
    shaken := fun hh => ?_
    shakes := fun t hacc ht hne => h.shakes t hacc ht ((hopen t).mp hne)
    retrying := fun n hn hr => (h.retrying n hn hr).imp_left hchasing
    chased := fun hs ha => hchasing (h.chased hs ha) }
  · rcases hst t with heq | heq | ⟨hcur, -⟩
    · simpa only [heq] using h.others t ht
    · exact .inl heq
    · exact absurd hcur ht
  · rcases hst t with heq | heq | ⟨-, heq⟩
    · simpa only [heq] using (h.answered t ht).2
    · simp [heq]
    · simp [heq]
  · obtain ⟨t, hacc, ht, hne⟩ := h.shaken hh
    exact ⟨t, hacc, ht, (hopen t).mpr hne⟩

theorem closeSocket (h : Honest c accepted refused) (s : Nat) :
    Honest (c.closeSocket s) accepted refused := by
  unfold Client.closeSocket
  by_cases hlive : c.live s
  · rw [if_pos hlive]
    have hopen : c.readyState s ≠ .closed := fun hclosed => by simp [live, hclosed] at hlive
    refine h.restate (fun t => ?_) fun t => ?_
    · by_cases hts : t = s
      · subst hts
        simpa using hopen
      · simp [Function.update, hts]
    · by_cases hts : t = s <;> simp [Function.update, hts]
  · rw [if_neg hlive]
    exact h

theorem opened (h : Honest c accepted refused) {s : Nat} (hst : c.readyState s = .connecting) :
    Honest { c with readyState := Function.update c.readyState s .opened } accepted refused := by
  have hcur : c.socket = some s := by
    by_contra hne
    rcases h.others s hne with hother | hother <;> simp [hst] at hother
  refine h.restate (fun t => ?_) fun t => ?_
  · by_cases hts : t = s
    · subst hts
      simp [hst]
    · simp [Function.update, hts]
  · by_cases hts : t = s
    · exact .inr (.inr (by simp [hts, hcur]))
    · simp [Function.update, hts]

/-! ## The answer to a handshake -/

theorem accept (h : Honest c accepted refused) {s : Nat} (hs : c.socket = some s)
    (hst : c.readyState s = .opened ∨ c.readyState s = .closing) :
    Honest (c.handshakeReply none) (s :: accepted) refused := by
  have hanswered (t : Nat) (ht : t ∈ s :: accepted ∨ t ∈ refused) :
      t < c.nextSocket ∧ c.readyState t ≠ .connecting := by
    rcases ht with ht | ht
    · rcases List.mem_cons.mp ht with rfl | ht
      · exact ⟨h.current t hs, by rcases hst with hst | hst <;> simp [hst]⟩
      · exact h.answered t (.inl ht)
    · exact h.answered t (.inr ht)
  exact {
    timed := h.timed.handshakeReply none
    deliberate := h.deliberate
    current := h.current
    others := h.others
    answered := hanswered
    shaken := fun _ => ⟨s, List.mem_cons_self, hs, by
      show c.readyState s ≠ .closed
      rcases hst with hst | hst <;> simp [hst]⟩
    shakes := fun _ _ _ _ => rfl
    up := fun _ => ⟨rfl, rfl⟩
    streaming := nofun
    connected := fun _ _ _ => .inl rfl
    retrying := fun n hn hr => by
      obtain rfl := Option.some.inj hn
      cases hr
    chased := nofun }

theorem refuse (h : Honest c accepted refused) {s : Nat} (hs : c.socket = some s)
    (hst : c.readyState s = .opened ∨ c.readyState s = .closing) (hacc : s ∉ accepted)
    {error : V6Error} (hauth : isAuthFailure error → isIdentityRefusal error)
    (hstream : c.source.all fun r => !r.opened) :
    Honest (c.handshakeReply (some error)) accepted (s :: refused) := by
  have hreply : c.handshakeReply (some error) =
      ({ c with handshaked := false } : Client).emitConnection false := by
    unfold Client.handshakeReply
    by_cases hid : isIdentityRefusal error
    · simp [hid]
    · simp [hid, mt hauth hid]
  have hopen : c.readyState s ≠ .closed := by rcases hst with hst | hst <;> simp [hst]
  have hanswered (t : Nat) (ht : t ∈ accepted ∨ t ∈ s :: refused) :
      t < c.nextSocket ∧ c.readyState t ≠ .connecting := by
    rcases ht with ht | ht
    · exact h.answered t (.inl ht)
    · rcases List.mem_cons.mp ht with rfl | ht
      · exact ⟨h.current t hs, by rcases hst with hst | hst <;> simp [hst]⟩
      · exact h.answered t (.inr ht)
  rw [hreply]
  refine {
    timed := h.timed.congr rfl rfl rfl fun _ hs => hs
    deliberate := h.deliberate
    current := h.current
    others := h.others
    answered := hanswered
    shaken := nofun
    shakes := fun t ht hcur _ => ?_
    up := nofun
    streaming := fun r hr hro => ?_
    connected := fun n hn hc => ?_
    retrying := fun _ _ _ => .inl (.inr ⟨s, hs, hopen, hacc⟩)
    chased := h.chased }
  · obtain rfl : s = t := Option.some.inj (hs.symm.trans hcur)
    exact absurd ht hacc
  · have hr : c.source = some r := hr
    simp [hr, hro] at hstream
  · obtain rfl := Option.some.inj hn
    cases hc

/-! ## The end of a socket -/

theorem startEventStream (h : Honest c accepted refused)
    (hdown : c.handshaked = false) (hchased : c.attempt < maxAttempts → Chasing c accepted) :
    Honest c.startEventStream accepted refused := by
  unfold Client.startEventStream
  split
  case isTrue => exact h
  case isFalse hnone =>
    refine { h with
      timed := h.timed.congr rfl rfl rfl fun _ hs => hs
      up := by simp [hdown]
      streaming := by simp
      connected := fun _ _ _ => .inr rfl
      retrying := fun _ _ _ => .inr ⟨_, rfl, rfl⟩
      chased := fun _ ha => hchased ha }

/-- The current socket has closed: the listeners were told, or a stream is under way; and an
attempt that is left is on the timer. -/
theorem ended (h : Honest c accepted refused) {s : Nat} (hs : c.socket = some s)
    (hst : c'.readyState = Function.update c.readyState s .closed)
    (hsocket : c'.socket = c.socket) (hnext : c'.nextSocket = c.nextSocket)
    (hdown : c'.handshaked = false) (hsource : c'.source = c.source)
    (hdeliberate : c'.closedDeliberately = false) (htimed : Timed c')
    (htold : c.source.isSome ∧ c'.told = c.told ∨ c.source = none ∧
      ∃ n, c'.told = some n ∧ n.connected = false ∧ (n.retrying → c'.timers ≠ []))
    (hleft : c'.attempt < maxAttempts → c'.timers ≠ []) : Honest c' accepted refused := by
  have hother (t : Nat) (ht : t ≠ s) : c'.readyState t = c.readyState t := by
    simp [hst, Function.update, ht]
  have hclosed : c'.readyState s = .closed := by simp [hst]
  refine {
    timed := htimed
    deliberate := by simp [hdeliberate]
    current := fun t ht => by
      rw [hnext]
      exact h.current t (hsocket ▸ ht)
    others := fun t ht => ?_
    answered := fun t ht => ?_
    shaken := by simp [hdown]
    shakes := fun t _ ht hopen => ?_
    up := by simp [hdown]
    streaming := fun r hr hro => ?_
    connected := fun n hn hc => ?_
    retrying := fun n hn hr => ?_
    chased := fun _ ha => .inl (hleft ha) }
  · rw [hsocket] at ht
    have hts : t ≠ s := by
      rintro rfl
      exact ht hs
    rw [hother t hts]
    exact h.others t ht
  · obtain ⟨hlt, hne⟩ := h.answered t ht
    refine ⟨hnext ▸ hlt, ?_⟩
    by_cases hts : t = s
    · simp [hts, hclosed]
    · rwa [hother t hts]
  · obtain rfl : s = t := Option.some.inj (hs.symm.trans (hsocket ▸ ht))
    exact absurd hclosed hopen
  · rw [hsource] at hr
    rcases htold with ⟨-, htold⟩ | ⟨hnone, -⟩
    · rw [htold]
      exact h.streaming r hr hro
    · rw [hnone] at hr
      cases hr
  · rcases htold with ⟨hsome, -⟩ | ⟨-, m, hm, hmc, -⟩
    · exact .inr (hsource ▸ hsome)
    · obtain rfl : m = n := Option.some.inj (hm.symm.trans hn)
      simp [hmc] at hc
  · rcases htold with ⟨hsome, htold⟩ | ⟨-, m, hm, -, hmr⟩
    · obtain ⟨r, hr'⟩ := Option.isSome_iff_exists.mp hsome
      refine .inr ⟨r, hsource.trans hr', ?_⟩
      by_contra hro
      have hopened := h.streaming r hr' (by simpa using hro)
      rw [htold, hopened] at hn
      obtain rfl := Option.some.inj hn
      cases hr
    · obtain rfl : m = n := Option.some.inj (hm.symm.trans hn)
      exact .inl (.inl (hmr hr))

/-- The close of a socket the client has replaced is no news. -/
theorem endedOther (h : Honest c accepted refused) {s : Nat} (hs : c.socket ≠ some s) :
    Honest { c with readyState := Function.update c.readyState s .closed } accepted refused := by
  have hcur {t : Nat} (ht : c.socket = some t) :
      Function.update c.readyState s .closed t = c.readyState t := by
    have hts : t ≠ s := by
      rintro rfl
      exact hs ht
    simp [Function.update, hts]
  have hchasing : Chasing c accepted →
      Chasing { c with readyState := Function.update c.readyState s .closed } accepted := by
    rintro (hne | ⟨t, ht, hne, hacc⟩)
    · exact .inl hne
    · exact .inr ⟨t, ht, fun hclosed => hne ((hcur ht).symm.trans hclosed), hacc⟩
  refine { h with
    timed := ?_
    others := fun t ht => ?_
    answered := fun t ht => ⟨(h.answered t ht).1, ?_⟩
    shaken := fun hh => ?_
    shakes := fun t hacc ht hne => h.shakes t hacc ht (by rwa [← hcur ht])
    retrying := fun n hn hr => (h.retrying n hn hr).imp_left hchasing
    chased := fun hsource ha => hchasing (h.chased hsource ha) }
  · refine h.timed.congr rfl rfl rfl fun t ht => ?_
    by_cases hts : t = s <;> simp [Function.update, hts, ht]
  · by_cases hts : t = s
    · simp [hts]
    · simpa [Function.update, hts] using h.others t ht
  · by_cases hts : t = s
    · simp [hts]
    · simpa [Function.update, hts] using (h.answered t ht).2
  · obtain ⟨t, hacc, ht, hne⟩ := h.shaken hh
    exact ⟨t, hacc, ht, fun hclosed => hne ((hcur ht).symm.trans hclosed)⟩

theorem scheduleReconnect (h : Honest c accepted refused) (d : Client) {s : Nat}
    (hs : c.socket = some s) (hst : d.readyState = Function.update c.readyState s .closed)
    (hdown : d.handshaked = false)
    (hsame : d.socket = c.socket ∧ d.nextSocket = c.nextSocket ∧ d.source = c.source ∧
      d.told = c.told ∧ d.closedDeliberately = false ∧ d.timers = []) :
    Honest d.scheduleReconnect accepted refused ∧
      (d.scheduleReconnect.attempt < maxAttempts → d.scheduleReconnect.timers ≠ []) ∧
      d.scheduleReconnect.handshaked = false := by
  obtain ⟨hsocket, hnext, hsource, htold, hdeliberate, hnil⟩ := hsame
  have htimed : Timed d.scheduleReconnect :=
    Timed.scheduleReconnect hnil (hsocket.trans hs) (by simp [hst])
  unfold Client.scheduleReconnect at htimed ⊢
  dsimp only at htimed ⊢
  split at htimed
  case isTrue hspent =>
    rw [if_pos hspent]
    split at htimed
    case isTrue hnone =>
      rw [if_pos hnone]
      rw [hsource, Option.isNone_iff_eq_none] at hnone
      refine ⟨h.ended hs hst hsocket hnext hdown hsource hdeliberate htimed
        (.inr ⟨hnone, _, rfl, rfl, nofun⟩) fun ha => ?_, fun ha => ?_, hdown⟩
      all_goals exact absurd hspent (Nat.not_le.mpr ha)
    case isFalse hsome =>
      rw [if_neg hsome]
      rw [hsource, Option.isNone_iff_eq_none, ← ne_eq, Option.ne_none_iff_isSome] at hsome
      refine ⟨h.ended hs hst hsocket hnext hdown hsource hdeliberate htimed
        (.inl ⟨hsome, htold⟩) fun ha => ?_, fun ha => ?_, hdown⟩
      all_goals exact absurd hspent (Nat.not_le.mpr ha)
  case isFalse hleft =>
    rw [if_neg hleft]
    split at htimed
    case isTrue hnone =>
      rw [if_pos hnone]
      rw [hsource, Option.isNone_iff_eq_none] at hnone
      exact ⟨h.ended hs hst hsocket hnext hdown hsource hdeliberate htimed
        (.inr ⟨hnone, _, rfl, rfl, fun _ => by simp⟩) (fun _ => by simp), fun _ => by simp, hdown⟩
    case isFalse hsome =>
      rw [if_neg hsome]
      rw [hsource, Option.isNone_iff_eq_none, ← ne_eq, Option.ne_none_iff_isSome] at hsome
      exact ⟨h.ended hs hst hsocket hnext hdown hsource hdeliberate htimed
        (.inl ⟨hsome, htold⟩) (fun _ => by simp), fun _ => by simp, hdown⟩

theorem onClose (h : Honest c accepted refused) {s : Nat} (hopen : c.readyState s ≠ .closed) :
    Honest (c.onClose s) accepted refused := by
  unfold Client.onClose
  dsimp only
  split
  case isTrue hs => exact h.endedOther hs
  case isFalse hs =>
    have hs : c.socket = some s := not_not.mp hs
    have hdeliberate : c.closedDeliberately = false := by
      by_contra hne
      have := h.deliberate (by simpa using hne)
      rw [hs] at this
      cases this
    have hnil : c.timers = [] := h.timed.timers_eq_nil hs hopen
    rw [if_neg (by simpa [failAllPending] using hdeliberate)]
    obtain ⟨hsched, hleft, hdown⟩ := h.scheduleReconnect
      ({ c with
        readyState := Function.update c.readyState s .closed
        handshaked := false } : Client).failAllPending
      hs rfl rfl ⟨rfl, rfl, rfl, rfl, hdeliberate, hnil⟩
    exact hsched.startEventStream hdown fun ha => .inl (hleft ha)

/-! ## The stream -/

theorem down_of_source (h : Honest c accepted refused) {source : Source}
    (hs : c.source = some source) : c.handshaked = false := by
  by_contra hne
  have hnone := (h.up (by simpa using hne)).2
  rw [hs] at hnone
  cases hnone

theorem streamOpened (h : Honest c accepted refused) {source : Source}
    (hs : c.source = some source) :
    Honest (({ c with source := some { source with opened := true } } : Client).emitConnection true)
      accepted refused := by
  have hdown : c.handshaked = false := h.down_of_source hs
  exact { h with
    timed := h.timed.congr rfl rfl rfl fun _ hs => hs
    up := fun hh => by
      have hh : c.handshaked = true := hh
      simp [hdown] at hh
    streaming := fun _ _ _ => rfl
    connected := fun _ _ _ => .inr rfl
    retrying := fun n hn hr => by
      obtain rfl := Option.some.inj hn
      cases hr
    chased := fun _ ha => h.chased (by rw [hs]; rfl) ha }

theorem onStreamError (h : Honest c accepted refused) {source : Source} (final : Bool)
    (hs : c.source = some source) :
    Honest (c.onStreamError source final) accepted refused := by
  have hdown : c.handshaked = false := h.down_of_source hs
  unfold Client.onStreamError
  split
  case isTrue =>
    exact { h with
      timed := h.timed.congr rfl rfl rfl fun _ hs => hs
      up := fun hh => by
        have hh : c.handshaked = true := hh
        simp [hdown] at hh
      streaming := nofun
      connected := fun n hn hc => by
        obtain rfl := Option.some.inj hn
        cases hc
      retrying := fun n hn hr => by
        obtain rfl := Option.some.inj hn
        exact .inl (h.chased (by rw [hs]; rfl) (of_decide_eq_true hr))
      chased := nofun }
  case isFalse =>
    exact { h with
      timed := h.timed.congr rfl rfl rfl fun _ hs => hs
      up := fun hh => by
        have hh : c.handshaked = true := hh
        simp [hdown] at hh
      streaming := fun r hr hro => by
        obtain rfl := Option.some.inj hr
        cases hro
      connected := fun _ _ _ => .inr rfl
      retrying := fun n hn hr => (h.retrying n hn hr).imp_right fun _ => ⟨_, rfl, rfl⟩
      chased := fun _ ha => h.chased (by rw [hs]; rfl) ha }

/-- **One event of the client.** -/
theorem step (h : Honest c accepted refused) {e : Client.Event} (hs : c.step e = some c')
    (hreply : ∀ s error, e ≠ .message s (.response (some 0) error))
    (hline : ∀ id error, e ≠ .streamLine (.response id error))
    (hdrop : e = .disconnect → c.saysOver) (hrejoin : e = .reconnect → c.saysDown)
    (hconnect : e = .connect → c.leaving → c.saysDown)
    (hhttp : ∀ number error, e = .httpDone number error → error.any isAuthFailure → c.saysOver) :
    Honest c' accepted refused := by
  cases e with
  | connect =>
    obtain rfl := Option.some.inj hs
    have hclear : ({ c with attempt := 0 } : Client).clearTimer =
        { c with timers := [], attempt := 0, reconnectTimer := none } := by
      simp only [clearTimer, h.timed.cleared]
    unfold Client.connect
    rw [hclear]
    exact h.openSocket (hconnect rfl) 0 none
  | disconnect =>
    obtain rfl := Option.some.inj hs
    exact h.disconnect (hdrop rfl)
  | reconnect =>
    obtain rfl := Option.some.inj hs
    exact h.reconnect (hrejoin rfl)
  | call =>
    obtain rfl := Option.some.inj hs
    unfold Client.call callOverSocket callOverHttp
    split <;> try split
    all_goals exact { h with timed := h.timed.congr rfl rfl rfl fun _ hs => hs }
  | httpDone number error =>
    simp only [Client.step] at hs
    split at hs
    case isFalse => cases hs
    case isTrue =>
      obtain rfl := Option.some.inj hs
      have hdone : Honest { c with http := c.http.filter (· ≠ number) } accepted refused :=
        { h with timed := h.timed.congr rfl rfl rfl fun _ hs => hs }
      unfold Client.httpDone rejectAuth
      dsimp only
      split
      case isTrue hauth => exact hdone.disconnect (hhttp number error rfl hauth)
      case isFalse => exact hdone
  | opened s =>
    simp only [Client.step] at hs
    split at hs
    case isFalse => cases hs
    case isTrue hconn =>
      obtain rfl := Option.some.inj hs
      exact h.opened hconn
  | message s frame =>
    simp only [Client.step] at hs
    split at hs
    case isFalse => cases hs
    case isTrue =>
      obtain rfl := Option.some.inj hs
      unfold Client.receive
      split
      case h_3 error => exact absurd rfl (hreply s error)
      case h_4 => exact { h with timed := h.timed.congr rfl rfl rfl fun _ hs => hs }
      all_goals exact h
  | failed s =>
    simp only [Client.step] at hs
    split at hs
    case isTrue => cases hs
    case isFalse =>
      obtain rfl := Option.some.inj hs
      exact h.closeSocket s
  | closed s =>
    simp only [Client.step] at hs
    split at hs
    case isTrue => cases hs
    case isFalse hopen =>
      obtain rfl := Option.some.inj hs
      exact h.onClose hopen
  | timer t =>
    simp only [Client.step] at hs
    split at hs
    case isFalse => cases hs
    case isTrue hrun =>
      obtain rfl := Option.some.inj hs
      obtain ⟨s, hcur, hclosed⟩ := h.timed.idle (List.ne_nil_of_mem hrun)
      rw [h.timed.fired hrun]
      refine h.openSocket (fun hleave => ?_) c.attempt c.reconnectTimer
      simp [leaving, hcur, hclosed] at hleave
  | streamOpened =>
    simp only [Client.step] at hs
    split at hs
    case h_2 => cases hs
    case h_1 source hsource =>
      obtain rfl := Option.some.inj hs
      exact h.streamOpened hsource
  | streamLine frame =>
    simp only [Client.step] at hs
    split at hs
    case isFalse => cases hs
    case isTrue =>
      obtain rfl := Option.some.inj hs
      cases frame with
      | unreadable => exact h
      | event k => exact h
      | response id error => exact absurd rfl (hline id error)
  | streamError final =>
    obtain ⟨source, hsource, rfl⟩ := Option.map_eq_some_iff.mp hs
    exact h.onStreamError final hsource

end Honest

/-! ## Sockets and streams come new -/

/-- A socket that has closed stays closed, and a stream that is not the old one is a new one. -/
structure Ages (c c' : Client) : Prop where
  sockets : c.nextSocket ≤ c'.nextSocket
  closed : ∀ s < c.nextSocket, c.readyState s = .closed → c'.readyState s = .closed
  streams : c.nextSource ≤ c'.nextSource
  source : ∀ r, c'.source = some r → (∃ q, c.source = some q ∧ q.number = r.number) ∨
    c.nextSource ≤ r.number ∧ r.number < c'.nextSource

namespace Ages

theorem of_source (hn : c'.nextSocket = c.nextSocket) (hr : c'.readyState = c.readyState)
    (hns : c'.nextSource = c.nextSource)
    (hs : ∀ r, c'.source = some r → ∃ q, c.source = some q ∧ q.number = r.number) : Ages c c' where
  sockets := hn.ge
  closed s _ hs := by rwa [hr]
  streams := hns.ge
  source r hr := .inl (hs r hr)

theorem of_none (hn : c'.nextSocket = c.nextSocket) (hr : c'.readyState = c.readyState)
    (hns : c'.nextSource = c.nextSource) (hs : c'.source = none) : Ages c c' :=
  of_source hn hr hns fun r hr => by
    rw [hs] at hr
    cases hr

theorem of_same (hn : c'.nextSocket = c.nextSocket) (hr : c'.readyState = c.readyState)
    (hns : c'.nextSource = c.nextSource) (hs : c'.source = c.source) : Ages c c' :=
  of_source hn hr hns fun r hr => ⟨r, hs ▸ hr, rfl⟩

theorem trans {d : Client} (h : Ages c c') (h' : Ages c' d) : Ages c d where
  sockets := h.sockets.trans h'.sockets
  closed s hlt hs := h'.closed s (hlt.trans_le h.sockets) (h.closed s hlt hs)
  streams := h.streams.trans h'.streams
  source r hr := by
    rcases h'.source r hr with ⟨q, hq, hqr⟩ | ⟨hle, hlt⟩
    · rcases h.source q hq with ⟨p, hp, hpq⟩ | ⟨hle, hlt⟩
      · exact .inl ⟨p, hp, hpq.trans hqr⟩
      · have := h'.streams
        exact .inr ⟨by omega, by omega⟩
    · have := h.streams
      exact .inr ⟨by omega, hlt⟩

/-- The states of the sockets change, and none that was closed does. -/
theorem of_states {states : Nat → ReadyState}
    (h : ∀ s, c.readyState s = .closed → states s = .closed) :
    Ages c { c with readyState := states } where
  sockets := le_rfl
  closed s _ hs := h s hs
  streams := le_rfl
  source r hr := .inl ⟨r, hr, rfl⟩

theorem closeSocket (s : Nat) : Ages c (c.closeSocket s) := by
  refine of_states fun t ht => ?_
  split
  · rename_i hlive
    have hts : t ≠ s := by
      rintro rfl
      simp [live, ht] at hlive
    simp [Function.update, hts, ht]
  · exact ht

theorem openSocket : Ages c c.openSocket := by
  unfold Client.openSocket
  split
  · exact of_same rfl rfl rfl rfl
  · exact {
      sockets := Nat.le_succ _
      closed := fun s hlt hs => by
        simpa [Function.update, Nat.ne_of_lt hlt] using hs
      streams := le_rfl
      source := fun r hr => .inl ⟨r, hr, rfl⟩ }

theorem connect : Ages c c.connect := by
  have hclear : Ages c ({ c with attempt := 0 } : Client).clearTimer := of_same rfl rfl rfl rfl
  exact hclear.trans openSocket

theorem disconnect : Ages c c.disconnect := by
  unfold Client.disconnect
  dsimp only
  split
  case h_1 => exact of_none rfl rfl rfl rfl
  case h_2 s _ =>
    have hstop :
        Ages c ({ c with closedDeliberately := true, source := none } : Client).clearTimer :=
      of_none rfl rfl rfl rfl
    exact (hstop.trans (closeSocket s)).trans (of_same rfl rfl rfl rfl)

theorem handshakeReply (error : Option V6Error) : Ages c (c.handshakeReply error) := by
  unfold Client.handshakeReply rejectAuth emitConnection
  dsimp only
  split
  · exact of_none rfl rfl rfl rfl
  · split
    · exact of_same rfl rfl rfl rfl
    · split
      · have hflag : Ages c { c with handshaked := false } := of_same rfl rfl rfl rfl
        exact (hflag.trans disconnect).trans (of_same rfl rfl rfl rfl)
      · exact of_same rfl rfl rfl rfl

theorem receive (frame : Frame) : Ages c (c.receive frame) := by
  unfold Client.receive
  split
  case h_3 => exact handshakeReply _
  all_goals exact of_same rfl rfl rfl rfl

theorem onClose (s : Nat) : Ages c (c.onClose s) := by
  have hclose : Ages c { c with readyState := Function.update c.readyState s .closed } :=
    of_states fun t ht => by by_cases hts : t = s <;> simp [Function.update, hts, ht]
  have hschedule (d : Client) : Ages d d.scheduleReconnect := by
    unfold Client.scheduleReconnect emitConnection
    dsimp only
    split <;> split <;> exact of_same rfl rfl rfl rfl
  have hstart (d : Client) : Ages d d.startEventStream := by
    unfold Client.startEventStream
    split
    · exact of_same rfl rfl rfl rfl
    · exact {
        sockets := le_rfl
        closed := fun _ _ hs => hs
        streams := Nat.le_succ _
        source := fun r hr => by
          obtain rfl := Option.some.inj hr
          exact .inr ⟨le_rfl, Nat.lt_succ_self _⟩ }
  unfold Client.onClose
  dsimp only
  split
  · exact hclose
  · have hfail : Ages c ({ c with
        readyState := Function.update c.readyState s .closed
        handshaked := false } : Client).failAllPending :=
      hclose.trans (of_same rfl rfl rfl rfl)
    split
    · exact hfail.trans (of_same rfl rfl rfl rfl)
    · exact hfail.trans ((hschedule _).trans (hstart _))

theorem step {e : Client.Event} (hs : c.step e = some c') : Ages c c' := by
  cases e with
  | connect =>
    obtain rfl := Option.some.inj hs
    exact connect
  | disconnect =>
    obtain rfl := Option.some.inj hs
    exact disconnect
  | reconnect =>
    obtain rfl := Option.some.inj hs
    have hfail : Ages c ({ c.disconnect with handshaked := false } : Client).failAllPending :=
      disconnect.trans (of_same rfl rfl rfl rfl)
    exact hfail.trans connect
  | call =>
    obtain rfl := Option.some.inj hs
    unfold Client.call callOverSocket callOverHttp
    split <;> try split
    all_goals exact of_same rfl rfl rfl rfl
  | httpDone number error =>
    simp only [Client.step, Client.httpDone, rejectAuth] at hs
    split at hs
    case isFalse => cases hs
    case isTrue =>
      obtain rfl := Option.some.inj hs
      split
      · have hdone : Ages c { c with http := c.http.filter (· ≠ number) } :=
          of_same rfl rfl rfl rfl
        exact hdone.trans disconnect
      · exact of_same rfl rfl rfl rfl
  | opened s =>
    simp only [Client.step] at hs
    split at hs
    case isFalse => cases hs
    case isTrue hconn =>
      obtain rfl := Option.some.inj hs
      refine of_states fun t ht => ?_
      have hts : t ≠ s := by
        rintro rfl
        simp [hconn] at ht
      simp [Function.update, hts, ht]
  | message s frame | streamLine frame =>
    simp only [Client.step] at hs
    split at hs
    case isFalse => cases hs
    case isTrue =>
      obtain rfl := Option.some.inj hs
      exact receive frame
  | failed s =>
    simp only [Client.step] at hs
    split at hs
    case isTrue => cases hs
    case isFalse =>
      obtain rfl := Option.some.inj hs
      exact closeSocket s
  | closed s =>
    simp only [Client.step] at hs
    split at hs
    case isTrue => cases hs
    case isFalse =>
      obtain rfl := Option.some.inj hs
      exact onClose s
  | timer t =>
    simp only [Client.step] at hs
    split at hs
    case isFalse => cases hs
    case isTrue =>
      obtain rfl := Option.some.inj hs
      have hfired : Ages c { c with timers := c.timers.filter (· ≠ t) } := of_same rfl rfl rfl rfl
      exact hfired.trans openSocket
  | streamOpened =>
    simp only [Client.step] at hs
    split at hs
    case h_2 => cases hs
    case h_1 source hsource =>
      obtain rfl := Option.some.inj hs
      refine of_source rfl rfl rfl fun r hr => ?_
      obtain rfl := Option.some.inj hr
      exact ⟨source, hsource, rfl⟩
  | streamError final =>
    obtain ⟨source, hsource, rfl⟩ := Option.map_eq_some_iff.mp hs
    unfold Client.onStreamError
    split
    · exact of_none rfl rfl rfl rfl
    · refine of_source rfl rfl rfl fun r hr => ?_
      obtain rfl := Option.some.inj hr
      exact ⟨source, hsource, rfl⟩

end Ages

end Client

/-! ## Whole runs -/

namespace Traffic

/-- What was sent on the roads, and that of two roads with one event on them the client has left
one before it heard the event. -/
structure Roads (w : Traffic) : Prop where
  carried : ∀ s ∈ w.carrying, s < w.client.nextSocket
  streamed : ∀ r ∈ w.streaming, r < w.client.nextSource
  source : ∀ r, w.client.source = some r → r.number < w.client.nextSource
  onSockets : ∀ k s, (k, s) ∈ w.onSockets → k < w.nextEvent ∧ s < w.client.nextSocket
  onStreams : ∀ k r, (k, r) ∈ w.onStreams → k < w.nextEvent ∧ r < w.client.nextSource
  bySocket : ∀ p ∈ w.bySocket, p ∈ w.onSockets
  byStream : ∀ p ∈ w.byStream, p ∈ w.onStreams
  apart : ∀ k s r, (k, s) ∈ w.onSockets → (k, r) ∈ w.onStreams →
    w.client.readyState s = .closed ∧ (k, s) ∉ w.bySocket ∨
      (∀ q, w.client.source = some q → q.number ≠ r) ∧ (k, r) ∉ w.byStream

/-- The client goes on, with what it has just heard. -/
theorem Roads.hear {w : Traffic} (h : Roads w) {client : Client} (hages : Ages w.client client)
    {bySocket byStream : List (Nat × Nat)} {accepted refused : List Nat}
    (hsocket : ∀ p ∈ bySocket, p ∈ w.bySocket ∨
      p ∈ w.onSockets ∧ w.client.readyState p.2 ≠ .closed)
    (hstream : ∀ p ∈ byStream, p ∈ w.byStream ∨
      p ∈ w.onStreams ∧ ∃ q, w.client.source = some q ∧ q.number = p.2) :
    Roads { w with client, accepted, refused, bySocket, byStream } where
  carried s hs := (h.carried s hs).trans_le hages.sockets
  streamed r hr := (h.streamed r hr).trans_le hages.streams
  source r hr := by
    rcases hages.source r hr with ⟨q, hq, hqr⟩ | ⟨-, hlt⟩
    · exact hqr ▸ (h.source q hq).trans_le hages.streams
    · exact hlt
  onSockets k s hks := ⟨(h.onSockets k s hks).1, (h.onSockets k s hks).2.trans_le hages.sockets⟩
  onStreams k r hkr := ⟨(h.onStreams k r hkr).1, (h.onStreams k r hkr).2.trans_le hages.streams⟩
  bySocket p hp := (hsocket p hp).elim (h.bySocket p) (·.1)
  byStream p hp := (hstream p hp).elim (h.byStream p) (·.1)
  apart k s r hks hkr := by
    rcases h.apart k s r hks hkr with ⟨hclosed, hnot⟩ | ⟨hleft, hnot⟩
    · refine .inl ⟨hages.closed s (h.onSockets k s hks).2 hclosed, fun hin => ?_⟩
      rcases hsocket _ hin with hin | ⟨-, hopen⟩
      · exact hnot hin
      · exact hopen hclosed
    · refine .inr ⟨fun q hq => ?_, fun hin => ?_⟩
      · rcases hages.source q hq with ⟨p, hp, hpq⟩ | ⟨hle, -⟩
        · exact hpq ▸ hleft p hp
        · have := (h.onStreams k r hkr).2
          omega
      · rcases hstream _ hin with hin | ⟨-, q, hq, hqr⟩
        · exact hnot hin
        · exact hleft q hq hqr

theorem Roads.broadcast {w : Traffic} (h : Roads w)
    (hroads : ∀ s ∈ w.carrying, ∀ r ∈ w.streaming,
      w.client.readyState s = .closed ∨ w.client.source.all fun q => q.number ≠ r) :
    Roads w.broadcast where
  carried := h.carried
  streamed := h.streamed
  source := h.source
  onSockets k s hks := by
    rcases List.mem_append.mp hks with hks | hks
    · obtain ⟨t, ht, heq⟩ := List.mem_map.mp hks
      cases heq
      exact ⟨Nat.lt_succ_self _, h.carried _ ht⟩
    · exact ⟨Nat.lt_succ_of_lt (h.onSockets k s hks).1, (h.onSockets k s hks).2⟩
  onStreams k r hkr := by
    rcases List.mem_append.mp hkr with hkr | hkr
    · obtain ⟨t, ht, heq⟩ := List.mem_map.mp hkr
      cases heq
      exact ⟨Nat.lt_succ_self _, h.streamed _ ht⟩
    · exact ⟨Nat.lt_succ_of_lt (h.onStreams k r hkr).1, (h.onStreams k r hkr).2⟩
  bySocket p hp := List.mem_append_right _ (h.bySocket p hp)
  byStream p hp := List.mem_append_right _ (h.byStream p hp)
  apart k s r hks hkr := by
    rcases List.mem_append.mp hks with hks | hks <;> rcases List.mem_append.mp hkr with hkr | hkr
    · obtain ⟨t, ht, heq⟩ := List.mem_map.mp hks
      obtain ⟨q, hq, heq'⟩ := List.mem_map.mp hkr
      cases heq
      cases heq'
      rcases hroads _ ht _ hq with hclosed | hleft
      · refine .inl ⟨hclosed, fun hin => ?_⟩
        exact Nat.lt_irrefl _ (h.onSockets _ _ (h.bySocket _ hin)).1
      · refine .inr ⟨fun p hp => ?_, fun hin => ?_⟩
        · simpa [show w.client.source = some p from hp] using hleft
        · exact Nat.lt_irrefl _ (h.onStreams _ _ (h.byStream _ hin)).1
    · obtain ⟨t, ht, heq⟩ := List.mem_map.mp hks
      cases heq
      exact absurd (h.onStreams _ r hkr).1 (Nat.lt_irrefl _)
    · obtain ⟨q, hq, heq⟩ := List.mem_map.mp hkr
      cases heq
      exact absurd (h.onSockets _ s hks).1 (Nat.lt_irrefl _)
    · exact h.apart k s r hks hkr

structure Inv (w : Traffic) : Prop where
  honest : w.client.Honest w.accepted w.refused
  roads : Roads w

theorem inv_start {w : Traffic} (h : system.start w) : Inv w := by
  obtain ⟨hasEventSource, rfl⟩ := h
  refine ⟨?_, ?_⟩
  · constructor
    case timed => exact .of_nil rfl
    all_goals simp
  · constructor <;> simp

/-- What the client hears, but for a handshake, are events that were sent to it. -/
theorem heard_eq {w : Traffic} {e : Client.Event} {client : Client} (hsends : w.sends e = true)
    (hs : w.client.step e = some client)
    (hreply : ∀ s error, e ≠ .message s (.response (some 0) error)) :
    ∃ bySocket byStream, w.heard e client = { w with client, bySocket, byStream } ∧
      (∀ p ∈ bySocket, p ∈ w.bySocket ∨ p ∈ w.onSockets ∧ w.client.readyState p.2 ≠ .closed) ∧
      ∀ p ∈ byStream, p ∈ w.byStream ∨
        p ∈ w.onStreams ∧ ∃ q, w.client.source = some q ∧ q.number = p.2 := by
  unfold heard
  split
  case h_1 s => exact absurd rfl (hreply s none)
  case h_2 s error => exact absurd rfl (hreply s (some error))
  case h_3 s k =>
    refine ⟨_, _, rfl, fun p hp => ?_, fun p hp => .inl hp⟩
    rcases List.mem_cons.mp hp with rfl | hp
    · refine .inr ⟨of_decide_eq_true hsends, fun hclosed => ?_⟩
      have hclosed : w.client.readyState s = .closed := hclosed
      simp [Client.step, hclosed] at hs
    · exact .inl hp
  case h_4 k =>
    refine ⟨_, _, rfl, fun p hp => .inl hp, fun p hp => ?_⟩
    rcases List.mem_append.mp hp with hp | hp
    · obtain ⟨q, hq, rfl⟩ := List.mem_map.mp hp
      have hq : w.client.source = some q := by simpa using hq
      have hsent : (k, q.number) ∈ w.onStreams := by simpa [sends, hq] using hsends
      exact .inr ⟨hsent, q, hq, rfl⟩
    · exact .inl hp
  case h_5 => exact ⟨_, _, rfl, fun p hp => .inl hp, fun p hp => .inl hp⟩

/-- The client hears of anything but a handshake. -/
theorem Inv.client {w : Traffic} (h : Inv w) {e : Client.Event} {client : Client}
    (hkeep : KeepsTruth w (.client e)) (hsends : w.sends e = true)
    (hs : w.client.step e = some client)
    (hreply : ∀ s error, e ≠ .message s (.response (some 0) error)) : Inv (w.heard e client) := by
  have hline (id : Option Nat) (error : Option V6Error) : e ≠ .streamLine (.response id error) := by
    rintro rfl
    cases hsends
  have honest : client.Honest w.accepted w.refused := by
    refine h.honest.step hs hreply hline ?_ ?_ ?_ ?_
    · rintro rfl
      exact hkeep
    · rintro rfl
      exact hkeep
    · rintro rfl
      exact hkeep
    · rintro number error rfl
      exact hkeep
  obtain ⟨bySocket, byStream, heq, hsocket, hstream⟩ := heard_eq hsends hs hreply
  rw [heq]
  exact ⟨honest, h.roads.hear (Ages.step hs) hsocket hstream⟩

/-- A handshake is answered. -/
theorem Inv.reply {w : Traffic} (h : Inv w) {s : Nat} {error : Option V6Error} {client : Client}
    (hkeep : KeepsTruth w (.client (.message s (.response (some 0) error))))
    (hsends : w.sends (.message s (.response (some 0) error)) = true)
    (hs : w.client.step (.message s (.response (some 0) error)) = some client) :
    Inv (w.heard (.message s (.response (some 0) error)) client) := by
  have hages := Ages.step hs
  simp only [Client.step] at hs
  split at hs
  case isFalse => cases hs
  case isTrue hst =>
    obtain rfl := Option.some.inj hs
    cases error with
    | none =>
      exact ⟨h.honest.accept hkeep hst,
        h.roads.hear hages (fun _ hp => .inl hp) fun _ hp => .inl hp⟩
    | some error =>
      obtain ⟨hcur, hauth, hstream⟩ := hkeep
      have hacc : s ∉ w.accepted := by
        simp only [sends, Bool.and_eq_true, decide_eq_true_eq] at hsends
        exact hsends.1
      exact ⟨h.honest.refuse hcur hst hacc hauth hstream,
        h.roads.hear hages (fun _ hp => .inl hp) fun _ hp => .inl hp⟩

/-- **One step.** -/
theorem inv_step {w w' : Traffic} {e : Event} (h : Inv w) (hkeep : KeepsTruth w e)
    (hs : w.step e = some w') : Inv w' := by
  cases e with
  | client e =>
    simp only [step] at hs
    split at hs
    case isFalse => cases hs
    case isTrue hsends =>
      obtain ⟨client, hclient, rfl⟩ := Option.map_eq_some_iff.mp hs
      by_cases hreply : ∀ s error, e ≠ .message s (.response (some 0) error)
      · exact h.client hkeep hsends hclient hreply
      · simp only [not_forall, not_not] at hreply
        obtain ⟨s, error, rfl⟩ := hreply
        exact h.reply hkeep hsends hclient
  | carry s =>
    simp only [step] at hs
    split at hs
    case isFalse => cases hs
    case isTrue hlt =>
      obtain rfl := Option.some.inj hs
      refine ⟨h.honest, { h.roads with carried := fun t ht => ?_ }⟩
      rcases List.mem_cons.mp ht with rfl | ht
      · exact hlt
      · exact h.roads.carried t ht
  | drop s =>
    obtain rfl := Option.some.inj hs
    exact ⟨h.honest, { h.roads with
      carried := fun t ht => h.roads.carried t (List.mem_filter.mp ht).1 }⟩
  | stream r =>
    simp only [step] at hs
    split at hs
    case isFalse => cases hs
    case isTrue hlt =>
      obtain rfl := Option.some.inj hs
      refine ⟨h.honest, { h.roads with streamed := fun t ht => ?_ }⟩
      rcases List.mem_cons.mp ht with rfl | ht
      · exact hlt
      · exact h.roads.streamed t ht
  | endStream r =>
    obtain rfl := Option.some.inj hs
    exact ⟨h.honest, { h.roads with
      streamed := fun t ht => h.roads.streamed t (List.mem_filter.mp ht).1 }⟩
  | broadcast =>
    obtain rfl := Option.some.inj hs
    exact ⟨h.honest, h.roads.broadcast hkeep⟩

theorem Inv.truthful {w : Traffic} (h : Inv w) (hquiet : Quiet w) : Truthful w where
  connected := by
    rintro (⟨s, hacc, hopen⟩ | ⟨r, hr, hro⟩)
    · have hcur : w.client.socket = some s := by
        by_contra hne
        rcases h.honest.others s hne with hst | hst <;> simp [hopen] at hst
      exact ⟨_, (h.honest.up (h.honest.shakes s hacc hcur (by simp [hopen]))).1, rfl⟩
    · exact ⟨_, h.honest.streaming r hr hro, rfl⟩
  disconnected hup hsource n hn := by
    by_contra hc
    rcases h.honest.connected n hn (by simpa using hc) with hshaken | hsome
    · obtain ⟨s, hacc, -, hopen⟩ := h.honest.shaken hshaken
      refine hup ⟨s, hacc, ?_⟩
      cases hst : w.client.readyState s with
      | opened => rfl
      | closed => exact absurd hst hopen
      | closing => exact absurd hst (hquiet.closing s (h.honest.answered s (.inl hacc)).1)
      | connecting => exact absurd hst (h.honest.answered s (.inl hacc)).2
    · rw [hsource] at hsome
      cases hsome
  retrying n hn hr := by
    rcases h.honest.retrying n hn hr with (htimer | ⟨s, hs, hopen, hacc⟩) | ⟨r, hr, hro⟩
    · exact .inl htimer
    · have hlt := h.honest.current s hs
      refine .inr (.inl ⟨s, hlt, ?_⟩)
      cases hst : w.client.readyState s with
      | connecting => exact .inl rfl
      | closed => exact absurd hst hopen
      | closing => exact absurd hst (hquiet.closing s hlt)
      | opened =>
        refine .inr ⟨rfl, hacc, fun hrefused => ?_⟩
        simp [hquiet.refused s hrefused] at hst
    · exact .inr (.inr (by simp [hr, hro]))

theorem Inv.tells {w : Traffic} (h : Inv w) : Tells w where
  truthful := h.truthful
  once k s r hks hkr := by
    rcases h.roads.apart k s r (h.roads.bySocket _ hks) (h.roads.byStream _ hkr) with hnot | hnot
    · exact hnot.2 hks
    · exact hnot.2 hkr

end Traffic

/-- **The notice is truthful.** -/
theorem notice_truthful {w₀ w : Traffic} {events : List Traffic.Event}
    (hstart : Traffic.system.start w₀) (hkeep : Traffic.system.Along KeepsTruth w₀ events)
    (hrun : Traffic.system.exec w₀ events = some w) : Traffic.Tells w :=
  (Traffic.system.exec_induction (fun _ _ _ h hkeep hs => Traffic.inv_step h hkeep hs)
    (Traffic.inv_start hstart) hkeep hrun).tells

/-- A socket that will not open, a stream in its place, and the socket after all. -/
def Traffic.streamedRun : List Traffic.Event :=
  [.client .connect, .client (.failed 0), .client (.closed 0), .client .streamOpened, .stream 0,
    .broadcast, .client (.streamLine (.event 0)), .client (.timer 0), .client (.opened 1),
    .client (.message 1 (.response (some 0) none)), .carry 1, .broadcast,
    .client (.message 1 (.event 1))]

theorem notice_truthful_streamed :
    ∃ w, Traffic.system.exec {} Traffic.streamedRun = some w ∧ Traffic.Tells w ∧
      w.client.told = some ⟨true, false⟩ ∧ w.bySocket = [(1, 1)] ∧ w.byStream = [(0, 0)] := by
  have hrun : (Traffic.system.exec {} Traffic.streamedRun).any (fun w =>
      w.client.told = some ⟨true, false⟩ ∧ w.bySocket = [(1, 1)] ∧ w.byStream = [(0, 0)]) =
        true := by decide +kernel
  have hkeep : Traffic.system.checked (fun w e => decide (KeepsTruth w e)) {} Traffic.streamedRun =
      true := by decide +kernel
  obtain ⟨w, hexec, hfacts⟩ := (Option.any_eq_true _ _).mp hrun
  have halong := Traffic.system.along_of_checked (fun _ _ h => of_decide_eq_true h) hkeep
  exact ⟨w, hexec, notice_truthful ⟨true, rfl⟩ halong hexec, of_decide_eq_true hfacts⟩

/-- The handshake is refused for its token: the client stops, and says that it is retrying. -/
def Traffic.rejectedRun : List Traffic.Event :=
  [.client .connect, .client (.opened 0),
    .client (.message 0 (.response (some 0) (some { code := some "unauthorized" }))),
    .client (.closed 0)]

theorem rejected_still_retrying :
    ∃ w, Traffic.system.exec {} Traffic.rejectedRun = some w ∧ Traffic.Quiet w ∧
      ¬ Traffic.Tells w ∧ w.client.told = some ⟨false, true⟩ ∧ w.client.timers = [] ∧
      w.client.socket = none := by
  have hrun : (Traffic.system.exec {} Traffic.rejectedRun).any (fun w =>
      ((∀ s < w.client.nextSocket, w.client.readyState s = .closed) ∧
        w.client.pending = [] ∧ w.client.http = [] ∧ w.client.source = none) ∧
      w.client.told = some ⟨false, true⟩ ∧ w.client.timers = [] ∧ w.client.socket = none ∧
      w.refused = [0] ∧ w.client.nextSocket = 1) = true := by decide +kernel
  obtain ⟨w, hexec, hfacts⟩ := (Option.any_eq_true _ _).mp hrun
  obtain ⟨⟨hclosed, hpending, hhttp, hsource⟩, htold, htimers, hsocket, hrefused, hnext⟩ :=
    of_decide_eq_true hfacts
  have hquiet : Traffic.Quiet w := by
    refine ⟨fun s hs => by simp [hclosed s hs], fun s hs => hclosed s ?_, hpending, hhttp⟩
    rw [hrefused, List.mem_singleton] at hs
    omega
  refine ⟨w, hexec, hquiet, fun h => ?_, htold, htimers, hsocket⟩
  rcases (h.truthful hquiet).retrying _ htold rfl with hrun | ⟨s, hs, hst⟩ | hstream
  · exact hrun htimers
  · simp [hclosed s hs] at hst
  · simp [hsource] at hstream

end Mbrc.WebApp
