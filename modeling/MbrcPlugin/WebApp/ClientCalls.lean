import Mathlib.Data.List.Nodup
import MbrcPlugin.Lib.Transition
import MbrcPlugin.WebApp.Client

/-!
# Calls over a socket settle once

The client's user actions and what the browser reports come in any order, with frames of any
content.  Beside them runs the queue store's `reload`, which shares one running read and asks for
one more.  The close handler fails the pending calls of the current socket only, so a call is lost
when its socket is dropped before its close event: `calls_settle` says that nothing else loses one.
-/

namespace Mbrc.WebApp

open Client

/-! ## The calls by themselves -/

namespace Calls

variable {c : Calls}

def settledIds (c : Calls) : List Nat := c.settled.map (·.1)

@[simp] theorem settledIds_add (s : Nat) : (c.add s).settledIds = c.settledIds := rfl

@[simp] theorem settledIds_failAll : c.failAll.settledIds = c.settledIds ++ c.pending := by
  simp [settledIds, failAll, Function.comp_def]

theorem settledIds_answer {id : Nat} (h : id ∈ c.pending) :
    (c.answer id).settledIds = c.settledIds ++ [id] := by
  simp [settledIds, answer, h]

/-- The ids are handed out once, and a call that was sent is pending or settled, not both. -/
structure Accounted (c : Calls) : Prop where
  fresh : ∀ e ∈ c.sent, e.id < c.nextId
  unique : ∀ e ∈ c.sent, ∀ f ∈ c.sent, e.id = f.id → e = f
  known : ∀ e ∈ c.sent, e.id ∈ c.pending ∨ e.id ∈ c.settledIds
  asked : ∀ id ∈ c.pending, ∃ s, { id := id, socket := s } ∈ c.sent
  told : ∀ id ∈ c.settledIds, id < c.nextId
  once : (c.settledIds ++ c.pending).Nodup
  own : ∀ p ∈ c.settled, ∀ id, p.2 = .response id → id = p.1

namespace Accounted

theorem pending_lt (h : Accounted c) {id : Nat} (hid : id ∈ c.pending) : id < c.nextId := by
  obtain ⟨s, hs⟩ := h.asked id hid
  exact h.fresh _ hs

theorem add (h : Accounted c) (s : Nat) : Accounted (c.add s) where
  fresh e he := by
    rcases List.mem_append.mp he with he | he
    · have := h.fresh e he
      simp only [Calls.add]
      omega
    · obtain rfl := List.mem_singleton.mp he
      simp [Calls.add]
  unique e he f hf hef := by
    rcases List.mem_append.mp he with he | he <;> rcases List.mem_append.mp hf with hf | hf
    · exact h.unique e he f hf hef
    · obtain rfl := List.mem_singleton.mp hf
      have := h.fresh e he
      simp only at hef
      omega
    · obtain rfl := List.mem_singleton.mp he
      have := h.fresh f hf
      simp only at hef
      omega
    · rw [List.mem_singleton.mp he, List.mem_singleton.mp hf]
  known e he := by
    rcases List.mem_append.mp he with he | he
    · exact (h.known e he).imp (fun hp => List.mem_append_left _ hp) id
    · obtain rfl := List.mem_singleton.mp he
      exact .inl (List.mem_append_right _ (List.mem_singleton_self _))
  asked id hid := by
    rcases List.mem_append.mp hid with hid | hid
    · obtain ⟨t, ht⟩ := h.asked id hid
      exact ⟨t, List.mem_append_left _ ht⟩
    · obtain rfl := List.mem_singleton.mp hid
      exact ⟨s, List.mem_append_right _ (List.mem_singleton_self _)⟩
  told id hid := Nat.lt_succ_of_lt (h.told id hid)
  once := by
    have hnew : c.nextId ∉ c.settledIds ++ c.pending := by
      intro hin
      rcases List.mem_append.mp hin with hin | hin
      · exact Nat.lt_irrefl _ (h.told _ hin)
      · exact Nat.lt_irrefl _ (h.pending_lt hin)
    show (c.settledIds ++ (c.pending ++ [c.nextId])).Nodup
    rw [← List.append_assoc]
    exact List.Nodup.append h.once (List.nodup_singleton _) (by simpa using hnew)
  own := h.own

theorem failAll (h : Accounted c) : Accounted c.failAll where
  fresh := h.fresh
  unique := h.unique
  known e he := by
    rw [settledIds_failAll, List.mem_append]
    exact .inr (h.known e he).symm
  asked id hid := absurd hid (List.not_mem_nil)
  told id hid := by
    rw [settledIds_failAll, List.mem_append] at hid
    exact hid.elim (h.told id) h.pending_lt
  once := by
    rw [settledIds_failAll]
    simpa [Calls.failAll] using h.once
  own p hp id hid := by
    rcases List.mem_append.mp hp with hp | hp
    · exact h.own p hp id hid
    · obtain ⟨i, -, rfl⟩ := List.mem_map.mp hp
      cases hid

theorem answer (h : Accounted c) (id : Nat) : Accounted (c.answer id) := by
  by_cases hid : id ∈ c.pending
  case neg =>
    simpa [Calls.answer, hid] using h
  case pos =>
    have hpending : (c.answer id).pending = c.pending.filter (· ≠ id) := by
      simp [Calls.answer, hid]
    have hsent : (c.answer id).sent = c.sent := by simp [Calls.answer, hid]
    have hnext : (c.answer id).nextId = c.nextId := by simp [Calls.answer, hid]
    refine ⟨?_, ?_, ?_, ?_, ?_, ?_, ?_⟩
    · rw [hsent, hnext]
      exact h.fresh
    · rw [hsent]
      exact h.unique
    · intro e he
      rw [hpending, settledIds_answer hid, List.mem_append, List.mem_singleton, List.mem_filter]
      by_cases hei : e.id = id
      · exact .inr (.inr hei)
      · exact (h.known e (hsent ▸ he)).imp (fun hp => ⟨hp, by simpa using hei⟩) .inl
    · intro i hi
      rw [hpending, List.mem_filter] at hi
      rw [hsent]
      exact h.asked i hi.1
    · intro i hi
      rw [hnext]
      rw [settledIds_answer hid, List.mem_append, List.mem_singleton] at hi
      rcases hi with hi | rfl
      · exact h.told i hi
      · exact h.pending_lt hid
    · rw [hpending, settledIds_answer hid]
      obtain ⟨hset, hpend, hdisj⟩ := List.nodup_append.mp h.once
      refine List.nodup_append.mpr ⟨?_, hpend.filter _, ?_⟩
      · refine List.nodup_append.mpr ⟨hset, List.nodup_singleton _, ?_⟩
        intro a ha b hb
        rw [List.mem_singleton.mp hb]
        exact hdisj a ha id hid
      · intro a ha b hb hab
        rw [List.mem_filter] at hb
        rw [List.mem_append, List.mem_singleton] at ha
        rcases ha with ha | rfl
        · exact hdisj a ha b hb.1 hab
        · simp [hab] at hb
    · intro p hp i hi
      simp only [Calls.answer, hid, if_true, List.mem_append, List.mem_singleton] at hp
      rcases hp with hp | rfl
      · exact h.own p hp i hi
      · cases hi
        rfl

end Accounted

end Calls

/-! ## The queue store's reload -/

/-- The client, and the read that the queue store shares. -/
structure Reload where
  client : Client := {}
  reading : Option Carrier := none
  readAgain : Bool := false

/-- One event of the client, an ask for the queue, or the end of the read under way. -/
inductive Reload.Event where
  | client (e : Client.Event)
  | reload
  | landed
  deriving DecidableEq

namespace Reload

def readUntilSettled (w : Reload) : Reload :=
  { client := w.client.call.1, reading := some w.client.call.2, readAgain := false }

def reload (w : Reload) : Reload :=
  if w.reading.isSome then { w with readAgain := true } else w.readUntilSettled

/-- What follows a read, whether it failed or not. -/
def landed (w : Reload) : Reload :=
  if w.readAgain then w.readUntilSettled else { w with reading := none }

/-- The promise of the call is settled. -/
def isSettled (w : Reload) : Carrier → Bool
  | .socket id => id ∈ w.client.settledIds
  | .http number => number ∉ w.client.http

def step (w : Reload) : Event → Option Reload
  | .client e => (w.client.step e).map fun client => { w with client }
  | .reload => some w.reload
  | .landed => if w.reading.any w.isSettled then some w.landed else none

def system : Transition.System Reload Event where
  start w := ∃ hasEventSource, w = { client := { hasEventSource } }
  next := step

end Reload

/-! ## What settles -/

/-- Every call settles at most once, by its own response or a rejection, and it has settled when
its socket is closed; the read that the queue store shares is no exception. -/
structure Settles (w : Reload) : Prop where
  once : w.client.settledIds.Nodup
  own : ∀ p ∈ w.client.settled, p.2 = .response p.1 ∨ p.2 = .rejection
  closed : ∀ e ∈ w.client.sent, w.client.readyState e.socket = .closed →
    e.id ∈ w.client.settledIds
  shared : ∀ id, w.reading = some (.socket id) → id ∈ w.client.settledIds ∨
    ∃ s, { id, socket := s } ∈ w.client.sent ∧ w.client.readyState s ≠ .closed

/-- A handshake is refused for its token. -/
def Frame.rejects : Frame → Bool
  | .response (some 0) (some error) => !isIdentityRefusal error && isAuthFailure error
  | _ => false

/-- No call is pending when the client drops its socket with no call failed: when `disconnect`
runs by itself, when a token is refused, and when `connect` finds the current socket closing. -/
def Client.LeavesNone (c : Client) : Client.Event → Prop
  | .disconnect => c.pending = []
  | .connect => c.leaving → c.pending = []
  | .httpDone _ error => error.any isAuthFailure → c.pending = []
  | .message _ frame | .streamLine frame => frame.rejects → c.pending = []
  | _ => True

instance (c : Client) (e : Client.Event) : Decidable (c.LeavesNone e) := by
  unfold Client.LeavesNone
  split <;> infer_instance

def LeavesNone (w : Reload) : Reload.Event → Prop
  | .client e => w.client.LeavesNone e
  | _ => True

instance (w : Reload) (e : Reload.Event) : Decidable (LeavesNone w e) := by
  unfold LeavesNone
  split <;> infer_instance

/-! ## What an event does to the calls -/

namespace Calls

/-- What becomes of the calls in one event. -/
inductive Moves (c : Calls) : Calls → Prop where
  | same : Moves c c
  | add (s : Nat) : Moves c (c.add s)
  | answer (id : Nat) : Moves c (c.answer id)
  | failAll : Moves c c.failAll

variable {c c' : Calls}

theorem Moves.accounted (h : Moves c c') (hacc : Accounted c) : Accounted c' := by
  cases h with
  | same => exact hacc
  | add s => exact hacc.add s
  | answer id => exact hacc.answer id
  | failAll => exact hacc.failAll

theorem Moves.sent (h : Moves c c') {e : Sent} (he : e ∈ c.sent) : e ∈ c'.sent := by
  cases h with
  | same => exact he
  | add s => exact List.mem_append_left _ he
  | answer id =>
    unfold Calls.answer
    split <;> exact he
  | failAll => exact he

end Calls

namespace Client

variable {c c' : Client}

theorem moves_call : c.toCalls.Moves c.call.1.toCalls := by
  unfold call
  split
  · split
    · exact .add _
    · exact .same
  · exact .same

theorem moves_receive (frame : Frame) : c.toCalls.Moves (c.receive frame).toCalls := by
  unfold receive
  split
  case h_3 error =>
    have hsame : (c.handshakeReply error).toCalls = c.toCalls := by
      unfold handshakeReply rejectAuth emitConnection
      dsimp only
      split
      · rfl
      · split
        · rfl
        · split
          · exact toCalls_disconnect
          · rfl
    rw [hsame]
    exact .same
  case h_4 => exact .answer _
  all_goals exact .same

theorem moves_onClose (s : Nat) : c.toCalls.Moves (c.onClose s).toCalls := by
  unfold onClose
  dsimp only
  split
  · exact .same
  · split
    · exact .failAll
    · rw [toCalls_startEventStream, toCalls_scheduleReconnect]
      exact .failAll

theorem moves {e : Client.Event} (hs : c.step e = some c') : c.toCalls.Moves c'.toCalls := by
  cases e with
  | call =>
    obtain rfl := Option.some.inj hs
    exact moves_call
  | reconnect =>
    obtain rfl := Option.some.inj hs
    simpa [reconnect, failAllPending] using Calls.Moves.failAll
  | message s frame | streamLine frame =>
    simp only [step] at hs
    split at hs
    case isFalse => cases hs
    case isTrue =>
      obtain rfl := Option.some.inj hs
      exact moves_receive frame
  | closed s =>
    simp only [step] at hs
    split at hs
    case isTrue => cases hs
    case isFalse =>
      obtain rfl := Option.some.inj hs
      exact moves_onClose s
  | connect | disconnect =>
    obtain rfl := Option.some.inj hs
    simpa using Calls.Moves.same
  | httpDone number error =>
    simp only [step, httpDone, rejectAuth] at hs
    split at hs
    case isFalse => cases hs
    case isTrue =>
      obtain rfl := Option.some.inj hs
      split
      · simpa using Calls.Moves.same
      · exact .same
  | timer t =>
    simp only [step] at hs
    split at hs
    case isFalse => cases hs
    case isTrue =>
      obtain rfl := Option.some.inj hs
      rw [toCalls_openSocket]
      exact .same
  | opened s | failed s | streamOpened =>
    simp only [step] at hs
    split at hs
    all_goals first
      | cases hs; done
      | obtain rfl := Option.some.inj hs; exact .same
  | streamError final =>
    obtain ⟨source, -, rfl⟩ := Option.map_eq_some_iff.mp hs
    unfold onStreamError
    split <;> exact .same

end Client

/-! ## Where the pending calls are -/

namespace Client

variable {c c' : Client}

/-- Every pending call went over the current socket, which is not closed. -/
def Located (c : Client) : Prop :=
  ∀ id ∈ c.pending, ∃ s, { id, socket := s } ∈ c.sent ∧ c.socket = some s ∧
    c.readyState s ≠ .closed

theorem Located.of_none (h : c.pending = []) : Located c := by
  intro id hid
  simp [h] at hid

/-- The current socket stays and is not closed. -/
theorem Located.congr (h : Located c) (hcalls : c'.toCalls = c.toCalls)
    (hs : c'.socket = c.socket)
    (hst : ∀ s, c.socket = some s → c.readyState s ≠ .closed → c'.readyState s ≠ .closed) :
    Located c' := by
  intro id hid
  rw [hcalls] at hid ⊢
  obtain ⟨s, hsent, hcur, hopen⟩ := h id hid
  exact ⟨s, hsent, hs.trans hcur, hst s hcur hopen⟩

theorem Located.pending_of_none (h : Located c) (hnone : c.socket = none) : c.pending = [] := by
  refine List.eq_nil_iff_forall_not_mem.mpr fun id hid => ?_
  obtain ⟨s, -, hcur, -⟩ := h id hid
  rw [hnone] at hcur
  cases hcur

theorem Located.pending_of_closed (h : Located c) {s : Nat} (hs : c.socket = some s)
    (hclosed : c.readyState s = .closed) : c.pending = [] := by
  refine List.eq_nil_iff_forall_not_mem.mpr fun id hid => ?_
  obtain ⟨t, -, hcur, hopen⟩ := h id hid
  obtain rfl : s = t := Option.some.inj (hs.symm.trans hcur)
  exact hopen hclosed

/-- A new socket is made only where none is live, and a closing one may still owe answers. -/
theorem Located.openSocket (h : Located c) (hleave : c.leaving → c.pending = []) :
    Located c.openSocket := by
  by_cases hlive : c.socket.any c.live
  · unfold Client.openSocket
    rw [if_pos hlive]
    exact h.congr rfl rfl fun _ _ hs => hs
  · refine .of_none ?_
    rw [toCalls_openSocket]
    cases hs : c.socket with
    | none => exact h.pending_of_none hs
    | some s =>
      simp only [hs, Option.any_some] at hlive
      cases hstate : c.readyState s with
      | closed => exact h.pending_of_closed hs hstate
      | closing => exact hleave (by simp [leaving, hs, hstate])
      | connecting => simp [live, hstate] at hlive
      | opened => simp [live, hstate] at hlive

/-- What every event keeps as long as no socket is dropped with calls pending. -/
structure Kept (c : Client) : Prop where
  located : Located c
  timed : Timed c

namespace Kept

theorem call (h : Kept c) : Kept c.call.1 := by
  refine ⟨?_, h.timed.step (e := .call) rfl⟩
  unfold Client.call
  split
  case h_2 => exact h.located
  case h_1 s hs =>
    split
    case isFalse => exact h.located
    case isTrue hup =>
      intro id hid
      have hid : id ∈ c.pending ∨ id = c.nextId := by
        simpa [callOverSocket, Calls.add] using hid
      rcases hid with hid | rfl
      · obtain ⟨t, hsent, hcur, hopen⟩ := h.located id hid
        exact ⟨t, List.mem_append_left _ hsent, hcur, hopen⟩
      · refine ⟨s, List.mem_append_right _ (List.mem_singleton_self _), hs, ?_⟩
        show c.readyState s ≠ .closed
        rw [hup.1]
        decide

theorem disconnect (h : Kept c) (hnone : c.pending = []) : Kept c.disconnect where
  located := .of_none (by rw [toCalls_disconnect]; exact hnone)
  timed := h.timed.disconnect

/-- The calls and the sockets are as they were. -/
theorem congr (h : Kept c) (ht : Timed c') (hcalls : c'.toCalls = c.toCalls)
    (hr : c'.readyState = c.readyState) (hs : c'.socket = c.socket) : Kept c' where
  located := h.located.congr hcalls hs fun _ _ hopen => hr ▸ hopen
  timed := ht

theorem handshakeReply (h : Kept c) {error : Option V6Error}
    (hnone : (Frame.response (some 0) error).rejects → c.pending = []) :
    Kept (c.handshakeReply error) := by
  have ht := h.timed.handshakeReply error
  cases error with
  | none => exact h.congr ht rfl rfl rfl
  | some error =>
    unfold Client.handshakeReply at ht ⊢
    dsimp only at ht ⊢
    split at ht
    · rw [if_pos ‹_›]
      exact h.congr ht rfl rfl rfl
    · split at ht
      case isFalse hid hauth =>
        rw [if_neg hid, if_neg hauth]
        exact h.congr ht rfl rfl rfl
      case isTrue hid hauth =>
        rw [if_neg hid, if_pos hauth]
        have hpending : c.pending = [] := hnone (by simp [Frame.rejects, hid, hauth])
        have hd : Kept (({ c with handshaked := (some error).isNone } : Client).disconnect) :=
          disconnect (h.congr (h.timed.congr rfl rfl rfl fun _ hs => hs) rfl rfl rfl) hpending
        exact hd.congr (hd.timed.congr rfl rfl rfl fun _ hs => hs) rfl rfl rfl

theorem settle (h : Kept c) (id : Nat) : Kept (c.settle id) where
  located := by
    intro i hi
    have hsub : i ∈ c.pending ∧ (c.settle id).sent = c.sent := by
      unfold Client.settle Calls.answer at hi ⊢
      split at hi
      · exact ⟨(List.mem_filter.mp hi).1, by simp [*]⟩
      · exact ⟨hi, by simp [*]⟩
    rw [hsub.2]
    exact h.located i hsub.1
  timed := h.timed.congr rfl rfl rfl fun _ hs => hs

theorem receive (h : Kept c) {frame : Frame} (hnone : frame.rejects → c.pending = []) :
    Kept (c.receive frame) := by
  unfold Client.receive
  split
  case h_3 => exact h.handshakeReply hnone
  case h_4 => exact h.settle _
  all_goals exact h

/-- The close of the current socket fails what is pending; nothing is pending on another. -/
theorem onClose (h : Kept c) {s : Nat} (hs : c.readyState s ≠ .closed) : Kept (c.onClose s) := by
  have ht := h.timed.onClose hs
  unfold Client.onClose at ht ⊢
  dsimp only at ht ⊢
  split at ht
  case isTrue hcur =>
    rw [if_pos hcur]
    refine ⟨h.located.congr rfl rfl fun t htcur hopen => ?_, ht⟩
    have hts : t ≠ s := by
      rintro rfl
      exact hcur htcur
    simpa [Function.update, hts] using hopen
  case isFalse hcur =>
    rw [if_neg hcur]
    split at ht
    case isTrue hclosed =>
      rw [if_pos hclosed]
      exact ⟨.of_none rfl, ht⟩
    case isFalse hclosed =>
      rw [if_neg hclosed]
      refine ⟨.of_none ?_, ht⟩
      rw [toCalls_startEventStream, toCalls_scheduleReconnect]
      rfl

theorem openSocket (h : Kept c) (ht : Timed c.openSocket)
    (hleave : c.leaving → c.pending = []) : Kept c.openSocket where
  located := h.located.openSocket hleave
  timed := ht

theorem connect (h : Kept c) (hleave : c.leaving → c.pending = []) : Kept c.connect := by
  have hclear : Kept ({ c with attempt := 0 } : Client).clearTimer :=
    h.congr (.of_nil h.timed.cleared) rfl rfl rfl
  exact hclear.openSocket h.timed.connect hleave

/-- **One event.** -/
theorem step (h : Kept c) {e : Client.Event} (hnone : c.LeavesNone e)
    (hs : c.step e = some c') : Kept c' := by
  have ht := h.timed.step hs
  cases e with
  | connect =>
    obtain rfl := Option.some.inj hs
    exact h.connect hnone
  | disconnect =>
    obtain rfl := Option.some.inj hs
    exact h.disconnect hnone
  | reconnect =>
    obtain rfl := Option.some.inj hs
    -- between `disconnect` and `failAllPending` the pending calls are nowhere
    exact ⟨.of_none (by simp [Client.reconnect, Client.failAllPending, Calls.failAll]), ht⟩
  | call =>
    obtain rfl := Option.some.inj hs
    exact h.call
  | httpDone number error =>
    simp only [Client.step] at hs
    split at hs
    case isFalse => cases hs
    case isTrue =>
      obtain rfl := Option.some.inj hs
      have hdone : Kept { c with http := c.http.filter (· ≠ number) } :=
        h.congr (h.timed.congr rfl rfl rfl fun _ hs => hs) rfl rfl rfl
      unfold Client.httpDone rejectAuth
      dsimp only
      split
      case isTrue hauth => exact hdone.disconnect (hnone hauth)
      case isFalse => exact hdone
  | opened s =>
    simp only [Client.step] at hs
    split at hs
    case isFalse => cases hs
    case isTrue hconn =>
      obtain rfl := Option.some.inj hs
      refine ⟨h.located.congr rfl rfl fun t _ hopen => ?_, ht⟩
      by_cases hts : t = s <;> simp [Function.update, hts, hopen]
  | message s frame =>
    simp only [Client.step] at hs
    split at hs
    case isFalse => cases hs
    case isTrue =>
      obtain rfl := Option.some.inj hs
      exact h.receive hnone
  | failed s =>
    simp only [Client.step] at hs
    split at hs
    case isTrue => cases hs
    case isFalse =>
      obtain rfl := Option.some.inj hs
      refine ⟨h.located.congr rfl rfl fun t _ hopen => ?_, ht⟩
      unfold closeSocket
      dsimp only
      split
      · by_cases hts : t = s <;> simp [Function.update, hts, hopen]
      · exact hopen
  | closed s =>
    simp only [Client.step] at hs
    split at hs
    case isTrue => cases hs
    case isFalse hopen =>
      obtain rfl := Option.some.inj hs
      exact h.onClose hopen
  | timer t =>
    simp only [Client.step] at hs
    split at hs
    case isFalse => cases hs
    case isTrue hrun =>
      obtain rfl := Option.some.inj hs
      -- a timer runs only while the current socket is closed
      obtain ⟨s, hcur, hclosed⟩ := h.timed.idle (List.ne_nil_of_mem hrun)
      have hfired : Kept { c with timers := c.timers.filter (· ≠ t) } :=
        h.congr (.of_nil (h.timed.fired hrun)) rfl rfl rfl
      exact hfired.openSocket ht fun _ => h.located.pending_of_closed hcur hclosed
  | streamOpened =>
    simp only [Client.step] at hs
    split at hs
    case h_2 => cases hs
    case h_1 =>
      obtain rfl := Option.some.inj hs
      exact h.congr ht rfl rfl rfl
  | streamLine frame =>
    simp only [Client.step] at hs
    split at hs
    case isFalse => cases hs
    case isTrue =>
      obtain rfl := Option.some.inj hs
      exact h.receive hnone
  | streamError final =>
    obtain ⟨source, -, rfl⟩ := Option.map_eq_some_iff.mp hs
    unfold onStreamError at ht ⊢
    split at ht
    · rw [if_pos ‹_›]
      exact h.congr ht rfl rfl rfl
    · rw [if_neg ‹_›]
      exact h.congr ht rfl rfl rfl

/-- A call on a closed socket is not pending any more. -/
theorem settled (h : Kept c) (hacc : c.toCalls.Accounted) {e : Sent} (he : e ∈ c.sent)
    (hclosed : c.readyState e.socket = .closed) : e.id ∈ c.settledIds := by
  refine (hacc.known e he).resolve_left fun hpending => ?_
  obtain ⟨s, hsent, -, hopen⟩ := h.located e.id hpending
  have hes := hacc.unique e he _ hsent rfl
  rw [hes] at hclosed
  exact hopen hclosed

end Kept

end Client

/-! ## Whole runs -/

namespace Reload

/-- What every run keeps that leaves no call behind. -/
structure Inv (w : Reload) : Prop where
  accounted : w.client.toCalls.Accounted
  kept : w.client.Kept
  shared : ∀ id, w.reading = some (.socket id) → ∃ s, { id, socket := s } ∈ w.client.sent

theorem inv_start {w : Reload} (h : system.start w) : Inv w := by
  obtain ⟨hasEventSource, rfl⟩ := h
  exact {
    accounted := by constructor <;> simp [Calls.settledIds]
    kept := ⟨.of_none rfl, .of_nil rfl⟩
    shared := nofun }

theorem Inv.readUntilSettled {w : Reload} (h : Inv w) : Inv w.readUntilSettled where
  accounted := moves_call.accounted h.accounted
  kept := h.kept.call
  shared id hid := by
    have hid : w.client.call.2 = .socket id := Option.some.inj hid
    show ∃ s, { id, socket := s } ∈ w.client.call.1.sent
    unfold Client.call at hid ⊢
    split at hid
    case h_2 => cases hid
    case h_1 s hs =>
      split at hid
      case isFalse => cases hid
      case isTrue hup =>
        obtain rfl : w.client.nextId = id := Carrier.socket.inj hid
        rw [if_pos hup]
        exact ⟨s, List.mem_append_right _ (List.mem_singleton_self _)⟩

/-- **One event.** -/
theorem inv_step {w w' : Reload} {e : Event} (h : Inv w) (hnone : LeavesNone w e)
    (hs : w.step e = some w') : Inv w' := by
  cases e with
  | client e =>
    obtain ⟨c, hc, rfl⟩ := Option.map_eq_some_iff.mp hs
    refine ⟨(moves hc).accounted h.accounted, h.kept.step hnone hc, fun id hid => ?_⟩
    obtain ⟨s, hsent⟩ := h.shared id hid
    exact ⟨s, (moves hc).sent hsent⟩
  | reload =>
    obtain rfl := Option.some.inj hs
    unfold Reload.reload
    split
    · exact ⟨h.accounted, h.kept, h.shared⟩
    · exact h.readUntilSettled
  | landed =>
    simp only [Reload.step] at hs
    split at hs
    case isFalse => cases hs
    case isTrue =>
      obtain rfl := Option.some.inj hs
      unfold Reload.landed
      split
      · exact h.readUntilSettled
      · exact ⟨h.accounted, h.kept, nofun⟩

theorem Inv.settles {w : Reload} (h : Inv w) : Settles w where
  once := (List.nodup_append.mp h.accounted.once).1
  own p hp := by
    cases hhow : p.2 with
    | rejection => exact .inr rfl
    | response id =>
      obtain rfl := h.accounted.own p hp id hhow
      exact .inl rfl
  closed e he hclosed := h.kept.settled h.accounted he hclosed
  shared id hid := by
    obtain ⟨s, hsent⟩ := h.shared id hid
    by_cases hclosed : w.client.readyState s = .closed
    · exact .inl (h.kept.settled h.accounted hsent hclosed)
    · exact .inr ⟨s, hsent, hclosed⟩

end Reload

/-- **Every call settles once.** In a run that never drops a socket with calls pending, a call is
settled at most once, by its own response or a rejection, and it has settled when its socket is
closed. -/
theorem calls_settle {w₀ w : Reload} {events : List Reload.Event} (hstart : Reload.system.start w₀)
    (hnone : Reload.system.Along LeavesNone w₀ events)
    (hrun : Reload.system.exec w₀ events = some w) : Settles w :=
  (Reload.system.exec_induction (fun _ _ _ h hnone hs => Reload.inv_step h hnone hs)
    (Reload.inv_start hstart) hnone hrun).settles

/-- A socket opens and its handshake is accepted. -/
def Reload.shaken (s : Nat) : List Reload.Event :=
  [.client (.opened s), .client (.message s (.response (some 0) none))]

/-- The server closes the connection under two calls, one of them the queue store's. -/
def Reload.droppedRun : List Reload.Event :=
  [.client .connect] ++ Reload.shaken 0 ++
    [.reload, .client .call, .client (.message 0 (.response (some 2) none)), .client (.closed 0),
      .landed, .client (.timer 0)] ++ Reload.shaken 1 ++ [.reload]

/-- The queue store reads again over the new socket. -/
theorem calls_settle_dropped :
    ∃ w, Reload.system.exec {} Reload.droppedRun = some w ∧ Settles w ∧
      w.client.settled = [(2, .response 2), (1, .rejection)] ∧ w.reading = some (.socket 3) := by
  have hrun : (Reload.system.exec {} Reload.droppedRun).any (fun w =>
      w.client.settled = [(2, .response 2), (1, .rejection)] ∧
        w.reading = some (.socket 3)) = true := by decide +kernel
  have hnone : Reload.system.checked (fun w e => decide (LeavesNone w e)) {} Reload.droppedRun =
      true := by decide +kernel
  obtain ⟨w, hexec, hfacts⟩ := (Option.any_eq_true _ _).mp hrun
  obtain ⟨hsettled, hreading⟩ := of_decide_eq_true hfacts
  have halong := Reload.system.along_of_checked (fun _ _ h => of_decide_eq_true h) hnone
  exact ⟨w, hexec, calls_settle ⟨true, rfl⟩ halong hexec, hsettled, hreading⟩

/-- The server announces its shutdown under a read of the queue; the next connection is up, and a
reload waits for the read that was lost. -/
def Reload.shutdownRun : List Reload.Event :=
  [.client .connect] ++ Reload.shaken 0 ++
    [.reload, .client (.message 0 (.event 0)), .client .disconnect, .client (.closed 0),
      .client .connect] ++ Reload.shaken 1 ++ [.reload]

theorem shutdown_loses_call :
    ∃ w, Reload.system.exec {} Reload.shutdownRun = some w ∧ ¬ Settles w ∧
      w.reading = some (.socket 1) ∧ w.readAgain = true ∧ w.client.settled = [] := by
  have hrun : (Reload.system.exec {} Reload.shutdownRun).any (fun w =>
      w.client.sent = [{ id := 1, socket := 0 }] ∧ w.client.readyState 0 = .closed ∧
        w.reading = some (.socket 1) ∧ w.readAgain = true ∧ w.client.settled = []) = true := by
    decide +kernel
  obtain ⟨w, hexec, hfacts⟩ := (Option.any_eq_true _ _).mp hrun
  obtain ⟨hsent, hclosed, hreading, hagain, hsettled⟩ := of_decide_eq_true hfacts
  refine ⟨w, hexec, fun h => ?_, hreading, hagain, hsettled⟩
  have hone : (1 : Nat) ∈ w.client.settledIds :=
    h.closed { id := 1, socket := 0 } (by simp [hsent]) hclosed
  simp [Calls.settledIds, hsettled] at hone

end Mbrc.WebApp
