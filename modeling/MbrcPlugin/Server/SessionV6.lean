import Mathlib.Data.List.Basic
import Mathlib.Data.Option.Basic

/-!
# A V6 session, as a connection sees it

The per-connection state machine answers every inbound line with frames to send and whether to
close.  What a connection goes on from is kept: which line it answers, whether the handshake
has completed, whether the client takes events, and the permissions its handshake reply told
it.  The permissions of the client are a value of any type `P` and a broadcast frame is one of
any type `E`: the transports compare the first and hand on both, and do nothing else with them.
-/

namespace Mbrc.Server

/-- One outbound frame, by where it comes from. -/
inductive Frame (P E : Type) where
  /-- The reply to the inbound line of this number; the handshake is number zero. -/
  | reply (seq : Nat)
  /-- `not_allowed`, for a connection past its client's cap. -/
  | refusal
  /-- A frame the V6 broadcaster pushed. -/
  | event (e : E)
  /-- `permissions_changed`. -/
  | permissionsChanged (permissions : P)
  deriving DecidableEq

namespace Frame

variable {P E : Type}

/-- The broadcast frame it is. -/
def event? : Frame P E → Option E
  | .event e => some e
  | _ => none

/-- The permissions it tells. -/
def told? : Frame P E → Option P
  | .permissionsChanged permissions => some permissions
  | _ => none

end Frame

/-- The first frame written, if any, is the reply to the handshake. -/
def FirstIsReply {P E : Type} (written : List (Frame P E)) : Prop :=
  ∀ f, written.head? = some f → f = .reply 0

/-- The broadcast frames among some frames. -/
def eventsOf {P E : Type} (frames : List (Frame P E)) : List E := frames.filterMap Frame.event?

/-- What some frames, sent after a handshake that told `told`, leave the client told. -/
def lastTold {P E : Type} (told : Option P) (frames : List (Frame P E)) : Option P :=
  (frames.filterMap Frame.told?).getLast?.or told

section Frames

variable {P E : Type} (frames : List (Frame P E))

theorem eventsOf_append (more : List (Frame P E)) :
    eventsOf (frames ++ more) = eventsOf frames ++ eventsOf more :=
  List.filterMap_append

theorem eventsOf_map_event (es : List E) : eventsOf (es.map (.event : E → Frame P E)) = es := by
  induction es with
  | nil => rfl
  | cons e es ih => simpa [eventsOf, Frame.event?] using ih

theorem lastTold_append_told (told : Option P) (permissions : P) :
    lastTold told (frames ++ [.permissionsChanged permissions]) = some permissions := by
  simp [lastTold, Frame.told?]

/-- Frames that tell no permissions leave the client told what it was. -/
theorem lastTold_append (told : Option P) {more : List (Frame P E)}
    (h : ∀ f ∈ more, f.told? = none) : lastTold told (frames ++ more) = lastTold told frames := by
  rw [lastTold, List.filterMap_append, List.filterMap_eq_nil_iff.mpr h, List.append_nil, lastTold]

end Frames

/-- One inbound line.  `accepted` says whether a handshake's fields and token check out. -/
inductive Request where
  /-- Neither protocol's shape; a first line so shaped closes the connection. -/
  | unroutable
  | malformed
  | handshake (accepted noBroadcast : Bool)
  | op
  deriving DecidableEq

/-- What a session wants done with one line. -/
structure Outcome (P E : Type) where
  replies : List (Frame P E)
  close : Bool

/-- Per-connection V6 state. -/
structure V6Session (P : Type) where
  handshaked : Bool
  noBroadcast : Bool
  /-- How many lines came in; it numbers the replies. -/
  framesIn : Nat
  /-- The permissions this client was last told, in its handshake reply. -/
  told : Option P

namespace V6Session

variable {P E : Type}

/-- A session before its first line. -/
def initial : V6Session P :=
  { handshaked := false, noBroadcast := false, framesIn := 0, told := none }

/-- Registration as a subscriber: a completed handshake that did not opt out of events. -/
def isMain (s : V6Session P) : Bool := s.handshaked && !s.noBroadcast

/-- One line, `permissions` being what the client may do as the line is handled.  Before the
handshake every line but an accepted handshake is answered and closes; after it every line is
answered, a repeated handshake with an error. -/
def handleFrame (s : V6Session P) (permissions : P) : Request → V6Session P × Outcome P E
  | .handshake true noBroadcast =>
    if s.handshaked then
      ({ s with framesIn := s.framesIn + 1 }, { replies := [.reply s.framesIn], close := false })
    else
      ({ handshaked := true, noBroadcast, framesIn := s.framesIn + 1, told := some permissions },
        { replies := [.reply s.framesIn], close := false })
  | _ =>
    ({ s with framesIn := s.framesIn + 1 },
      { replies := [.reply s.framesIn], close := !s.handshaked })

theorem handleFrame_replies (s : V6Session P) (permissions : P) (r : Request) :
    (s.handleFrame permissions r : _ × Outcome P E).2.replies = [.reply s.framesIn] := by
  unfold handleFrame
  split
  · split <;> rfl
  · rfl

theorem handleFrame_framesIn (s : V6Session P) (permissions : P) (r : Request) :
    (s.handleFrame permissions r : _ × Outcome P E).1.framesIn = s.framesIn + 1 := by
  unfold handleFrame
  split
  · split <;> rfl
  · rfl

/-- The handshake settles who takes events and what it was told, and nothing after it does. -/
theorem handleFrame_of_handshaked {s : V6Session P} (h : s.handshaked = true) (permissions : P)
    (r : Request) : (s.handleFrame permissions r : _ × Outcome P E).1 =
      { s with framesIn := s.framesIn + 1 } := by
  unfold handleFrame
  split
  · rw [if_pos h]
  · rfl

/-- A line leaves the handshake completed or closes. -/
theorem handleFrame_handshaked_or_close (s : V6Session P) (permissions : P) (r : Request) :
    (s.handleFrame permissions r : _ × Outcome P E).1.handshaked = true ∨
      (s.handleFrame permissions r : _ × Outcome P E).2.close = true := by
  unfold handleFrame
  split
  · split <;> rename_i h
    · exact Or.inl h
    · exact Or.inl rfl
  · cases s.handshaked <;> simp

/-- A session with its handshake completed was told its permissions. -/
theorem handleFrame_told {s : V6Session P} (h : s.handshaked = true → s.told.isSome = true)
    (permissions : P) (r : Request)
    (hh : (s.handleFrame permissions r : _ × Outcome P E).1.handshaked = true) :
    (s.handleFrame permissions r : _ × Outcome P E).1.told.isSome = true := by
  revert hh
  unfold handleFrame
  split
  · split
    · rename_i hs
      exact fun _ => h hs
    · exact fun _ => rfl
  · exact h

end V6Session

end Mbrc.Server

/-!
# The permission watch

For a client that takes events Party Mode runs one task: it compares what the client may do
with what it was last told, sends `permissions_changed` when the two differ, and waits for the
counter every change bumps or for the client's channel to close.  Several changes seen at once
are told as one, and a change to another client as none.
-/

namespace Mbrc.Server

/-- The permission watch of a connection. -/
inductive Watch (P : Type) where
  | notStarted
  /-- At the head of its loop, about to compare: what it last told, and the change counter it
  has seen. -/
  | checking (told : P) (seen : Nat)
  /-- In its select: a change of the counter, or the channel closing. -/
  | waiting (told : P) (seen : Nat)
  | ended
  deriving DecidableEq

namespace Watch

variable {P : Type}

/-- The watch holds a sender of the channel. -/
def isRunning : Watch P → Bool
  | .checking _ _ | .waiting _ _ => true
  | .notStarted | .ended => false

variable [DecidableEq P]

/-- One step of the watch, `isOpen` saying whether the channel's receiver is there: where it
goes, and what it tells.  In the select both branches may be ready; `closes` picks. -/
def step (w : Watch P) (permissions : P) (changes : Nat) (isOpen closes : Bool) :
    Option (Watch P × List P) :=
  match w with
  | .checking told seen =>
    if permissions = told then some (.waiting told seen, [])
    else if isOpen then some (.waiting permissions seen, [permissions])
    else some (.ended, [])
  | .waiting told seen =>
    if closes then (if isOpen then none else some (.ended, []))
    else if seen = changes then none
    else some (.checking told changes, [])
  | .notStarted | .ended => none

/-- **What the watch can do**: find what it told, tell what it finds, end with the channel, or
wake. -/
theorem step_cases {w w' : Watch P} {permissions : P} {changes : Nat} {isOpen closes : Bool}
    {tells : List P} (hs : w.step permissions changes isOpen closes = some (w', tells)) :
    (∃ told seen, w = .checking told seen ∧ permissions = told ∧
      (w', tells) = (.waiting told seen, [])) ∨
    (∃ told seen, w = .checking told seen ∧ permissions ≠ told ∧ isOpen = true ∧
      (w', tells) = (.waiting permissions seen, [permissions])) ∨
    (w.isRunning = true ∧ isOpen = false ∧ (w', tells) = (.ended, [])) ∨
    (∃ told seen, w = .waiting told seen ∧ seen ≠ changes ∧
      (w', tells) = (.checking told changes, [])) := by
  cases w with
  | notStarted | ended => simp [step] at hs
  | checking told seen =>
    simp only [step] at hs
    by_cases hsame : permissions = told
    · rw [if_pos hsame] at hs
      exact Or.inl ⟨told, seen, rfl, hsame, (Option.some.inj hs).symm⟩
    · rw [if_neg hsame] at hs
      cases isOpen with
      | true => exact Or.inr (Or.inl ⟨told, seen, rfl, hsame, rfl, (Option.some.inj hs).symm⟩)
      | false => exact Or.inr (Or.inr (Or.inl ⟨rfl, rfl, (Option.some.inj hs).symm⟩))
  | waiting told seen =>
    simp only [step] at hs
    cases closes with
    | true =>
      cases isOpen with
      | true => simp at hs
      | false => exact Or.inr (Or.inr (Or.inl ⟨rfl, rfl, (Option.some.inj hs).symm⟩))
    | false =>
      by_cases hseen : seen = changes
      · simp [hseen] at hs
      · rw [if_neg (by simp), if_neg hseen] at hs
        exact Or.inr (Or.inr (Or.inr ⟨told, seen, rfl, hseen, (Option.some.inj hs).symm⟩))

end Watch

end Mbrc.Server
