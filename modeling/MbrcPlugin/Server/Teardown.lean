import MbrcPlugin.Server.Connection

/-!
# Whether an ended connection is over

After the read loop has ended, `run` leaves the broadcaster and the registry, drops its sender
and waits for the writer; the writer waits for every sender to be dropped; the watch holds a
sender and waits for a change of Party Mode or for the writer's end.  So `run`, the writer and
a running watch wait for each other.  The teardown of an ended connection comes to its end
whatever the three tasks do next exactly when no watch is running or the writer is gone
(`tearsDown_iff`); a connection without a watch always gives its slot back.
-/

namespace Mbrc.Server.Conn

open Transition

variable {P E : Type}

/-- The steps left when nothing more arrives: those of the three tasks themselves. -/
def own : Event P E → Prop
  | .run _ | .write _ | .watch _ => True
  | .input _ | .hangUp | .broadcast _ | .change _ => False

/-- The connection is over: its tasks have ended and its slot is given back. -/
def Over (c : Conn P E) : Prop :=
  c.doing = .over ∧ c.writing = false ∧ c.watch.isRunning = false ∧ c.slot = false

/-- How far the teardown has come. -/
def stage (c : Conn P E) : Nat :=
  match c.doing with
  | .unregistering => 1
  | .dropping => 2
  | .awaiting => 3
  | .returned => 4
  | .over => 5
  | _ => 0

/-- What each stage of the teardown has behind it. -/
structure Behind (c : Conn P E) : Prop where
  unsubscribed : 2 ≤ c.stage → c.subscribed = false
  dropped : 3 ≤ c.stage → c.held = false
  written : 4 ≤ c.stage → c.writing = false
  released : 5 ≤ c.stage → c.slot = false

theorem opened_behind (permissions : P) (changes : Nat) :
    Behind (opened permissions changes : Conn P E) := by
  constructor <;> simp [opened, stage]

/-- Before the teardown nothing is asked of the connection. -/
theorem behind_of_stage_le {c : Conn P E} (h : c.stage ≤ 1) : Behind c := by
  constructor <;> intro hs <;> omega

theorem hasEnded_iff (c : Conn P E) : c.doing.hasEnded = true ↔ 1 ≤ c.stage := by
  unfold stage Doing.hasEnded
  cases c.doing <;> simp

/-- The read loop goes on, or is left for the first stage of the teardown. -/
theorem run_stage_le {c c' : Conn P E} {admits : Bool} (h : c.stage = 0)
    (hs : c.run admits = some c') : c'.stage ≤ 1 := by
  cases run_cases hs with
  | drained overflowed _ => cases overflowed <;> simp [stage]
  | replied close _ _ => cases close <;> simp [stage]
  | unregister hd | drop hd | await hd _ | release hd => simp [stage, hd] at h
  | _ => simp [stage]

/-- **The teardown, step by step.** -/
theorem run_of_ended {c c' : Conn P E} {admits : Bool} (h : 1 ≤ c.stage)
    (hs : c.run admits = some c') :
    (c.doing = .unregistering ∧ c' = { c with subscribed := false, doing := .dropping }) ∨
    (c.doing = .dropping ∧ c' = { c with held := false, doing := .awaiting }) ∨
    (c.doing = .awaiting ∧ c.writing = false ∧ c' = { c with doing := .returned }) ∨
    (c.doing = .returned ∧ c' = { c with slot := false, doing := .over }) := by
  cases run_cases hs with
  | unregister hd => exact Or.inl ⟨hd, rfl⟩
  | drop hd => exact Or.inr (Or.inl ⟨hd, rfl⟩)
  | await hd hw => exact Or.inr (Or.inr (Or.inl ⟨hd, hw, rfl⟩))
  | release hd => exact Or.inr (Or.inr (Or.inr ⟨hd, rfl⟩))
  | _ => simp_all [stage]

theorem run_behind {c c' : Conn P E} {admits : Bool} (h : Behind c)
    (hs : c.run admits = some c') : Behind c' := by
  rcases Nat.eq_zero_or_pos c.stage with h0 | hpos
  · exact behind_of_stage_le (run_stage_le h0 hs)
  · obtain ⟨h1, h2, h3, h4⟩ := h
    rcases run_of_ended hpos hs with ⟨hd, rfl⟩ | ⟨hd, rfl⟩ | ⟨hd, hw, rfl⟩ | ⟨hd, rfl⟩ <;>
      constructor <;> simp_all [stage]

variable [DecidableEq P]

theorem step_behind (c : Conn P E) (event : Event P E) (c' : Conn P E) (h : Behind c)
    (hs : step c event = some c') : Behind c' := by
  cases event with
  | input chunk =>
    unfold step at hs
    cases hd : c.doing <;> simp only [hd, reduceCtorEq] at hs
    obtain rfl := Option.some.inj hs
    exact behind_of_stage_le (by simp [stage])
  | hangUp =>
    unfold step at hs
    cases hd : c.doing <;> simp only [hd, reduceCtorEq] at hs
    obtain rfl := Option.some.inj hs
    exact behind_of_stage_le (by simp [stage])
  | run admits => exact run_behind h hs
  | write ok =>
    rcases write_cases hs with ⟨-, ⟨f, queue, -, rfl⟩ | ⟨rfl, -⟩⟩
    · exact ⟨h.unsubscribed, h.dropped, h.written, h.released⟩
    · exact ⟨h.unsubscribed, h.dropped, fun _ => rfl, h.released⟩
  | watch closes =>
    rcases watchStep_cases hs with ⟨_, _, -, -, rfl⟩ | ⟨_, _, -, -, -, rfl⟩ | ⟨-, -, rfl⟩ |
      ⟨_, _, -, -, rfl⟩ <;> exact ⟨h.unsubscribed, h.dropped, h.written, h.released⟩
  | broadcast frames =>
    simp only [step] at hs
    split at hs
    · obtain rfl := Option.some.inj hs
      exact h
    · rename_i hsub
      have hstage : c.stage ≤ 1 := by
        by_contra hgt
        simp [h.unsubscribed (by omega)] at hsub
      split at hs <;> obtain rfl := Option.some.inj hs <;> exact behind_of_stage_le hstage
  | change permissions =>
    obtain rfl := Option.some.inj hs
    exact ⟨h.unsubscribed, h.dropped, h.written, h.released⟩

theorem reachable_behind {c : Conn P E} (hr : (system P E).Reachable c) : Behind c := by
  refine (system P E).reachable_induction (fun c hc => ?_) step_behind hr
  obtain ⟨permissions, changes, rfl⟩ := hc
  exact opened_behind permissions changes

/-! ## What the three tasks do by themselves after the loop -/

/-- Once the loop is left, the tasks only wind down: no watch is started and no writer. -/
theorem own_of_ended {c c' : Conn P E} {event : Event P E} (hown : own event)
    (h : 1 ≤ c.stage) (hs : step c event = some c') :
    1 ≤ c'.stage ∧ (c.watch.isRunning = false → c'.watch.isRunning = false) ∧
      (c.writing = false → c'.writing = false) := by
  cases event with
  | run admits =>
    rcases run_of_ended h hs with ⟨-, rfl⟩ | ⟨-, rfl⟩ | ⟨-, -, rfl⟩ | ⟨-, rfl⟩ <;>
      exact ⟨by simp [stage], id, id⟩
  | write ok =>
    rcases write_cases hs with ⟨hw, ⟨f, queue, -, rfl⟩ | ⟨rfl, -⟩⟩
    · exact ⟨h, id, id⟩
    · exact ⟨h, id, fun _ => rfl⟩
  | watch closes =>
    rcases watchStep_cases hs with ⟨_, _, hw, -, rfl⟩ | ⟨_, _, hw, -, -, rfl⟩ | ⟨-, -, rfl⟩ |
      ⟨_, _, hw, -, rfl⟩
    · exact ⟨h, fun hn => by simp [hw, Watch.isRunning] at hn, id⟩
    · exact ⟨h, fun hn => by simp [hw, Watch.isRunning] at hn, id⟩
    · exact ⟨h, fun _ => rfl, id⟩
    · exact ⟨h, fun hn => by simp [hw, Watch.isRunning] at hn, id⟩
  | input | hangUp | broadcast | change => exact absurd hown id

/-- Without a running watch, or without the writer, a connection that is not over yet has a
step left. -/
theorem enabled_of_clear {c : Conn P E} (h : Behind c) (hended : 1 ≤ c.stage)
    (hclear : c.watch.isRunning = false ∨ c.writing = false) (hnot : ¬ Over c) :
    ∃ event c', own event ∧ step c event = some c' := by
  by_cases hwatch : c.watch.isRunning = true
  · -- the writer is gone, so the watch ends
    have hw : c.writing = false := hclear.resolve_left (by simp [hwatch])
    cases hc : c.watch with
    | notStarted | ended => simp [hc, Watch.isRunning] at hwatch
    | checking told seen =>
      by_cases hsame : c.permissions = told
      · exact ⟨.watch true, { c with watch := .waiting told seen }, trivial,
          by simp [step, watchStep, Watch.step, hc, hsame]⟩
      · exact ⟨.watch true, { c with watch := .ended }, trivial,
          by simp [step, watchStep, Watch.step, hc, hsame, hw]⟩
    | waiting told seen =>
      exact ⟨.watch true, { c with watch := .ended }, trivial,
        by simp [step, watchStep, Watch.step, hc, hw]⟩
  · cases hd : c.doing with
    | unregistering => exact ⟨.run true, _, trivial, by simp [step, run, hd]; rfl⟩
    | dropping => exact ⟨.run true, _, trivial, by simp [step, run, hd]; rfl⟩
    | returned => exact ⟨.run true, _, trivial, by simp [step, run, hd]; rfl⟩
    | awaiting =>
      by_cases hw : c.writing = true
      · have hsender : c.hasSender = false := by
          have h3 : 3 ≤ c.stage := by simp [stage, hd]
          simp [hasSender, h.dropped h3, h.unsubscribed (by omega), hwatch]
        cases hq : c.queue with
        | nil =>
          exact ⟨.write true, { c with writing := false }, trivial,
            by simp [step, write, hw, hq, hsender]⟩
        | cons f queue =>
          exact ⟨.write true, { c with queue, written := c.written ++ [f] }, trivial,
            by simp [step, write, hw, hq]⟩
      · exact ⟨.run true, { c with doing := .returned }, trivial, by simp [step, run, hd, hw]⟩
    | «over» =>
      have h5 : 5 ≤ c.stage := by simp [stage, hd]
      exact absurd ⟨hd, h.written (by omega), by simpa using hwatch, h.released h5⟩ hnot
    | _ => simp [stage, hd] at hended

/-- How much the three tasks can still do by themselves. -/
def teardownMeasure (c : Conn P E) : Nat :=
  (5 - c.stage) + c.queue.length + (if c.writing then 1 else 0) +
    2 * (match c.watch with
      | .checking _ seen => if seen = c.changes then 2 else 4
      | .waiting _ seen => if seen = c.changes then 1 else 3
      | .notStarted | .ended => 0)

theorem own_lt {c c' : Conn P E} {event : Event P E} (hown : own event) (h : 1 ≤ c.stage)
    (hs : step c event = some c') : teardownMeasure c' < teardownMeasure c := by
  cases event with
  | run admits =>
    rcases run_of_ended h hs with ⟨hd, rfl⟩ | ⟨hd, rfl⟩ | ⟨hd, -, rfl⟩ | ⟨hd, rfl⟩ <;>
      simp [teardownMeasure, stage, hd]
  | write ok =>
    rcases write_cases hs with ⟨hw, ⟨f, queue, hq, rfl⟩ | ⟨rfl, -⟩⟩
    · simp [teardownMeasure, stage, hq]
    · simp only [teardownMeasure, stage, hw, List.length_nil, if_true, Bool.false_eq_true,
        if_false]
      omega
  | watch closes =>
    rcases watchStep_cases hs with ⟨told, seen, hc, -, rfl⟩ | ⟨told, seen, hc, -, -, rfl⟩ |
      ⟨hrunning, -, rfl⟩ | ⟨told, seen, hc, hseen, rfl⟩
    · by_cases hseen : seen = c.changes <;> simp [teardownMeasure, stage, hc, hseen]
    · by_cases hseen : seen = c.changes <;>
        simp only [teardownMeasure, stage, hc, hseen, if_true, if_false, List.length_append,
          List.length_singleton] <;> omega
    · cases hc : c.watch with
      | notStarted | ended => simp [hc, Watch.isRunning] at hrunning
      | checking told seen | waiting told seen =>
        by_cases hseen : seen = c.changes <;> simp [teardownMeasure, stage, hc, hseen]
    · simp [teardownMeasure, stage, hc, hseen]
  | input | hangUp | broadcast | change => exact absurd hown id

/-- The three tasks by themselves do not go on for ever: where each state that is not over has
a step left, the slot is given back. -/
theorem own_run_length_le {c c' : Conn P E} {events : List (Event P E)} (h : 1 ≤ c.stage)
    (hall : ∀ event ∈ events, own event) (hexec : (system P E).exec c events = some c') :
    events.length ≤ teardownMeasure c :=
  (system P E).exec_length_le teardownMeasure
    (fun _ _ _ hst hown hs => ⟨(own_of_ended hown hst hs).1, own_lt hown hst hs⟩) h hall hexec

/-! ## The ring -/

/-- The three tasks wait for each other: `run` for the writer, the writer for the watch's
sender, the watch for the channel or a change. -/
def Ring (c : Conn P E) : Prop :=
  c.doing = .awaiting ∧ c.writing = true ∧ c.queue = [] ∧ ∃ told, c.watch = .waiting told c.changes

/-- In the ring no task has a step. -/
theorem Ring.stuck {c : Conn P E} (h : Ring c) (event : Event P E) (hown : own event) :
    step c event = none := by
  obtain ⟨hd, hw, hq, told, hwatch⟩ := h
  cases event with
  | run admits => simp [step, run, hd, hw]
  | write ok => simp [step, write, hw, hq, hasSender, hwatch, Watch.isRunning]
  | watch closes => cases closes <;> simp [step, watchStep, Watch.step, hwatch, hw]
  | input | hangUp | broadcast | change => exact absurd hown id

/-- How far the watch is from waiting for a change it has not seen. -/
def watchMeasure (c : Conn P E) : Nat :=
  match c.watch with
  | .checking _ seen => if seen = c.changes then 1 else 3
  | .waiting _ seen => if seen = c.changes then 0 else 2
  | .notStarted | .ended => 0

/-- How far the connection is from the ring. -/
def ringMeasure (c : Conn P E) : Nat := (3 - c.stage) + c.queue.length + 2 * watchMeasure c

/-- With a running watch and successful writes, some task takes the connection closer to the
ring. -/
theorem closer_to_ring {c : Conn P E} (h : Behind c) (hended : 1 ≤ c.stage)
    (hwatch : c.watch.isRunning = true) (hw : c.writing = true) (hnot : ¬ Ring c) :
    ∃ event c', own event ∧ step c event = some c' ∧ c'.watch.isRunning = true ∧
      c'.writing = true ∧ ringMeasure c' < ringMeasure c := by
  cases hd : c.doing with
  | unregistering =>
    exact ⟨.run true, { c with subscribed := false, doing := .dropping }, trivial,
      by simp [step, run, hd], hwatch, hw, by simp [ringMeasure, stage, hd, watchMeasure]⟩
  | dropping =>
    exact ⟨.run true, { c with held := false, doing := .awaiting }, trivial,
      by simp [step, run, hd], hwatch, hw, by simp [ringMeasure, stage, hd, watchMeasure]⟩
  | returned | «over» => exact absurd (h.written (by simp [stage, hd])) (by simp [hw])
  | awaiting =>
    cases hq : c.queue with
    | cons f queue =>
      exact ⟨.write true, { c with queue, written := c.written ++ [f] }, trivial,
        by simp [step, write, hw, hq], hwatch, hw, by simp [ringMeasure, stage, watchMeasure, hq]⟩
    | nil =>
      cases hc : c.watch with
      | notStarted | ended => simp [hc, Watch.isRunning] at hwatch
      | waiting told seen =>
        by_cases hseen : seen = c.changes
        · exact absurd ⟨hd, hw, hq, told, hseen ▸ hc⟩ hnot
        · exact ⟨.watch false, { c with watch := .checking told c.changes }, trivial,
            by simp [step, watchStep, Watch.step, hc, hseen], rfl, hw,
            by simp [ringMeasure, stage, watchMeasure, hc, hseen]⟩
      | checking told seen =>
        by_cases hsame : c.permissions = told
        · refine ⟨.watch true, { c with watch := .waiting told seen }, trivial,
            by simp [step, watchStep, Watch.step, hc, hsame], rfl, hw, ?_⟩
          by_cases hseen : seen = c.changes <;>
            simp [ringMeasure, stage, watchMeasure, hc, hseen]
        · refine ⟨.watch true, { c with
              queue := c.queue ++ [.permissionsChanged c.permissions]
              watch := .waiting c.permissions seen }, trivial,
            by simp [step, watchStep, Watch.step, hc, hsame, hw], rfl, hw, ?_⟩
          by_cases hseen : seen = c.changes <;>
            simp [ringMeasure, stage, watchMeasure, hc, hseen, hq]
  | _ => simp [stage, hd] at hended

/-- An ended connection with a running watch and a writer whose writes all succeed runs into
the ring. -/
theorem reaches_ring {c : Conn P E} (h : Behind c) (hended : 1 ≤ c.stage)
    (hwatch : c.watch.isRunning = true) (hw : c.writing = true) :
    ∃ events c', (∀ event ∈ events, own event) ∧ (system P E).exec c events = some c' ∧
      Ring c' := by
  have hprog : ∀ c : Conn P E, (Behind c ∧ 1 ≤ c.stage ∧ c.watch.isRunning = true ∧
      c.writing = true) → ¬ Ring c → ∃ event c', own event ∧ (system P E).next c event = some c' ∧
      (Behind c' ∧ 1 ≤ c'.stage ∧ c'.watch.isRunning = true ∧ c'.writing = true) ∧
      ringMeasure c' < ringMeasure c := by
    intro c ⟨h, hended, hwatch, hw⟩ hnot
    obtain ⟨event, c', hown, hs, hwatch', hw', hlt⟩ := closer_to_ring h hended hwatch hw hnot
    exact ⟨event, c', hown, hs,
      ⟨step_behind c event c' h hs, (own_of_ended hown hended hs).1, hwatch', hw'⟩, hlt⟩
  obtain ⟨events, c', hall, hexec, -, hring⟩ :=
    (system P E).progress ringMeasure hprog ⟨h, hended, hwatch, hw⟩
  exact ⟨events, c', hall, hexec, hring⟩

/-! ## When the teardown comes to its end -/

/-- Whatever the three tasks have done since, a connection that is not over has a step left. -/
def TearsDown (c : Conn P E) : Prop :=
  ∀ events c', (∀ event ∈ events, own event) → (system P E).exec c events = some c' →
    ¬ Over c' → ∃ event c'', own event ∧ step c' event = some c''

/-- **When an ended connection is over.** With no further input, no broadcast and no change of
Party Mode to come, the teardown of a connection whose read loop has ended always has a step
left until it is over, exactly when no permission watch is running or the writer is gone. -/
theorem tearsDown_iff {c : Conn P E} (hr : (system P E).Reachable c)
    (hended : c.doing.hasEnded = true) :
    TearsDown c ↔ c.watch.isRunning = false ∨ c.writing = false := by
  have h := reachable_behind hr
  have hstage := (hasEnded_iff c).mp hended
  constructor
  · intro htears
    by_contra hno
    rw [not_or, Bool.not_eq_false, Bool.not_eq_false] at hno
    obtain ⟨events, c', hall, hexec, hring⟩ := reaches_ring h hstage hno.1 hno.2
    have hover : ¬ Over c' := fun hover => by simp [Ring, hover.1] at hring
    obtain ⟨event, c'', hown, hs⟩ := htears events c' hall hexec hover
    simp [hring.stuck event hown] at hs
  · intro hclear events c' hall hexec hnot
    have hkeep : ∀ (c : Conn P E) event c', (Behind c ∧ 1 ≤ c.stage ∧
        (c.watch.isRunning = false ∨ c.writing = false)) → own event →
        (system P E).next c event = some c' → Behind c' ∧ 1 ≤ c'.stage ∧
        (c'.watch.isRunning = false ∨ c'.writing = false) := by
      intro c event c' ⟨h, hst, hcl⟩ hown hs
      obtain ⟨hst', hwatch, hwriting⟩ := own_of_ended hown hst hs
      exact ⟨step_behind c event c' h hs, hst', hcl.imp hwatch hwriting⟩
    obtain ⟨h', hst', hcl'⟩ := (system P E).exec_induction hkeep ⟨h, hstage, hclear⟩
      ((system P E).along_of_forall c hall) hexec
    exact enabled_of_clear h' hst' hcl' hnot

/-- A client shakes hands, takes events, and closes. -/
def briefVisit : List (Event Nat Nat) :=
  [.input ⟨[.handshake true false], false⟩, .run true, .run true, .run true, .run true,
    .run true, .run true, .watch false, .write true, .hangUp]

/-- A subscriber that hangs up: once `run` waits for the writer, nothing moves any more. -/
theorem subscriber_stays : ¬ ∀ c : Conn Nat Nat, (system Nat Nat).Reachable c →
    c.doing.hasEnded = true → TearsDown c := by
  intro hall
  obtain ⟨c, hc⟩ : ∃ c, (system Nat Nat).exec (opened 0 0) briefVisit = some c := ⟨_, rfl⟩
  have hended : c.doing.hasEnded = true := by
    obtain rfl := Option.some.inj hc
    rfl
  obtain ⟨c', hc', hring⟩ : ∃ c', (system Nat Nat).exec c [.run true, .run true] = some c' ∧
      Ring c' := by
    obtain rfl := Option.some.inj hc
    exact ⟨_, rfl, rfl, rfl, rfl, 0, rfl⟩
  have hown : ∀ event ∈ ([.run true, .run true] : List (Event Nat Nat)), own event := by
    simp [own]
  obtain ⟨event, c'', hevent, hs⟩ := hall c ⟨_, _, ⟨0, 0, rfl⟩, hc⟩ hended _ c' hown hc'
    fun hover => by simp [Ring, hover.1] at hring
  simp [hring.stuck event hevent] at hs

/-- A client that takes no events is over. -/
theorem tearsDown_iff_auxiliary : ∃ c, (system Nat Nat).exec (opened 0 0)
    [.input ⟨[.handshake true true], false⟩, .run true, .run true, .run true, .run true,
      .run true, .hangUp] = some c ∧ TearsDown c := by
  obtain ⟨c, hc⟩ : ∃ c, (system Nat Nat).exec (opened 0 0)
    [.input ⟨[.handshake true true], false⟩, .run true, .run true, .run true, .run true,
      .run true, .hangUp] = some c := ⟨_, rfl⟩
  have hended : c.doing.hasEnded = true ∧ c.watch.isRunning = false := by
    obtain rfl := Option.some.inj hc
    exact ⟨rfl, rfl⟩
  exact ⟨c, hc, (tearsDown_iff ⟨_, _, ⟨0, 0, rfl⟩, hc⟩ hended.1).mpr (Or.inl hended.2)⟩

end Mbrc.Server.Conn
