import Mathlib.Algebra.Order.BigOperators.Group.Finset
import Mathlib.Data.Fintype.Basic
import Mathlib.Data.Fintype.BigOperators
import MbrcPlugin.Lib.Transition

/-!
# The memory budget of a cover build

A worker reserves what its decode may cost before it starts and gives it back when it is done.  The
free amount is behind a lock, and a worker that finds too little parks on a condition variable until
a permit comes back; the wake-up is sent after the lock is let go.

A step is one action of one worker, so a wake-up can meet a worker anywhere between its test and its
parking, and every order of the workers is a run.  The workers are any finite type: two requests
that overlap are two workers.
-/

namespace Mbrc.DecodeBudget

open Transition

/-! ## The budget -/

/-- `DECODE_BUDGET`, in bytes. -/
def decodeBudget : Nat := 64 * 1024 * 1024

/-- Where a worker is; the amounts are what its permit takes. -/
inductive Phase where
  | idle
  /-- In `reserve`, before the lock. -/
  | asking (amount : Nat)
  /-- Holds the lock, before the test. -/
  | inside (amount : Nat)
  /-- Found too little; still holds the lock. -/
  | parking (amount : Nat)
  | waiting (amount : Nat)
  /-- Woken, before the lock. -/
  | woken (amount : Nat)
  /-- Has lowered the free amount; still holds the lock. -/
  | taken (amount : Nat)
  /-- Has its permit. -/
  | holding (amount : Nat)
  /-- In the permit's `drop`, before the lock. -/
  | returning (amount : Nat)
  /-- Holds the lock to raise the free amount. -/
  | giving (amount : Nat)
  /-- Has raised it; still holds the lock. -/
  | given
  /-- Before its `notify_all`. -/
  | notifying
  deriving DecidableEq

namespace Phase

/-- What the worker's permit keeps from the others. -/
def held : Phase → Nat
  | taken amount | holding amount | returning amount | giving amount => amount
  | _ => 0

/-- The worker asked for this much and has no permit yet. -/
def pending : Phase → Option Nat
  | asking amount | inside amount | parking amount | waiting amount | woken amount => some amount
  | _ => none

/-- There is a permit: its amount is taken and not given back. -/
def permit : Phase → Option Nat
  | taken amount | holding amount | returning amount | giving amount => some amount
  | _ => none

/-- The worker holds the lock. -/
def locks : Phase → Bool
  | inside _ | parking _ | taken _ | giving _ | given => true
  | _ => false

/-- The worker has given back and will wake the others. -/
def notifies : Phase → Bool
  | given | notifying => true
  | _ => false

/-- What `notify_all` does to a worker. -/
def wake : Phase → Phase
  | waiting amount => woken amount
  | phase => phase

@[simp] theorem held_wake (p : Phase) : p.wake.held = p.held := by cases p <;> rfl

@[simp] theorem locks_wake (p : Phase) : p.wake.locks = p.locks := by cases p <;> rfl

@[simp] theorem notifies_wake (p : Phase) : p.wake.notifies = p.notifies := by cases p <;> rfl

@[simp] theorem pending_wake (p : Phase) : p.wake.pending = p.pending := by cases p <;> rfl

@[simp] theorem permit_wake (p : Phase) : p.wake.permit = p.permit := by cases p <;> rfl

theorem wake_ne_waiting (p : Phase) (amount : Nat) : p.wake ≠ waiting amount := by
  cases p <;> simp [wake]

end Phase

/-- The budget and its workers. -/
structure State (W : Type) where
  free : Nat
  owner : Option W
  phase : W → Phase

/-- Who acts, and how. -/
inductive Act (W : Type) where
  | reserve (w : W) (cost : Nat)
  | lock (w : W)
  | test (w : W)
  | unlock (w : W)
  | drop (w : W)
  | giveBack (w : W)
  | notify (w : W)
  /-- A wake-up that nobody sent. -/
  | spurious (w : W)
  deriving DecidableEq

section

variable {W : Type} [DecidableEq W]

namespace State

def move (s : State W) (w : W) (p : Phase) : State W :=
  { s with phase := Function.update s.phase w p }

/-- The worker gets the lock. -/
def enter (s : State W) (w : W) (p : Phase) : State W := { s.move w p with owner := some w }

/-- The worker lets the lock go; a parking worker is on the condition variable at once. -/
def leave (s : State W) (w : W) (p : Phase) : State W := { s.move w p with owner := none }

end State

/-- One action. -/
def next (capacity : Nat) (s : State W) : Act W → Option (State W)
  | .reserve w cost =>
    match s.phase w with
    | .idle => some (s.move w (.asking (min cost capacity)))
    | _ => none
  | .lock w =>
    if s.owner = none then
      match s.phase w with
      | .asking amount => some (s.enter w (.inside amount))
      | .woken amount => some (s.enter w (.inside amount))
      | .returning amount => some (s.enter w (.giving amount))
      | _ => none
    else none
  | .test w =>
    match s.phase w with
    | .inside amount =>
      if s.free < amount then some (s.move w (.parking amount))
      else some { s.move w (.taken amount) with free := s.free - amount }
    | _ => none
  | .unlock w =>
    match s.phase w with
    | .parking amount => some (s.leave w (.waiting amount))
    | .taken amount => some (s.leave w (.holding amount))
    | .given => some (s.leave w .notifying)
    | _ => none
  | .drop w =>
    match s.phase w with
    | .holding amount => some (s.move w (.returning amount))
    | _ => none
  | .giveBack w =>
    match s.phase w with
    | .giving amount => some { s.move w .given with free := s.free + amount }
    | _ => none
  | .notify w =>
    match s.phase w with
    | .notifying => some { s with phase := fun u => (Function.update s.phase w .idle u).wake }
    | _ => none
  | .spurious w =>
    match s.phase w with
    | .waiting amount => some (s.move w (.woken amount))
    | _ => none

/-- Nobody has asked yet. -/
def initial (W : Type) (capacity : Nat) : State W :=
  { free := capacity, owner := none, phase := fun _ => .idle }

/-- The budget with this capacity, its workers in any order. -/
def system (W : Type) [DecidableEq W] (capacity : Nat) : System (State W) (Act W) where
  start s := s = initial W capacity
  next := next capacity

/-- What one action does to the budget and to its worker. -/
inductive Moves (capacity : Nat) (s : State W) : Act W → State W → Prop
  | reserve {w cost} (h : s.phase w = .idle) :
    Moves capacity s (.reserve w cost) (s.move w (.asking (min cost capacity)))
  | lock {w amount} (hfree : s.owner = none)
    (h : s.phase w = .asking amount ∨ s.phase w = .woken amount) :
    Moves capacity s (.lock w) (s.enter w (.inside amount))
  | lockReturn {w amount} (hfree : s.owner = none) (h : s.phase w = .returning amount) :
    Moves capacity s (.lock w) (s.enter w (.giving amount))
  | short {w amount} (h : s.phase w = .inside amount) (hshort : s.free < amount) :
    Moves capacity s (.test w) (s.move w (.parking amount))
  | take {w amount} (h : s.phase w = .inside amount) (henough : amount ≤ s.free) :
    Moves capacity s (.test w) { s.move w (.taken amount) with free := s.free - amount }
  | park {w amount} (h : s.phase w = .parking amount) :
    Moves capacity s (.unlock w) (s.leave w (.waiting amount))
  | start {w amount} (h : s.phase w = .taken amount) :
    Moves capacity s (.unlock w) (s.leave w (.holding amount))
  | unlock {w} (h : s.phase w = .given) : Moves capacity s (.unlock w) (s.leave w .notifying)
  | drop {w amount} (h : s.phase w = .holding amount) :
    Moves capacity s (.drop w) (s.move w (.returning amount))
  | giveBack {w amount} (h : s.phase w = .giving amount) :
    Moves capacity s (.giveBack w) { s.move w .given with free := s.free + amount }
  | notify {w} (h : s.phase w = .notifying) :
    Moves capacity s (.notify w)
      { s with phase := fun u => (Function.update s.phase w .idle u).wake }
  | spurious {w amount} (h : s.phase w = .waiting amount) :
    Moves capacity s (.spurious w) (s.move w (.woken amount))

theorem moves_of_next {capacity : Nat} {s s' : State W} {act : Act W}
    (hnext : (system W capacity).next s act = some s') : Moves capacity s act s' := by
  change next capacity s act = some s' at hnext
  cases act <;> simp only [next] at hnext
  case reserve =>
    split at hnext <;> cases hnext
    exact .reserve ‹_›
  case lock =>
    split at hnext
    · split at hnext <;> cases hnext
      · exact .lock ‹_› (.inl ‹_›)
      · exact .lock ‹_› (.inr ‹_›)
      · exact .lockReturn ‹_› ‹_›
    · cases hnext
  case test =>
    split at hnext
    · split at hnext <;> cases hnext
      · exact .short ‹_› ‹_›
      · exact .take ‹_› (by omega)
    · cases hnext
  case unlock =>
    split at hnext <;> cases hnext
    · exact .park ‹_›
    · exact .start ‹_›
    · exact .unlock ‹_›
  case drop =>
    split at hnext <;> cases hnext
    exact .drop ‹_›
  case giveBack =>
    split at hnext <;> cases hnext
    exact .giveBack ‹_›
  case notify =>
    split at hnext <;> cases hnext
    exact .notify ‹_›
  case spurious =>
    split at hnext <;> cases hnext
    exact .spurious ‹_›

/-! ## What every run keeps -/

/-- One worker's new phase in a sum over the workers. -/
theorem sum_update [Fintype W] (weight : Phase → Nat) (phase : W → Phase) (w : W) (p : Phase) :
    ∑ u, weight (Function.update phase w p u) + weight (phase w) =
      ∑ u, weight (phase u) + weight p := by
  have hother : ∑ u ∈ Finset.univ.erase w, weight (Function.update phase w p u) =
      ∑ u ∈ Finset.univ.erase w, weight (phase u) := by
    refine Finset.sum_congr rfl fun u hu => ?_
    rw [Function.update_of_ne (Finset.ne_of_mem_erase hu)]
  have hnew := Finset.add_sum_erase _ (fun u => weight (Function.update phase w p u))
    (Finset.mem_univ w)
  have hold := Finset.add_sum_erase _ (fun u => weight (phase u)) (Finset.mem_univ w)
  simp only [Function.update_self] at hnew
  omega

variable [Fintype W]

/-- What the permits take together. -/
def State.outstanding (s : State W) : Nat := ∑ w, (s.phase w).held

structure Inv (capacity : Nat) (s : State W) : Prop where
  /-- What is not free is in permits. -/
  shared : s.free + s.outstanding = capacity
  /-- The lock's owner is the one worker in a critical section. -/
  locked : ∀ w, (s.phase w).locks = true ↔ s.owner = some w
  asked : ∀ w amount, (s.phase w).pending = some amount → amount ≤ capacity
  parking : ∀ w amount, s.phase w = .parking amount → s.free < amount
  /-- A parked worker has too little, or a wake-up is on its way. -/
  waiting : ∀ w amount, s.phase w = .waiting amount →
    s.free < amount ∨ ∃ u, (s.phase u).notifies = true

omit [DecidableEq W] in
theorem inv_initial (capacity : Nat) : Inv capacity (initial W capacity) where
  shared := by simp [initial, State.outstanding, Phase.held]
  locked w := by simp [initial, Phase.locks]
  asked w amount h := by cases h
  parking w amount h := by cases h
  waiting w amount h := by cases h

namespace Inv

variable {capacity : Nat} {s : State W}

omit [DecidableEq W] in
/-- A worker in a critical section is the only one there. -/
theorem eq_of_locks (hinv : Inv capacity s) {w u : W} (hw : (s.phase w).locks = true)
    (hu : (s.phase u).locks = true) : u = w := by
  have howner := (hinv.locked w).mp hw
  rw [(hinv.locked u).mp hu] at howner
  exact Option.some.inj howner

/-- One worker goes on; the free amount is raised only in a critical section, with a wake-up to
follow. -/
theorem update (hinv : Inv capacity s) {w : W} {p : Phase} {free : Nat} {owner : Option W}
    (hshared : free + p.held = s.free + (s.phase w).held)
    (hlocked : p.locks = true ↔ owner = some w)
    (hothers : ∀ u, u ≠ w → (owner = some u ↔ s.owner = some u))
    (hasked : ∀ amount, p.pending = some amount → amount ≤ capacity)
    (hfree : free ≤ s.free ∨ (s.phase w).locks = true ∧ p.notifies = true)
    (hnotifies : (s.phase w).notifies = true → p.notifies = true)
    (hshort : ∀ amount, p = .parking amount ∨ p = .waiting amount → free < amount) :
    Inv capacity { free := free, owner := owner, phase := Function.update s.phase w p } where
  shared := by
    have hsum := sum_update Phase.held s.phase w p
    have := hinv.shared
    simp only [State.outstanding] at this ⊢
    omega
  locked u := by
    by_cases hu : u = w
    · subst hu
      simpa using hlocked
    · simp only [Function.update_of_ne hu]
      rw [hinv.locked u]
      exact (hothers u hu).symm
  asked u amount h := by
    by_cases hu : u = w
    · subst hu
      exact hasked amount (by simpa using h)
    · simp only [Function.update_of_ne hu] at h
      exact hinv.asked u amount h
  parking u amount h := by
    by_cases hu : u = w
    · subst hu
      exact hshort amount (.inl (by simpa using h))
    · simp only [Function.update_of_ne hu] at h
      have hold := hinv.parking u amount h
      rcases hfree with hfree | ⟨hlocks, -⟩
      · show free < amount
        omega
      · exact absurd (hinv.eq_of_locks hlocks (by rw [h]; rfl)) hu
  waiting u amount h := by
    by_cases hu : u = w
    · subst hu
      exact .inl (hshort amount (.inr (by simpa using h)))
    · simp only [Function.update_of_ne hu] at h
      rcases hfree with hfree | ⟨-, hwakes⟩
      · rcases hinv.waiting u amount h with hold | ⟨v, hv⟩
        · exact .inl (Nat.lt_of_le_of_lt hfree hold)
        · refine .inr ⟨v, ?_⟩
          by_cases hvw : v = w
          · subst hvw
            simpa using hnotifies hv
          · simpa [Function.update_of_ne hvw] using hv
      · exact .inr ⟨w, by simpa using hwakes⟩

/-- The wake-up leaves nobody parked. -/
theorem notify (hinv : Inv capacity s) {w : W} (h : s.phase w = .notifying) :
    Inv capacity { s with phase := fun u => (Function.update s.phase w .idle u).wake } where
  shared := by
    have hsum := sum_update Phase.held s.phase w .idle
    have := hinv.shared
    rw [h, show Phase.held .notifying = 0 from rfl, show Phase.held .idle = 0 from rfl] at hsum
    simp only [State.outstanding, Phase.held_wake] at this ⊢
    omega
  locked u := by
    rw [Phase.locks_wake]
    by_cases hu : u = w
    · subst hu
      have := hinv.locked u
      simp only [h, Phase.locks] at this
      simpa [Phase.locks] using this
    · rw [Function.update_of_ne hu]
      exact hinv.locked u
  asked u amount hp := by
    rw [Phase.pending_wake] at hp
    by_cases hu : u = w
    · subst hu
      simp [Phase.pending] at hp
    · rw [Function.update_of_ne hu] at hp
      exact hinv.asked u amount hp
  parking u amount hp := by
    have hphase : Function.update s.phase w .idle u = .parking amount := by
      generalize hq : Function.update s.phase w .idle u = q at hp
      cases q <;> simp_all [Phase.wake]
    by_cases hu : u = w
    · subst hu
      simp at hphase
    · rw [Function.update_of_ne hu] at hphase
      exact hinv.parking u amount hphase
  waiting u amount hp := absurd hp (Phase.wake_ne_waiting _ _)

theorem step (hinv : Inv capacity s) {s' : State W} {act : Act W}
    (hmoves : Moves capacity s act s') : Inv capacity s' := by
  have hlock {w : W} {p q : Phase} (h : s.phase w = q) (hpq : p.locks = q.locks) :
      p.locks = true ↔ s.owner = some w := by
    rw [hpq, ← h]
    exact hinv.locked w
  have hask {w : W} {p q : Phase} (h : s.phase w = q) (hpq : p.pending = q.pending) :
      ∀ amount, p.pending = some amount → amount ≤ capacity := by
    rw [hpq, ← h]
    exact hinv.asked w
  cases hmoves with
  | reserve h =>
    refine hinv.update (by rw [h]; rfl) (hlock h rfl) (fun _ _ => Iff.rfl) ?_ (.inl le_rfl)
      (by simp [h, Phase.notifies]) (by simp)
    intro amount hamount
    cases hamount
    omega
  | lock hfree h =>
    refine hinv.update (by rcases h with h | h <;> rw [h] <;> rfl) (by simp [Phase.locks])
      (fun u hu => by simp [hfree, Ne.symm hu]) ?_ (.inl le_rfl)
      (by rcases h with h | h <;> simp [h, Phase.notifies]) (by simp)
    rcases h with h | h <;> exact hask h rfl
  | lockReturn hfree h =>
    exact hinv.update (by rw [h]; rfl) (by simp [Phase.locks])
      (fun u hu => by simp [hfree, Ne.symm hu]) (by simp [Phase.pending]) (.inl le_rfl)
      (by simp [h, Phase.notifies]) (by simp)
  | short h hshort =>
    refine hinv.update (by rw [h]; rfl) (hlock h rfl) (fun _ _ => Iff.rfl) (hask h rfl)
      (.inl le_rfl) (by simp [h, Phase.notifies]) ?_
    rintro amount (hp | hp) <;> cases hp
    exact hshort
  | take h henough =>
    refine hinv.update ?_ (hlock h rfl) (fun _ _ => Iff.rfl) (by simp [Phase.pending])
      (.inl (Nat.sub_le _ _)) (by simp [h, Phase.notifies]) (by simp)
    rw [h]
    simp only [Phase.held]
    omega
  | park h =>
    have howner := (hlock h rfl).mp (by rfl)
    refine hinv.update (by rw [h]; rfl) (by simp [Phase.locks])
      (fun u hu => by simp [howner, Ne.symm hu]) (hask h rfl) (.inl le_rfl)
      (by simp [h, Phase.notifies]) ?_
    rintro amount (hp | hp) <;> cases hp
    exact hinv.parking _ _ h
  | start h =>
    have howner := (hlock h rfl).mp (by rfl)
    exact hinv.update (by rw [h]; rfl) (by simp [Phase.locks])
      (fun u hu => by simp [howner, Ne.symm hu]) (by simp [Phase.pending]) (.inl le_rfl)
      (by simp [h, Phase.notifies]) (by simp)
  | unlock h =>
    have howner := (hlock h rfl).mp (by rfl)
    exact hinv.update (by rw [h]; rfl) (by simp [Phase.locks])
      (fun u hu => by simp [howner, Ne.symm hu]) (by simp [Phase.pending]) (.inl le_rfl)
      (by simp [Phase.notifies]) (by simp)
  | drop h =>
    exact hinv.update (by rw [h]; rfl) (hlock h rfl) (fun _ _ => Iff.rfl) (by simp [Phase.pending])
      (.inl le_rfl) (by simp [h, Phase.notifies]) (by simp)
  | giveBack h =>
    refine hinv.update ?_ (hlock h rfl) (fun _ _ => Iff.rfl) (by simp [Phase.pending])
      (.inr ⟨by rw [h]; rfl, rfl⟩) (by simp [Phase.notifies]) (by simp)
    rw [h]
    rfl
  | notify h => exact hinv.notify h
  | spurious h =>
    exact hinv.update (by rw [h]; rfl) (hlock h rfl) (fun _ _ => Iff.rfl) (hask h rfl) (.inl le_rfl)
      (by simp [h, Phase.notifies]) (by simp)

end Inv

theorem inv_of_reachable {capacity : Nat} {s : State W}
    (hs : (system W capacity).Reachable s) : Inv capacity s := by
  refine System.reachable_induction _ ?_ (fun s act s' hinv hnext => ?_) hs
  · intro s hs
    rw [show s = initial W capacity from hs]
    exact inv_initial capacity
  · exact hinv.step (moves_of_next hnext)

/-! ## What a release gives back -/

omit [Fintype W] in
/-- A permit keeps its amount until it gives it back. -/
theorem permit_step {capacity : Nat} {s s' : State W} {act : Act W} {w : W} {amount : Nat}
    (hpermit : (s.phase w).permit = some amount) (hact : act ≠ .giveBack w)
    (hmoves : Moves capacity s act s') : (s'.phase w).permit = some amount := by
  have hother {u : W} {q p : Phase} (hu : s.phase u = q) (hpq : u = w → p.permit = q.permit) :
      (Function.update s.phase u p w).permit = some amount := by
    by_cases huw : u = w
    · subst huw
      rw [Function.update_self, hpq rfl, ← hu]
      exact hpermit
    · rw [Function.update_of_ne (Ne.symm huw)]
      exact hpermit
  have hfree {u : W} {q p : Phase} (hu : s.phase u = q) (hq : q.permit = none) :
      (Function.update s.phase u p w).permit = some amount := by
    refine hother hu fun huw => ?_
    subst huw
    rw [hu, hq] at hpermit
    cases hpermit
  cases hmoves with
  | reserve h => exact hfree h rfl
  | lock _ h => rcases h with h | h <;> exact hfree h rfl
  | lockReturn _ h => exact hother h fun _ => rfl
  | short h => exact hfree h rfl
  | take h => exact hfree h rfl
  | park h => exact hfree h rfl
  | start h => exact hother h fun _ => rfl
  | unlock h => exact hfree h rfl
  | drop h => exact hother h fun _ => rfl
  | giveBack h => exact hother h fun huw => absurd (by rw [huw]) hact
  | notify h =>
    rw [Phase.permit_wake]
    exact hfree h rfl
  | spurious h => exact hfree h rfl

omit [Fintype W] in
/-- The test that gives a permit lowers the free amount by what the permit takes. -/
theorem free_of_test {capacity : Nat} {s s' : State W} {w : W} {amount : Nat}
    (hpermit : (s'.phase w).permit = some amount) (hmoves : Moves capacity s (.test w) s') :
    s'.free + amount = s.free := by
  cases hmoves with
  | short h => simp [State.move, Phase.permit] at hpermit
  | take h henough =>
    simp only [State.move, Function.update_self, Phase.permit, Option.some.injEq] at hpermit
    subst hpermit
    show s.free - _ + _ = s.free
    omega

omit [Fintype W] in
theorem free_of_giveBack {capacity : Nat} {s s' : State W} {w : W} {amount : Nat}
    (hpermit : (s.phase w).permit = some amount) (hmoves : Moves capacity s (.giveBack w) s') :
    s'.free = s.free + amount := by
  cases hmoves with
  | giveBack h =>
    rw [h, Phase.permit, Option.some.injEq] at hpermit
    rw [hpermit]

/-! ## No request waits forever -/

/-- An action of a worker under way; a new request and a stray wake-up are not. -/
def Act.own : Act W → Bool
  | .reserve _ _ | .spurious _ => false
  | _ => true

/-- What is left to do for a worker, where a wake-up of `n` workers may cost each three actions. -/
def Phase.left (n : Nat) : Phase → Nat
  | idle => 0
  | notifying => 3 * n + 1
  | given => 3 * n + 2
  | giving _ => 3 * n + 3
  | returning _ => 3 * n + 4
  | holding _ => 3 * n + 5
  | waiting _ => 3 * n + 5
  | taken _ => 3 * n + 6
  | parking _ => 3 * n + 6
  | inside _ => 3 * n + 7
  | asking _ => 3 * n + 8
  | woken _ => 3 * n + 8

theorem Phase.left_wake_le (n : Nat) (p : Phase) : p.wake.left n ≤ p.left n + 3 := by
  cases p <;> simp only [wake, left] <;> omega

def State.left (s : State W) : Nat := ∑ w, (s.phase w).left (Fintype.card W)

/-- What a new request or a stray wake-up adds. -/
def Act.pays (n : Nat) (act : Act W) : Nat := if act.own then 0 else 3 * n + 9

/-- **Every action leaves less to do**, but for what a new request or a stray wake-up adds. -/
theorem left_step {capacity : Nat} {s s' : State W} {act : Act W}
    (hmoves : Moves capacity s act s') : s'.left + 1 ≤ s.left + act.pays (Fintype.card W) := by
  have hmove {w : W} {q : Phase} (p : Phase) (h : s.phase w = q) :
      ∑ u, (Function.update s.phase w p u).left (Fintype.card W) + q.left (Fintype.card W) =
        s.left + p.left (Fintype.card W) := by
    rw [← h]
    exact sum_update (Phase.left (Fintype.card W)) s.phase w p
  have hto {w : W} {q p : Phase} {free : Nat} {owner : Option W} (h : s.phase w = q)
      (hlt : p.left (Fintype.card W) + 1 ≤ q.left (Fintype.card W) + act.pays (Fintype.card W)) :
      State.left { free := free, owner := owner, phase := Function.update s.phase w p } + 1 ≤
        s.left + act.pays (Fintype.card W) := by
    have := hmove p h
    show ∑ u, (Function.update s.phase w p u).left (Fintype.card W) + 1 ≤ _
    omega
  cases hmoves with
  | reserve h => exact hto h (by simp only [Phase.left, Act.pays, Act.own]; grind)
  | lock _ h =>
    rcases h with h | h <;> exact hto h (by simp only [Phase.left]; omega)
  | lockReturn _ h => exact hto h (by simp only [Phase.left]; omega)
  | short h => exact hto h (by simp only [Phase.left]; omega)
  | take h => exact hto h (by simp only [Phase.left]; omega)
  | park h => exact hto h (by simp only [Phase.left]; omega)
  | start h => exact hto h (by simp only [Phase.left]; omega)
  | unlock h => exact hto h (by simp only [Phase.left]; omega)
  | drop h => exact hto h (by simp only [Phase.left]; omega)
  | giveBack h => exact hto h (by simp only [Phase.left]; omega)
  | spurious h => exact hto h (by simp only [Phase.left, Act.pays, Act.own]; grind)
  | @notify w h =>
    have hidle := hmove .idle h
    have hwake : ∑ u, (Function.update s.phase w .idle u).wake.left (Fintype.card W) ≤
        ∑ u, ((Function.update s.phase w .idle u).left (Fintype.card W) + 3) :=
      Finset.sum_le_sum fun u _ => Phase.left_wake_le _ _
    rw [Finset.sum_add_distrib, Finset.sum_const_nat fun _ _ => rfl, Finset.card_univ] at hwake
    rw [show Phase.left (Fintype.card W) .idle = 0 from rfl,
      show Phase.left (Fintype.card W) .notifying = 3 * Fintype.card W + 1 from rfl] at hidle
    show ∑ u, (Function.update s.phase w .idle u).wake.left (Fintype.card W) + 1 ≤ _
    omega

omit [DecidableEq W] in
/-- With something taken, some worker has a permit. -/
theorem exists_permit {s : State W} (h : 0 < s.outstanding) :
    ∃ u amount, (s.phase u).permit = some amount := by
  obtain ⟨u, -, hu⟩ := Finset.exists_ne_zero_of_sum_ne_zero (Nat.ne_of_gt h)
  refine ⟨u, (s.phase u).held, ?_⟩
  cases hphase : s.phase u <;> simp_all [Phase.held, Phase.permit]

/-- **No deadlock**: while a worker is under way, some worker under way can act. -/
theorem exists_next {capacity : Nat} {s : State W} (hinv : Inv capacity s) {w : W}
    (hw : s.phase w ≠ .idle) : ∃ act, act.own = true ∧ (next capacity s act).isSome = true := by
  -- The lock's owner can always go on.
  have hlocks {u : W} (hu : (s.phase u).locks = true) :
      ∃ act, act.own = true ∧ (next capacity s act).isSome = true := by
    cases hphase : s.phase u <;> rw [hphase] at hu <;> try cases hu
    case inside amount =>
      by_cases hshort : s.free < amount
      · exact ⟨.test u, rfl, by simp [next, hphase, hshort]⟩
      · exact ⟨.test u, rfl, by simp [next, hphase, hshort]⟩
    case parking => exact ⟨.unlock u, rfl, by simp [next, hphase]⟩
    case taken => exact ⟨.unlock u, rfl, by simp [next, hphase]⟩
    case giving => exact ⟨.giveBack u, rfl, by simp [next, hphase]⟩
    case given => exact ⟨.unlock u, rfl, by simp [next, hphase]⟩
  -- With the lock free, so can whoever is not parked.
  have hopen {u : W} (hu : s.phase u ≠ .idle) (hparked : ∀ amount, s.phase u ≠ .waiting amount) :
      ∃ act, act.own = true ∧ (next capacity s act).isSome = true := by
    by_cases howner : s.owner = none
    · cases hphase : s.phase u
      case idle => exact absurd hphase hu
      case waiting => exact absurd hphase (hparked _)
      case asking => exact ⟨.lock u, rfl, by simp [next, hphase, howner]⟩
      case woken => exact ⟨.lock u, rfl, by simp [next, hphase, howner]⟩
      case returning => exact ⟨.lock u, rfl, by simp [next, hphase, howner]⟩
      case holding => exact ⟨.drop u, rfl, by simp [next, hphase]⟩
      case notifying => exact ⟨.notify u, rfl, by simp [next, hphase]⟩
      all_goals exact hlocks (by rw [hphase]; rfl)
    · obtain ⟨v, hv⟩ := Option.ne_none_iff_exists'.mp howner
      exact hlocks ((hinv.locked v).mpr hv)
  by_cases hparked : ∃ amount, s.phase w = .waiting amount
  · obtain ⟨amount, hphase⟩ := hparked
    rcases hinv.waiting w amount hphase with hshort | ⟨u, hu⟩
    · have hasked := hinv.asked w amount (by rw [hphase]; rfl)
      have hshared := hinv.shared
      obtain ⟨u, held, hu⟩ := exists_permit (s := s) (by omega)
      refine hopen (u := u) ?_ ?_
      · intro h
        rw [h] at hu
        cases hu
      · intro amount h
        rw [h] at hu
        cases hu
    · refine hopen (u := u) ?_ ?_
      · intro h
        rw [h] at hu
        cases hu
      · intro amount h
        rw [h] at hu
        cases hu
  · exact hopen hw fun amount h => hparked ⟨amount, h⟩

omit [Fintype W] in
/-- A request is pending until it has its permit. -/
theorem pending_step {capacity : Nat} {s s' : State W} {act : Act W} {w : W} {amount : Nat}
    (hpending : (s.phase w).pending = some amount) (hmoves : Moves capacity s act s') :
    (s'.phase w).pending = some amount ∨ (s'.phase w).permit = some amount := by
  have hother {u : W} {q p : Phase} (hu : s.phase u = q)
      (hpq : p.pending = q.pending ∨ p.permit = q.pending) :
      (Function.update s.phase u p w).pending = some amount ∨
        (Function.update s.phase u p w).permit = some amount := by
    by_cases huw : u = w
    · subst huw
      rw [Function.update_self, ← hpending, hu]
      exact hpq
    · rw [Function.update_of_ne (Ne.symm huw)]
      exact .inl hpending
  cases hmoves with
  | reserve h => exact hother h (.inr rfl)
  | lock _ h => rcases h with h | h <;> exact hother h (.inl rfl)
  | lockReturn _ h => exact hother h (.inl rfl)
  | short h => exact hother h (.inl rfl)
  | take h => exact hother h (.inr rfl)
  | park h => exact hother h (.inl rfl)
  | start h => exact hother h (.inl rfl)
  | unlock h => exact hother h (.inl rfl)
  | drop h => exact hother h (.inl rfl)
  | giveBack h => exact hother h (.inl rfl)
  | notify h =>
    rw [Phase.pending_wake, Phase.permit_wake]
    exact hother h (.inl rfl)
  | spurious h => exact hother h (.inl rfl)

/-- The request was made, and may have its permit. -/
def Asked (capacity : Nat) (w : W) (amount : Nat) (s : State W) : Prop :=
  Inv capacity s ∧ ((s.phase w).pending = some amount ∨ (s.phase w).permit = some amount)

theorem asked_progress {capacity : Nat} {w : W} {amount : Nat} (s : State W)
    (hasked : Asked capacity w amount s) (hpermit : ¬ (s.phase w).permit = some amount) :
    ∃ act s', act.own = true ∧ (system W capacity).next s act = some s' ∧
      Asked capacity w amount s' ∧ s'.left < s.left := by
  have hpending := hasked.2.resolve_right hpermit
  have hidle : s.phase w ≠ .idle := by
    intro h
    rw [h] at hpending
    cases hpending
  obtain ⟨act, hown, hsome⟩ := exists_next hasked.1 hidle
  obtain ⟨s', hnext⟩ := Option.isSome_iff_exists.mp hsome
  have hmoves : Moves capacity s act s' := moves_of_next hnext
  have hleft := left_step hmoves
  simp only [Act.pays, hown, if_true] at hleft
  exact ⟨act, s', hown, hnext, ⟨hasked.1.step hmoves, pending_step hpending hmoves⟩, by omega⟩

/-- From every state, actions of the workers under way bring a pending request its permit. -/
theorem exists_run_to_permit {capacity : Nat} {s : State W} (hinv : Inv capacity s) {w : W}
    {amount : Nat} (hpending : (s.phase w).pending = some amount) :
    ∃ acts t, (∀ act ∈ acts, act.own = true) ∧ (system W capacity).exec s acts = some t ∧
      (t.phase w).permit = some amount := by
  obtain ⟨acts, t, hown, hrun, -, hpermit⟩ :=
    (system W capacity).progress State.left asked_progress ⟨hinv, .inl hpending⟩
  exact ⟨acts, t, hown, hrun, hpermit⟩

omit [DecidableEq W] [Fintype W] in
theorem sum_pays (n : Nat) (acts : List (Act W)) :
    (acts.map fun act => act.pays n).sum = (3 * n + 9) * acts.countP fun act => !act.own := by
  induction acts with
  | nil => rfl
  | cons act acts ih =>
    rw [List.map_cons, List.sum_cons, ih, List.countP_cons, Act.pays]
    cases act.own
    · simp only [Bool.false_eq_true, if_false, Bool.not_false, if_true, Nat.mul_succ]
      omega
    · simp

/-- A run is no longer than what was left to do and what its new requests and stray wake-ups add. -/
theorem run_length_le {capacity : Nat} {s t : State W} (hinv : Inv capacity s)
    {acts : List (Act W)} (hrun : (system W capacity).exec s acts = some t) :
    acts.length ≤ s.left + (3 * Fintype.card W + 9) * acts.countP fun act => !act.own := by
  have hlength := (system W capacity).exec_length_le_paid State.left
    (fun act => act.pays (Fintype.card W))
    (fun s act s' hinv hnext =>
      ⟨hinv.step (moves_of_next hnext), left_step (moves_of_next hnext)⟩) hinv hrun
  rw [sum_pays] at hlength
  omega

/-! ## The result -/

/-- **The memory budget holds**: the permits never take more than the capacity; a permit gives back
what it took, whatever happens in between; with no permit out, every request that waits would get
its amount, and is awake or about to be woken; from every state the workers under way can bring a
request its permit; and a run goes on for as long as requests and stray wake-ups come, but stops
only where no request is left. -/
theorem budget_holds {capacity : Nat} {s : State W} (hs : (system W capacity).Reachable s) :
    s.outstanding ≤ capacity ∧
    (∀ w s' amount, (system W capacity).next s (.test w) = some s' →
      (s'.phase w).permit = some amount →
      ∀ acts t t', .giveBack w ∉ acts → (system W capacity).exec s' acts = some t →
        (system W capacity).next t (.giveBack w) = some t' →
        s'.free + amount = s.free ∧ t'.free = t.free + amount) ∧
    ((∀ u, (s.phase u).permit = none) →
      ∀ w amount, (s.phase w).pending = some amount →
        amount ≤ s.free ∧
        (s.phase w = .waiting amount → ∃ u, (s.phase u).notifies = true)) ∧
    (∀ w amount, (s.phase w).pending = some amount →
      ∃ acts t, (∀ act ∈ acts, act.own = true) ∧ (system W capacity).exec s acts = some t ∧
        (t.phase w).permit = some amount) ∧
    ∃ bound, ∀ acts t, (system W capacity).exec s acts = some t →
      acts.length ≤ bound + (3 * Fintype.card W + 9) * (acts.countP fun act => !act.own) ∧
      ((∀ act, act.own = true → (system W capacity).next t act = none) →
        ∀ w, t.phase w = .idle) := by
  have hinv := inv_of_reachable hs
  refine ⟨?_, ?_, ?_, ?_, s.left, ?_⟩
  · have := hinv.shared
    omega
  · intro w s' amount hnext hpermit acts t t' hacts hrun hback
    have ht : (t.phase w).permit = some amount := by
      refine (system W capacity).exec_induction (C := fun _ act => act ≠ .giveBack w)
        (fun s act s' hp hact hnext => permit_step hp hact (moves_of_next hnext)) hpermit ?_ hrun
      exact System.along_of_forall _ s' fun act hact h => hacts (h ▸ hact)
    exact ⟨free_of_test hpermit (moves_of_next hnext), free_of_giveBack ht (moves_of_next hback)⟩
  · intro hnone w amount hpending
    have hout : s.outstanding = 0 := by
      by_contra h
      obtain ⟨u, held, hu⟩ := exists_permit (s := s) (by omega)
      rw [hnone u] at hu
      cases hu
    have hasked := hinv.asked w amount hpending
    have hshared := hinv.shared
    refine ⟨by omega, fun hwaiting => ?_⟩
    exact (hinv.waiting w amount hwaiting).resolve_left (by omega)
  · intro w amount hpending
    exact exists_run_to_permit hinv hpending
  · intro acts t hrun
    refine ⟨run_length_le hinv hrun, fun hstuck w => ?_⟩
    have ht : Inv capacity t :=
      (system W capacity).exec_induction (C := fun _ _ => True)
        (fun s act s' hinv _ hnext => hinv.step (moves_of_next hnext)) hinv
        (System.along_true _ _ _) hrun
    by_contra hidle
    obtain ⟨act, hown, hsome⟩ := exists_next ht hidle
    rw [show next capacity t act = none from hstuck act hown] at hsome
    cases hsome

end

/-- A decode of four budgets waits for the half that is out, and the half comes back. -/
def oversized : List (Act (Fin 2)) :=
  [.reserve 0 (decodeBudget / 2), .lock 0, .test 0, .unlock 0,
   .reserve 1 (4 * decodeBudget), .lock 1, .test 1, .unlock 1,
   .drop 0, .lock 0, .giveBack 0, .unlock 0]

theorem budget_holds_oversized : ∃ s : State (Fin 2), s.phase 1 = .waiting decodeBudget ∧
    decodeBudget ≤ s.free ∧ ∃ u, (s.phase u).notifies = true := by
  have hrun : ((system (Fin 2) decodeBudget).exec (initial (Fin 2) decodeBudget) oversized).any
      (fun s => decide ((∀ u, (s.phase u).permit = none) ∧
        s.phase 1 = .waiting decodeBudget)) = true := by decide +kernel
  obtain ⟨s, hrun, hs⟩ := (Option.any_eq_true _ _).mp hrun
  obtain ⟨hnone, hwaiting⟩ := of_decide_eq_true hs
  have hreachable : (system (Fin 2) decodeBudget).Reachable s :=
    ⟨initial (Fin 2) decodeBudget, oversized, rfl, hrun⟩
  obtain ⟨henough, hwake⟩ :=
    (budget_holds hreachable).2.2.1 hnone 1 decodeBudget (by rw [hwaiting]; rfl)
  exact ⟨s, hwaiting, henough, hwake hwaiting⟩

end Mbrc.DecodeBudget
