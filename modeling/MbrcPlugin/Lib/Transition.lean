import Mathlib.Algebra.BigOperators.Group.List.Basic
import Mathlib.Algebra.GroupWithZero.Nat
import Mathlib.Data.List.Basic
import Mathlib.Data.Option.Basic

/-!
# Labelled transition systems

A system is a start predicate and a partial step function: a label carries every choice the
environment makes, so that one label leads from one state to at most one state and a run is
the list of its labels.  The file gives the run, the two induction rules every model uses
(`reachable_induction` for an invariant of all runs, `exec_induction` for the runs whose steps
all meet a condition) and the progress rule `progress`: a measure that some step of a chosen
kind lowers, until the goal holds, gives a run of such steps to the goal.
-/

namespace Transition

/-- A start predicate and a partial step, labelled by what the environment chooses. -/
structure System (σ ι : Type*) where
  /-- The states a run may start in. -/
  start : σ → Prop
  /-- The state a label leads to, `none` where the label is not enabled. -/
  next : σ → ι → Option σ

namespace System

variable {σ ι : Type*} (M : System σ ι)

/-! ## Runs -/

/-- The state after the given labels, taken one by one. -/
def exec : σ → List ι → Option σ
  | s, [] => some s
  | s, i :: is => (M.next s i).bind fun s' => exec s' is

/-- Some run from a start state ends in `s`. -/
def Reachable (s : σ) : Prop := ∃ s₀ is, M.start s₀ ∧ M.exec s₀ is = some s

/-- Every step of the run meets `C` in the state it is taken in. -/
def Along (C : σ → ι → Prop) : σ → List ι → Prop
  | _, [] => True
  | s, i :: is => C s i ∧ ∀ s', M.next s i = some s' → Along C s' is

@[simp] theorem exec_nil (s : σ) : M.exec s [] = some s := rfl

theorem exec_cons (s : σ) (i : ι) (is : List ι) :
    M.exec s (i :: is) = (M.next s i).bind fun s' => M.exec s' is := rfl

/-- A run goes on from where its first label leads. -/
theorem exec_of_next {s t : σ} {i : ι} (h : M.next s i = some t) (is : List ι) :
    M.exec s (i :: is) = M.exec t is := by
  rw [exec_cons, h]
  rfl

theorem exec_append (s : σ) (is js : List ι) :
    M.exec s (is ++ js) = (M.exec s is).bind fun s' => M.exec s' js := by
  induction is generalizing s with
  | nil => rfl
  | cons i is ih =>
    simp only [List.cons_append, exec_cons]
    cases h : M.next s i with
    | none => rfl
    | some t => simpa using ih t

/-- A run of one label more is a run and one step. -/
theorem exec_snoc (s : σ) (is : List ι) (i : ι) :
    M.exec s (is ++ [i]) = (M.exec s is).bind fun s' => M.next s' i := by
  rw [exec_append]
  congr 1
  funext t
  simp [exec_cons]

/-! ## Invariants of runs -/

/-- **Guarded invariants.** What a step that meets `C` preserves, a run whose steps all meet
`C` preserves. -/
theorem exec_induction {C : σ → ι → Prop} {Inv : σ → Prop}
    (hstep : ∀ s i s', Inv s → C s i → M.next s i = some s' → Inv s')
    {s s' : σ} {is : List ι} (hs : Inv s) (hC : M.Along C s is)
    (he : M.exec s is = some s') : Inv s' := by
  induction is generalizing s with
  | nil =>
    obtain rfl : s = s' := by simpa using he
    exact hs
  | cons i is ih =>
    rw [exec_cons] at he
    cases hn : M.next s i with
    | none => simp [hn] at he
    | some t =>
      rw [hn] at he
      exact ih (hstep s i t hs hC.1 hn) (hC.2 t hn) he

/-- A condition on the labels alone. -/
theorem along_of_forall {C : ι → Prop} (s : σ) {is : List ι} (h : ∀ i ∈ is, C i) :
    M.Along (fun _ i => C i) s is := by
  induction is generalizing s with
  | nil => trivial
  | cons i is ih =>
    exact ⟨h i List.mem_cons_self, fun t _ => ih t fun j hj => h j (List.mem_cons_of_mem _ hj)⟩

theorem along_true (s : σ) (is : List ι) : M.Along (fun _ _ => True) s is := by
  induction is generalizing s with
  | nil => trivial
  | cons i is ih => exact ⟨trivial, fun t _ => ih t⟩

theorem along_cons {C : σ → ι → Prop} {s s' : σ} {i : ι} {is : List ι} (h : C s i)
    (hn : M.next s i = some s') (hs : M.Along C s' is) : M.Along C s (i :: is) := by
  refine ⟨h, fun t ht => ?_⟩
  obtain rfl : s' = t := Option.some.inj (hn.symm.trans ht)
  exact hs

theorem along_append {C : σ → ι → Prop} {s s' : σ} {is js : List ι} (h : M.Along C s is)
    (he : M.exec s is = some s') (hs : M.Along C s' js) : M.Along C s (is ++ js) := by
  induction is generalizing s with
  | nil =>
    obtain rfl : s = s' := by simpa using he
    exact hs
  | cons i is ih =>
    refine ⟨h.1, fun t ht => ih (h.2 t ht) ?_⟩
    rwa [exec_cons, ht] at he

/-- **Exact conditions.** Where a state with `P` leads to one with `P` exactly by a step that meets
`C`, all states of a run have `P` exactly if all its steps meet `C`. -/
theorem along_iff_prefixes {C : σ → ι → Prop} {P Inv : σ → Prop}
    (hstep : ∀ s i s', Inv s → P s → M.next s i = some s' → Inv s' ∧ (P s' ↔ C s i))
    {s s' : σ} {is : List ι} (hs : Inv s) (hP : P s) (he : M.exec s is = some s') :
    (∀ n t, M.exec s (is.take n) = some t → P t) ↔ M.Along C s is := by
  induction is generalizing s with
  | nil =>
    refine iff_of_true (fun n t ht => ?_) trivial
    obtain rfl : s = t := by simpa using ht
    exact hP
  | cons i is ih =>
    rw [exec_cons] at he
    obtain ⟨t, hn, he⟩ := Option.bind_eq_some_iff.mp he
    obtain ⟨ht, hiff⟩ := hstep s i t hs hP hn
    have hrest {n : Nat} {u : σ} (hu : M.exec t (is.take n) = some u) :
        M.exec s ((i :: is).take (n + 1)) = some u := by
      rw [List.take_succ_cons, exec_cons, hn]
      exact hu
    constructor
    · intro hall
      have hPt : P t := hall 1 t (hrest (n := 0) (by simp))
      refine M.along_cons (hiff.mp hPt) hn ((ih ht hPt he).mp fun n u hu => ?_)
      exact hall (n + 1) u (hrest hu)
    · intro halong n u hu
      have hPt : P t := hiff.mpr halong.1
      cases n with
      | zero =>
        obtain rfl : s = u := by simpa using hu
        exact hP
      | succ n =>
        rw [List.take_succ_cons, exec_cons, hn] at hu
        exact (ih ht hPt he).mpr (halong.2 t hn) n u hu

/-- A computable check of every step of a run. -/
def checked (check : σ → ι → Bool) : σ → List ι → Bool
  | _, [] => true
  | s, i :: is => check s i && (M.next s i).all fun s' => checked check s' is

/-- A condition that the check implies holds along a run that passes it. -/
theorem along_of_checked {C : σ → ι → Prop} {check : σ → ι → Bool}
    (hcheck : ∀ s i, check s i = true → C s i) {s : σ} {is : List ι}
    (h : M.checked check s is = true) : M.Along C s is := by
  induction is generalizing s with
  | nil => trivial
  | cons i is ih =>
    rw [checked, Bool.and_eq_true] at h
    refine ⟨hcheck s i h.1, fun t ht => ih ?_⟩
    rw [ht] at h
    exact h.2

/-- **Invariants.** What holds at every start and what every step preserves holds of every
reachable state. -/
theorem reachable_induction {Inv : σ → Prop} (h0 : ∀ s, M.start s → Inv s)
    (hstep : ∀ s i s', Inv s → M.next s i = some s' → Inv s') {s : σ}
    (hr : M.Reachable s) : Inv s := by
  obtain ⟨s₀, is, hs₀, he⟩ := hr
  exact M.exec_induction (C := fun _ _ => True) (fun s i s' hi _ hn => hstep s i s' hi hn)
    (h0 s₀ hs₀) (M.along_true s₀ is) he

/-! ## Progress -/

/-- **Progress.** While the goal does not hold, some label of the kind `own` is enabled and
lowers the measure: then a run of such labels reaches the goal. -/
theorem progress {own : ι → Prop} {Inv Goal : σ → Prop} (measure : σ → Nat)
    (hprog : ∀ s, Inv s → ¬ Goal s →
      ∃ i s', own i ∧ M.next s i = some s' ∧ Inv s' ∧ measure s' < measure s)
    {s : σ} (hs : Inv s) :
    ∃ is s', (∀ i ∈ is, own i) ∧ M.exec s is = some s' ∧ Inv s' ∧ Goal s' := by
  induction hm : measure s using Nat.strongRecOn generalizing s with
  | ind m ih =>
    by_cases hg : Goal s
    · exact ⟨[], s, by simp, rfl, hs, hg⟩
    · obtain ⟨i, t, hi, hn, ht, hlt⟩ := hprog s hs hg
      obtain ⟨is, u, his, he, hu, hgu⟩ := ih (measure t) (hm ▸ hlt) ht rfl
      refine ⟨i :: is, u, ?_, ?_, hu, hgu⟩
      · intro j hj
        rcases List.mem_cons.mp hj with rfl | hj
        · exact hi
        · exact his j hj
      · rw [exec_cons, hn]
        exact he

/-- **Bounded runs.** Where every step of the kind `own` lowers the measure, a run of such steps
is no longer than the measure it starts from. -/
theorem exec_length_le {own : ι → Prop} {Inv : σ → Prop} (measure : σ → Nat)
    (hstep : ∀ s i s', Inv s → own i → M.next s i = some s' → Inv s' ∧ measure s' < measure s)
    {s s' : σ} {is : List ι} (hs : Inv s) (hown : ∀ i ∈ is, own i)
    (he : M.exec s is = some s') : is.length ≤ measure s := by
  induction is generalizing s with
  | nil => simp
  | cons i is ih =>
    rw [exec_cons] at he
    cases hn : M.next s i with
    | none => simp [hn] at he
    | some t =>
      rw [hn] at he
      obtain ⟨ht, hlt⟩ := hstep s i t hs (hown i List.mem_cons_self) hn
      have := ih ht (fun j hj => hown j (List.mem_cons_of_mem _ hj)) he
      rw [List.length_cons]
      omega

/-- **Paid runs.** Where every step lowers the measure by one, but for what its label pays, a run is
no longer than the measure it starts from and what its labels pay. -/
theorem exec_length_le_paid {Inv : σ → Prop} (measure : σ → Nat) (pays : ι → Nat)
    (hstep : ∀ s i s', Inv s → M.next s i = some s' →
      Inv s' ∧ measure s' + 1 ≤ measure s + pays i)
    {s s' : σ} {is : List ι} (hs : Inv s) (he : M.exec s is = some s') :
    is.length + measure s' ≤ measure s + (is.map pays).sum := by
  induction is generalizing s with
  | nil =>
    obtain rfl : s = s' := by simpa using he
    simp
  | cons i is ih =>
    rw [exec_cons] at he
    obtain ⟨t, hn, he⟩ := Option.bind_eq_some_iff.mp he
    obtain ⟨ht, hle⟩ := hstep s i t hs hn
    have := ih ht he
    rw [List.length_cons, List.map_cons, List.sum_cons]
    omega

end System

end Transition

/-!
# Two runs side by side

A property of two runs of one system is a property of one run of its pairs: both components step at
once, each by a label of its own.  `related` is the induction rule: what two steps that meet a
condition keep between two states, two runs whose steps all meet it keep.
-/

namespace Transition.System

variable {σ ι : Type*} (M : System σ ι)

/-- The pairs of states, both of which step. -/
def twice : System (σ × σ) (ι × ι) where
  start p := M.start p.1 ∧ M.start p.2
  next p i := do
    let s ← M.next p.1 i.1
    let t ← M.next p.2 i.2
    return (s, t)

theorem twice_next {p q : σ × σ} {i : ι × ι} :
    M.twice.next p i = some q ↔ M.next p.1 i.1 = some q.1 ∧ M.next p.2 i.2 = some q.2 := by
  simp only [twice, Option.bind_eq_bind, Option.bind_eq_some_iff]
  constructor
  · rintro ⟨s, hs, t, ht, hq⟩
    obtain rfl := Option.some.inj hq
    exact ⟨hs, ht⟩
  · rintro ⟨hs, ht⟩
    exact ⟨q.1, hs, q.2, ht, rfl⟩

/-- Two runs of one length are a run of the pairs. -/
theorem exec_twice {s t s' t' : σ} {is js : List ι} (hlength : is.length = js.length)
    (hs : M.exec s is = some s') (ht : M.exec t js = some t') :
    M.twice.exec (s, t) (is.zip js) = some (s', t') := by
  induction is generalizing s t js with
  | nil =>
    obtain rfl := List.length_eq_zero_iff.mp hlength.symm
    obtain rfl : s = s' := by simpa using hs
    obtain rfl : t = t' := by simpa using ht
    rfl
  | cons i is ih =>
    cases js with
    | nil => simp at hlength
    | cons j js =>
      rw [exec_cons, Option.bind_eq_some_iff] at hs ht
      obtain ⟨s₁, hs₁, hs⟩ := hs
      obtain ⟨t₁, ht₁, ht⟩ := ht
      have hnext : M.twice.next (s, t) (i, j) = some (s₁, t₁) := M.twice_next.mpr ⟨hs₁, ht₁⟩
      rw [List.zip_cons_cons, exec_cons, hnext]
      exact ih (Nat.succ.inj hlength) hs ht

theorem along_single {C : σ → ι → Prop} {s : σ} {i : ι} (h : C s i) : M.Along C s [i] :=
  ⟨h, fun _ _ => trivial⟩

/-- A condition on the steps of the first run. -/
theorem along_twice_left {C : σ → ι → Prop} {D : σ × σ → ι × ι → Prop} {s t : σ} {is js : List ι}
    (hC : M.Along C s is) (hD : M.twice.Along D (s, t) (is.zip js)) :
    M.twice.Along (fun p i => C p.1 i.1 ∧ D p i) (s, t) (is.zip js) := by
  induction is generalizing s t js with
  | nil => trivial
  | cons i is ih =>
    cases js with
    | nil => trivial
    | cons j js =>
      rw [List.zip_cons_cons] at hD ⊢
      refine ⟨⟨hC.1, hD.1⟩, fun q hq => ?_⟩
      exact ih (hC.2 q.1 (M.twice_next.mp hq).1) (hD.2 q hq)

/-- **Related runs.** What two steps that meet `D` keep between two states, two runs whose steps all
meet `D` keep. -/
theorem related {D : σ × σ → ι × ι → Prop} {R : σ → σ → Prop}
    (hstep : ∀ s t i j s' t', R s t → D (s, t) (i, j) → M.next s i = some s' →
      M.next t j = some t' → R s' t')
    {s t s' t' : σ} {is js : List ι} (hlength : is.length = js.length) (hR : R s t)
    (hD : M.twice.Along D (s, t) (is.zip js)) (hs : M.exec s is = some s')
    (ht : M.exec t js = some t') : R s' t' := by
  have hrun := M.exec_twice hlength hs ht
  have hpair : ∀ p i q, R p.1 p.2 → D p i → M.twice.next p i = some q → R q.1 q.2 := by
    intro p i q hp hi hnext
    obtain ⟨hfirst, hsecond⟩ := M.twice_next.mp hnext
    exact hstep p.1 p.2 i.1 i.2 q.1 q.2 hp hi hfirst hsecond
  exact M.twice.exec_induction (s := (s, t)) hpair hR hD hrun

end Transition.System
