import Mathlib.Data.Set.Basic
import Mathlib.Tactic.Common

/-!
# Programs over a shared store

A store is made of parts.  An operation on it answers and changes parts; what it answers and
what it writes depends only on the parts it reads.  A program asks for one operation at a time
and goes on from the answers it got.  Run among other programs, it answers what it answers when
run alone, as long as the others leave alone the parts its operations touch.
-/

namespace Interference

/-- A store of parts with values in `V`, and its operations. -/
structure Store (Part V Op Ans : Type) (reads writes : Op → List Part) where
  perform : Op → (Part → V) → Ans × (Part → V)
  /-- An operation changes only parts it writes. -/
  frame : ∀ op w p, p ∉ writes op → (perform op w).2 p = w p
  /-- Its answer depends on what it reads. -/
  answer_local : ∀ op w w', (∀ p ∈ reads op, w p = w' p) →
    (perform op w).1 = (perform op w').1
  /-- So does what it writes. -/
  write_local : ∀ op w w' p, (∀ p ∈ reads op, w p = w' p) → p ∈ writes op →
    (perform op w).2 p = (perform op w').2 p

/-- A program: its next operation, or its result, from the answers so far. -/
abbrev Program (Op Ans Out : Type) := List Ans → Op ⊕ Out

/-- A program by its states: what it asks for in one, and where an answer takes it. -/
structure Machine (σ Op Ans Out : Type) where
  start : σ
  ask : σ → Op ⊕ Out
  resume : σ → Ans → σ

/-- The program of a machine. -/
def Machine.program {σ Op Ans Out : Type} (m : Machine σ Op Ans Out) : Program Op Ans Out :=
  fun as => m.ask (as.foldl m.resume m.start)

/-- Two states of a store agree on some parts. -/
def Agree {Part V : Type} (foot : Set Part) (w w' : Part → V) : Prop := ∀ p ∈ foot, w p = w' p

namespace Store

variable {Part V Op Ans Out : Type} {reads writes : Op → List Part}
  (S : Store Part V Op Ans reads writes) (prog : Program Op Ans Out)

/-- What an operation does is the same in two states that agree on what it reads. -/
theorem perform_agree {foot : Set Part} {op : Op} (hreads : ∀ p ∈ reads op, p ∈ foot)
    {w w' : Part → V} (h : Agree foot w w') :
    (S.perform op w).1 = (S.perform op w').1 ∧
      Agree foot (S.perform op w).2 (S.perform op w').2 := by
  have hr : ∀ p ∈ reads op, w p = w' p := fun p hp => h p (hreads p hp)
  refine ⟨S.answer_local op w w' hr, fun p hp => ?_⟩
  by_cases hw : p ∈ writes op
  · exact S.write_local op w w' p hr hw
  · rw [S.frame op w p hw, S.frame op w' p hw]
    exact h p hp

/-- The result of a program run alone from the answers `as` on, in at most `n` operations. -/
def run : Nat → List Ans → (Part → V) → Option Out
  | 0, _, _ => none
  | n + 1, as, w =>
    match prog as with
    | .inr out => some out
    | .inl op => run n (as ++ [(S.perform op w).1]) (S.perform op w).2

/-- Run alone in the state `w`, the program answers `out`. -/
def Alone (w : Part → V) (out : Out) : Prop := ∃ n, S.run prog n [] w = some out

theorem run_succ {n : Nat} {as : List Ans} {w : Part → V} {op : Op} (h : prog as = .inl op) :
    S.run prog (n + 1) as w = S.run prog n (as ++ [(S.perform op w).1]) (S.perform op w).2 := by
  show (match prog as with
    | .inr out => some out
    | .inl op => S.run prog n (as ++ [(S.perform op w).1]) (S.perform op w).2) = _
  rw [h]

/-- More operations allowed change no result. -/
theorem run_mono {n : Nat} {as : List Ans} {w : Part → V} {out : Out}
    (h : S.run prog n as w = some out) (k : Nat) : S.run prog (n + k) as w = some out := by
  induction n generalizing as w with
  | zero => simp [run] at h
  | succ n ih =>
    cases hp : prog as with
    | inr o =>
      rw [run, hp] at h
      rw [Nat.succ_add, run, hp]
      exact h
    | inl op =>
      rw [S.run_succ prog hp] at h
      rw [Nat.succ_add, S.run_succ prog hp]
      exact ih h

/-- A program run alone has one result. -/
theorem alone_unique {w : Part → V} {out out' : Out} (h : S.Alone prog w out)
    (h' : S.Alone prog w out') : out = out' := by
  obtain ⟨n, hn⟩ := h
  obtain ⟨m, hm⟩ := h'
  have hn' := S.run_mono prog hn m
  have hm' := S.run_mono prog hm n
  rw [Nat.add_comm, hm'] at hn'
  exact (Option.some.inj hn').symm

/-- A program that got the answers `as`, in a store now in the state `w`, is where a run alone
from `w₀` would be, up to parts outside `foot`. -/
def Follows (foot : Set Part) (w₀ : Part → V) (as : List Ans) (w : Part → V) : Prop :=
  ∃ alone, (∃ k, ∀ n, S.run prog (n + k) [] w₀ = S.run prog n as alone) ∧ Agree foot alone w

variable {foot : Set Part} {w₀ w w' : Part → V} {as : List Ans}

theorem follows_start (w₀ : Part → V) : S.Follows prog foot w₀ [] w₀ :=
  ⟨w₀, ⟨0, fun _ => rfl⟩, fun _ _ => rfl⟩

/-- Its own operation takes it on. -/
theorem Follows.own {S : Store Part V Op Ans reads writes} {prog : Program Op Ans Out}
    (h : S.Follows prog foot w₀ as w) {op : Op} (hop : prog as = .inl op)
    (hreads : ∀ p ∈ reads op, p ∈ foot) :
    S.Follows prog foot w₀ (as ++ [(S.perform op w).1]) (S.perform op w).2 := by
  obtain ⟨alone, ⟨k, hk⟩, hagree⟩ := h
  obtain ⟨hanswer, hafter⟩ := S.perform_agree hreads hagree
  refine ⟨(S.perform op alone).2, ⟨k + 1, fun n => ?_⟩, hafter⟩
  rw [← hanswer, ← S.run_succ prog hop, ← hk (n + 1)]
  congr 1
  omega

/-- A change of other parts leaves it where it is. -/
theorem Follows.other {S : Store Part V Op Ans reads writes} {prog : Program Op Ans Out}
    (h : S.Follows prog foot w₀ as w) (hkeep : Agree foot w w') :
    S.Follows prog foot w₀ as w' := by
  obtain ⟨alone, hrun, hagree⟩ := h
  exact ⟨alone, hrun, fun p hp => (hagree p hp).trans (hkeep p hp)⟩

/-- **Its result is that of the run alone.** -/
theorem Follows.result {S : Store Part V Op Ans reads writes} {prog : Program Op Ans Out}
    (h : S.Follows prog foot w₀ as w) {out : Out} (hout : prog as = .inr out) :
    S.Alone prog w₀ out := by
  obtain ⟨alone, ⟨k, hk⟩, -⟩ := h
  refine ⟨1 + k, ?_⟩
  rw [hk 1, run, hout]

end Store

end Interference
