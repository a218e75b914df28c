import Mathlib.Data.List.TakeWhile
import Mathlib.Data.List.Basic

/-!
# A work list taken in batches from its front

A round looks at the first entries of a list and takes those off it that can be done; the others
stay where they are.  So entries that cannot be done gather at the front, and once they fill a batch
nothing behind them is looked at any more: an entry is reached exactly if fewer of them stand before
it than a batch holds (`stuck_before`, `mem_afterRound_of_blocked`).
-/

namespace WorkList

variable {α : Type*} [DecidableEq α] (size : Nat) (able : α → Bool)

/-- What is left of the list after a round. -/
def afterRound (todo : List α) : List α :=
  todo.filter fun a => !(able a && decide (a ∈ todo.take size))

/-- How many entries before the first `a` cannot be done. -/
def unableBefore (todo : List α) (a : α) : Nat :=
  (todo.takeWhile (· ≠ a)).countP fun b => !able b

variable {size able}

theorem mem_afterRound {todo : List α} {a : α} :
    a ∈ afterRound size able todo ↔ a ∈ todo ∧ ¬(able a = true ∧ a ∈ todo.take size) := by
  rw [afterRound, List.mem_filter]
  cases able a <;> simp

/-- Dropping entries that can be done, other than `a`, leaves the count as it is. -/
theorem unableBefore_filter {todo : List α} {a : α} {keep : α → Bool} (ha : keep a = true)
    (hunable : ∀ b, able b = false → keep b = true) :
    unableBefore able (todo.filter keep) a = unableBefore able todo a := by
  unfold unableBefore
  induction todo with
  | nil => rfl
  | cons b rest ih =>
    by_cases hb : b = a
    · subst hb
      simp [ha]
    · cases hkeep : keep b with
      | true =>
        simp only [List.filter_cons, hkeep, if_true, List.takeWhile_cons, ne_eq, hb,
          not_false_eq_true, decide_true, List.countP_cons, ih]
      | false =>
        have hable : able b = true := by
          cases h : able b with
          | true => rfl
          | false =>
            rw [hunable b h] at hkeep
            cases hkeep
        simp only [List.filter_cons, hkeep, Bool.false_eq_true, if_false, List.takeWhile_cons,
          ne_eq, hb, not_false_eq_true, decide_true, if_true, List.countP_cons, ih, hable,
          Bool.not_true, Nat.add_zero]

/-- A round does not change how many stand before an entry that it leaves. -/
theorem unableBefore_afterRound {todo : List α} {a : α} (ha : a ∈ afterRound size able todo) :
    unableBefore able (afterRound size able todo) a = unableBefore able todo a := by
  refine unableBefore_filter ?_ fun b hb => by rw [hb]; rfl
  exact (List.mem_filter.mp ha).2

/-- An entry that is not in the batch has the whole batch before it. -/
theorem take_prefix_takeWhile {todo : List α} {a : α} (ha : a ∉ todo.take size) :
    todo.take size <+: todo.takeWhile (· ≠ a) := by
  induction todo generalizing size with
  | nil => simp
  | cons b rest ih =>
    cases size with
    | zero => simp
    | succ size =>
      rw [List.take_succ_cons, List.mem_cons, not_or] at ha
      rw [List.take_succ_cons, List.takeWhile_cons_of_pos (by simpa using fun h => ha.1 h.symm)]
      exact List.cons_prefix_cons.mpr ⟨rfl, ih ha.2⟩

/-- An entry of the batch has fewer entries before it than the batch holds. -/
theorem length_takeWhile_lt {todo : List α} {a : α} (ha : a ∈ todo.take size) :
    (todo.takeWhile (· ≠ a)).length < size := by
  induction todo generalizing size with
  | nil => simp at ha
  | cons b rest ih =>
    cases size with
    | zero => simp at ha
    | succ size =>
      rw [List.takeWhile_cons]
      split
      · rename_i hne
        rw [List.take_succ_cons, List.mem_cons] at ha
        rw [List.length_cons]
        exact Nat.succ_lt_succ (ih (ha.resolve_left fun h => by simp [h] at hne))
      · exact Nat.succ_pos size

/-- **Stuck.**  Where nothing in the batch can be done, whatever can be done has a full batch of the
others before it. -/
theorem stuck_before {todo : List α} (hstuck : ∀ b ∈ todo.take size, able b = false) {a : α}
    (ha : a ∈ todo) (hable : able a = true) : size ≤ unableBefore able todo a := by
  have hnot : a ∉ todo.take size := fun h => by
    rw [hstuck a h] at hable
    cases hable
  have hfull : (todo.take size).length = size := by
    rw [List.length_take, Nat.min_eq_left]
    by_contra hlt
    rw [List.take_of_length_le (Nat.le_of_not_le hlt)] at hnot
    exact hnot ha
  have hcount : (todo.take size).countP (fun b => !able b) = size := by
    rw [List.countP_eq_length.mpr fun b hb => by rw [hstuck b hb]; rfl, hfull]
  exact hcount ▸ (take_prefix_takeWhile hnot).sublist.countP_le

/-- **Blocked.**  An entry with a full batch of entries before it that cannot be done stays. -/
theorem mem_afterRound_of_blocked {todo : List α} {a : α} (ha : a ∈ todo)
    (hblocked : size ≤ unableBefore able todo a) : a ∈ afterRound size able todo := by
  refine mem_afterRound.mpr ⟨ha, fun ⟨_, htake⟩ => ?_⟩
  have hlt := length_takeWhile_lt htake
  have hle : unableBefore able todo a ≤ (todo.takeWhile (· ≠ a)).length := List.countP_le_length
  omega

/-- A round that does something shortens the list. -/
theorem length_afterRound_lt {todo : List α} {a : α} (ha : a ∈ todo.take size)
    (hable : able a = true) : (afterRound size able todo).length < todo.length := by
  refine List.length_filter_lt_length_iff_exists.mpr ⟨a, List.mem_of_mem_take ha, ?_⟩
  simp [ha, hable]

end WorkList
