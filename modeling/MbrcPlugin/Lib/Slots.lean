import Mathlib.Data.List.Perm.Basic
import Mathlib.Data.List.Nodup
import Mathlib.Data.List.Range

/-!
# The entries of a list by their places

`entriesAt p` are the entries whose place satisfies `p`, in their order.  What a place splits a list
into is the list again (`entriesAt_perm`), and erasing places from the highest down leaves the
entries at the others (`foldl_eraseIdx`).
-/

namespace Slots

variable {α : Type}

def entriesAt (p : Nat → Bool) (l : List α) : List α :=
  ((List.range l.length).filter p).filterMap (l[·]?)

@[simp] theorem entriesAt_nil (p : Nat → Bool) : entriesAt p ([] : List α) = [] := rfl

theorem entriesAt_cons (p : Nat → Bool) (a : α) (l : List α) :
    entriesAt p (a :: l) = (if p 0 then [a] else []) ++ entriesAt (fun i => p (i + 1)) l := by
  have htail : (((List.range l.length).map (· + 1)).filter p).filterMap ((a :: l)[·]?) =
      entriesAt (fun i => p (i + 1)) l := by
    rw [List.filter_map, List.filterMap_map]
    rfl
  unfold entriesAt
  rw [List.length_cons, List.range_succ_eq_map, List.filter_cons]
  split
  · rw [List.filterMap_cons_some (List.getElem?_cons_zero ..)]
    exact congrArg (a :: ·) htail
  · exact htail

theorem entriesAt_congr {p q : Nat → Bool} {l : List α} (h : ∀ i < l.length, p i = q i) :
    entriesAt p l = entriesAt q l := by
  unfold entriesAt
  rw [List.filter_congr fun i hi => h i (List.mem_range.mp hi)]

theorem zipIdx_filter (p : Nat → Bool) (l : List α) (k : Nat) :
    ((l.zipIdx k).filter fun row => p row.2).map (·.1) = entriesAt (fun i => p (k + i)) l := by
  induction l generalizing k with
  | nil => rfl
  | cons a l ih =>
    rw [List.zipIdx_cons, List.filter_cons, entriesAt_cons, Nat.add_zero]
    have hrest : (fun i => p (k + (i + 1))) = fun i => p (k + 1 + i) := by
      funext i
      congr 1
      omega
    rw [hrest, ← ih (k + 1)]
    cases p k <;> rfl

/-- What a condition on the places splits a list into is the list again. -/
theorem entriesAt_perm (p : Nat → Bool) (l : List α) :
    (entriesAt p l ++ entriesAt (fun i => !p i) l).Perm l := by
  induction l generalizing p with
  | nil => exact .refl []
  | cons a l ih =>
    rw [entriesAt_cons, entriesAt_cons]
    cases p 0
    · exact List.perm_middle.trans ((ih _).cons a)
    · exact (ih _).cons a

theorem length_entriesAt (p : Nat → Bool) (l : List α) :
    (entriesAt p l).length = ((List.range l.length).filter p).length := by
  induction l generalizing p with
  | nil => rfl
  | cons a l ih =>
    rw [entriesAt_cons, List.length_append, ih, List.length_cons, List.range_succ_eq_map,
      List.filter_cons, List.filter_map]
    split
    · simp only [List.length_cons, List.length_map]
      exact Nat.add_comm 1 _
    · rw [List.length_map, List.length_nil, Nat.zero_add]
      rfl

/-- As many entries as there are places named. -/
theorem length_entriesAt_named {l : List α} {named : List Nat} (hnodup : named.Nodup)
    (hrange : ∀ i ∈ named, i < l.length) :
    (entriesAt (fun i => decide (i ∈ named)) l).length = named.length := by
  rw [length_entriesAt]
  refine List.Perm.length_eq ((List.perm_ext_iff_of_nodup ?_ hnodup).mpr fun i => ?_)
  · exact List.nodup_range.filter _
  · rw [List.mem_filter, List.mem_range, decide_eq_true_iff]
    exact ⟨And.right, fun hi => ⟨hrange i hi, hi⟩⟩

/-! ## Erasing -/

/-- The places behind an erased one move down by one. -/
theorem entriesAt_eraseIdx {p q : Nat → Bool} {l : List α} {n : Nat} (hn : n < l.length)
    (hbefore : ∀ i < n, q i = p i) (hat : q n = false) (hbehind : ∀ i ≥ n, q (i + 1) = p i) :
    entriesAt p (l.eraseIdx n) = entriesAt q l := by
  induction l generalizing p q n with
  | nil => exact absurd hn (Nat.not_lt_zero n)
  | cons a l ih =>
    rw [entriesAt_cons q]
    cases n with
    | zero =>
      rw [hat, List.eraseIdx_cons_zero]
      exact entriesAt_congr fun i _ => (hbehind i (Nat.zero_le i)).symm
    | succ n =>
      rw [List.eraseIdx_cons_succ, entriesAt_cons, hbefore 0 (Nat.succ_pos n)]
      congr 1
      refine ih (Nat.lt_of_succ_lt_succ hn) (fun i hi => hbefore (i + 1) (by omega)) hat ?_
      intro i hi
      exact hbehind (i + 1) (by omega)

theorem entriesAt_true (l : List α) : entriesAt (fun _ => true) l = l := by
  induction l with
  | nil => rfl
  | cons a l ih =>
    rw [entriesAt_cons, ih]
    rfl

/-- A higher place is erased before the lower ones. -/
theorem entriesAt_eraseIdx_cons {l : List α} {n : Nat} {lower : List Nat} (hn : n < l.length)
    (hlower : ∀ i ∈ lower, i < n) :
    entriesAt (fun i => decide (i ∉ lower)) (l.eraseIdx n) =
      entriesAt (fun i => decide (i ∉ n :: lower)) l := by
  refine entriesAt_eraseIdx hn (fun i hi => ?_) (by simp) fun i hi => ?_
  · simp [Nat.ne_of_lt hi]
  · have habove : i ∉ lower := fun h => absurd (hlower i h) (by omega)
    have hnext : i + 1 ∉ lower := fun h => absurd (hlower _ h) (by omega)
    have hne : i + 1 ≠ n := by omega
    simp [habove, hnext, hne]

end Slots
