import Mathlib.Data.List.Infix

/-!
# Searching a text

Where a text or a character stands first or last in another text.
-/

namespace Text

/-- `find` of a text: where it stands first. -/
def find (sub : List Char) : List Char → Option Nat
  | [] => if sub = [] then some 0 else none
  | c :: rest => if sub <+: c :: rest then some 0 else (find sub rest).map (· + 1)

/-- `rfind` of a character: where it stands last. -/
def rfind (c : Char) (s : List Char) : Option Nat :=
  (s.reverse.idxOf? c).map fun i => s.length - 1 - i

theorem find_eq_none {sub s : List Char} : find sub s = none ↔ ¬sub <:+: s := by
  induction s with
  | nil => simp [find]
  | cons c rest ih =>
    rw [find, List.infix_cons_iff, not_or]
    split
    · simp [*]
    · simp [*]

theorem length_of_find {sub s : List Char} {i : Nat} (h : find sub s = some i) :
    i + sub.length ≤ s.length := by
  induction s generalizing i with
  | nil =>
    unfold find at h
    split at h
    · obtain rfl := Option.some.inj h
      simp [*]
    · cases h
  | cons c rest ih =>
    unfold find at h
    split at h
    · obtain rfl := Option.some.inj h
      rename_i hstart
      rw [Nat.zero_add]
      exact hstart.length_le
    · obtain ⟨j, hj, rfl⟩ := Option.map_eq_some_iff.mp h
      have hle := ih hj
      rw [List.length_cons]
      omega

theorem idxOf?_append_cons {c : Char} {before : List Char} (h : c ∉ before) (after : List Char) :
    (before ++ c :: after).idxOf? c = some before.length := by
  rw [List.idxOf?_eq_some_iff]
  refine ⟨by simp, by simp, fun j hj heq => ?_⟩
  rw [List.getElem_append_left hj] at heq
  exact h (heq ▸ List.getElem_mem _)

theorem rfind_append_cons {c : Char} {after : List Char} (h : c ∉ after) (before : List Char) :
    rfind c (before ++ c :: after) = some before.length := by
  have hrev : (before ++ c :: after).reverse = after.reverse ++ c :: before.reverse := by simp
  have hnot : c ∉ after.reverse := fun hmem => h (List.mem_reverse.mp hmem)
  rw [rfind, hrev, idxOf?_append_cons hnot, Option.map_some, List.length_append, List.length_cons,
    List.length_reverse]
  congr 1
  omega

theorem rfind_eq_none {c : Char} {s : List Char} : rfind c s = none ↔ c ∉ s := by
  rw [rfind, Option.map_eq_none_iff, List.idxOf?_eq_none_iff, List.mem_reverse]

/-- What is found last has no other after it. -/
theorem rfind_eq_some {c : Char} {s : List Char} {place : Nat} (h : rfind c s = some place) :
    ∃ before after, s = before ++ c :: after ∧ c ∉ after ∧ place = before.length := by
  have hmem : c ∈ s := by
    by_contra hmem
    rw [rfind_eq_none.mpr hmem] at h
    cases h
  obtain ⟨after, before, hrev, hafter⟩ := List.eq_append_cons_of_mem (List.mem_reverse.mpr hmem)
  have hs : s = before.reverse ++ c :: after.reverse := by
    rw [← List.reverse_reverse s, hrev]
    simp
  have hnot : c ∉ after.reverse := by simpa using hafter
  refine ⟨before.reverse, after.reverse, hs, hnot, ?_⟩
  rw [hs, rfind_append_cons hnot] at h
  exact (Option.some.inj h).symm

/-- What stands before the last of a character is no shorter than what stands before any. -/
theorem length_before_le {c : Char} {before after front rest : List Char} (h : c ∉ rest)
    (heq : before ++ c :: after = front ++ c :: rest) : before.length ≤ front.length := by
  rcases List.append_eq_append_iff.mp heq with ⟨more, hfront, -⟩ | ⟨more, -, hrest⟩
  · rw [hfront, List.length_append]
    exact Nat.le_add_right _ _
  · cases more with
    | nil => simp_all
    | cons d more =>
      have hmem : c ∈ rest := by
        rw [List.cons_append] at hrest
        rw [(List.cons.inj hrest).2]
        simp
      exact absurd hmem h

end Text
