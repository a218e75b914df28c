import Mathlib.Data.List.Infix
import MbrcPlugin.Lib.Text

/-!
# Lines

A stream cut at a terminator: its complete lines, and what has come of the next one.  A reader that
keeps what has come of a line and looks at more of the stream later finds the lines of the whole
(`lines_append`), wherever the stream was cut.
-/

namespace Lines

variable {α : Type*} [DecidableEq α] (sep : α)

/-- The complete lines of a stream, and the rest. -/
def lines : List α → List (List α) × List α
  | [] => ([], [])
  | a :: l =>
    if a = sep then ([] :: (lines l).1, (lines l).2)
    else match lines l with
      | ([], rest) => ([], a :: rest)
      | (line :: more, rest) => ((a :: line) :: more, rest)

/-- Lines with their terminators. -/
def unlines (ls : List (List α)) : List α := ls.flatMap (· ++ [sep])

variable {sep} {l : List α}

theorem lines_of_not_mem (h : sep ∉ l) : lines sep l = ([], l) := by
  induction l with
  | nil => rfl
  | cons a l ih =>
    rw [List.mem_cons, not_or] at h
    rw [lines, if_neg (Ne.symm h.1), ih h.2]

/-- A line and its terminator. -/
theorem lines_line (h : sep ∉ l) (rest : List α) :
    lines sep (l ++ sep :: rest) = (l :: (lines sep rest).1, (lines sep rest).2) := by
  induction l with
  | nil => rw [List.nil_append, lines, if_pos rfl]
  | cons a l ih =>
    rw [List.mem_cons, not_or] at h
    rw [List.cons_append, lines, if_neg (Ne.symm h.1), ih h.2]

variable (sep) in
theorem not_mem_rest (l : List α) : sep ∉ (lines sep l).2 := by
  induction l with
  | nil => exact List.not_mem_nil
  | cons a l ih =>
    rw [lines]
    split
    · exact ih
    · rename_i hne
      split
      · rename_i hlines
        rw [hlines] at ih
        rw [List.mem_cons, not_or]
        exact ⟨Ne.symm hne, ih⟩
      · rename_i hlines
        rw [hlines] at ih
        exact ih

/-- **Where a stream is cut** does not show in its lines. -/
theorem lines_append (l more : List α) : lines sep (l ++ more) =
    ((lines sep l).1 ++ (lines sep ((lines sep l).2 ++ more)).1,
      (lines sep ((lines sep l).2 ++ more)).2) := by
  induction l with
  | nil => rfl
  | cons a l ih =>
    rw [List.cons_append, lines, lines]
    by_cases ha : a = sep
    · rw [if_pos ha, if_pos ha, ih]
      rfl
    · rw [if_neg ha, if_neg ha, ih]
      cases hlines : lines sep l with
      | mk first rest =>
        cases first with
        | nil =>
          dsimp only
          rw [List.cons_append, lines, if_neg ha]
          rfl
        | cons line first => rfl

theorem lines_unlines {ls : List (List α)} (h : ∀ line ∈ ls, sep ∉ line) :
    lines sep (unlines sep ls) = (ls, []) := by
  induction ls with
  | nil => rfl
  | cons line ls ih =>
    have hrest := ih fun l hl => h l (List.mem_cons_of_mem _ hl)
    rw [unlines, List.flatMap_cons, ← unlines, List.append_assoc, List.singleton_append,
      lines_line (h line List.mem_cons_self), hrest]

/-- What has come of the next line is the beginning of a line. -/
theorem rest_prefix {ls : List (List α)} (h : ∀ line ∈ ls, sep ∉ line) {more : List α}
    (hcut : l ++ more = unlines sep ls) :
    (lines sep l).2 = [] ∨ ∃ line ∈ ls, (lines sep l).2 <+: line := by
  have hall := lines_unlines h
  rw [← hcut, lines_append] at hall
  obtain ⟨hlines, hrest⟩ := Prod.mk.inj hall
  by_cases hmore : sep ∈ more
  · right
    obtain ⟨ending, later, rfl, hending⟩ := List.eq_append_cons_of_mem hmore
    have hline : sep ∉ (lines sep l).2 ++ ending := by
      rw [List.mem_append, not_or]
      exact ⟨not_mem_rest sep l, hending⟩
    rw [← List.append_assoc, lines_line hline] at hlines
    refine ⟨_, ?_, List.prefix_append _ ending⟩
    rw [← hlines]
    simp
  · left
    have hnone : sep ∉ (lines sep l).2 ++ more := by
      rw [List.mem_append, not_or]
      exact ⟨not_mem_rest sep l, hmore⟩
    rw [lines_of_not_mem hnone] at hrest
    exact (List.append_eq_nil_iff.mp hrest).1

end Lines

namespace Text

/-! ## Line breaks in UTF-8 -/

/-- A byte of ASCII stands for its own character only. -/
theorem toNat_of_mem_encode {c : Char} {b : UInt8} (hb : b.toNat < 128)
    (h : b ∈ String.utf8EncodeChar c) : c.toNat = b.toNat := by
  have hc : c.val.toNat = c.toNat := rfl
  unfold String.utf8EncodeChar at h
  dsimp only at h
  rw [hc] at h
  split at h
  · rw [List.mem_singleton] at h
    rw [h, UInt8.toNat_ofNat']
    omega
  · split at h
    · simp only [List.mem_cons, List.not_mem_nil, or_false] at h
      rcases h with rfl | rfl <;> rw [UInt8.toNat_ofNat'] at hb <;> omega
    · split at h
      · simp only [List.mem_cons, List.not_mem_nil, or_false] at h
        rcases h with rfl | rfl | rfl <;> rw [UInt8.toNat_ofNat'] at hb <;> omega
      · simp only [List.mem_cons, List.not_mem_nil, or_false] at h
        rcases h with rfl | rfl | rfl | rfl <;> rw [UInt8.toNat_ofNat'] at hb <;> omega

theorem bytes_eq_flatMap (s : String) : bytes s = s.toList.flatMap String.utf8EncodeChar := by
  rw [bytes, ← String.utf8Encode_toList, List.utf8Encode]
  simp

/-- A text without a character of ASCII has not its byte. -/
theorem not_mem_bytes {s : String} {c : Char} (hc : c.toNat < 128) (h : c ∉ s.toList) :
    UInt8.ofNat c.toNat ∉ bytes s := by
  intro hmem
  have hb : (UInt8.ofNat c.toNat).toNat = c.toNat := by
    rw [UInt8.toNat_ofNat']
    omega
  rw [bytes_eq_flatMap, List.mem_flatMap] at hmem
  obtain ⟨d, hd, hbyte⟩ := hmem
  have hsame := toNat_of_mem_encode (by omega) hbyte
  rw [hb] at hsame
  rw [Char.toNat_inj.mp hsame] at hd
  exact h hd

end Text
