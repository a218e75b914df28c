import MbrcPlugin.Lib.Text
import Mathlib.Data.List.Basic

/-!
# The lines of a text

What is made of each line of a text.  When it does not depend on the white space around the line,
it is the same for the lines of the trimmed text and for the pieces between line feeds.
-/

namespace Text

/-! ## White space at the ends -/

theorem trimStart_cons {c : Char} (hc : isWhiteSpace c = true) (s : List Char) :
    trimStart (c :: s) = trimStart s := by
  rw [trimStart, List.dropWhile_cons_of_pos hc]
  rfl

theorem trimChars_cons {c : Char} (hc : isWhiteSpace c = true) (s : List Char) :
    trimChars (c :: s) = trimChars s := by
  rw [trimChars, trimStart_cons hc]
  rfl

theorem trimStart_append (s t : List Char) :
    trimStart (s ++ t) = if trimStart s = [] then trimStart t else trimStart s ++ t := by
  unfold trimStart
  rw [List.dropWhile_append]
  simp

theorem trimChars_append {c : Char} (hc : isWhiteSpace c = true) (s : List Char) :
    trimChars (s ++ [c]) = trimChars s := by
  have hnil : trimStart [c] = [] := trimStart_cons hc []
  unfold trimChars
  rw [trimStart_append]
  split
  · rename_i hs
    rw [hs, hnil]
  · rw [List.reverse_append, List.reverse_singleton, List.singleton_append, trimStart_cons hc]

/-- What is trimmed off is white space. -/
theorem exists_trimStart (s : List Char) :
    ∃ space, (∀ c ∈ space, isWhiteSpace c = true) ∧ s = space ++ trimStart s :=
  ⟨s.takeWhile isWhiteSpace, fun _ hc => List.mem_takeWhile_imp hc,
    List.takeWhile_append_dropWhile.symm⟩

theorem exists_trimChars (s : List Char) : ∃ front back, (∀ c ∈ front, isWhiteSpace c = true) ∧
    (∀ c ∈ back, isWhiteSpace c = true) ∧ s = front ++ trimChars s ++ back := by
  obtain ⟨front, hfront, hs⟩ := exists_trimStart s
  obtain ⟨back, hback, hrev⟩ := exists_trimStart (trimStart s).reverse
  refine ⟨front, back.reverse, hfront, fun c hc => hback c (List.mem_reverse.mp hc), ?_⟩
  have htrim : trimStart s = trimChars s ++ back.reverse := by
    rw [← List.reverse_reverse (trimStart s), hrev, List.reverse_append]
    rfl
  rw [List.append_assoc, ← htrim]
  exact hs

/-! ## Pieces -/

/-- A piece has nothing in it that the text is split at. -/
theorem not_of_mem_splitOnP {α : Type*} {p : α → Bool} {cs piece : List α}
    (h : piece ∈ cs.splitOnP p) : ∀ c ∈ piece, p c = false := by
  induction cs generalizing piece with
  | nil =>
    obtain rfl : piece = [] := by simpa using h
    simp
  | cons c cs ih =>
    rw [List.splitOnP_cons_eq_if_modifyHead] at h
    split at h
    · rcases List.mem_cons.mp h with rfl | h
      · simp
      · exact ih h
    · rename_i hc
      cases hrest : cs.splitOnP p with
      | nil => exact absurd hrest (List.splitOnP_ne_nil p cs)
      | cons first rest =>
        rw [hrest] at h ih
        rcases List.mem_cons.mp h with rfl | h
        · intro d hd
          rcases List.mem_cons.mp hd with rfl | hd
          · simpa using hc
          · exact ih (List.mem_cons_self ..) d hd
        · exact ih (List.mem_cons_of_mem _ h)

/-! ## What ignores it -/

/-- What ignores one more character of white space at either end ignores all of them. -/
theorem apply_trimChars {β : Type} {g : List Char → β}
    (hcons : ∀ c s, isWhiteSpace c = true → g (c :: s) = g s)
    (happend : ∀ c s, isWhiteSpace c = true → g (s ++ [c]) = g s) (s : List Char) :
    g (trimChars s) = g s := by
  obtain ⟨front, back, hfront, hback, hs⟩ := exists_trimChars s
  have hdropBack : ∀ t back : List Char, (∀ c ∈ back, isWhiteSpace c = true) →
      g (t ++ back) = g t := by
    intro t back hback
    induction back using List.reverseRecOn with
    | nil => rw [List.append_nil]
    | append_singleton back c ih =>
      rw [← List.append_assoc, happend c _ (hback c (by simp)),
        ih fun d hd => hback d (List.mem_append_left _ hd)]
  have hdropFront : ∀ t front : List Char, (∀ c ∈ front, isWhiteSpace c = true) →
      g (front ++ t) = g t := by
    intro t front hfront
    induction front with
    | nil => rfl
    | cons c front ih =>
      rw [List.cons_append, hcons c _ (hfront c List.mem_cons_self),
        ih fun d hd => hfront d (List.mem_cons_of_mem _ hd)]
  conv => rhs; rw [hs]
  rw [hdropBack _ _ hback, hdropFront _ _ hfront]

/-- What is made of a line does not depend on the white space around it, and of a blank line
nothing is made. -/
structure IgnoresSpace (f : List Char → List Char) : Prop where
  nil : f [] = []
  cons : ∀ c s, isWhiteSpace c = true → f (c :: s) = f s
  append : ∀ c s, isWhiteSpace c = true → f (s ++ [c]) = f s

theorem ignoresSpace_trimChars : IgnoresSpace trimChars where
  nil := rfl
  cons _ s hc := trimChars_cons hc s
  append _ s hc := trimChars_append hc s

/-- What is made of the lines, where it is something. -/
def made (f : List Char → List Char) (lines : List (List Char)) : List (List Char) :=
  (lines.map f).filter (· ≠ [])

section Made

variable {f : List Char → List Char}

theorem made_cons (line : List Char) (lines : List (List Char)) :
    made f (line :: lines) = (if f line = [] then [] else [f line]) ++ made f lines := by
  unfold made
  rw [List.map_cons, List.filter_cons]
  by_cases h : f line = [] <;> simp [h]

theorem made_append (lines lines' : List (List Char)) :
    made f (lines ++ lines') = made f lines ++ made f lines' := by
  unfold made
  rw [List.map_append, List.filter_append]

variable (hf : IgnoresSpace f)
include hf

theorem made_linesOf (pieces : List (List Char)) : made f (linesOf pieces) = made f pieces := by
  have hreturn : ∀ line : List Char,
      f (if line.getLast? = some '\r' then line.dropLast else line) = f line := by
    intro line
    split
    · rename_i hlast
      obtain ⟨front, rfl⟩ := List.getLast?_eq_some_iff.mp hlast
      rw [List.dropLast_concat, hf.append _ _ (by decide)]
    · rfl
  fun_induction linesOf pieces with
  | case1 => rfl
  | case2 => simp [made, hf.nil]
  | case3 => rfl
  | case4 line lines _ ih => rw [made_cons, made_cons, ih, hreturn]

/-- The lines make what the pieces between line feeds do. -/
theorem made_lines (s : List Char) : made f (lines s) = made f (s.splitOn '\n') :=
  made_linesOf hf _

theorem made_splitOn_cons {c : Char} (hc : isWhiteSpace c = true) (s : List Char) :
    made f ((c :: s).splitOn '\n') = made f (s.splitOn '\n') := by
  rw [List.splitOn_cons_eq_if_modifyHead]
  split
  · rw [made_cons, if_pos hf.nil, List.nil_append]
  · cases s.splitOn '\n' with
    | nil => rfl
    | cons line lines =>
      rw [List.modifyHead_cons, made_cons, made_cons, hf.cons c line hc]

theorem made_splitOn_append {c : Char} (hc : isWhiteSpace c = true) (s : List Char) :
    made f ((s ++ [c]).splitOn '\n') = made f (s.splitOn '\n') := by
  by_cases hfeed : c = '\n'
  · subst hfeed
    rw [List.splitOn_append_cons_self, made_append]
    have hlast : made f (List.splitOn '\n' []) = [] := by simp [made, hf.nil]
    rw [hlast, List.append_nil]
  · -- only the piece after the last line feed has one more character
    induction hn : s.length using Nat.strong_induction_on generalizing s with
    | h n ih =>
      by_cases hmem : '\n' ∈ s
      · obtain ⟨a, b, rfl, ha⟩ := List.eq_append_cons_of_mem hmem
        have hlt : b.length < n := by
          rw [← hn, List.length_append, List.length_cons]
          omega
        rw [List.append_assoc, List.cons_append, List.splitOn_append_cons_self_of_not_mem ha,
          List.splitOn_append_cons_self_of_not_mem ha, made_cons, made_cons, ih _ hlt b rfl]
      · have hmem' : '\n' ∉ s ++ [c] := by simp [hmem, Ne.symm hfeed]
        rw [List.splitOn_eq_singleton hmem, List.splitOn_eq_singleton hmem', made_cons, made_cons,
          hf.append c s hc]

/-- The pieces of the trimmed text make what those of the text do. -/
theorem made_splitOn_trimChars (s : List Char) :
    made f ((trimChars s).splitOn '\n') = made f (s.splitOn '\n') :=
  apply_trimChars (g := fun s => made f (s.splitOn '\n'))
    (fun _ _ hc => made_splitOn_cons hf hc _) (fun _ _ hc => made_splitOn_append hf hc _) s

end Made

/-! ## The parts between separators -/

section Parts

variable {sep : Char} (hsep : isWhiteSpace sep = false)

include hsep

theorem map_trimChars_splitOn_cons {c : Char} (hc : isWhiteSpace c = true) (s : List Char) :
    ((c :: s).splitOn sep).map trimChars = (s.splitOn sep).map trimChars := by
  have hne : ¬(c = sep) := by
    rintro rfl
    rw [hsep] at hc
    cases hc
  rw [List.splitOn_cons_eq_if_modifyHead, if_neg (by simpa using hne)]
  cases s.splitOn sep with
  | nil => rfl
  | cons part parts =>
    rw [List.modifyHead_cons, List.map_cons, List.map_cons, trimChars_cons hc]

theorem map_trimChars_splitOn_append {c : Char} (hc : isWhiteSpace c = true) (s : List Char) :
    ((s ++ [c]).splitOn sep).map trimChars = (s.splitOn sep).map trimChars := by
  have hne : sep ≠ c := by
    rintro rfl
    rw [hsep] at hc
    cases hc
  induction hn : s.length using Nat.strong_induction_on generalizing s with
  | h n ih =>
    by_cases hmem : sep ∈ s
    · obtain ⟨a, b, rfl, ha⟩ := List.eq_append_cons_of_mem hmem
      have hlt : b.length < n := by
        rw [← hn, List.length_append, List.length_cons]
        omega
      rw [List.append_assoc, List.cons_append, List.splitOn_append_cons_self_of_not_mem ha,
        List.splitOn_append_cons_self_of_not_mem ha, List.map_cons, List.map_cons, ih _ hlt b rfl]
    · have hmem' : sep ∉ s ++ [c] := by simp [hmem, hne]
      rw [List.splitOn_eq_singleton hmem, List.splitOn_eq_singleton hmem', List.map_singleton,
        List.map_singleton, trimChars_append hc]

/-- Trimmed, the parts of the trimmed text are those of the text. -/
theorem map_trimChars_splitOn (s : List Char) :
    ((trimChars s).splitOn sep).map trimChars = (s.splitOn sep).map trimChars :=
  apply_trimChars (g := fun s => (s.splitOn sep).map trimChars)
    (fun _ _ hc => map_trimChars_splitOn_cons hsep hc _)
    (fun _ _ hc => map_trimChars_splitOn_append hsep hc _) s

end Parts

end Text
