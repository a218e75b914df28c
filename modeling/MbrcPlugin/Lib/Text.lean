import Mathlib.Data.List.DropRight
import Mathlib.Data.String.Basic

/-!
# Text

White space and control characters as Unicode has them, text without the white space around it, what
follows a fixed beginning, a text cut at a character, its lines, and the bytes of a text.
-/

namespace Text

/-- The characters with the property `White_Space`. -/
def isWhiteSpace (c : Char) : Bool :=
  let n := c.toNat
  (9 ≤ n && n ≤ 13) || n = 0x20 || n = 0x85 || n = 0xA0 || n = 0x1680 ||
    (0x2000 ≤ n && n ≤ 0x200A) || n = 0x2028 || n = 0x2029 || n = 0x202F || n = 0x205F ||
    n = 0x3000

def trimStart (s : List Char) : List Char := s.dropWhile isWhiteSpace

/-- Without the white space at both ends. -/
def trim (s : String) : String :=
  String.ofList (trimStart (trimStart s.toList).reverse).reverse

theorem trimStart_trimStart (s : List Char) : trimStart (trimStart s) = trimStart s :=
  List.dropWhile_idempotent _ _

/-- Nothing is left to trim at the start of what was trimmed at the end. -/
theorem trimStart_reverse {s : List Char} (h : trimStart s = s) :
    trimStart (trimStart s.reverse).reverse = (trimStart s.reverse).reverse := by
  obtain ⟨space, hspace⟩ := List.dropWhile_suffix (l := s.reverse) isWhiteSpace
  have hs : (trimStart s.reverse).reverse ++ space.reverse = s := by
    rw [← List.reverse_append]
    exact (congrArg List.reverse hspace).trans s.reverse_reverse
  cases hkept : (trimStart s.reverse).reverse with
  | nil => rfl
  | cons c rest =>
    rw [hkept] at hs
    have hc : isWhiteSpace c = false := by
      by_contra hc
      rw [← hs, List.cons_append, trimStart, List.dropWhile_cons_of_pos (by simpa using hc)] at h
      have := congrArg List.length h
      have hle := (List.dropWhile_sublist isWhiteSpace (l := rest ++ space.reverse)).length_le
      rw [List.length_cons] at this
      omega
    exact List.dropWhile_cons_of_neg (by simp [hc])

theorem trim_trim (s : String) : trim (trim s) = trim s := by
  have hstart := trimStart_reverse (trimStart_trimStart s.toList)
  simp only [trim, String.toList_ofList]
  rw [hstart, List.reverse_reverse, trimStart_trimStart]

/-- `trim`, on the characters. -/
def trimChars (s : List Char) : List Char := (trimStart (trimStart s).reverse).reverse

theorem trim_eq (s : String) : trim s = String.ofList (trimChars s.toList) := rfl

theorem mem_trimStart {c : Char} (hc : isWhiteSpace c = false) {s : List Char} (h : c ∈ s) :
    c ∈ trimStart s := by
  rw [← List.takeWhile_append_dropWhile (p := isWhiteSpace) (l := s)] at h
  refine (List.mem_append.mp h).resolve_left fun hmem => ?_
  rw [List.mem_takeWhile_imp hmem] at hc
  cases hc

/-- Only white space is lost. -/
theorem mem_trimChars {c : Char} (hc : isWhiteSpace c = false) {s : List Char} (h : c ∈ s) :
    c ∈ trimChars s := by
  rw [trimChars, List.mem_reverse]
  exact mem_trimStart hc (List.mem_reverse.mpr (mem_trimStart hc h))

/-- The characters of the category `Cc`. -/
def isControl (c : Char) : Bool := c.toNat ≤ 0x1F || (0x7F ≤ c.toNat && c.toNat ≤ 0x9F)

/-- The characters that show, up to a bound. -/
def clamp (bound : Nat) (s : String) : List Char :=
  ((trim s).toList.filter fun c => !isControl c).take bound

/-- What follows a beginning. -/
def after (start s : String) : Option String :=
  if start.toList.isPrefixOf s.toList then some (String.ofList (s.toList.drop start.length))
  else none

theorem after_eq_some {start s rest : String} : after start s = some rest ↔ s = start ++ rest := by
  unfold after
  constructor
  · intro h
    split at h
    · rename_i hstart
      obtain ⟨l, hl⟩ := List.isPrefixOf_iff_prefix.mp hstart
      obtain rfl := Option.some.inj h
      rw [← hl, ← String.length_toList, List.drop_left, ← String.toList_inj, String.toList_append,
        String.toList_ofList, hl]
    · simp at h
  · rintro rfl
    rw [if_pos (List.isPrefixOf_iff_prefix.mpr (by simp)), String.toList_append,
      ← String.length_toList, List.drop_left, String.ofList_toList]

/-! ## Cutting a text -/

/-- `split_once` at a character. -/
def splitOnce (c : Char) (s : List Char) : Option (List Char × List Char) :=
  match s.dropWhile (· ≠ c) with
  | [] => none
  | _ :: rest => some (s.takeWhile (· ≠ c), rest)

theorem splitOnce_append {c : Char} {s : List Char} (h : c ∉ s) (rest : List Char) :
    splitOnce c (s ++ c :: rest) = some (s, rest) := by
  have hall : ∀ d ∈ s, (decide (d ≠ c)) = true := by
    intro d hd
    rw [decide_eq_true_eq]
    rintro rfl
    exact h hd
  unfold splitOnce
  rw [List.dropWhile_append_of_pos hall, List.takeWhile_append_of_pos hall]
  simp

theorem splitOnce_eq_some {c : Char} {s a b : List Char} :
    splitOnce c s = some (a, b) ↔ s = a ++ c :: b ∧ c ∉ a := by
  constructor
  · intro h
    have hsplit := List.takeWhile_append_dropWhile (p := (· ≠ c)) (l := s)
    have hhead := List.head?_dropWhile_not (· ≠ c) s
    unfold splitOnce at h
    split at h
    case h_1 => cases h
    case h_2 d rest hrest =>
      obtain ⟨rfl, rfl⟩ := Prod.mk.inj (Option.some.inj h)
      rw [hrest] at hhead hsplit
      obtain rfl : d = c := by simpa using hhead
      exact ⟨hsplit.symm, fun hmem => by simpa using List.mem_takeWhile_imp hmem⟩
  · rintro ⟨rfl, h⟩
    exact splitOnce_append h b

theorem splitOnce_eq_none {c : Char} {s : List Char} : splitOnce c s = none ↔ c ∉ s := by
  constructor
  · intro h hmem
    obtain ⟨a, b, rfl, hc⟩ := List.eq_append_cons_of_mem hmem
    rw [splitOnce_append hc] at h
    cases h
  · intro h
    cases hsplit : splitOnce c s with
    | none => rfl
    | some p =>
      obtain ⟨rfl, -⟩ := splitOnce_eq_some.mp hsplit
      exact absurd (by simp) h

/-- The lines of the pieces between line feeds: a carriage return goes with the line feed, and
nothing after the last line feed is no line. -/
def linesOf : List (List Char) → List (List Char)
  | [] => []
  | [last] => if last = [] then [] else [last]
  | line :: lines => (if line.getLast? = some '\r' then line.dropLast else line) :: linesOf lines

/-- `str::lines`. -/
def lines (s : List Char) : List (List Char) := linesOf (s.splitOn '\n')

/-- UTF-8. -/
def bytes (s : String) : List UInt8 := s.toByteArray.data.toList

/-- The text of bytes that are UTF-8. -/
def ofBytes (b : List UInt8) : Option String := String.fromUTF8? ⟨b.toArray⟩

@[simp] theorem ofBytes_bytes (s : String) : ofBytes (bytes s) = some s := by
  unfold ofBytes bytes String.fromUTF8?
  simp only [Array.toArray_toList, Option.dite_none_right_eq_some]
  exact ⟨s.isValidUTF8, rfl⟩

theorem bytes_of_ofBytes {b : List UInt8} {s : String} (h : ofBytes b = some s) : bytes s = b := by
  unfold ofBytes String.fromUTF8? at h
  split at h
  · obtain rfl := Option.some.inj h
    rfl
  · cases h

end Text
