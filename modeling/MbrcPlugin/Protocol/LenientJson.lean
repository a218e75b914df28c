import MbrcPlugin.Protocol.Json

/-!
# Lenient parsing

A V4 line is parsed as JSON, and where that fails once more with the escaped apostrophes of the iOS
client rewritten, and once more with a bare word in the place of `data` put in quotes.  The JSON
library is a parameter, of which it is asked only that it accepts no text that is not even made of
the tokens of JSON: outside of strings no backslash and no apostrophe, and in a string each
backslash before a character that JSON escapes.  The rewriting leaves such a text as it is, and
undoes the escaping of its apostrophes (`parse_lenient_repairs`).
-/

namespace Mbrc.LenientJson

/-! ## The repairs -/

/-- `sanitize_ios_quotes`. -/
def sanitizeQuotes : List Char → List Char
  | '\\' :: '\\' :: rest => '\\' :: '\\' :: sanitizeQuotes rest
  | '\\' :: '\x27' :: rest => '\x27' :: sanitizeQuotes rest
  | c :: rest => c :: sanitizeQuotes rest
  | [] => []

def sanitizeIosQuotes (line : String) : String := String.ofList (sanitizeQuotes line.toList)

/-- The text up to the end of the first occurrence of the key, and what follows it. -/
def splitAfter (key : List Char) : List Char → Option (List Char × List Char)
  | [] => if key = [] then some ([], []) else none
  | c :: rest =>
    if key.isPrefixOf (c :: rest) then some (key, (c :: rest).drop key.length)
    else (splitAfter key rest).map fun (before, after) => (c :: before, after)

def dataKey : List Char := "\"data\":".toList

def isWordChar (c : Char) : Bool := c.isAlphanum || c = '_'

/-- A value of JSON may start so. -/
def startsValue (c : Char) : Bool := c = '"' || c = '\x7b' || c = '[' || c = '-' || c.isDigit

/-- `sanitize_ios_bare_data`. -/
def sanitizeIosBareData (line : String) : Option String := do
  let (before, after) ← splitAfter dataKey line.toList
  let blank := after.takeWhile Text.isWhiteSpace
  let rest := after.dropWhile Text.isWhiteSpace
  let first ← rest.head?
  let token := rest.takeWhile isWordChar
  if startsValue first then none
  else if token = [] ∨ String.ofList token ∈ ["true", "false", "null"] then none
  else
    some (String.ofList (before ++ blank ++ '"' :: token ++ '"' :: rest.drop token.length))

example : sanitizeIosBareData "\x7b\"context\":\"position\",\"data\": status\x7d" =
    some "\x7b\"context\":\"position\",\"data\": \"status\"\x7d" := by
  decide +kernel

section

variable (parse : String → Option Value)

/-- `parse_lenient`. -/
def parseLenient (line : String) : Option Value :=
  match parse line with
  | some v => some v
  | none =>
    let quoted := sanitizeIosQuotes line
    match parse quoted with
    | some v => some v
    | none => (sanitizeIosBareData quoted).bind parse

end

/-! ## The tokens of JSON -/

/-- What may follow a backslash in a string. -/
def isEscape (c : Char) : Bool := c ∈ ['"', '\\', '/', 'b', 'f', 'n', 'r', 't', 'u']

/-- The text is made of tokens of JSON, read from outside or inside of a string. -/
def lexes : Bool → List Char → Bool
  | false, '"' :: rest => lexes true rest
  | false, c :: rest => c ≠ '\\' && c ≠ '\x27' && lexes false rest
  | false, [] => true
  | true, '"' :: rest => lexes false rest
  | true, '\\' :: c :: rest => isEscape c && lexes true rest
  | true, '\\' :: [] => false
  | true, _ :: rest => lexes true rest
  | true, [] => false

example (rest : List Char) : lexes true ('\\' :: 'n' :: rest) = lexes true rest := by
  simp [lexes, isEscape]

/-- A parser that accepts nothing but what is made of the tokens of JSON. -/
def Strict (parse : String → Option Value) : Prop :=
  ∀ line v, parse line = some v → lexes false line.toList = true

/-! ## What the rewriting does -/

/-- The client writes each apostrophe behind a backslash. -/
def escapeQuotes (s : List Char) : List Char :=
  s.flatMap fun c => if c = '\x27' then ['\\', '\x27'] else [c]

def escapeApostrophes (line : String) : String := String.ofList (escapeQuotes line.toList)

theorem isEscape_ne {c : Char} (h : isEscape c = true) : c ≠ '\x27' := by
  rintro rfl
  exact absurd h (by decide)

theorem sanitizeQuotes_cons {c : Char} (hc : c ≠ '\\') (rest : List Char) :
    sanitizeQuotes (c :: rest) = c :: sanitizeQuotes rest := by
  rw [sanitizeQuotes]
  · rintro _ rfl
    exact absurd rfl hc
  · rintro _ rfl
    exact absurd rfl hc

/-- An escape of JSON is kept, whatever follows it. -/
theorem sanitizeQuotes_escape {c : Char} (hc : c ≠ '\x27') (rest : List Char) :
    sanitizeQuotes ('\\' :: c :: rest) = '\\' :: c :: sanitizeQuotes rest := by
  by_cases hslash : c = '\\'
  · rw [hslash, sanitizeQuotes]
  · rw [sanitizeQuotes, sanitizeQuotes_cons hslash]
    · intro _ _ heq
      exact hslash (List.cons.inj heq).1
    · intro _ _ heq
      exact hc (List.cons.inj heq).1

@[simp] theorem escapeQuotes_cons (c : Char) (rest : List Char) :
    escapeQuotes (c :: rest) =
      (if c = '\x27' then ['\\', '\x27'] else [c]) ++ escapeQuotes rest := by
  rw [escapeQuotes, List.flatMap_cons, ← escapeQuotes]

theorem ne_backslash {c : Char} {rest : List Char}
    (hescape : ∀ d rest', c = '\\' → rest = d :: rest' → False)
    (hlast : c = '\\' → rest = [] → False) : c ≠ '\\' := by
  intro hc
  cases rest with
  | nil => exact hlast hc rfl
  | cons d rest => exact hescape d rest hc rfl

/-- **The repair harms nothing**: a text made of tokens stays as it is. -/
theorem sanitizeQuotes_of_lexes (inside : Bool) (s : List Char)
    (h : lexes inside s = true) : sanitizeQuotes s = s := by
  fun_induction lexes inside s with
  | case1 rest ih => rw [sanitizeQuotes_cons (by decide), ih h]
  | case2 c rest hquote ih =>
    simp only [Bool.and_eq_true, decide_eq_true_eq] at h
    rw [sanitizeQuotes_cons h.1.1, ih h.2]
  | case3 => rfl
  | case4 rest ih => rw [sanitizeQuotes_cons (by decide), ih h]
  | case5 c rest ih =>
    rw [Bool.and_eq_true] at h
    rw [sanitizeQuotes_escape (isEscape_ne h.1), ih h.2]
  | case6 => cases h
  | case7 c rest hquote hescape hlast ih =>
    rw [sanitizeQuotes_cons (ne_backslash hescape hlast), ih h]
  | case8 => cases h

/-- **The repair undoes the escaping** of every apostrophe, and nothing else. -/
theorem sanitizeQuotes_escapeQuotes (inside : Bool) (s : List Char)
    (h : lexes inside s = true) : sanitizeQuotes (escapeQuotes s) = s := by
  fun_induction lexes inside s with
  | case1 rest ih =>
    rw [escapeQuotes_cons, if_neg (by decide), List.singleton_append,
      sanitizeQuotes_cons (by decide), ih h]
  | case2 c rest hquote ih =>
    simp only [Bool.and_eq_true, decide_eq_true_eq] at h
    rw [escapeQuotes_cons, if_neg h.1.2, List.singleton_append, sanitizeQuotes_cons h.1.1, ih h.2]
  | case3 => rfl
  | case4 rest ih =>
    rw [escapeQuotes_cons, if_neg (by decide), List.singleton_append,
      sanitizeQuotes_cons (by decide), ih h]
  | case5 c rest ih =>
    rw [Bool.and_eq_true] at h
    have hc := isEscape_ne h.1
    rw [escapeQuotes_cons, if_neg (by decide), List.singleton_append, escapeQuotes_cons, if_neg hc,
      List.singleton_append, sanitizeQuotes_escape hc, ih h.2]
  | case6 => cases h
  | case7 c rest hquote hescape hlast ih =>
    rw [escapeQuotes_cons]
    split
    · rename_i hc
      show '\x27' :: sanitizeQuotes (escapeQuotes rest) = c :: rest
      rw [ih h, hc]
    · rw [List.singleton_append, sanitizeQuotes_cons (ne_backslash hescape hlast), ih h]
  | case8 => cases h

theorem lexes_outside_cons {c : Char} (hquote : c ≠ '"') (rest : List Char) :
    lexes false (c :: rest) = (c ≠ '\\' && c ≠ '\x27' && lexes false rest) := by
  rw [lexes]
  exact hquote

theorem lexes_inside_cons {c : Char} (hquote : c ≠ '"') (hslash : c ≠ '\\') (rest : List Char) :
    lexes true (c :: rest) = lexes true rest := by
  rw [lexes]
  · exact hquote
  · intro _ _ hc _
    exact hslash hc
  · intro hc _
    exact hslash hc

/-- An escaped apostrophe is no token of JSON. -/
theorem not_lexes_escapeQuotes (inside : Bool) (s : List Char)
    (h : lexes inside s = true) (hmem : '\x27' ∈ s) : lexes inside (escapeQuotes s) = false := by
  fun_induction lexes inside s with
  | case1 rest ih =>
    rw [escapeQuotes_cons, if_neg (by decide), List.singleton_append, lexes]
    exact ih h ((List.mem_cons.mp hmem).resolve_left (by decide))
  | case2 c rest hquote ih =>
    simp only [Bool.and_eq_true, decide_eq_true_eq] at h
    rw [escapeQuotes_cons, if_neg h.1.2, List.singleton_append, lexes_outside_cons hquote,
      ih h.2 ((List.mem_cons.mp hmem).resolve_left (Ne.symm h.1.2)), Bool.and_false]
  | case3 => cases hmem
  | case4 rest ih =>
    rw [escapeQuotes_cons, if_neg (by decide), List.singleton_append, lexes]
    exact ih h ((List.mem_cons.mp hmem).resolve_left (by decide))
  | case5 c rest ih =>
    rw [Bool.and_eq_true] at h
    have hc := isEscape_ne h.1
    have hrest : '\x27' ∈ rest := by
      simpa [Ne.symm hc] using hmem
    rw [escapeQuotes_cons, if_neg (by decide), List.singleton_append, escapeQuotes_cons, if_neg hc,
      List.singleton_append, lexes, ih h.2 hrest, Bool.and_false]
  | case6 => cases h
  | case7 c rest hquote hescape hlast ih =>
    rw [escapeQuotes_cons]
    split
    · rfl
    · rename_i hc
      rw [List.singleton_append, lexes_inside_cons hquote (ne_backslash hescape hlast)]
      exact ih h ((List.mem_cons.mp hmem).resolve_left (Ne.symm hc))
  | case8 => cases h

/-- Without an apostrophe there is nothing to escape. -/
theorem escapeQuotes_of_not_mem {s : List Char} (h : '\x27' ∉ s) : escapeQuotes s = s := by
  induction s with
  | nil => rfl
  | cons c s ih =>
    rw [List.mem_cons, not_or] at h
    rw [escapeQuotes_cons, if_neg (Ne.symm h.1), ih h.2, List.singleton_append]

/-! ## The result -/

/-- **Lenient parsing repairs without harming**: what is JSON is parsed as it is, and the repair
leaves it alone; the JSON whose apostrophes a client escaped is parsed as it was before. -/
theorem parse_lenient_repairs {parse : String → Option Value} (hstrict : Strict parse)
    {line : String} {v : Value} (hparse : parse line = some v) :
    parseLenient parse line = some v ∧ sanitizeIosQuotes line = line ∧
      parseLenient parse (escapeApostrophes line) = some v := by
  have hlexes := hstrict line v hparse
  refine ⟨by rw [parseLenient, hparse], ?_, ?_⟩
  · rw [sanitizeIosQuotes, sanitizeQuotes_of_lexes false _ hlexes, String.ofList_toList]
  · have hrepaired : sanitizeIosQuotes (escapeApostrophes line) = line := by
      rw [sanitizeIosQuotes, escapeApostrophes, String.toList_ofList,
        sanitizeQuotes_escapeQuotes false _ hlexes, String.ofList_toList]
    by_cases hmem : '\x27' ∈ line.toList
    · have hnone : parse (escapeApostrophes line) = none := by
        cases hescaped : parse (escapeApostrophes line) with
        | none => rfl
        | some w =>
          have hbad := hstrict _ w hescaped
          rw [escapeApostrophes, String.toList_ofList,
            not_lexes_escapeQuotes false _ hlexes hmem] at hbad
          cases hbad
      simp only [parseLenient, hnone, hrepaired, hparse]
    · have hsame : escapeApostrophes line = line := by
        rw [escapeApostrophes, escapeQuotes_of_not_mem hmem, String.ofList_toList]
      rw [hsame, parseLenient, hparse]

/-- A text with an escaped backslash before its apostrophe. -/
def quotedName : String := "\x7b\"data\":\"a\\\\\x27b\"\x7d"

/-- What JSON makes of it; nothing else is parsed. -/
def parseQuotedName (line : String) : Option Value :=
  if line = quotedName then some (.object [("data", .string "a\\\x27b")]) else none

theorem parse_lenient_repairs_name :
    parseLenient parseQuotedName "\x7b\"data\":\"a\\\\\\\x27b\"\x7d" =
      some (.object [("data", .string "a\\\x27b")]) := by
  have hstrict : Strict parseQuotedName := by
    intro line v h
    unfold parseQuotedName at h
    split at h
    · rename_i hline
      rw [hline]
      decide +kernel
    · cases h
  have hparse : parseQuotedName quotedName = some (.object [("data", .string "a\\\x27b")]) :=
    if_pos rfl
  have hescaped : escapeApostrophes quotedName = "\x7b\"data\":\"a\\\\\\\x27b\"\x7d" := by
    decide +kernel
  rw [← hescaped]
  exact (parse_lenient_repairs hstrict hparse).2.2

end Mbrc.LenientJson
