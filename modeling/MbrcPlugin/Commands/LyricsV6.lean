import MbrcPlugin.Lib.Text
import MbrcPlugin.Protocol.Json
import Mathlib.Data.Option.Basic

/-!
# Lyrics for V6 clients

`parse_lyrics`: a text with or without LRC tags as lines with or without a time.  A line begins with
any number of time tags, of which the first one is its time; what `tagsOf` lists is all of them.
-/

namespace Mbrc.LyricsV6

open Text

/-! ## Time tags -/

/-- What an `i64` operation gives, nothing where it overflows. -/
def checkedI64 (i : Int) : Option Int := if -2 ^ 63 ≤ i ∧ i < 2 ^ 63 then some i else none

/-- The fraction of a second in milliseconds, of which three digits count. -/
def fractionMs (frac : List Char) : Option Int :=
  if frac = [] then some 0
  else
    let digits := (frac.takeWhile Char.isDigit).take 3
    if digits = [] then none
    else (parseI64 (String.ofList digits)).map fun val =>
      match digits.length with
      | 1 => val * 100
      | 2 => val * 10
      | _ => val

def isSeparator (c : Char) : Bool := c = '.' || c = ':'

/-- The seconds, the part before the first separator. -/
def lrcSeconds (rest : List Char) : Option Int :=
  (parseI64 (trim (String.ofList (rest.takeWhile (!isSeparator ·))))).filter
    fun seconds => 0 ≤ seconds ∧ seconds < 60

def totalMs (minutes seconds fracMs : Int) : Option Int := do
  let whole ← checkedI64 (minutes * 60)
  let whole ← checkedI64 (whole + seconds)
  let ms ← checkedI64 (whole * 1000)
  checkedI64 (ms + fracMs)

/-- `mm:ss`, `mm:ss.xx` or `mm:ss.xxx` in milliseconds. -/
def lrcTimeMs (tag : List Char) : Option Int := do
  let (mm, rest) ← splitOnce ':' tag
  let minutes ← (parseI64 (trim (String.ofList mm))).filter (0 ≤ ·)
  let seconds ← lrcSeconds rest
  let fracMs ← fractionMs ((rest.dropWhile (!isSeparator ·)).drop 1)
  totalMs minutes seconds fracMs

/-- The time tag a text begins with, and what follows it. -/
def frontTag : List Char → Option (Int × List Char)
  | '[' :: stripped => do
    let (tag, rest) ← splitOnce ']' stripped
    let ms ← lrcTimeMs tag
    return (ms, trimStart rest)
  | _ => none

theorem frontTag_eq_some {s after : List Char} {ms : Int} : frontTag s = some (ms, after) ↔
    ∃ tag rest, s = '[' :: (tag ++ ']' :: rest) ∧ ']' ∉ tag ∧ lrcTimeMs tag = some ms ∧
      trimStart rest = after := by
  constructor
  · intro h
    unfold frontTag at h
    split at h
    case h_2 => cases h
    case h_1 stripped =>
      simp only [Option.bind_eq_bind, Option.bind_eq_some_iff] at h
      obtain ⟨⟨tag, rest⟩, hsplit, ms', hms, heq⟩ := h
      obtain ⟨rfl, hmem⟩ := splitOnce_eq_some.mp hsplit
      obtain ⟨rfl, rfl⟩ := Prod.mk.inj (Option.some.inj heq)
      exact ⟨tag, rest, rfl, hmem, hms, rfl⟩
  · rintro ⟨tag, rest, rfl, hmem, hms, rfl⟩
    rw [frontTag, splitOnce_append hmem, Option.bind_eq_bind, Option.bind_some]
    dsimp only
    rw [hms]
    rfl

theorem frontTag_length {rest after : List Char} {ms : Int}
    (h : frontTag rest = some (ms, after)) : after.length < rest.length := by
  obtain ⟨tag, inner, rfl, -, -, rfl⟩ := frontTag_eq_some.mp h
  have hle : (trimStart inner).length ≤ inner.length := (List.dropWhile_sublist _).length_le
  simp only [List.length_cons, List.length_append]
  omega

/-! ## The tags as they are written -/

/-- A number in digits. -/
structure Digits where
  chars : List Char
  isDigit : ∀ c ∈ chars, c.isDigit = true
  ne_nil : chars ≠ []

namespace Digits

def value (d : Digits) : Nat := d.chars.foldl (fun n c => 10 * n + (c.toNat - '0'.toNat)) 0

theorem parseDigits_chars (d : Digits) : parseDigits d.chars = some d.value := by
  rw [parseDigits, if_pos ⟨d.ne_nil, List.all_eq_true.mpr d.isDigit⟩]
  rfl

theorem not_mem (d : Digits) {c : Char} (hc : c.isDigit = false) : c ∉ d.chars := by
  intro h
  rw [d.isDigit c h] at hc
  cases hc

theorem isWhiteSpace_eq {c : Char} (h : c.isDigit = true) : isWhiteSpace c = false := by
  have hrange : 48 ≤ c.toNat ∧ c.toNat ≤ 57 := by
    have : 48 ≤ c.val ∧ c.val ≤ 57 := by simpa [Char.isDigit] using h
    exact this
  unfold isWhiteSpace
  simp only [Bool.or_eq_false_iff, Bool.and_eq_false_iff, decide_eq_false_iff_not]
  omega

theorem trimChars_chars (d : Digits) : trimChars d.chars = d.chars := by
  have hstart : ∀ cs : List Char, (∀ c ∈ cs, c.isDigit = true) → trimStart cs = cs := by
    intro cs hcs
    cases cs with
    | nil => rfl
    | cons c cs =>
      rw [trimStart, List.dropWhile_cons_of_neg]
      simp [isWhiteSpace_eq (hcs c List.mem_cons_self)]
  rw [trimChars, hstart _ d.isDigit, hstart _ fun c hc => d.isDigit c (List.mem_reverse.mp hc),
    List.reverse_reverse]

/-- Without a sign the digits are the number. -/
theorem parseI64_ofList {cs : List Char} (hminus : ∀ rest, cs ≠ '-' :: rest)
    (hplus : ∀ rest, cs ≠ '+' :: rest) : parseI64 (String.ofList cs) =
      ((parseDigits cs).map fun n : Nat => (n : Int)).bind fun i =>
        (guard (-2 ^ 63 ≤ i ∧ i < 2 ^ 63) : Option Unit).bind fun _ => some i := by
  unfold parseI64
  rw [String.toList_ofList]
  split
  · exact absurd rfl (hminus _)
  · exact absurd rfl (hplus _)
  · cases parseDigits cs <;> rfl

theorem guard_i64 {i : Int} (h0 : 0 ≤ i) (h : i < 2 ^ 63) :
    (guard (-2 ^ 63 ≤ i ∧ i < 2 ^ 63) : Option Unit) = some () := by
  have hrange : -2 ^ 63 ≤ i ∧ i < 2 ^ 63 := by omega
  exact if_pos hrange

/-- A number is read as what it is. -/
theorem parseI64_chars {d : Digits} (h : d.value < 2 ^ 63) :
    parseI64 (String.ofList d.chars) = some (d.value : Int) := by
  have hsign : ∀ c, c.isDigit = false → ∀ rest, d.chars ≠ c :: rest := by
    intro c hc rest heq
    exact d.not_mem hc (by rw [heq]; exact List.mem_cons_self)
  rw [parseI64_ofList (hsign '-' (by decide)) (hsign '+' (by decide)), parseDigits_chars,
    Option.map_some, Option.bind_some, guard_i64 (by omega) (by omega)]
  rfl

theorem trim_chars (d : Digits) : trim (String.ofList d.chars) = String.ofList d.chars := by
  rw [trim_eq, String.toList_ofList, trimChars_chars]

end Digits

/-- A well-formed time tag: `mm:ss`, or `mm:ss.xx` and `mm:ss.xxx` with a fraction. -/
structure Stamp where
  minutes : Digits
  seconds : Digits
  fraction : Option Digits
  seconds_lt : seconds.value < 60
  fraction_length : ∀ frac ∈ fraction, frac.chars.length = 2 ∨ frac.chars.length = 3

namespace Stamp

/-- What stands between the brackets. -/
def afterColon (t : Stamp) : List Char :=
  t.seconds.chars ++ match t.fraction with
    | none => []
    | some frac => '.' :: frac.chars

def text (t : Stamp) : List Char := t.minutes.chars ++ ':' :: t.afterColon

def fractionPart (t : Stamp) : Nat :=
  match t.fraction with
  | none => 0
  | some frac => if frac.chars.length = 2 then frac.value * 10 else frac.value

/-- The time it says, in milliseconds. -/
def ms (t : Stamp) : Nat := (t.minutes.value * 60 + t.seconds.value) * 1000 + t.fractionPart

theorem isSeparator_digit {c : Char} (h : c.isDigit = true) : (!isSeparator c) = true := by
  unfold isSeparator
  rw [Bool.not_eq_true', Bool.or_eq_false_iff, decide_eq_false_iff_not, decide_eq_false_iff_not]
  refine ⟨?_, ?_⟩ <;>
  · rintro rfl
    exact absurd h (by decide)

theorem lrcSeconds_afterColon (t : Stamp) :
    lrcSeconds t.afterColon = some (t.seconds.value : Int) := by
  have hsec : t.afterColon.takeWhile (!isSeparator ·) = t.seconds.chars := by
    unfold afterColon
    rw [List.takeWhile_append_of_pos fun c hc => isSeparator_digit (t.seconds.isDigit c hc)]
    cases t.fraction <;> simp [isSeparator]
  have hlt := t.seconds_lt
  rw [lrcSeconds, hsec, t.seconds.trim_chars, Digits.parseI64_chars (by omega), Option.filter_some,
    if_pos (decide_eq_true (by omega))]

theorem fractionMs_afterColon {t : Stamp} (h : t.ms < 2 ^ 63) :
    fractionMs ((t.afterColon.dropWhile (!isSeparator ·)).drop 1) =
      some (t.fractionPart : Int) := by
  have hms : t.ms = (t.minutes.value * 60 + t.seconds.value) * 1000 + t.fractionPart := rfl
  unfold afterColon
  rw [List.dropWhile_append_of_pos fun c hc => isSeparator_digit (t.seconds.isDigit c hc)]
  unfold fractionPart at hms ⊢
  cases hfraction : t.fraction with
  | none => rfl
  | some frac =>
    rw [hfraction] at hms
    have hlength := t.fraction_length frac hfraction
    have hdrop : (('.' :: frac.chars).dropWhile (!isSeparator ·)).drop 1 = frac.chars := by
      simp [isSeparator]
    have htake : (frac.chars.takeWhile Char.isDigit).take 3 = frac.chars := by
      rw [List.takeWhile_eq_self_iff.mpr frac.isDigit, List.take_of_length_le (by omega)]
    have hvalue : frac.value < 2 ^ 63 := by
      simp only at hms
      split at hms <;> omega
    rw [hdrop]
    unfold fractionMs
    rw [if_neg frac.ne_nil]
    simp only [htake, if_neg frac.ne_nil, Digits.parseI64_chars hvalue, Option.map_some]
    rcases hlength with htwo | hthree
    · simp [htwo]
    · simp [hthree]

end Stamp

theorem checkedI64_of_lt {i : Int} (h0 : 0 ≤ i) (h : i < 2 ^ 63) : checkedI64 i = some i := by
  rw [checkedI64, if_pos (by omega)]

theorem totalMs_of_lt {minutes seconds fracMs : Int} (hm : 0 ≤ minutes) (hs : 0 ≤ seconds)
    (hf : 0 ≤ fracMs) (h : (minutes * 60 + seconds) * 1000 + fracMs < 2 ^ 63) :
    totalMs minutes seconds fracMs = some ((minutes * 60 + seconds) * 1000 + fracMs) := by
  rw [totalMs, checkedI64_of_lt (by omega) (by omega), Option.bind_eq_bind, Option.bind_some,
    checkedI64_of_lt (by omega) (by omega), Option.bind_some,
    checkedI64_of_lt (by omega) (by omega), Option.bind_some, checkedI64_of_lt (by omega) h]

/-- **A well-formed tag is read as the time it says.** -/
theorem lrcTimeMs_text {t : Stamp} (h : t.ms < 2 ^ 63) : lrcTimeMs t.text = some (t.ms : Int) := by
  have hms : t.ms = (t.minutes.value * 60 + t.seconds.value) * 1000 + t.fractionPart := rfl
  have hsplit : splitOnce ':' t.text = some (t.minutes.chars, t.afterColon) :=
    splitOnce_append (t.minutes.not_mem (by decide)) _
  have hm : (parseI64 (trim (String.ofList t.minutes.chars))).filter (0 ≤ ·) =
      some (t.minutes.value : Int) := by
    rw [t.minutes.trim_chars, Digits.parseI64_chars (by omega), Option.filter_some,
      if_pos (by simp)]
  rw [lrcTimeMs, hsplit, Option.bind_eq_bind, Option.bind_some]
  dsimp only
  rw [hm, Option.bind_eq_bind, Option.bind_some, t.lrcSeconds_afterColon, Option.bind_some,
    Stamp.fractionMs_afterColon h, Option.bind_some,
    totalMs_of_lt (by omega) (by omega) (by omega) (by omega), Option.some.injEq]
  omega

/-- The first tag's time is kept, all tags are taken off. -/
def stripTags (first : Option Int) (rest : List Char) : Option Int × List Char :=
  match _h : frontTag rest with
  | some (ms, after) => stripTags (first.or (some ms)) after
  | none => (first, rest)
termination_by rest.length
decreasing_by exact frontTag_length _h

theorem stripTags_tag {s after : List Char} {ms : Int} (h : frontTag s = some (ms, after))
    (first : Option Int) : stripTags first s = stripTags (first.or (some ms)) after := by
  rw [stripTags]
  split
  · rename_i heq
    obtain ⟨rfl, rfl⟩ := Prod.mk.inj (Option.some.inj (h.symm.trans heq))
    rfl
  · rename_i heq
    rw [h] at heq
    cases heq

theorem stripTags_of_none {s : List Char} (h : frontTag s = none) (first : Option Int) :
    stripTags first s = (first, s) := by
  rw [stripTags]
  split
  · rename_i heq
    rw [h] at heq
    cases heq
  · rfl

def stripLrcPrefix (line : List Char) : Option Int × List Char :=
  let (first, rest) := stripTags none (trimStart line)
  (first, trimChars rest)

/-! ## Lines -/

def metadataKeys : List String :=
  ["ti", "ar", "al", "au", "by", "re", "ve", "offset", "length", "la", "lang", "tool", "id"]

/-- A whole line `[ti:Song]`. -/
def isMetadataTag : List Char → Bool
  | '[' :: rest =>
    match rest.getLast?, splitOnce ':' rest.dropLast with
    | some ']', some (key, _) => asciiLower (trim (String.ofList key)) ∈ metadataKeys
    | _, _ => false
  | _ => false

inductive LyricsType where
  | none | plain | synced
  deriving DecidableEq

structure LyricLine where
  text : String
  atMs : Option Int
  deriving DecidableEq

structure Lyrics where
  type : LyricsType
  lines : List LyricLine := []
  deriving DecidableEq

/-- Empty lines and metadata are skipped, unless they have a time. -/
def lyricLine (line : List Char) : Option LyricLine :=
  let (atMs, content) := stripLrcPrefix line
  if atMs.isNone && (content = [] || isMetadataTag content) then none
  else some { text := String.ofList content, atMs }

def parseLyrics (raw : String) : Lyrics :=
  let text := trim raw
  if text = "" then { type := .none }
  else
    let anySynced := (Text.lines text.toList).any fun line => (stripLrcPrefix line).1.isSome
    let lines := (Text.lines text.toList).filterMap lyricLine
    if lines = [] then { type := .none }
    else { type := if anySynced then .synced else .plain, lines }

theorem lines_empty : Text.lines "".toList = [] := by simp [Text.lines, Text.linesOf]

theorem parseLyrics_lines (raw : String) :
    (parseLyrics raw).lines = (Text.lines (Text.trim raw).toList).filterMap lyricLine := by
  unfold parseLyrics
  by_cases hempty : Text.trim raw = ""
  · rw [if_pos hempty, hempty, lines_empty]
    rfl
  · rw [if_neg hempty]
    dsimp only
    by_cases hnil : (Text.lines (Text.trim raw).toList).filterMap lyricLine = []
    · rw [if_pos hnil, hnil]
    · rw [if_neg hnil]

example : parseLyrics "[00:01.50] one\n[ti:x]\n[00:02][00:09]two" =
    { type := .synced, lines := [⟨"one", some 1500⟩, ⟨"two", some 2000⟩] } := by decide +kernel

/-! ## All the tags of a line -/

/-- The times a text begins with. -/
def times (rest : List Char) : List Int :=
  match _h : frontTag rest with
  | some (ms, after) => ms :: times after
  | none => []
termination_by rest.length
decreasing_by exact frontTag_length _h

def tagsOf (line : List Char) : List Int := times (trimStart line)

/-- A line with tags in front of its words. -/
def tagged (stamps : List Stamp) (words : List Char) : List Char :=
  stamps.foldr (fun t rest => '[' :: (t.text ++ ']' :: rest)) words

theorem Stamp.not_mem_text (t : Stamp) : ']' ∉ t.text := by
  have hm := t.minutes.not_mem (c := ']') (by decide)
  have hs := t.seconds.not_mem (c := ']') (by decide)
  unfold Stamp.text Stamp.afterColon
  cases t.fraction with
  | none => simp [hm, hs]
  | some frac =>
    have hf := frac.not_mem (c := ']') (by decide)
    simp [hm, hs, hf]

theorem frontTag_tagged {t : Stamp} (h : t.ms < 2 ^ 63) (rest : List Char) :
    frontTag ('[' :: (t.text ++ ']' :: rest)) = some ((t.ms : Int), trimStart rest) :=
  frontTag_eq_some.mpr ⟨t.text, rest, rfl, t.not_mem_text, lrcTimeMs_text h, rfl⟩

/-- **The tags of a line are the ones it is written with.** -/
theorem tagsOf_tagged {stamps : List Stamp} (h : ∀ t ∈ stamps, t.ms < 2 ^ 63) {words : List Char}
    (hwords : frontTag (trimStart words) = none) :
    tagsOf (tagged stamps words) = stamps.map fun t => (t.ms : Int) := by
  induction stamps with
  | nil =>
    rw [tagged, List.foldr_nil, tagsOf, times, hwords]
    rfl
  | cons t stamps ih =>
    have hrest := ih fun u hu => h u (List.mem_cons_of_mem _ hu)
    have hstart : trimStart (tagged (t :: stamps) words) = tagged (t :: stamps) words := rfl
    rw [tagsOf, hstart, times, tagged, List.foldr_cons, frontTag_tagged (h t List.mem_cons_self)]
    exact congrArg _ hrest

theorem stripTags_fst (first : Option Int) (rest : List Char) :
    (stripTags first rest).1 = first.or (times rest).head? := by
  fun_induction stripTags first rest with
  | case1 first rest ms after h ih =>
    rw [times, h, ih]
    cases first <;> rfl
  | case2 first rest h =>
    rw [times, h]
    simp

/-- The time that is kept is the first one. -/
theorem stripLrcPrefix_fst (line : List Char) : (stripLrcPrefix line).1 = (tagsOf line).head? :=
  stripTags_fst none (trimStart line)

end Mbrc.LyricsV6
