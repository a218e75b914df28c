import Mathlib.Algebra.Group.Int.Defs
import Mathlib.Data.Rat.Defs
import MbrcPlugin.Lib.Text

/-!
# JSON values

The values a request carries and the accessors the handlers read them with: the exact ones of the
JSON library, and the lenient ones V4 clients rely on, which coerce across types.
-/

namespace Mbrc

/-! ## Values -/

/-- A finite float, with its text in JSON and its plain decimal text. -/
structure Float64 where
  value : ℚ
  json : String
  display : String
  deriving DecidableEq

inductive Number where
  | posInt (n : UInt64)
  | negInt (n : Int64)
  | float (x : Float64)
  deriving DecidableEq

namespace Number

/-- The integer, where it is one in the range of `i64`. -/
def asI64 : Number → Option Int
  | posInt n => if n.toNat < 2 ^ 63 then some n.toNat else none
  | negInt n => some n.toInt
  | float _ => none

def asF64 : Number → ℚ
  | posInt n => n.toNat
  | negInt n => n.toInt
  | float x => x.value

/-- `Number::to_string`. -/
def text : Number → String
  | posInt n => toString n.toNat
  | negInt n => toString n.toInt
  | float x => x.json

end Number

inductive Value where
  | null
  | bool (b : Bool)
  | number (n : Number)
  | string (s : String)
  | array (items : List Value)
  | object (fields : List (String × Value))

namespace Value

/-- An integer of the code as a value. -/
def int (i : Int) : Value :=
  .number (if 0 ≤ i then .posInt (UInt64.ofNat i.toNat) else .negInt (Int64.ofInt i))

/-- A field of an object. -/
def get (v : Value) (key : String) : Option Value :=
  match v with
  | object fields => fields.lookup key
  | _ => none

def asStr : Value → Option String
  | string s => some s
  | _ => none

def asBool : Value → Option Bool
  | bool b => some b
  | _ => none

def asI64 : Value → Option Int
  | number n => n.asI64
  | _ => none

def asF64 : Value → Option ℚ
  | number n => some n.asF64
  | _ => none

def asArray : Value → Option (List Value)
  | array items => some items
  | _ => none

def isString (v : Value) : Bool := v.asStr.isSome

end Value

/-! ## Text as Rust reads it -/

def asciiLower (s : String) : String := String.ofList (s.toList.map Char.toLower)

theorem asciiLower_eq_empty {s : String} : asciiLower s = "" ↔ s = "" := by
  rw [← String.toList_inj, ← String.toList_inj, asciiLower, String.toList_ofList]
  simp

/-- The digits of a decimal number. -/
def parseDigits (digits : List Char) : Option Nat :=
  if digits ≠ [] ∧ digits.all Char.isDigit then
    some (digits.foldl (fun n c => 10 * n + (c.toNat - '0'.toNat)) 0)
  else none

/-- `str::parse::<i64>`. -/
def parseI64 (s : String) : Option Int := do
  let i ← match s.toList with
    | '-' :: digits => (parseDigits digits).map fun n => -(n : Int)
    | '+' :: digits => (parseDigits digits).map fun n => (n : Int)
    | digits => (parseDigits digits).map fun n => (n : Int)
  guard (-2 ^ 63 ≤ i ∧ i < 2 ^ 63)
  return i

/-- `v as i32`. -/
def toI32 (v : Int) : Int := v.bmod (2 ^ 32)

/-- `i32_saturating`. -/
def i32Saturating (v : Int) : Int := max (-2 ^ 31) (min v (2 ^ 31 - 1))

/-! ## Lenient coercion -/

/-- `as_set_string`: a string, or a number as text. -/
def asSetString : Value → Option String
  | .string s => some s
  | .number n => some n.text
  | _ => none

/-- `as_int_lenient`. -/
def asIntLenient (data : Value) : Option Int :=
  data.asI64.or (data.asStr.bind fun s => parseI64 (Text.trim s))

/-- `as_bool_lenient`. -/
def asBoolLenient : Value → Option Bool
  | .bool b => some b
  | .number n => n.asI64.map (· ≠ 0)
  | .string s =>
    match asciiLower (Text.trim s) with
    | "true" | "1" => some true
    | "false" | "0" => some false
    | _ => none
  | _ => none

end Mbrc

/-!
# Numbers as their digits

The text of a number reads back as that number, and holds no character that separates.
-/

namespace Mbrc

theorem isDigit_of_mem_toString {n : Nat} {c : Char} (h : c ∈ (toString n).toList) :
    c.isDigit = true := by
  rw [Nat.toString_eq_repr, Nat.toList_repr] at h
  exact Nat.isDigit_of_mem_toDigits (by omega) (by omega) h

theorem toString_toList_ne_nil (n : Nat) : (toString n).toList ≠ [] := by
  rw [Nat.toString_eq_repr, Nat.toList_repr]
  exact Nat.toDigits_ne_nil

theorem parseDigits_toString (n : Nat) : parseDigits (toString n).toList = some n := by
  have hdigits : ∀ c ∈ (toString n).toList, c.isDigit = true :=
    fun c hc => isDigit_of_mem_toString hc
  rw [parseDigits, if_pos ⟨toString_toList_ne_nil n, List.all_eq_true.mpr hdigits⟩,
    ← Nat.ofDigitChars_eq_foldl]
  simp

/-- A character that is no digit does not stand in a number. -/
theorem not_mem_toString_of_not_isDigit {c : Char} (hc : c.isDigit = false) (n : Nat) :
    c ∉ (toString n).toList := by
  intro hmem
  rw [isDigit_of_mem_toString hmem] at hc
  cases hc

/-- A text without white space is its own trimming. -/
theorem trimChars_eq_self {s : List Char} (h : ∀ c ∈ s, Text.isWhiteSpace c = false) :
    Text.trimChars s = s := by
  have hstart : ∀ s : List Char, (∀ c ∈ s, Text.isWhiteSpace c = false) → Text.trimStart s = s := by
    intro s hs
    cases s with
    | nil => rfl
    | cons c s => exact List.dropWhile_cons_of_neg (by simp [hs c List.mem_cons_self])
  unfold Text.trimChars
  rw [hstart s h, hstart s.reverse (fun c hc => h c (List.mem_reverse.mp hc)), List.reverse_reverse]

theorem isWhiteSpace_of_isDigit {c : Char} (hc : c.isDigit = true) :
    Text.isWhiteSpace c = false := by
  have hrange : 48 ≤ c.toNat ∧ c.toNat ≤ 57 := by
    have : 48 ≤ c.val ∧ c.val ≤ 57 := by simpa [Char.isDigit] using hc
    exact this
  simp only [Text.isWhiteSpace, Bool.or_eq_false_iff, Bool.and_eq_false_iff,
    decide_eq_false_iff_not]
  omega

end Mbrc
