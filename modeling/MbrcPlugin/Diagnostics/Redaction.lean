import MbrcPlugin.Protocol.Json

/-!
# What a log line shows of a frame

A frame is logged as its JSON with the blob fields replaced by their length, over-long strings by
theirs, and, at the level that samples, the tail of a long list by a count.  A text that is no JSON
is logged as it starts.
-/

namespace Mbrc

/-! ## Text -/

/-- The lower-case hexadecimal digit. -/
def hexDigit (n : Nat) : Char :=
  if n < 10 then Char.ofNat ('0'.toNat + n) else Char.ofNat ('a'.toNat + (n - 10))

/-- A character in a JSON string. -/
def escape (c : Char) : String :=
  if c = '"' then "\\\""
  else if c = '\\' then "\\\\"
  else if c = '\n' then "\\n"
  else if c = '\r' then "\\r"
  else if c = '\t' then "\\t"
  else if c.toNat = 8 then "\\b"
  else if c.toNat = 12 then "\\f"
  else if c.toNat < 32 then
    "\\u00" ++ String.singleton (hexDigit (c.toNat / 16)) ++
      String.singleton (hexDigit (c.toNat % 16))
  else String.singleton c

def quote (s : String) : String := "\"" ++ String.join (s.toList.map escape) ++ "\""

mutual

/-- `Value::to_string`. -/
def Value.render : Value → String
  | .null => "null"
  | .bool b => if b then "true" else "false"
  | .number n => n.text
  | .string s => quote s
  | .array items => "[" ++ renderItems items ++ "]"
  | .object fields => "\x7b" ++ renderFields fields ++ "\x7d"

def renderItems : List Value → String
  | [] => ""
  | [v] => v.render
  | v :: rest => v.render ++ "," ++ renderItems rest

def renderFields : List (String × Value) → String
  | [] => ""
  | [(key, v)] => quote key ++ ":" ++ v.render
  | (key, v) :: rest => quote key ++ ":" ++ v.render ++ "," ++ renderFields rest

end

namespace Redaction

/-! ## Values -/

def blobKeys : List String := ["cover", "image", "art", "lyrics"]

/-- The longest string that is shown as it is. -/
def maxStr : Nat := 512

def wireListSample : Nat := 3

def isBlobKey (key : Option String) : Bool :=
  key.any fun key => blobKeys.any fun blob => asciiLower key = blob

/-- The shape of the elements that are left out of a list. -/
def arraySchema : Option Value → String
  | some (.object fields) => "; keys: " ++ ",".intercalate (fields.map Prod.fst)
  | _ => ""

/-- A list, with at most so many of its elements. -/
def sample (maxArray : Option Nat) (items redacted : List Value) : List Value :=
  match maxArray with
  | some most =>
    if most < items.length then
      redacted.take most ++ [.string ("<+" ++ toString (items.length - most) ++ " more items" ++
        arraySchema items[most]? ++ ">")]
    else redacted
  | none => redacted

mutual

/-- `redact_value`; the key is that of the field the value is in. -/
def redactValue (maxArray : Option Nat) (key : Option String) : Value → Value
  | .string s =>
    if isBlobKey key then .string ("<base64 " ++ toString s.utf8ByteSize ++ " bytes>")
    else if maxStr < s.utf8ByteSize then .string ("<" ++ toString s.utf8ByteSize ++ " chars>")
    else .string s
  | .array items => .array (sample maxArray items (redactItems maxArray key items))
  | .object fields => .object (redactFields maxArray fields)
  | v => v

def redactItems (maxArray : Option Nat) (key : Option String) : List Value → List Value
  | [] => []
  | v :: rest => redactValue maxArray key v :: redactItems maxArray key rest

def redactFields (maxArray : Option Nat) : List (String × Value) → List (String × Value)
  | [] => []
  | (key, v) :: rest => (key, redactValue maxArray (some key) v) :: redactFields maxArray rest

end

/-- A frame as it is logged, by what it parses to. -/
def redactFrame (text : String) (value : Option Value) (maxArray : Option Nat) : String :=
  match value with
  | some v => (redactValue maxArray none v).render
  | none =>
    let start := String.ofList (text.toList.take 200)
    if start.utf8ByteSize < text.utf8ByteSize then start ++ "..." else start

/-! ## What is hidden -/

/-- A field is shown as what its value is. -/
theorem redactFields_lookup (maxArray : Option Nat) (fields : List (String × Value))
    (key : String) :
    (redactFields maxArray fields).lookup key =
      (fields.lookup key).map (redactValue maxArray (some key)) := by
  induction fields with
  | nil => simp [redactFields]
  | cons field rest ih =>
    obtain ⟨k, v⟩ := field
    rw [redactFields, List.lookup_cons, List.lookup_cons, ih]
    by_cases hk : key = k
    · simp [hk]
    · simp [beq_false_of_ne hk]

/-- Only the length of a blob is shown. -/
theorem redactValue_blob {maxArray : Option Nat} {key : String} {s t : String}
    (hkey : isBlobKey (some key) = true) (hsize : s.utf8ByteSize = t.utf8ByteSize) :
    redactValue maxArray (some key) (.string s) = redactValue maxArray (some key) (.string t) := by
  simp only [redactValue, if_pos hkey, hsize]

/-- A short string of any other field is shown as it is. -/
theorem redactValue_shown {maxArray : Option Nat} {key s : String}
    (hkey : isBlobKey (some key) = false) (hsize : s.utf8ByteSize ≤ maxStr) :
    redactValue maxArray (some key) (.string s) = .string s := by
  rw [redactValue, if_neg (by simp [hkey]), if_neg (by omega)]

end Redaction

end Mbrc
