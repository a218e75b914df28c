import MbrcPlugin.Lib.Addresses
import MbrcPlugin.Lib.Lines

/-!
# Percent-encoded fields

Bytes as text: some bytes stand for themselves, the others are a percent sign and two digits.  What
is encoded is decoded (`decode_encode`), and a separator that does not stand for itself is not in it
(`not_mem_encode`), so that encoded values can be joined to fields and read back
(`readFields_showFields`).
-/

namespace Percent

/-! ## Bytes -/

/-- The bytes that stand for themselves. -/
structure Kept where
  keep : UInt8 → Bool
  ascii : ∀ b, keep b = true → b.toNat < 128
  percent : keep 37 = false

def hexDigit (n : Nat) : Char := if n < 10 then Char.ofNat (48 + n) else Char.ofNat (55 + n)

variable (K : Kept)

def encodeByte (b : UInt8) : List Char :=
  if K.keep b then [Char.ofNat b.toNat] else ['%', hexDigit (b.toNat / 16), hexDigit (b.toNat % 16)]

def encode (bytes : List UInt8) : List Char := bytes.flatMap (encodeByte K)

/-- The bytes of an encoding; a character that is not ASCII is in none. -/
def decode : List Char → Option (List UInt8)
  | [] => some []
  | '%' :: high :: low :: rest => do
    let h ← Net.toDigit 16 high
    let l ← Net.toDigit 16 low
    let bytes ← decode rest
    return UInt8.ofNat (16 * h + l) :: bytes
  | c :: rest =>
    if c = '%' ∨ 128 ≤ c.toNat then none
    else (decode rest).map fun bytes => UInt8.ofNat c.toNat :: bytes

theorem toDigit_hexDigit {n : Nat} (h : n < 16) : Net.toDigit 16 (hexDigit n) = some n := by
  have hall : ∀ m ∈ List.range 16, Net.toDigit 16 (hexDigit m) = some m := by decide
  exact hall n (List.mem_range.mpr h)

theorem toNat_ofNat_ascii {b : UInt8} (h : b.toNat < 128) :
    (Char.ofNat b.toNat).toNat = b.toNat := by
  have hall : ∀ n < 128, (Char.ofNat n).toNat = n := by decide
  exact hall _ h

theorem decode_cons {c : Char} (hc : c ≠ '%') (rest : List Char) :
    decode (c :: rest) = if 128 ≤ c.toNat then none
      else (decode rest).map fun bytes => UInt8.ofNat c.toNat :: bytes := by
  rw [decode]
  · simp only [hc, false_or]
  · rintro _ _ _ rfl
    exact absurd rfl hc

theorem decode_encodeByte (b : UInt8) (rest : List Char) :
    decode (encodeByte K b ++ rest) = (decode rest).map (b :: ·) := by
  unfold encodeByte
  split
  · rename_i hkeep
    have hascii := K.ascii b hkeep
    have hto := toNat_ofNat_ascii hascii
    have hne : Char.ofNat b.toNat ≠ '%' := by
      intro h
      have hb : b = 37 := by
        rw [h] at hto
        exact UInt8.toNat_inj.mp hto.symm
      rw [hb, K.percent] at hkeep
      cases hkeep
    rw [List.cons_append, List.nil_append, decode_cons hne, hto, if_neg (by omega)]
    rw [UInt8.ofNat_toNat]
  · have hlt : b.toNat < 256 := b.toNat_lt
    simp only [List.cons_append, List.nil_append, decode,
      toDigit_hexDigit (show b.toNat / 16 < 16 by omega),
      toDigit_hexDigit (show b.toNat % 16 < 16 by omega), Option.bind_eq_bind, Option.bind_some]
    have hbyte : UInt8.ofNat (16 * (b.toNat / 16) + b.toNat % 16) = b := by
      rw [Nat.div_add_mod, UInt8.ofNat_toNat]
    rw [hbyte]
    cases decode rest <;> rfl

/-- **What is encoded is decoded.** -/
theorem decode_encode (bytes : List UInt8) : decode (encode K bytes) = some bytes := by
  induction bytes with
  | nil => rfl
  | cons b bytes ih =>
    rw [encode, List.flatMap_cons, decode_encodeByte, ← encode, ih]
    rfl

/-- A character that is no percent sign, no digit and no byte that is kept is not in an encoding. -/
theorem not_mem_encode {c : Char} (hpercent : c ≠ '%') (hdigit : Net.toDigit 16 c = none)
    (hkept : ∀ b, K.keep b = true → Char.ofNat b.toNat ≠ c) (bytes : List UInt8) :
    c ∉ encode K bytes := by
  intro hmem
  obtain ⟨b, -, hb⟩ := List.mem_flatMap.mp hmem
  have hlt : b.toNat < 256 := b.toNat_lt
  have hhex {n : Nat} (hn : n < 16) : c ≠ hexDigit n := by
    rintro rfl
    rw [toDigit_hexDigit hn] at hdigit
    cases hdigit
  unfold encodeByte at hb
  split at hb
  · rename_i hkeep
    exact hkept b hkeep (List.mem_singleton.mp hb).symm
  · simp only [List.mem_cons, List.not_mem_nil, or_false] at hb
    rcases hb with h | h | h
    · exact hpercent h
    · exact hhex (by omega) h
    · exact hhex (by omega) h

/-! ## Texts -/

def encodeText (text : String) : List Char := encode K (Text.bytes text)

def decodeText (value : List Char) : Option String := (decode value).bind Text.ofBytes

@[simp] theorem decodeText_encodeText (text : String) :
    decodeText (encodeText K text) = some text := by
  rw [decodeText, encodeText, decode_encode, Option.bind_some, Text.ofBytes_bytes]

/-- A text of ASCII without a percent sign is its own encoding. -/
theorem decode_of_plain {cs : List Char} (h : ∀ c ∈ cs, c ≠ '%' ∧ c.toNat < 128) :
    decode cs = some (cs.map fun c => UInt8.ofNat c.toNat) := by
  induction cs with
  | nil => rfl
  | cons c cs ih =>
    have hc := h c List.mem_cons_self
    rw [decode_cons hc.1, if_neg (by omega), ih fun d hd => h d (List.mem_cons_of_mem _ hd)]
    rfl

theorem bytes_ofList_ascii {cs : List Char} (h : ∀ c ∈ cs, c.toNat < 128) :
    Text.bytes (String.ofList cs) = cs.map fun c => UInt8.ofNat c.toNat := by
  rw [Text.bytes_eq_flatMap, String.toList_ofList]
  induction cs with
  | nil => rfl
  | cons c cs ih =>
    have hc : c.val.toNat ≤ 127 := Nat.le_of_lt_succ (h c List.mem_cons_self)
    rw [List.flatMap_cons, ih fun d hd => h d (List.mem_cons_of_mem _ hd), List.map_cons]
    unfold String.utf8EncodeChar
    simp only [hc, if_true]
    rfl

/-- A text that needs no encoding stands for itself. -/
theorem decodeText_of_plain {cs : List Char} (h : ∀ c ∈ cs, c ≠ '%' ∧ c.toNat < 128) :
    decodeText cs = some (String.ofList cs) := by
  rw [decodeText, decode_of_plain h, Option.bind_some,
    ← bytes_ofList_ascii fun c hc => (h c hc).2, Text.ofBytes_bytes]

/-! ## Fields -/

/-- A key and a value, one on either side of the sign. -/
def readField (piece : List Char) : Option (String × String) :=
  match piece.splitOn '=' with
  | [key, value] => (decodeText value).map fun text => (String.ofList key, text)
  | _ => none

/-- The fields of a text, each value decoded. -/
def readFields (s : List Char) : Option (List (String × String)) :=
  (s.splitOn '&').mapM readField

/-- The fields of a text, their values encoded already. -/
def showFields (fields : List (String × List Char)) : List Char :=
  ['&'].intercalate (fields.map fun f => f.1.toList ++ '=' :: f.2)

/-- Neither separator is in the field. -/
def Separable (field : String × List Char) : Prop :=
  ('&' ∉ field.1.toList ∧ '=' ∉ field.1.toList) ∧ '&' ∉ field.2 ∧ '=' ∉ field.2

theorem readField_show {field : String × List Char} (h : Separable field) :
    readField (field.1.toList ++ '=' :: field.2) =
      (decodeText field.2).map fun text => (field.1, text) := by
  have hsplit : (field.1.toList ++ '=' :: field.2).splitOn '=' = [field.1.toList, field.2] := by
    rw [List.splitOn_append_cons_self_of_not_mem h.1.2, List.splitOn_eq_singleton h.2.2]
  simp [readField, hsplit]

/-- **Fields that are joined are read back**, each value decoded. -/
theorem readFields_showFields {fields : List (String × List Char)} (hne : fields ≠ [])
    (h : ∀ field ∈ fields, Separable field) :
    readFields (showFields fields) =
      fields.mapM fun field => (decodeText field.2).map fun text => (field.1, text) := by
  rw [readFields, showFields, List.splitOn_intercalate '&' ?_ (by simpa using hne)]
  · clear hne
    induction fields with
    | nil => rfl
    | cons field fields ih =>
      rw [List.map_cons, List.mapM_cons, List.mapM_cons,
        readField_show (h field List.mem_cons_self),
        ih fun f hf => h f (List.mem_cons_of_mem _ hf)]
  · intro piece hpiece
    obtain ⟨field, hfield, rfl⟩ := List.mem_map.mp hpiece
    have hsep := h field hfield
    simp [hsep.1.1, hsep.2.1]

end Percent
