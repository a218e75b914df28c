import MbrcPlugin.Lib.Comparator
import MbrcPlugin.Lib.OrderedTable
import MbrcPlugin.Protocol.Json

/-!
# Fields of several values

How a tag such as the genre splits into its values, and how the values of many fields are counted:
values that differ only in ASCII case are one, under the spelling most fields use.  A row of the
counts is the number of fields that hold its name (`count_of_mem_counts`), and each value of a field
has a row (`exists_mem_counts`).
-/

namespace Mbrc.MultiValue

open Text

/-- What separates the values of a field. -/
def isSeparator (c : Char) : Bool := c = ';' || c = '\x00'

/-- `values`: trimmed, without the empty ones. -/
def values (raw : String) : List String :=
  ((raw.toList.splitOnP isSeparator).map fun part => trim (String.ofList part)).filter (· ≠ "")

/-- `eq_ignore_ascii_case`. -/
def sameName (a b : String) : Bool := asciiLower a = asciiLower b

/-- `holds`: the empty name is that of a field without values. -/
def holds (raw value : String) : Bool :=
  if trim value = "" then values raw = [] else (values raw).any (sameName · (trim value))

/-! ## Splitting -/

theorem sameName_iff {a b : String} : sameName a b = true ↔ asciiLower a = asciiLower b := by
  simp [sameName]

theorem ne_empty_of_mem_values {raw value : String} (h : value ∈ values raw) : value ≠ "" := by
  simpa using (List.mem_filter.mp h).2

/-- The text is one value. -/
def Whole (name : String) : Prop := ∀ c ∈ name.toList, isSeparator c = false

instance (name : String) : Decidable (Whole name) :=
  List.decidableBAll (fun c => isSeparator c = false) name.toList

theorem values_of_whole {name : String} (hwhole : Whole name) (htrim : trim name = name)
    (hne : name ≠ "") : values name = [name] := by
  rw [values, List.splitOnP_eq_singleton hwhole]
  simp [htrim, hne]

theorem values_append (a b : String) :
    values (a ++ "\x00" ++ b) = values a ++ values b := by
  have hsplit : (a ++ "\x00" ++ b).toList = a.toList ++ '\x00' :: b.toList := by simp
  rw [values, hsplit, List.splitOnP_append_cons _ _ (by decide), List.map_append,
    List.filter_append]
  rfl

theorem values_intercalate (names : List String) :
    values (String.intercalate "\x00" names) = names.flatMap values := by
  induction names with
  | nil => rfl
  | cons name names ih =>
    cases names with
    | nil => simp
    | cons next names =>
      rw [String.intercalate_cons_cons, values_append, ih]
      rfl

/-! ## Counting -/

/-- How many fields hold a value, and how many spell it how. -/
structure Tally where
  count : Nat := 0
  spellings : Table String Nat := .empty

def Tally.add (tally : Tally) (value : String) : Tally :=
  { count := tally.count + 1
    spellings := tally.spellings.insert value ((tally.spellings.get? value).getD 0 + 1) }

/-- By use, the later name being the lesser one. -/
def byUse : String × Nat → String × Nat → Ordering :=
  compareLex (compareOn Prod.snd) fun a b => compare b.1 a.1

/-- The spelling of most fields. -/
def Tally.name (tally : Tally) : String :=
  match (Comparator.sortBy byUse tally.spellings.rows).getLast? with
  | some row => row.1
  | none => ""

/-- The values a field is counted under. -/
def fieldValues (raw : String) : List String := if values raw = [] then [""] else values raw

/-- Counts a value, unless the field named it before. -/
def countValue (counted : Table String Tally × List String) (value : String) :
    Table String Tally × List String :=
  let key := asciiLower value
  if key ∈ counted.2 then counted
  else (counted.1.insert key (((counted.1.get? key).getD {}).add value), counted.2 ++ [key])

def countField (byKey : Table String Tally) (raw : String) : Table String Tally :=
  ((fieldValues raw).foldl countValue (byKey, [])).1

def byKey (fields : List String) : Table String Tally := fields.foldl countField .empty

/-- The order of the rows: by name without regard to case, then as spelled. -/
def byName : String × Nat → String × Nat → Ordering :=
  compareLex (compareOn fun row => asciiLower row.1) (compareOn Prod.fst)

/-- `counts`. -/
def counts (fields : List String) : List (String × Nat) :=
  Comparator.sortBy byName ((byKey fields).rows.map fun row => (row.2.name, row.2.count))

example : counts ["Rock; Jazz", "rock", "Rock;rock", ""] = [("", 1), ("Jazz", 1), ("Rock", 3)] := by
  decide +kernel

/-! ## What the counts say -/

/-- The keys a field is counted under. -/
def keys (raw : String) : List String := (fieldValues raw).map asciiLower

/-- The field is counted under the name. -/
def CountedUnder (name raw : String) : Prop := asciiLower name ∈ keys raw

instance (name raw : String) : Decidable (CountedUnder name raw) :=
  inferInstanceAs (Decidable (_ ∈ _))

theorem countedUnder_iff {name raw : String} :
    CountedUnder name raw ↔ ∃ v ∈ fieldValues raw, asciiLower v = asciiLower name :=
  List.mem_map

/-- Each key of the values that was not seen before is counted once. -/
theorem get?_foldl_countValue (vs : List String) (t : Table String Tally) (seen : List String)
    (key : String) :
    if key ∈ vs.map asciiLower ∧ key ∉ seen then
      ∃ v ∈ vs, asciiLower v = key ∧
        (vs.foldl countValue (t, seen)).1.get? key = some (((t.get? key).getD {}).add v)
    else (vs.foldl countValue (t, seen)).1.get? key = t.get? key := by
  induction vs generalizing t seen with
  | nil => simp
  | cons value vs ih =>
    rw [List.foldl_cons]
    by_cases hseen : asciiLower value ∈ seen
    · have hskip : countValue (t, seen) value = (t, seen) := if_pos hseen
      have hrest := ih t seen
      rw [hskip]
      split
      · rename_i hkey
        have hne : key ≠ asciiLower value := fun h => hkey.2 (h ▸ hseen)
        have hmem : key ∈ vs.map asciiLower := by simpa [hne] using hkey.1
        rw [if_pos ⟨hmem, hkey.2⟩] at hrest
        obtain ⟨v, hv, h⟩ := hrest
        exact ⟨v, List.mem_cons_of_mem _ hv, h⟩
      · rename_i hkey
        rwa [if_neg fun h => hkey ⟨List.mem_cons_of_mem _ h.1, h.2⟩] at hrest
    · have hcount : countValue (t, seen) value =
          (t.insert (asciiLower value) (((t.get? (asciiLower value)).getD {}).add value),
            seen ++ [asciiLower value]) := if_neg hseen
      rw [hcount]
      have hrest := ih (t.insert (asciiLower value)
        (((t.get? (asciiLower value)).getD {}).add value)) (seen ++ [asciiLower value])
      by_cases hkey : key = asciiLower value
      · subst hkey
        rw [if_neg (by simp), Table.get?_insert, if_pos rfl] at hrest
        rw [if_pos ⟨by simp, hseen⟩]
        exact ⟨value, List.mem_cons_self, rfl, hrest⟩
      · rw [Table.get?_insert, if_neg (Ne.symm hkey)] at hrest
        simp only [List.map_cons, List.mem_cons, hkey, false_or]
        simp only [List.mem_append, List.mem_singleton, hkey, or_false] at hrest
        split
        · rename_i hmem
          rw [if_pos hmem] at hrest
          obtain ⟨v, hv, h⟩ := hrest
          exact ⟨v, Or.inr hv, h⟩
        · rename_i hmem
          rwa [if_neg hmem] at hrest

/-- **One field** adds one to the tally of each of its keys. -/
theorem get?_countField (t : Table String Tally) (raw key : String) :
    if key ∈ keys raw then
      ∃ v, asciiLower v = key ∧
        (countField t raw).get? key = some (((t.get? key).getD {}).add v)
    else (countField t raw).get? key = t.get? key := by
  have h := get?_foldl_countValue (fieldValues raw) t [] key
  split
  · rename_i hkey
    rw [if_pos ⟨hkey, List.not_mem_nil⟩] at h
    obtain ⟨v, -, hv, hget⟩ := h
    exact ⟨v, hv, hget⟩
  · rename_i hkey
    rwa [if_neg fun h => hkey h.1] at h

/-- The tallies are those of the fields, each with spellings of its key. -/
structure Tallied (t : Table String Tally) (fields : List String) : Prop where
  count : ∀ key, ((t.get? key).getD {}).count = fields.countP fun raw => key ∈ keys raw
  spelled : ∀ key tally, t.get? key = some tally →
    tally.spellings.rows ≠ [] ∧ ∀ row ∈ tally.spellings.rows, asciiLower row.1 = key

theorem Tallied.empty : Tallied .empty [] where
  count key := by simp
  spelled key tally h := by simp at h

theorem Tallied.field {t : Table String Tally} {fields : List String} (h : Tallied t fields)
    (raw : String) : Tallied (countField t raw) (fields ++ [raw]) where
  count key := by
    have hfield := get?_countField t raw key
    rw [List.countP_append, List.countP_singleton, ← h.count key]
    split at hfield
    · rename_i hkey
      obtain ⟨v, -, hget⟩ := hfield
      rw [hget, if_pos (decide_eq_true hkey)]
      rfl
    · rename_i hkey
      rw [hfield, if_neg (by simpa using hkey), Nat.add_zero]
  spelled key tally htally := by
    have hfield := get?_countField t raw key
    split at hfield
    · obtain ⟨v, hv, hget⟩ := hfield
      obtain rfl := Option.some.inj (hget.symm.trans htally)
      refine ⟨Table.rows_insert_ne_nil _ v _, ?_⟩
      rintro ⟨name, n⟩ hrow
      have hname := Table.mem_rows.mp hrow
      rw [Tally.add, Table.get?_insert] at hname
      split at hname
      · rename_i heq
        exact heq ▸ hv
      · cases hold : t.get? key with
        | none => simp [hold] at hname
        | some old =>
          rw [hold] at hname
          exact (h.spelled key old hold).2 (name, n) (Table.mem_rows.mpr hname)
    · rw [hfield] at htally
      exact h.spelled key tally htally

theorem Tallied.foldl {t : Table String Tally} {done : List String} (h : Tallied t done)
    (fields : List String) : Tallied (fields.foldl countField t) (done ++ fields) := by
  induction fields generalizing t done with
  | nil => simpa using h
  | cons raw fields ih => simpa using ih (h.field raw)

theorem tallied_byKey (fields : List String) : Tallied (byKey fields) fields :=
  Tallied.empty.foldl fields

/-- The row of a key is spelled as some field spells it. -/
theorem Tallied.name {t : Table String Tally} {fields : List String} (h : Tallied t fields)
    {key : String} {tally : Tally} (hget : t.get? key = some tally) :
    asciiLower tally.name = key := by
  obtain ⟨hne, hspelled⟩ := h.spelled key tally hget
  have hperm := Comparator.sortBy_perm byUse tally.spellings.rows
  unfold Tally.name
  split
  · rename_i row hrow
    exact hspelled row (hperm.mem_iff.mp (List.mem_of_getLast? hrow))
  · rename_i hnone
    rw [List.getLast?_eq_none_iff] at hnone
    rw [hnone] at hperm
    exact absurd (List.nil_perm.mp hperm) hne

theorem mem_counts {fields : List String} {name : String} {n : Nat} :
    (name, n) ∈ counts fields ↔
      ∃ key tally, (byKey fields).get? key = some tally ∧ tally.name = name ∧ tally.count = n := by
  rw [counts, (Comparator.sortBy_perm _ _).mem_iff, List.mem_map]
  constructor
  · rintro ⟨⟨key, tally⟩, hrow, heq⟩
    exact ⟨key, tally, Table.mem_rows.mp hrow, (Prod.mk.inj heq).1, (Prod.mk.inj heq).2⟩
  · rintro ⟨key, tally, hget, rfl, rfl⟩
    exact ⟨(key, tally), Table.mem_rows.mpr hget, rfl⟩

/-- **A row counts the fields that hold its name.** -/
theorem count_of_mem_counts {fields : List String} {name : String} {n : Nat}
    (h : (name, n) ∈ counts fields) :
    n = fields.countP fun raw => CountedUnder name raw := by
  obtain ⟨key, tally, hget, rfl, rfl⟩ := mem_counts.mp h
  have htallied := tallied_byKey fields
  have hcount := htallied.count key
  rw [hget] at hcount
  simp only [CountedUnder, htallied.name hget]
  exact hcount

/-- **Each value of a field has a row.** -/
theorem exists_mem_counts {fields : List String} {raw value : String} (hraw : raw ∈ fields)
    (hvalue : value ∈ fieldValues raw) :
    ∃ name n, (name, n) ∈ counts fields ∧ asciiLower name = asciiLower value := by
  have htallied := tallied_byKey fields
  have hcount := htallied.count (asciiLower value)
  cases hget : (byKey fields).get? (asciiLower value) with
  | none =>
    have hpos : 0 < fields.countP fun raw => asciiLower value ∈ keys raw :=
      List.countP_pos_iff.mpr ⟨raw, hraw, decide_eq_true (List.mem_map_of_mem hvalue)⟩
    rw [hget] at hcount
    exact absurd hcount hpos.ne
  | some tally =>
    exact ⟨tally.name, tally.count, mem_counts.mpr ⟨_, tally, hget, rfl, rfl⟩,
      htallied.name hget⟩

end Mbrc.MultiValue
