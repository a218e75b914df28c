import MbrcPlugin.Host.Providers
import Mathlib.Data.List.Sort

/-!
# The fields of a V6 request

The typed extractors of the V6 handlers.  An error names the field at fault, and its code says
whether the field is missing or has the wrong type.
-/

namespace Mbrc.CommandsV6

open Providers

/-! ## Extractors -/

def missing (field : String) : V6Error :=
  { code := .missingField, message := "missing required field: " ++ field, field := some field }

def invalid (field message : String) : V6Error :=
  { code := .invalidField, message, field := some field }

/-- A required field of a type. -/
def required {α : Type} (type : String) (read : Value → Option α) (data : Value) (field : String) :
    Except V6Error α :=
  match data.get field with
  | none => .error (missing field)
  | some v =>
    match read v with
    | some a => .ok a
    | none => .error (invalid field (field ++ " must be " ++ type))

/-- An optional field of a type; null counts as absent. -/
def optional {α : Type} (type : String) (read : Value → Option α) (data : Value) (field : String) :
    Except V6Error (Option α) :=
  match data.get field with
  | none | some .null => .ok none
  | some v =>
    match read v with
    | some a => .ok (some a)
    | none => .error (invalid field (field ++ " must be " ++ type))

def reqI64 : Value → String → Except V6Error Int := required "an integer" Value.asI64

def reqBool : Value → String → Except V6Error Bool := required "a boolean" Value.asBool

def reqStr : Value → String → Except V6Error String := required "a string" Value.asStr

def optI64 : Value → String → Except V6Error (Option Int) := optional "an integer" Value.asI64

def optStr : Value → String → Except V6Error (Option String) := optional "a string" Value.asStr

def optBool : Value → String → Except V6Error (Option Bool) := optional "a boolean" Value.asBool

/-- A required array of strings. -/
def reqStrArray (data : Value) (field : String) : Except V6Error (List String) :=
  match data.get field with
  | none => .error (missing field)
  | some (.array items) =>
    match items.mapM Value.asStr with
    | some strings => .ok strings
    | none => .error (invalid field (field ++ " must be an array of strings"))
  | some _ => .error (invalid field (field ++ " must be an array"))

theorem length_of_mapM {α β : Type} {f : α → Option β} {l : List α} {out : List β}
    (h : l.mapM f = some out) : out.length = l.length := by
  induction l generalizing out with
  | nil =>
    obtain rfl : [] = out := Option.some.inj h
    rfl
  | cons a l ih =>
    simp only [List.mapM_cons, Option.pure_def, Option.bind_eq_bind, Option.bind_eq_some_iff] at h
    obtain ⟨b, -, bs, hbs, hout⟩ := h
    obtain rfl := Option.some.inj hout
    simp [ih hbs]

/-- Every string of the array, and nothing else. -/
theorem reqStrArray_eq_ok {data : Value} {field : String} {strings : List String}
    (h : reqStrArray data field = .ok strings) :
    ∃ items, data.get field = some (.array items) ∧ strings.length = items.length := by
  unfold reqStrArray at h
  split at h
  · simp at h
  · rename_i items hget
    split at h
    · rename_i strings' hmap
      obtain rfl := Except.ok.inj h
      exact ⟨items, hget, length_of_mapM hmap⟩
    · simp at h
  · simp at h

/-! ## The queue -/

/-- The V6 `mode` as a placement; a closed enumeration's unknown value is rejected. -/
def parseQueueType (mode : String) : Except V6Error QueueType :=
  match mode with
  | "next" => .ok .next
  | "last" => .ok .last
  | "now" => .ok .playNow
  | "add_all" => .ok .addAndPlay
  | other => .error { code := .invalidField, message := "unknown queue mode: " ++ other }

/-- The slots named by a field, from the highest down. -/
def ordersHighestFirst (data : Value) (field : String) : Except V6Error (List Int) :=
  match data.get field with
  | none => .error (missing field)
  | some (.array []) => .error (invalid field (field ++ " must be a non-empty array"))
  | some (.array raw) =>
    let order (v : Value) := v.asI64.filter fun o => 0 ≤ o ∧ o ≤ 2 ^ 31 - 1
    match raw.mapM order with
    | none => .error (invalid field (field ++ " must hold non-negative integers"))
    | some orders =>
      if orders.Nodup then .ok (orders.insertionSort fun a b => b ≤ a)
      else .error (invalid field (field ++ " must not repeat"))
  | some _ => .error (invalid field (field ++ " must be a non-empty array"))

end Mbrc.CommandsV6
