import MbrcPlugin.Capture.Trim
import MbrcPlugin.Lib.StateLogic
import Mathlib.Data.List.Forall2

/-!
# Captures of two libraries

What the scrubber makes of a value does not depend on the strings it covers: two values that differ
by a renaming of these are made into the same one (`agree_scrubValue`).
-/

namespace Mbrc.Capture

open StateLogic

/-! ## Renaming -/

/-- An injective renaming of the strings of a library; the empty text and the placeholders are
none of them. -/
structure Renaming where
  name : String → String
  injective : Function.Injective name
  name_empty : name "" = ""
  name_png : name placeholderPng = placeholderPng
  name_lyrics : name placeholderLyrics = placeholderLyrics

variable (f : Renaming)

@[simp] theorem Renaming.name_eq_empty {s : String} : f.name s = "" ↔ s = "" := by
  rw [← f.injective.eq_iff (a := s), f.name_empty]

mutual

/-- The value with the strings renamed wherever they stand. -/
def rename (f : Renaming) : Value → Value
  | .string s => .string (f.name s)
  | .array items => .array (renameItems f items)
  | .object fields => .object (renameFields f fields)
  | val => val

def renameItems (f : Renaming) : List Value → List Value
  | [] => []
  | val :: rest => rename f val :: renameItems f rest

def renameFields (f : Renaming) : List (String × Value) → List (String × Value)
  | [] => []
  | (key, val) :: rest => (key, rename f val) :: renameFields f rest

end

/-! ## What is covered -/

/-- A field that is left for its path to be rebuilt: a text whose name is not seen but by what
follows the last point. -/
def PathCovered (f : Renaming) : Value → Prop
  | .string p => p ≠ "" → extensionOf (f.name p) = extensionOf p
  | val => rename f val = val

mutual

/-- The library strings are under the keys that are scrubbed, or look like paths. -/
def Covered (f : Renaming) : Value → Prop
  | .string s => f.name s = s ∨ (looksLikePath s = true ∧ looksLikePath (f.name s) = true ∧
      extensionOf (f.name s) = extensionOf s)
  | .array items => CoveredItems f items
  | .object fields => CoveredFields f fields
  | _ => True

def CoveredItems (f : Renaming) : List Value → Prop
  | [] => True
  | val :: rest => Covered f val ∧ CoveredItems f rest

def CoveredFields (f : Renaming) : List (String × Value) → Prop
  | [] => True
  | (key, val) :: rest =>
    (match treatment key val with
    | .pseudonym _ _ => True
    | .left => PathCovered f val
    | .scrubbed => Covered f val) ∧ CoveredFields f rest

end

/-! ## The scrubbers of two runs -/

/-- The same numbers, for the renamed strings. -/
structure SameNumbers (f : Renaming) (s t : Scrubber) : Prop where
  counters : t.counters = s.counters
  seen : t.seen = s.seen.map fun entry => ((entry.1.1, f.name entry.1.2), entry.2)

theorem lookup_renamed (seen : List ((Category × String) × String)) (c : Category) (x : String) :
    (seen.map fun entry => ((entry.1.1, f.name entry.1.2), entry.2)).lookup (c, f.name x) =
      seen.lookup (c, x) := by
  induction seen with
  | nil => rfl
  | cons entry seen ih =>
    obtain ⟨⟨c', y⟩, val⟩ := entry
    rw [List.map_cons, List.lookup_cons, List.lookup_cons, ih]
    have hkey : ((c, f.name x) == (c', f.name y)) = ((c, x) == (c', y)) := by
      rw [Bool.eq_iff_iff, beq_iff_eq, beq_iff_eq, Prod.mk.injEq, Prod.mk.injEq,
        f.injective.eq_iff]
    rw [hkey]

theorem agree_numbered (c : Category) (x : String) (text : Nat → String) :
    Agree (SameNumbers f) Eq (numbered c x text) (numbered c (f.name x) text) := by
  intro s t h
  have hlookup : t.seen.lookup (c, f.name x) = s.seen.lookup (c, x) := by
    rw [h.seen, lookup_renamed]
  unfold numbered
  rw [hlookup]
  split
  · exact ⟨rfl, h⟩
  · refine ⟨?_, ?_, ?_⟩
    · rw [h.counters]
    · simp only [h.counters]
    · simp only [h.seen, h.counters, List.map_append, List.map_cons, List.map_nil]

theorem agree_label (c : Category) (x : String) :
    Agree (SameNumbers f) Eq (label c x) (label c (f.name x)) := by
  unfold label
  simp only [f.name_eq_empty]
  split
  · exact .pure rfl
  · exact agree_numbered f c x _

theorem agree_rebuild (around : Siblings) {p : String}
    (hext : extensionOf (f.name p) = extensionOf p) :
    Agree (SameNumbers f) Eq (rebuild around p) (rebuild around (f.name p)) := by
  have hpath : Agree (SameNumbers f) Eq (around.origin p).path (around.origin (f.name p)).path := by
    have hmedia : Agree (SameNumbers f) Eq (around.media p).path
        (around.media (f.name p)).path := by
      unfold Siblings.media
      rw [hext]
      split
      · split
        · exact .pure rfl
        · exact agree_numbered f .path p _
      · exact agree_numbered f .path p _
    unfold Siblings.origin
    rw [hext]
    split
    · split
      · exact .pure rfl
      · exact hmedia
    · exact hmedia
  refine hpath.bind fun synth synth' heq => ?_
  rw [heq]
  intro s t h
  exact ⟨rfl, h.counters, h.seen⟩

/-! ## Objects -/

/-- Two fields; under the keys that are still to be rebuilt the paths differ. -/
def FieldAlike (f : Renaming) (keys : List String) (field field' : String × Value) : Prop :=
  field'.1 = field.1 ∧
    if field.1 ∈ keys then PathCovered f field.2 ∧ field'.2 = rename f field.2
    else field'.2 = field.2

theorem treatment_rename (key : String) (val : Value) :
    treatment key (rename f val) =
      match treatment key val with
      | .pseudonym c x => .pseudonym c (f.name x)
      | other => other := by
  unfold treatment
  cases categoryOf key <;> cases val <;> by_cases hkey : key ∈ pathKeys <;> simp [rename, hkey]

theorem eq_of_fieldAlike {fields fields' : List (String × Value)}
    (h : List.Forall₂ (FieldAlike f []) fields fields') : fields' = fields := by
  induction h with
  | nil => rfl
  | @cons field field' _ _ hfield _ ih =>
    obtain ⟨hkey, hval⟩ := hfield
    rw [if_neg List.not_mem_nil] at hval
    rw [ih, Prod.ext hkey hval]

/-- What stands under the other keys is the same. -/
theorem lookup_fieldAlike {keys : List String} {fields fields' : List (String × Value)}
    (h : List.Forall₂ (FieldAlike f keys) fields fields') {key : String} (hkey : key ∉ keys) :
    fields'.lookup key = fields.lookup key := by
  induction h with
  | nil => rfl
  | @cons field field' _ _ hfield _ ih =>
    obtain ⟨k, v⟩ := field
    obtain ⟨k', v'⟩ := field'
    obtain ⟨hk, hv⟩ := hfield
    simp only at hk hv
    subst hk
    rw [List.lookup_cons, List.lookup_cons, ih]
    by_cases hkk : key = k'
    · subst hkk
      rw [if_neg hkey] at hv
      rw [hv]
    · rw [beq_false_of_ne hkk]

theorem siblings_fieldAlike {fields fields' : List (String × Value)}
    (h : List.Forall₂ (FieldAlike f pathKeys) fields fields') :
    siblings fields' = siblings fields := by
  have hlookup (key : String) (hkey : key ∉ pathKeys) :
      fields'.lookup key = fields.lookup key := lookup_fieldAlike f h hkey
  simp only [siblings]
  rw [hlookup "album_artist" (by decide), hlookup "artist" (by decide), hlookup "album" (by decide),
    hlookup "title" (by decide), hlookup "name" (by decide), hlookup "trackno" (by decide)]

theorem agree_rebuildField (around : Siblings) {key : String} {keys : List String}
    (hkey : key ∉ keys) {field field' : String × Value}
    (h : FieldAlike f (key :: keys) field field') :
    Agree (SameNumbers f) (FieldAlike f keys) (rebuildField around key field)
      (rebuildField around key field') := by
  obtain ⟨k, v⟩ := field
  obtain ⟨k', v'⟩ := field'
  obtain ⟨hk, hv⟩ := h
  simp only at hk hv
  subst hk
  by_cases hkk : k' = key
  · subst hkk
    rw [if_pos List.mem_cons_self] at hv
    obtain ⟨hcov, rfl⟩ := hv
    have hsame (w : Value) : FieldAlike f keys (k', w) (k', w) := ⟨rfl, by rw [if_neg hkey]⟩
    cases v with
    | string p =>
      by_cases hp : p = ""
      · subst hp
        simp only [rebuildField, rename, f.name_empty, ne_eq, not_true, and_false, if_false]
        exact .pure (hsame _)
      · have hp' : f.name p ≠ "" := fun h => hp (f.name_eq_empty.mp h)
        simp only [rebuildField, rename, ne_eq, hp, hp', not_false_eq_true, and_self, if_true]
        refine (agree_rebuild f around (hcov hp)).map fun synth synth' heq => ?_
        rw [heq]
        exact hsame _
    | _ =>
      rw [show rename f _ = _ from hcov]
      exact .pure (hsame _)
  · have hsame : FieldAlike f keys (k', v) (k', v') := by
      refine ⟨rfl, ?_⟩
      simpa [hkk] using hv
    have hleft (w : Value) : rebuildField around key (k', w) = pure (k', w) := by
      cases w <;> simp [rebuildField, hkk]
    rw [hleft, hleft]
    exact .pure hsame

/-- After its turn the paths under a key are the same. -/
theorem agree_rebuildKey (around : Siblings) {key : String} {keys : List String}
    (hkey : key ∉ keys) {fields fields' : List (String × Value)}
    (h : List.Forall₂ (FieldAlike f (key :: keys)) fields fields') :
    Agree (SameNumbers f) (List.Forall₂ (FieldAlike f keys)) (rebuildKey around key fields)
      (rebuildKey around key fields') := by
  induction h with
  | nil => exact .pure .nil
  | cons hfield _ ih =>
    refine (agree_rebuildField f around hkey hfield).bind fun field field' hfield => ?_
    exact ih.bind fun rest rest' hrest => .pure (.cons hfield hrest)

theorem agree_rebuildPaths {fields fields' : List (String × Value)}
    (h : List.Forall₂ (FieldAlike f pathKeys) fields fields') :
    Agree (SameNumbers f) Eq (rebuildPaths fields) (rebuildPaths fields') := by
  unfold rebuildPaths
  rw [siblings_fieldAlike f h]
  generalize siblings fields = around
  have hnodup : pathKeys.Nodup := by decide
  revert h hnodup
  generalize pathKeys = keys
  intro h hnodup
  induction keys generalizing fields fields' with
  | nil => exact .pure (eq_of_fieldAlike f h).symm
  | cons key keys ih =>
    rw [List.foldlM_cons, List.foldlM_cons]
    obtain ⟨hkey, hnodup⟩ := List.nodup_cons.mp hnodup
    exact (agree_rebuildKey f around hkey h).bind fun rebuilt rebuilt' h => ih h hnodup

/-! ## Values -/

mutual

/-- **What is covered does not show.** -/
theorem agree_scrubValue (val : Value) (h : Covered f val) :
    Agree (SameNumbers f) Eq (scrubValue val) (scrubValue (rename f val)) := by
  cases val with
  | string s =>
    rw [rename, scrubValue, scrubValue]
    obtain hs | ⟨hpath, hpath', hext⟩ := h
    · rw [hs]
      split
      · have := agree_rebuild f noSiblings (p := s) (by rw [hs])
        rw [hs] at this
        exact this.map fun _ _ heq => congrArg Value.string heq
      · exact .pure rfl
    · rw [if_pos hpath, if_pos hpath']
      exact (agree_rebuild f noSiblings hext).map fun _ _ heq => congrArg Value.string heq
  | array items =>
    rw [rename, scrubValue, scrubValue]
    exact (agree_scrubItems items h).map fun _ _ heq => congrArg Value.array heq
  | object fields =>
    rw [rename, scrubValue, scrubValue]
    refine (agree_scrubFields fields h).bind fun fields fields' hfields => ?_
    exact (agree_rebuildPaths f hfields).map fun _ _ heq => congrArg Value.object heq
  | _ => exact .pure rfl

theorem agree_scrubItems (items : List Value) (h : CoveredItems f items) :
    Agree (SameNumbers f) Eq (scrubItems items) (scrubItems (renameItems f items)) := by
  cases items with
  | nil => exact .pure rfl
  | cons val rest =>
    rw [renameItems, scrubItems, scrubItems]
    refine (agree_scrubValue val h.1).bind fun val val' hval => ?_
    refine (agree_scrubItems rest h.2).map fun rest rest' hrest => ?_
    rw [hval, hrest]

theorem agree_scrubFields (fields : List (String × Value)) (h : CoveredFields f fields) :
    Agree (SameNumbers f) (List.Forall₂ (FieldAlike f pathKeys)) (scrubFields fields)
      (scrubFields (renameFields f fields)) := by
  match fields with
  | [] => exact .pure .nil
  | (key, val) :: rest =>
    rw [CoveredFields] at h
    obtain ⟨hval, hrest⟩ := h
    rw [renameFields, scrubFields, scrubFields, treatment_rename]
    have hfield : Agree (SameNumbers f) (fun w w' => FieldAlike f pathKeys (key, w) (key, w'))
        ((treatment key val).run val (scrubValue val))
        ((match treatment key val with
          | .pseudonym c x => .pseudonym c (f.name x)
          | other => other : Treatment).run (rename f val) (scrubValue (rename f val))) := by
      cases htreat : treatment key val with
      | pseudonym c x =>
        refine (agree_label f c x).map fun t t' heq => ⟨rfl, ?_⟩
        rw [if_neg (not_pathKey htreat), heq]
      | left =>
        rw [htreat] at hval
        refine .pure ⟨rfl, ?_⟩
        rw [if_pos (mem_pathKeys htreat)]
        exact ⟨hval, rfl⟩
      | scrubbed =>
        rw [htreat] at hval
        refine (agree_scrubValue val hval).mono fun w w' heq => ⟨rfl, ?_⟩
        rw [if_neg (not_mem_pathKeys htreat), heq]
    refine hfield.bind fun w w' hw => ?_
    exact (agree_scrubFields rest hrest).map fun rest rest' hrest => .cons hw hrest

end

end Mbrc.Capture
