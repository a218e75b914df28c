import MbrcPlugin.Capture.Rebuilt
import Mathlib.Data.Set.Defs

/-!
# What a value is scrubbed to

`ScrubbedTo` says what the scrubber makes of a value, by the numbers it has given by then
(`grows_scrubValue`); every path it rebuilds is the one of an origin among `pathsOf` the value.
-/

namespace Mbrc.Capture

open StateLogic

/-! ## The paths of a value -/

def pathOfField (around : Siblings) : Value → List (String × Origin)
  | .string p => if p = "" then [] else [(p, around.origin p)]
  | _ => []

mutual

/-- The paths that are rebuilt, with what they are built from. -/
def pathsOf : Value → List (String × Origin)
  | .string p => if looksLikePath p then [(p, noSiblings.origin p)] else []
  | .array items => pathsOfItems items
  | .object fields => pathsOfFields (siblings fields) fields
  | _ => []

def pathsOfItems : List Value → List (String × Origin)
  | [] => []
  | val :: rest => pathsOf val ++ pathsOfItems rest

def pathsOfFields (around : Siblings) : List (String × Value) → List (String × Origin)
  | [] => []
  | (key, val) :: rest =>
    (match treatment key val with
    | .pseudonym _ _ => []
    | .left => pathOfField around val
    | .scrubbed => pathsOf val) ++ pathsOfFields around rest

end

/-! ## The result -/

/-- A path field, rebuilt. -/
def PathTo (s : Scrubber) (around : Siblings) (val w : Value) : Prop :=
  match val with
  | .string p => if p = "" then w = val else ∃ t, w = .string t ∧ PathOf s (around.origin p) t
  | _ => w = val

mutual

def ScrubbedTo (s : Scrubber) : Value → Value → Prop
  | .string p, w =>
    if looksLikePath p then ∃ t, w = .string t ∧ PathOf s (noSiblings.origin p) t
    else w = .string p
  | .array items, w => ∃ items', w = .array items' ∧ ItemsTo s items items'
  | .object fields, w => ∃ fields', w = .object fields' ∧
      FieldsTo s (siblings fields) [] fields fields'
  | val, w => w = val

def ItemsTo (s : Scrubber) : List Value → List Value → Prop
  | [], items' => items' = []
  | val :: rest, items' => ∃ w rest', items' = w :: rest' ∧ ScrubbedTo s val w ∧
      ItemsTo s rest rest'

/-- The fields; those under the keys are not rebuilt yet. -/
def FieldsTo (s : Scrubber) (around : Siblings) (keys : List String) :
    List (String × Value) → List (String × Value) → Prop
  | [], fields' => fields' = []
  | (key, val) :: rest, fields' => ∃ w rest', fields' = (key, w) :: rest' ∧
      (match treatment key val with
      | .pseudonym c x => ∃ t, w = .string t ∧ Known s c x t
      | .left => if key ∈ keys then w = val else PathTo s around val w
      | .scrubbed => ScrubbedTo s val w) ∧ FieldsTo s around keys rest rest'

end

theorem PathTo.mono {s s' : Scrubber} (h : s ≤ s') {around : Siblings} {val w : Value}
    (hval : PathTo s around val w) : PathTo s' around val w := by
  cases val with
  | string p =>
    simp only [PathTo] at *
    split at hval
    · rwa [if_pos ‹_›]
    · obtain ⟨t, rfl, ht⟩ := hval
      rw [if_neg ‹_›]
      exact ⟨t, rfl, ht.mono h⟩
  | _ => exact hval

mutual

theorem ScrubbedTo.mono {s s' : Scrubber} (h : s ≤ s') {val w : Value}
    (hval : ScrubbedTo s val w) : ScrubbedTo s' val w := by
  cases val with
  | string p =>
    rw [ScrubbedTo] at *
    split at hval
    · obtain ⟨t, rfl, ht⟩ := hval
      rw [if_pos ‹_›]
      exact ⟨t, rfl, ht.mono h⟩
    · rwa [if_neg ‹_›]
  | array items =>
    rw [ScrubbedTo] at *
    obtain ⟨items', rfl, hitems⟩ := hval
    exact ⟨items', rfl, ItemsTo.mono h hitems⟩
  | object fields =>
    rw [ScrubbedTo] at *
    obtain ⟨fields', rfl, hfields⟩ := hval
    exact ⟨fields', rfl, FieldsTo.mono h hfields⟩
  | _ => exact hval

theorem ItemsTo.mono {s s' : Scrubber} (h : s ≤ s') {items items' : List Value}
    (hitems : ItemsTo s items items') : ItemsTo s' items items' := by
  cases items with
  | nil => exact hitems
  | cons val rest =>
    rw [ItemsTo] at *
    obtain ⟨w, rest', rfl, hval, hrest⟩ := hitems
    exact ⟨w, rest', rfl, ScrubbedTo.mono h hval, ItemsTo.mono h hrest⟩

theorem FieldsTo.mono {s s' : Scrubber} (h : s ≤ s') {around : Siblings} {keys : List String}
    {fields fields' : List (String × Value)} (hfields : FieldsTo s around keys fields fields') :
    FieldsTo s' around keys fields fields' := by
  match fields with
  | [] => exact hfields
  | (key, val) :: rest =>
    rw [FieldsTo] at *
    obtain ⟨w, rest', rfl, hval, hrest⟩ := hfields
    refine ⟨w, rest', rfl, ?_, FieldsTo.mono h hrest⟩
    cases htreat : treatment key val with
    | pseudonym c x =>
      rw [htreat] at hval
      obtain ⟨t, rfl, ht⟩ := hval
      exact ⟨t, rfl, ht.mono h⟩
    | left =>
      rw [htreat] at hval
      simp only at *
      split at hval
      · rwa [if_pos ‹_›]
      · rw [if_neg ‹_›]
        exact hval.mono h
    | scrubbed =>
      rw [htreat] at hval
      exact ScrubbedTo.mono h hval

end

/-! ## What the scrubber keeps -/

/-- The numbers are in order, and what was rebuilt is among the paths. -/
structure Scrubber.Kept (paths : Set (String × Origin)) (s : Scrubber) : Prop where
  numbered : s.Numbered
  rebuilt : ∀ e ∈ s.rebuilt, ∃ o, (e.1, o) ∈ paths ∧ o.Proper ∧ PathOf s o e.2

theorem kept_start (paths : Set (String × Origin)) : ({} : Scrubber).Kept paths where
  numbered := ⟨fun c x t h => (by cases h), fun c x y t h => (by cases h)⟩
  rebuilt := fun e he => (by cases he)

variable {paths : Set (String × Origin)}

/-- A new number is greater than the ones that were given. -/
theorem Scrubber.Numbered.insert {s : Scrubber} (hs : s.Numbered) {c : Category} {x : String}
    (hnew : s.seen.lookup (c, x) = none) :
    Scrubber.Numbered { s with
      counters := Function.update s.counters c (s.counters c + 1)
      seen := s.seen ++ [((c, x), textOf c x (s.counters c + 1))] } := by
  have hlookup {c' : Category} {y t : String}
      (h : (s.seen ++ [((c, x), textOf c x (s.counters c + 1))]).lookup (c', y) = some t) :
      s.seen.lookup (c', y) = some t ∨
        (c' = c ∧ y = x ∧ t = textOf c x (s.counters c + 1)) := by
    rw [List.lookup_append, Option.or_eq_some_iff] at h
    obtain h | ⟨-, h⟩ := h
    · exact .inl h
    · rw [List.lookup_cons] at h
      split at h
      · obtain ⟨rfl, rfl⟩ := Prod.mk.inj (eq_of_beq ‹_›)
        exact .inr ⟨rfl, rfl, (Option.some.inj h).symm⟩
      · cases h
  have hold {y t : String} (h : s.seen.lookup (c, y) = some t) :
      t ≠ textOf c x (s.counters c + 1) := by
    intro heq
    obtain ⟨n, hn, rfl⟩ := hs.text c y t h
    have := textOf_inj heq
    omega
  constructor
  · intro c' y t h
    obtain h | ⟨rfl, rfl, rfl⟩ := hlookup h
    · obtain ⟨n, hn, rfl⟩ := hs.text c' y t h
      refine ⟨n, ?_, rfl⟩
      by_cases hc : c' = c
      · subst hc
        simp only [Function.update_self]
        omega
      · simpa only [Function.update_of_ne hc] using hn
    · exact ⟨_, by simp only [Function.update_self]; omega, rfl⟩
  · intro c' y z t hy hz
    obtain hyold | ⟨rfl, rfl, rfl⟩ := hlookup hy
    · obtain hzold | ⟨rfl, rfl, rfl⟩ := hlookup hz
      · exact hs.distinct c' y z t hyold hzold
      · exact absurd rfl (hold hyold)
    · obtain hzold | ⟨-, rfl, -⟩ := hlookup hz
      · exact absurd rfl (hold hzold)
      · rfl

theorem grows_numbered (c : Category) (x : String) :
    Grows (Scrubber.Kept paths) (fun _ => True) (numbered c x (textOf c x))
      fun t s => s.seen.lookup (c, x) = some t := by
  intro s hs _
  unfold numbered
  split
  · exact ⟨hs, le_refl s, ‹_›⟩
  · have hle : s ≤ { s with
        counters := Function.update s.counters c (s.counters c + 1)
        seen := s.seen ++ [((c, x), textOf c x (s.counters c + 1))] } := by
      intro entry t h
      rw [List.lookup_append, h]
      rfl
    refine ⟨⟨hs.numbered.insert ‹_›, fun e he => ?_⟩, hle, ?_⟩
    · obtain ⟨o, ho, hproper, hpath⟩ := hs.rebuilt e he
      exact ⟨o, ho, hproper, hpath.mono hle⟩
    · simp only [List.lookup_append, ‹s.seen.lookup (c, x) = none›]
      simp

theorem grows_label {c : Category} (hc : c ≠ .path) (x : String) :
    Grows (Scrubber.Kept paths) (fun _ => True) (label c x) fun t s => Known s c x t := by
  unfold label Known
  split
  · exact Grows.pure fun _ _ _ => rfl
  · have htext : labelText c = textOf c x := by cases c <;> first | rfl | exact absurd rfl hc
    rw [htext]
    exact grows_numbered c x

/-! ## Rebuilt paths -/

/-- The same siblings, one with the pseudonyms. -/
structure SiblingsTo (s : Scrubber) (around around' : Siblings) : Prop where
  artist : Option.Rel (Known s .artist) around.artist around'.artist
  album : Option.Rel (Known s .album) around.album around'.album
  title : Option.Rel (Known s .title) around.title around'.title
  name : Option.Rel (Known s .name) around.name around'.name
  trackno : around'.trackno = around.trackno

inductive OriginTo (s : Scrubber) : Origin → Origin → Prop where
  | track {artist album title artist' album' title' : String} (trackno : Int) (ext : String)
    (hartist : Known s .artist artist artist') (halbum : Known s .album album album')
    (htitle : Known s .title title title') :
    OriginTo s (.track artist album title trackno ext) (.track artist' album' title' trackno ext)
  | media {name name' : String} (ext : String) (hname : Known s .name name name') :
    OriginTo s (.media name ext) (.media name' ext)
  | token (p : String) : OriginTo s (.token p (extensionOf p)) (.token p (extensionOf p))

theorem originTo_media {s : Scrubber} (hs : s.Numbered) {around around' : Siblings}
    (h : SiblingsTo s around around') (p : String) :
    OriginTo s (around.media p) (around'.media p) := by
  have hname := h.name
  unfold Siblings.media
  cases hn : around.name with
  | none =>
    rw [hn] at hname
    cases hn' : around'.name with
    | none => exact .token p
    | some name' => rw [hn'] at hname; cases hname
  | some name =>
    rw [hn] at hname
    cases hn' : around'.name with
    | none => rw [hn'] at hname; cases hname
    | some name' =>
      rw [hn'] at hname
      cases hname with
      | some hname =>
        by_cases hempty : name = ""
        · simp only [hempty, (hname.eq_empty hs).mpr hempty, ne_eq, not_true, if_false]
          exact .token p
        · have hempty' := mt (hname.eq_empty hs).mp hempty
          simp only [ne_eq, hempty, hempty', not_false_eq_true, if_true]
          exact .media _ hname

theorem originTo_origin {s : Scrubber} (hs : s.Numbered) {around around' : Siblings}
    (h : SiblingsTo s around around') (p : String) :
    OriginTo s (around.origin p) (around'.origin p) := by
  have hmedia := originTo_media hs h p
  obtain ⟨artist, album, title, name, trackno⟩ := around
  obtain ⟨artist', album', title', name', trackno'⟩ := around'
  obtain ⟨hartist, halbum, htitle, hname, htrackno⟩ := h
  simp only at hartist halbum htitle htrackno
  subst htrackno
  unfold Siblings.origin
  cases hartist with
  | none => exact hmedia
  | @some a a' ha =>
    cases halbum with
    | none => exact hmedia
    | @some al al' hal =>
      cases htitle with
      | none => exact hmedia
      | @some ti ti' hti =>
        have hempty : (a' ≠ "" ∧ ti' ≠ "") ↔ (a ≠ "" ∧ ti ≠ "") := by
          rw [ne_eq, ne_eq, ha.eq_empty hs, hti.eq_empty hs]
        simp only [hempty]
        split
        · exact .track _ _ ha hal hti
        · exact hmedia

theorem grows_path (o o' : Origin) :
    Grows (Scrubber.Kept paths) (fun s => OriginTo s o o') o'.path fun t s => PathOf s o t := by
  intro s hs ho
  cases ho with
  | track trackno ext hartist halbum htitle =>
    exact ⟨hs, le_refl s, _, _, _, hartist, halbum, htitle, rfl⟩
  | media ext hname => exact ⟨hs, le_refl s, _, hname, rfl⟩
  | token p => exact grows_numbered .path p s hs trivial

theorem grows_rebuild (around around' : Siblings) {p : String}
    (hp : (p, around.origin p) ∈ paths) :
    Grows (Scrubber.Kept paths) (fun s => SiblingsTo s around around') (rebuild around' p)
      fun t s => PathOf s (around.origin p) t := by
  intro s hs haround
  obtain ⟨hs', hle, hpath⟩ := grows_path _ _ s hs (originTo_origin hs.numbered haround p)
  have hnumbered := hs'.numbered
  refine ⟨⟨⟨hnumbered.text, hnumbered.distinct⟩, fun e he => ?_⟩, hle,
    hpath.mono fun _ _ h => h⟩
  obtain he | he := List.mem_append.mp he
  · obtain ⟨o, ho, hproper, ht⟩ := hs'.rebuilt e he
    exact ⟨o, ho, hproper, ht.mono fun _ _ h => h⟩
  · obtain rfl := List.mem_singleton.mp he
    exact ⟨_, hp, proper_origin around p, hpath.mono fun _ _ h => h⟩

theorem rel_mono {s s' : Scrubber} (h : s ≤ s') {c : Category} {x x' : Option String}
    (hx : Option.Rel (Known s c) x x') : Option.Rel (Known s' c) x x' := by
  cases hx with
  | some hx => exact .some (hx.mono h)
  | none => exact .none

theorem SiblingsTo.mono {s s' : Scrubber} (h : s ≤ s') {around around' : Siblings}
    (haround : SiblingsTo s around around') : SiblingsTo s' around around' where
  artist := rel_mono h haround.artist
  album := rel_mono h haround.album
  title := rel_mono h haround.title
  name := rel_mono h haround.name
  trackno := haround.trackno

/-! ## Siblings -/

/-- Only a text is scrubbed to a text. -/
theorem ScrubbedTo.asStr_eq_none {s : Scrubber} {val w : Value} (h : ScrubbedTo s val w)
    (hval : val.asStr = none) : w.asStr = none := by
  cases val with
  | string p => cases hval
  | array items =>
    obtain ⟨items', rfl, -⟩ := h
    rfl
  | object fields =>
    obtain ⟨fields', rfl, -⟩ := h
    rfl
  | _ =>
    obtain rfl : w = _ := h
    rfl

theorem ScrubbedTo.asI64_eq {s : Scrubber} {val w : Value} (h : ScrubbedTo s val w) :
    w.asI64 = val.asI64 := by
  cases val with
  | string p =>
    rw [ScrubbedTo] at h
    split at h
    · obtain ⟨t, rfl, -⟩ := h
      rfl
    · rw [h]
  | array items =>
    obtain ⟨items', rfl, -⟩ := h
    rfl
  | object fields =>
    obtain ⟨fields', rfl, -⟩ := h
    rfl
  | _ =>
    obtain rfl : w = _ := h
    rfl

theorem treatment_category {key : String} {c : Category} (hkey : categoryOf key = some c)
    (hpath : key ∉ pathKeys) (val : Value) :
    (∃ x, val = .string x ∧ treatment key val = .pseudonym c x) ∨
      (val.asStr = none ∧ treatment key val = .scrubbed) := by
  cases val with
  | string x => exact .inl ⟨x, rfl, by simp [treatment, hkey]⟩
  | _ => exact .inr ⟨rfl, by simp [treatment, hkey, hpath]⟩

/-- A text under the key of a category becomes its pseudonym. -/
theorem text_fieldsTo {s : Scrubber} {around : Siblings} {keys : List String} {key : String}
    {c : Category} (hkey : categoryOf key = some c) (hpath : key ∉ pathKeys)
    {fields fields' : List (String × Value)} (h : FieldsTo s around keys fields fields') :
    Option.Rel (Known s c) ((fields.lookup key).bind Value.asStr)
      ((fields'.lookup key).bind Value.asStr) := by
  induction fields generalizing fields' with
  | nil =>
    obtain rfl : fields' = [] := h
    exact .none
  | cons field rest ih =>
    obtain ⟨k, val⟩ := field
    rw [FieldsTo] at h
    obtain ⟨w, rest', rfl, hval, hrest⟩ := h
    rw [List.lookup_cons, List.lookup_cons]
    by_cases hk : key = k
    · subst hk
      simp only [beq_self_eq_true]
      obtain ⟨x, rfl, htreat⟩ | ⟨hnone, htreat⟩ := treatment_category hkey hpath val
      · rw [htreat] at hval
        obtain ⟨t, rfl, ht⟩ := hval
        exact .some ht
      · rw [htreat] at hval
        rw [Option.bind_some, Option.bind_some, hnone, hval.asStr_eq_none hnone]
        exact .none
    · rw [beq_false_of_ne hk]
      exact ih hrest

theorem trackno_fieldsTo {s : Scrubber} {around : Siblings} {keys : List String}
    {fields fields' : List (String × Value)} (h : FieldsTo s around keys fields fields') :
    (fields'.lookup "trackno").bind Value.asI64 = (fields.lookup "trackno").bind Value.asI64 := by
  induction fields generalizing fields' with
  | nil =>
    obtain rfl : fields' = [] := h
    rfl
  | cons field rest ih =>
    obtain ⟨k, val⟩ := field
    rw [FieldsTo] at h
    obtain ⟨w, rest', rfl, hval, hrest⟩ := h
    rw [List.lookup_cons, List.lookup_cons]
    by_cases hk : "trackno" = k
    · subst hk
      have htreat : treatment "trackno" val = .scrubbed := by
        cases val <;> simp [treatment, categoryOf, pathKeys]
      rw [htreat] at hval
      simp only [beq_self_eq_true, Option.bind_some]
      exact hval.asI64_eq
    · rw [beq_false_of_ne hk]
      exact ih hrest

theorem rel_or {s : Scrubber} {c : Category} {x x' y y' : Option String}
    (hx : Option.Rel (Known s c) x x') (hy : Option.Rel (Known s c) y y') :
    Option.Rel (Known s c) (x.or y) (x'.or y') := by
  cases hx with
  | some hx => exact .some hx
  | none => exact hy

theorem siblingsTo {s : Scrubber} {around : Siblings} {keys : List String}
    {fields fields' : List (String × Value)} (h : FieldsTo s around keys fields fields') :
    SiblingsTo s (siblings fields) (siblings fields') where
  artist := rel_or (text_fieldsTo rfl (by decide) h) (text_fieldsTo rfl (by decide) h)
  album := text_fieldsTo rfl (by decide) h
  title := text_fieldsTo rfl (by decide) h
  name := text_fieldsTo rfl (by decide) h
  trackno := congrArg (·.getD 0) (trackno_fieldsTo h)

/-! ## Values -/

/-- What a field has become. -/
def FieldTo (s : Scrubber) (around : Siblings) (keys : List String) (key : String)
    (val w : Value) : Prop :=
  match treatment key val with
  | .pseudonym c x => ∃ t, w = .string t ∧ Known s c x t
  | .left => if key ∈ keys then w = val else PathTo s around val w
  | .scrubbed => ScrubbedTo s val w

theorem fieldsTo_cons {s : Scrubber} {around : Siblings} {keys : List String} {key : String}
    {val : Value} {rest fields' : List (String × Value)} :
    FieldsTo s around keys ((key, val) :: rest) fields' ↔
      ∃ w rest', fields' = (key, w) :: rest' ∧ FieldTo s around keys key val w ∧
        FieldsTo s around keys rest rest' := by
  rw [FieldsTo]
  exact Iff.rfl

theorem FieldTo.mono {s s' : Scrubber} (h : s ≤ s') {around : Siblings} {keys : List String}
    {key : String} {val w : Value} (hval : FieldTo s around keys key val w) :
    FieldTo s' around keys key val w := by
  have hfields : FieldsTo s around keys [(key, val)] [(key, w)] :=
    fieldsTo_cons.mpr ⟨w, [], rfl, hval, rfl⟩
  obtain ⟨w', rest', heq, hval', -⟩ := fieldsTo_cons.mp (hfields.mono h)
  obtain rfl : w = w' := (Prod.mk.inj (List.cons.inj heq).1).2
  exact hval'

/-- A field that is not rebuilt at this key. -/
theorem FieldTo.other {s : Scrubber} {around : Siblings} {key : String} {keys : List String}
    {k : String} {val w : Value} (hk : k ≠ key) (h : FieldTo s around (key :: keys) k val w) :
    FieldTo s around keys k val w := by
  unfold FieldTo at *
  split at h
  · exact h
  · simpa only [List.mem_cons, hk, false_or] using h
  · exact h

theorem grows_rebuildField {around around' : Siblings} {key : String} {keys : List String}
    (hkey : key ∉ keys) (hpath : key ∈ pathKeys) {k : String} {val w : Value}
    (hpaths : treatment k val = .left → ∀ e ∈ pathOfField around val, e ∈ paths) :
    Grows (Scrubber.Kept paths)
      (fun s => FieldTo s around (key :: keys) k val w ∧ SiblingsTo s around around')
      (rebuildField around' key (k, w))
      fun field s => ∃ w', field = (k, w') ∧ FieldTo s around keys k val w' := by
  by_cases hk : k = key
  · subst hk
    cases htreat : treatment k val with
    | pseudonym c x => exact absurd hpath (not_pathKey htreat)
    | scrubbed => exact absurd hpath (not_mem_pathKeys htreat)
    | left =>
      have hstay (s : Scrubber) (h : PathTo s around val w) :
          FieldTo s around keys k val w := by
        rw [FieldTo, htreat]
        simpa only [if_neg hkey] using h
      intro s hs h
      obtain ⟨hw, haround⟩ := h
      rw [FieldTo, htreat] at hw
      simp only [List.mem_cons_self, if_true] at hw
      subst hw
      cases w with
      | string p =>
        by_cases hp : p = ""
        · have hleft : rebuildField around' k (k, .string p) = pure (k, .string p) := by
            simp [rebuildField, hp]
          rw [hleft]
          exact ⟨hs, le_refl s, _, rfl, hstay s (by simp [PathTo, hp])⟩
        · have hrebuilt : rebuildField around' k (k, .string p) =
              (fun synth => (k, Value.string synth)) <$> rebuild around' p := by
            simp [rebuildField, hp]
          rw [hrebuilt]
          have hmem := hpaths htreat (p, around.origin p) (by simp [pathOfField, hp])
          have hto (t : String) (s : Scrubber) (ht : PathOf s (around.origin p) t) :
              FieldTo s around keys k (.string p) (.string t) := by
            rw [FieldTo, htreat]
            simp only [if_neg hkey, PathTo, if_neg hp]
            exact ⟨t, rfl, ht⟩
          obtain ⟨hs', hle, ht⟩ := grows_rebuild around around' hmem s hs haround
          exact ⟨hs', hle, _, rfl, hto _ _ ht⟩
      | _ => exact ⟨hs, le_refl s, _, rfl, hstay s rfl⟩
  · have hleft : rebuildField around' key (k, w) = pure (k, w) := by
      cases w <;> simp [rebuildField, hk]
    rw [hleft]
    exact Grows.pure fun s _ h => ⟨w, rfl, h.1.other hk⟩

/-- One key after the other. -/
theorem grows_rebuildKey {around : Siblings} (around' : Siblings) {key : String}
    {keys : List String} (hkey : key ∉ keys) (hpath : key ∈ pathKeys)
    (fields fields' : List (String × Value))
    (hpaths : ∀ e ∈ pathsOfFields around fields, e ∈ paths) :
    Grows (Scrubber.Kept paths)
      (fun s => FieldsTo s around (key :: keys) fields fields' ∧ SiblingsTo s around around')
      (rebuildKey around' key fields')
      fun rebuilt s => FieldsTo s around keys fields rebuilt := by
  induction fields generalizing fields' with
  | nil =>
    intro s hs h
    obtain rfl : fields' = [] := h.1
    exact ⟨hs, le_refl s, rfl⟩
  | cons field rest ih =>
    obtain ⟨k, val⟩ := field
    intro s hs h
    obtain ⟨hfields, haround⟩ := h
    obtain ⟨w, rest', rfl, hval, hrest⟩ := fieldsTo_cons.mp hfields
    rw [pathsOfFields] at hpaths
    have hleft (htreat : treatment k val = .left) : ∀ e ∈ pathOfField around val, e ∈ paths := by
      intro e he
      rw [htreat] at hpaths
      exact hpaths e (List.mem_append_left _ he)
    obtain ⟨hs₁, hle₁, w', hw', hval'⟩ := grows_rebuildField hkey hpath hleft s hs ⟨hval, haround⟩
    obtain ⟨hs₂, hle₂, hrest'⟩ := ih rest' (fun e he => hpaths e (List.mem_append_right _ he)) _
      hs₁ ⟨hrest.mono hle₁, haround.mono hle₁⟩
    refine ⟨hs₂, le_trans hle₁ hle₂, fieldsTo_cons.mpr ⟨w', _, ?_, hval'.mono hle₂, hrest'⟩⟩
    rw [← hw']
    rfl

theorem grows_rebuildKeys {around around' : Siblings} (keys : List String)
    (hnodup : keys.Nodup) (hpath : ∀ key ∈ keys, key ∈ pathKeys)
    (fields fields' : List (String × Value))
    (hpaths : ∀ e ∈ pathsOfFields around fields, e ∈ paths) :
    Grows (Scrubber.Kept paths)
      (fun s => FieldsTo s around keys fields fields' ∧ SiblingsTo s around around')
      (keys.foldlM (fun rebuilt key => rebuildKey around' key rebuilt) fields')
      fun rebuilt s => FieldsTo s around [] fields rebuilt := by
  induction keys generalizing fields' with
  | nil => exact Grows.pure fun s _ h => h.1
  | cons key keys ih =>
    obtain ⟨hkey, hnodup⟩ := List.nodup_cons.mp hnodup
    rw [List.foldlM_cons]
    have hmono (s s' : Scrubber) (h : s ≤ s') (hs : SiblingsTo s around around') :
        SiblingsTo s' around around' := hs.mono h
    have hstep := (grows_rebuildKey around' hkey (hpath key List.mem_cons_self) fields fields'
      hpaths).frame hmono
    refine (hstep.mono (fun s h => ⟨h, h.2⟩) fun _ _ _ h => h).bind fun rebuilt => ?_
    exact ih hnodup (fun key h => hpath key (List.mem_cons_of_mem _ h)) rebuilt

theorem grows_rebuildPaths (fields fields' : List (String × Value))
    (hpaths : ∀ e ∈ pathsOfFields (siblings fields) fields, e ∈ paths) :
    Grows (Scrubber.Kept paths) (fun s => FieldsTo s (siblings fields) pathKeys fields fields')
      (rebuildPaths fields') fun rebuilt s => FieldsTo s (siblings fields) [] fields rebuilt :=
  (grows_rebuildKeys pathKeys (by decide) (fun _ h => h) fields fields' hpaths).mono
    (fun _ h => ⟨h, siblingsTo h⟩) fun _ _ _ h => h

mutual

/-- **What a value is scrubbed to.** -/
theorem grows_scrubValue (val : Value) (hpaths : ∀ e ∈ pathsOf val, e ∈ paths) :
    Grows (Scrubber.Kept paths) (fun _ => True) (scrubValue val) fun w s => ScrubbedTo s val w := by
  cases val with
  | string p =>
    rw [scrubValue]
    rw [pathsOf] at hpaths
    split
    · rw [if_pos ‹_›] at hpaths
      have haround (s : Scrubber) : SiblingsTo s noSiblings noSiblings :=
        ⟨.none, .none, .none, .none, rfl⟩
      have hrebuild := grows_rebuild noSiblings noSiblings (hpaths _ List.mem_cons_self)
      refine (hrebuild.map fun t s _ ht => ?_).mono (fun s _ => haround s) fun _ _ _ h => h
      rw [ScrubbedTo, if_pos ‹_›]
      exact ⟨t, rfl, ht⟩
    · refine Grows.pure fun s _ _ => ?_
      rw [ScrubbedTo, if_neg ‹_›]
  | array items =>
    rw [scrubValue]
    exact (grows_scrubItems items hpaths).map fun items' s _ h => ⟨items', rfl, h⟩
  | object fields =>
    rw [scrubValue]
    refine (grows_scrubFields (siblings fields) fields hpaths).bind fun fields' => ?_
    exact (grows_rebuildPaths fields fields' hpaths).map fun rebuilt s _ h => ⟨rebuilt, rfl, h⟩
  | _ => exact Grows.pure fun _ _ _ => rfl

theorem grows_scrubItems (items : List Value) (hpaths : ∀ e ∈ pathsOfItems items, e ∈ paths) :
    Grows (Scrubber.Kept paths) (fun _ => True) (scrubItems items)
      fun items' s => ItemsTo s items items' := by
  cases items with
  | nil => exact Grows.pure fun _ _ _ => rfl
  | cons val rest =>
    rw [pathsOfItems] at hpaths
    rw [scrubItems]
    refine (grows_scrubValue val fun e he => hpaths e (List.mem_append_left _ he)).bind
      fun w => ?_
    have hrest := grows_scrubItems rest fun e he => hpaths e (List.mem_append_right _ he)
    have hframe := hrest.frame (F := fun s => ScrubbedTo s val w) fun _ _ h hs => hs.mono h
    exact (hframe.mono (fun s h => ⟨trivial, h⟩) fun _ _ _ h => h).map
      fun rest' s _ h => ⟨w, rest', rfl, h.2, h.1⟩

theorem grows_scrubFields (around : Siblings) (fields : List (String × Value))
    (hpaths : ∀ e ∈ pathsOfFields around fields, e ∈ paths) :
    Grows (Scrubber.Kept paths) (fun _ => True) (scrubFields fields)
      fun fields' s => FieldsTo s around pathKeys fields fields' := by
  match fields with
  | [] => exact Grows.pure fun _ _ _ => rfl
  | (key, val) :: rest =>
    rw [pathsOfFields] at hpaths
    rw [scrubFields]
    have hfield : Grows (Scrubber.Kept paths) (fun _ => True)
        ((treatment key val).run val (scrubValue val))
        fun w s => FieldTo s around pathKeys key val w := by
      unfold FieldTo
      cases htreat : treatment key val with
      | pseudonym c x =>
        exact (grows_label (category_ne_path htreat) x).map fun t s _ ht => ⟨t, rfl, ht⟩
      | left => exact Grows.pure fun _ _ _ => if_pos (mem_pathKeys htreat) ▸ rfl
      | scrubbed =>
        rw [htreat] at hpaths
        exact grows_scrubValue val fun e he => hpaths e (List.mem_append_left _ he)
    refine hfield.bind fun w => ?_
    have hrest := grows_scrubFields around rest fun e he => hpaths e (List.mem_append_right _ he)
    have hframe := hrest.frame (F := fun s => FieldTo s around pathKeys key val w)
      fun _ _ h hs => hs.mono h
    exact (hframe.mono (fun s h => ⟨trivial, h⟩) fun _ _ _ h => h).map
      fun rest' s _ h => fieldsTo_cons.mpr ⟨w, rest', rfl, h.2, h.1⟩

end

end Mbrc.Capture
