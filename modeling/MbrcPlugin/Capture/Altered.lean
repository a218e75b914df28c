import MbrcPlugin.Capture.Renaming
import MbrcPlugin.Capture.ScrubbedTo

/-!
# Frames that change

The raw text of a frame is written again when its data changed.  Data that holds a string or an
array the scrubber never lets through always changes (`altered_of_rewritten`).
-/

namespace Mbrc.Capture

def Starts (start s : String) : Prop := ∃ rest, s = start ++ rest

/-- A path that is none of those the scrubber builds. -/
def PathRewritten : Value → Prop
  | .string p => p ≠ "" ∧ ¬ Starts "\\\\host\\m" p
  | _ => False

mutual

/-- Data that the scrubber cannot leave as it is. -/
def Rewritten : Value → Prop
  | .string p => looksLikePath p = true ∧ ¬ Starts "\\\\host\\m" p
  | .array items => maxArrayLen < items.length ∨ RewrittenItems items
  | .object fields => RewrittenFields fields
  | _ => False

def RewrittenItems : List Value → Prop
  | [] => False
  | val :: rest => Rewritten val ∨ RewrittenItems rest

def RewrittenFields : List (String × Value) → Prop
  | [] => False
  | (key, val) :: rest =>
    (match treatment key val with
    | .pseudonym c x => x ≠ "" ∧ ¬ Starts (c.display ++ " ") x
    | .left => PathRewritten val
    | .scrubbed => Rewritten val) ∨ RewrittenFields rest

end

theorem starts_path {s : Scrubber} (hs : s.Numbered) {o : Origin} {t : String}
    (h : PathOf s o t) : Starts "\\\\host\\m" t := by
  have hassoc (start next rest : String) : start ++ next ++ rest = start ++ (next ++ rest) :=
    String.append_assoc
  cases o with
  | track artist album title n ext =>
    obtain ⟨artist', album', title', -, -, -, rfl⟩ := h
    obtain ⟨rest, hrest⟩ := trackPath_start artist' album' title' ext n
    exact ⟨_, hrest.trans (hassoc "\\\\host\\m" "usic\\" rest)⟩
  | media name ext =>
    obtain ⟨name', -, rfl⟩ := h
    obtain ⟨rest, hrest⟩ := mediaPath_start name' ext
    exact ⟨_, hrest.trans (hassoc "\\\\host\\m" "edia\\" rest)⟩
  | token p ext =>
    obtain ⟨n, rfl⟩ := exists_token hs h
    obtain ⟨rest, hrest⟩ := tokenPath_start (extensionOf p) n
    exact ⟨_, hrest.trans (hassoc "\\\\host\\m" "edia\\item-" rest)⟩

@[simp] theorem truncateArrays_string (p : String) :
    truncateArrays (.string p) = .string p := by
  simp [truncateArrays]

theorem treatment_truncate (key : String) (val : Value) :
    treatment key (truncateArrays val) = treatment key val := by
  unfold treatment
  cases categoryOf key <;> cases val <;> simp [truncateArrays]

theorem length_itemsTo {s : Scrubber} {items items' : List Value} (h : ItemsTo s items items') :
    items'.length = items.length := by
  induction items generalizing items' with
  | nil => rw [show items' = [] from h]
  | cons val rest ih =>
    obtain ⟨w, rest', rfl, -, hrest⟩ := h
    rw [List.length_cons, List.length_cons, ih hrest]

theorem length_truncateItems (items : List Value) :
    (truncateItems items).length = items.length := by
  induction items with
  | nil => rfl
  | cons val rest ih => rw [truncateItems, List.length_cons, List.length_cons, ih]

mutual

theorem altered_of_rewritten {s : Scrubber} (hs : s.Numbered) (val : Value) (h : Rewritten val) :
    ¬ ScrubbedTo s (truncateArrays val) val := by
  cases val with
  | string p =>
    intro hto
    rw [truncateArrays_string, ScrubbedTo, if_pos h.1] at hto
    obtain ⟨t, ht, hpath⟩ := hto
    obtain rfl := Value.string.inj ht
    exact h.2 (starts_path hs hpath)
  | array items =>
    intro hto
    rw [truncateArrays, ScrubbedTo] at hto
    obtain ⟨items', heq, hitems⟩ := hto
    obtain rfl := Value.array.inj heq
    have hlength := length_itemsTo hitems
    rw [List.length_take, length_truncateItems] at hlength
    obtain h | h := h
    · omega
    · rw [List.take_of_length_le (by rw [length_truncateItems]; omega)] at hitems
      exact altered_items hs items h hitems
  | object fields =>
    intro hto
    rw [truncateArrays, ScrubbedTo] at hto
    obtain ⟨fields', heq, hfields⟩ := hto
    obtain rfl := Value.object.inj heq
    exact altered_fields hs _ fields h hfields
  | _ => exact absurd h id

theorem altered_items {s : Scrubber} (hs : s.Numbered) (items : List Value)
    (h : RewrittenItems items) : ¬ ItemsTo s (truncateItems items) items := by
  cases items with
  | nil => exact absurd h id
  | cons val rest =>
    rintro ⟨w, rest', heq, hval, hrest⟩
    obtain ⟨rfl, rfl⟩ := List.cons.inj heq
    obtain h | h := h
    · exact altered_of_rewritten hs val h hval
    · exact altered_items hs rest h hrest

theorem altered_fields {s : Scrubber} (hs : s.Numbered) (around : Siblings)
    (fields : List (String × Value)) (h : RewrittenFields fields) :
    ¬ FieldsTo s around [] (truncateFields fields) fields := by
  match fields with
  | [] => exact absurd h id
  | (key, val) :: rest =>
    intro hto
    rw [truncateFields, fieldsTo_cons] at hto
    obtain ⟨w, rest', heq, hval, hrest⟩ := hto
    obtain ⟨hfield, rfl⟩ := List.cons.inj heq
    obtain rfl := (Prod.mk.inj hfield).2
    rw [RewrittenFields] at h
    obtain h | h := h
    · rw [FieldTo, treatment_truncate] at hval
      cases htreat : treatment key val with
      | pseudonym c x =>
        rw [htreat] at h hval
        obtain ⟨t, ht, hknown⟩ := hval
        obtain ⟨n, rfl⟩ := hknown.exists_label hs (category_ne_path htreat) h.1
        have hx : val = .string x := by
          unfold treatment at htreat
          split at htreat
          · rw [(Treatment.pseudonym.inj htreat).2]
          · split at htreat <;> cases htreat
        rw [hx] at ht
        obtain rfl := Value.string.inj ht
        exact h.2 ⟨toString n, rfl⟩
      | left =>
        rw [htreat] at h hval
        simp only [List.not_mem_nil, if_false] at hval
        cases val with
        | string p =>
          rw [truncateArrays_string, PathTo] at hval
          simp only [if_neg h.1] at hval
          obtain ⟨t, ht, hpath⟩ := hval
          obtain rfl := Value.string.inj ht
          exact h.2 (starts_path hs hpath)
        | _ => exact absurd h id
      | scrubbed =>
        rw [htreat] at h hval
        exact altered_of_rewritten hs val h hval
    · exact altered_fields hs around rest h hrest

end

/-! ## Placeholders -/

section Placeholders

variable {s : Scrubber} {field replacement : String} {threshold : Nat}

theorem rewriteText_eq (hreplacement : looksLikePath replacement = false) {t : String}
    (h : ScrubbedTo s (.string (rewriteText replacement threshold t)) (.string t)) :
    rewriteText replacement threshold t = t := by
  unfold rewriteText at *
  split
  · rw [if_pos ‹_›, ScrubbedTo, hreplacement, if_neg Bool.false_ne_true] at h
    exact (Value.string.inj h).symm
  · rfl

theorem rewriteField_eq (hcategory : categoryOf field = none) (hpath : field ∉ pathKeys)
    (hreplacement : looksLikePath replacement = false) {around : Siblings} {key : String}
    {val : Value} (h : FieldTo s around [] key
      (truncateArrays (rewriteField field replacement threshold (key, val)).2) val) :
    rewriteField field replacement threshold (key, val) = (key, val) := by
  cases val with
  | string t =>
    unfold rewriteField at *
    simp only at *
    split
    · rename_i hkey
      subst hkey
      rw [if_pos rfl] at h
      have htreat (t : String) : treatment key (.string t) = .scrubbed := by
        simp [treatment, hcategory, hpath]
      rw [truncateArrays_string, FieldTo, htreat] at h
      rw [rewriteText_eq hreplacement h]
    · rfl
  | _ => rfl

/-- Where nothing changed, no text was put in. -/
theorem rewriteLong_eq (hcategory : categoryOf field = none) (hpath : field ∉ pathKeys)
    (hreplacement : looksLikePath replacement = false) {data : Value}
    (h : ScrubbedTo s (truncateArrays (rewriteLong field replacement threshold data)) data) :
    rewriteLong field replacement threshold data = data := by
  cases data with
  | string t =>
    rw [rewriteLong, truncateArrays_string] at h
    rw [rewriteLong, rewriteText_eq hreplacement h]
  | object fields =>
    rw [rewriteLong, truncateArrays, ScrubbedTo] at h
    obtain ⟨fields', heq, hfields⟩ := h
    obtain rfl := Value.object.inj heq
    rw [rewriteLong]
    refine congrArg Value.object ?_
    generalize siblings _ = around at hfields
    clear heq
    induction fields with
    | nil => rfl
    | cons entry rest ih =>
      obtain ⟨key, val⟩ := entry
      have hkey : (rewriteField field replacement threshold (key, val)).1 = key := by
        unfold rewriteField
        split
        · split <;> simp_all
        · rfl
      rw [List.map_cons] at hfields ⊢
      generalize hentry : rewriteField field replacement threshold (key, val) = entry at *
      obtain ⟨k, w⟩ := entry
      simp only at hkey
      subst hkey
      rw [truncateFields, fieldsTo_cons] at hfields
      obtain ⟨w', rest', heq, hval, hrest⟩ := hfields
      obtain ⟨hfield, rfl⟩ := List.cons.inj heq
      obtain rfl := (Prod.mk.inj hfield).2
      have hsame : rewriteField field replacement threshold (k, val) = (k, val) :=
        rewriteField_eq hcategory hpath hreplacement (by rw [hentry]; exact hval)
      rw [ih hrest, ← hentry, hsame]
  | _ => rfl

end Placeholders

/-- A text without a backslash or a colon. -/
def Unmarked (s : String) : Prop := ∀ c ∈ s.toList, c ≠ '\\' ∧ c ≠ ':'

theorem unmarked_ofList {cs : List Char} (h : cs.all (fun c => c != '\\' && c != ':') = true) :
    Unmarked (String.ofList cs) := by
  intro c hc
  rw [String.toList_ofList] at hc
  simpa using List.all_eq_true.mp h c hc

theorem Unmarked.append {s t : String} (hs : Unmarked s) (ht : Unmarked t) :
    Unmarked (s ++ t) := by
  intro c hc
  rw [String.toList_append] at hc
  exact (List.mem_append.mp hc).elim (hs c) (ht c)

theorem not_looksLikePath {s : String} (h : Unmarked s) : looksLikePath s = false := by
  have hslash : '\\' ∉ s.toList := fun hmem => (h _ hmem).1 rfl
  have hcolon : ':' ∉ s.toList := fun hmem => (h _ hmem).2 rfl
  have hurl : ¬ "://".toList <:+: s.toList := by
    rintro ⟨before, after, heq⟩
    exact hcolon (by simp [← heq])
  unfold looksLikePath
  rw [decide_eq_false hslash, decide_eq_false hurl]
  split
  · rename_i heq
    exact absurd (by simp [heq]) hcolon
  · rfl

theorem png_no_path : looksLikePath placeholderPng = false :=
  not_looksLikePath (unmarked_ofList (by decide +kernel))

theorem lyrics_no_path : looksLikePath placeholderLyrics = false :=
  not_looksLikePath (((unmarked_ofList (by decide +kernel)).append
    (unmarked_ofList (by decide +kernel))).append (unmarked_ofList (by decide +kernel)))

/-- **Data that is rewritten changes**, whatever the frame is about. -/
theorem altered {s : Scrubber} (hs : s.Numbered) (context : Option String) {data : Value}
    (h : Rewritten data) : ¬ ScrubbedTo s (truncateArrays (rewriteFor context data)) data := by
  intro hto
  have heq : rewriteFor context data = data := by
    unfold rewriteFor at *
    split at hto
    · exact rewriteLong_eq rfl (by decide) png_no_path hto
    · exact rewriteLong_eq rfl (by decide) png_no_path hto
    · exact rewriteLong_eq rfl (by decide) lyrics_no_path hto
    · rfl
  rw [heq] at hto
  exact altered_of_rewritten hs data h hto

end Mbrc.Capture
