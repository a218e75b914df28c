import MbrcPlugin.Capture.Altered

/-!
# Frames of two libraries

Two frames that differ by a renaming of the strings that are covered are rewritten to the same frame
(`rewritten_alike`), and nothing else of a frame tells them apart.
-/

namespace Mbrc.Capture

open StateLogic

variable {f : Renaming}

/-! ## What a renaming leaves -/

theorem lookup_renameFields (fields : List (String × Value)) (key : String) :
    (renameFields f fields).lookup key = (fields.lookup key).map (rename f) := by
  induction fields with
  | nil => rfl
  | cons field rest ih =>
    obtain ⟨k, val⟩ := field
    rw [renameFields, List.lookup_cons, List.lookup_cons, ih]
    by_cases hk : key = k
    · simp [hk]
    · rw [beq_false_of_ne hk]

theorem get_rename (val : Value) (key : String) :
    (rename f val).get key = (val.get key).map (rename f) := by
  cases val with
  | object fields =>
    rw [rename, Value.get, Value.get, lookup_renameFields]
  | _ => simp [rename, Value.get]

theorem asI64_rename (val : Value) : (rename f val).asI64 = val.asI64 := by
  cases val <;> simp [rename, Value.asI64]

mutual

theorem truncate_rename (val : Value) :
    truncateArrays (rename f val) = rename f (truncateArrays val) := by
  cases val with
  | array items =>
    rw [rename, truncateArrays, truncateArrays, rename, truncateItems_rename items]
    generalize truncateItems items = items
    congr 1
    generalize maxArrayLen = n
    induction items generalizing n with
    | nil => cases n <;> rfl
    | cons val rest ih =>
      cases n with
      | zero => rfl
      | succ n => rw [List.take_succ_cons, renameItems, renameItems, List.take_succ_cons, ih]
  | object fields =>
    rw [rename, truncateArrays, truncateArrays, rename, truncateFields_rename fields]
  | _ => simp [rename, truncateArrays]

theorem truncateItems_rename (items : List Value) :
    truncateItems (renameItems f items) = renameItems f (truncateItems items) := by
  cases items with
  | nil => rfl
  | cons val rest =>
    rw [renameItems, truncateItems, truncateItems, renameItems, truncate_rename val,
      truncateItems_rename rest]

theorem truncateFields_rename (fields : List (String × Value)) :
    truncateFields (renameFields f fields) = renameFields f (truncateFields fields) := by
  match fields with
  | [] => rfl
  | (key, val) :: rest =>
    rw [renameFields, truncateFields, truncateFields, renameFields, truncate_rename val,
      truncateFields_rename rest]

end

mutual

theorem shapeOnly_rename (val : Value) : shapeOnly (rename f val) = shapeOnly val := by
  match val with
  | .array [] => simp [rename, renameItems, shapeOnly]
  | .array (item :: rest) =>
    rw [rename, renameItems, shapeOnly, shapeOnly, shapeOnly_rename item]
  | .object fields => rw [rename, shapeOnly, shapeOnly, fieldShapes_rename fields]
  | .null | .bool _ | .number _ | .string _ => simp [rename, shapeOnly]

theorem fieldShapes_rename (fields : List (String × Value)) :
    fieldShapes (renameFields f fields) = fieldShapes fields := by
  match fields with
  | [] => rfl
  | (key, val) :: rest =>
    rw [renameFields, fieldShapes, fieldShapes, shapeOnly_rename val, fieldShapes_rename rest]

end

/-! ## Long texts -/

/-- The texts that are looked at for their length. -/
def longTexts (field : String) : Value → List String
  | .string s => [s]
  | .object fields => fields.filterMap fun
    | (key, .string s) => if key = field then some s else none
    | _ => none
  | _ => []

/-- The renaming makes no text longer or shorter than the most that is kept. -/
def LongAlike (f : Renaming) (field : String) (threshold : Nat) (data : Value) : Prop :=
  ∀ s ∈ longTexts field data, threshold < (f.name s).utf8ByteSize ↔ threshold < s.utf8ByteSize

/-- The texts of a kind of frame that are never kept. -/
def LongCovered (f : Renaming) (context : Option String) : Value → Prop :=
  match context with
  | some "libraryalbumcover" | some "nowplayingcover" => LongAlike f "cover" 200
  | some "nowplayinglyrics" => LongAlike f "lyrics" 80
  | _ => fun _ => True

theorem rewriteText_rename {replacement : String} (hreplacement : f.name replacement = replacement)
    {threshold : Nat} {s : String}
    (h : threshold < (f.name s).utf8ByteSize ↔ threshold < s.utf8ByteSize) :
    rewriteText replacement threshold (f.name s) =
      f.name (rewriteText replacement threshold s) := by
  unfold rewriteText
  simp only [h]
  split
  · exact hreplacement.symm
  · rfl

theorem rewriteLong_rename {field replacement : String}
    (hreplacement : f.name replacement = replacement) {threshold : Nat} {data : Value}
    (h : LongAlike f field threshold data) :
    rewriteLong field replacement threshold (rename f data) =
      rename f (rewriteLong field replacement threshold data) := by
  cases data with
  | string s =>
    rw [rename, rewriteLong, rewriteLong, rename,
      rewriteText_rename hreplacement (h s List.mem_cons_self)]
  | object fields =>
    rw [rename, rewriteLong, rewriteLong, rename]
    refine congrArg Value.object ?_
    induction fields with
    | nil => rfl
    | cons entry rest ih =>
      obtain ⟨key, val⟩ := entry
      have hrest : LongAlike f field threshold (.object rest) := by
        intro s hs
        refine h s ?_
        rw [longTexts, List.filterMap_cons] at *
        split
        · exact hs
        · exact List.mem_cons_of_mem _ hs
      have hentry : rewriteField field replacement threshold (key, rename f val) =
          ((key, rename f (rewriteField field replacement threshold (key, val)).2)) := by
        cases val with
        | string s =>
          simp only [rename, rewriteField]
          split
          · have hs : s ∈ longTexts field (.object ((key, .string s) :: rest)) := by
              rw [longTexts, List.filterMap_cons]
              simp [‹key = field›]
            simp only [rename, rewriteText_rename hreplacement (h s hs)]
          · simp only [rename]
        | _ => simp [rename, rewriteField]
      have hkey : (rewriteField field replacement threshold (key, val)).1 = key := by
        unfold rewriteField
        split
        · split <;> simp_all
        · rfl
      rw [renameFields, List.map_cons, List.map_cons, ih hrest, hentry]
      generalize rewriteField field replacement threshold (key, val) = entry at *
      obtain ⟨k, w⟩ := entry
      simp only at hkey
      rw [renameFields, hkey]
  | _ => simp [rename, rewriteLong]

theorem rewriteFor_rename {context : Option String} {data : Value}
    (h : LongCovered f context data) :
    rewriteFor context (rename f data) = rename f (rewriteFor context data) := by
  unfold LongCovered at h
  unfold rewriteFor
  split
  · exact rewriteLong_rename f.name_png h
  · exact rewriteLong_rename f.name_png h
  · exact rewriteLong_rename f.name_lyrics h
  · rfl

/-! ## Fields -/

theorem lookup_setEntry_of_ne {key k : String} (h : k ≠ key) (val : Value)
    (fields : List (String × Value)) :
    (setEntry key val fields).lookup k = fields.lookup k := by
  induction fields with
  | nil => rfl
  | cons field rest ih =>
    obtain ⟨k', w⟩ := field
    rw [setEntry]
    split
    · subst ‹k' = key›
      rw [List.lookup_cons, List.lookup_cons, beq_false_of_ne h]
    · rw [List.lookup_cons, List.lookup_cons, ih]

theorem get_setField_of_ne {key k : String} (h : k ≠ key) (val frame : Value) :
    (setField key val frame).get k = frame.get k := by
  cases frame with
  | object fields => exact lookup_setEntry_of_ne h val fields
  | _ => rfl

theorem setField_setField (key : String) (val w frame : Value) :
    setField key val (setField key w frame) = setField key val frame := by
  cases frame with
  | object fields =>
    rw [setField, setField, setField]
    refine congrArg Value.object ?_
    induction fields with
    | nil => rfl
    | cons field rest ih =>
      obtain ⟨k, v⟩ := field
      by_cases hk : k = key
      · simp [setEntry, hk]
      · simp [setEntry, hk, ih]
  | _ => rfl

theorem setField_get {key : String} {val frame : Value} (h : frame.get key = some val) :
    setField key val frame = frame := by
  cases frame with
  | object fields =>
    rw [setField]
    refine congrArg Value.object ?_
    rw [Value.get] at h
    induction fields with
    | nil => rfl
    | cons field rest ih =>
      obtain ⟨k, v⟩ := field
      rw [List.lookup_cons] at h
      by_cases hk : key = k
      · subst hk
        simp only [beq_self_eq_true, Option.some.injEq] at h
        rw [setEntry, if_pos rfl, h]
      · rw [beq_false_of_ne hk] at h
        rw [setEntry, if_neg (Ne.symm hk), ih h]
  | _ => cases h

/-! ## Frames -/

/-- The same frame with the strings renamed, whatever its raw text. -/
def FrameRenamed (f : Renaming) (r r' : Frame) : Prop :=
  r' = { r with raw := r'.raw, frame := r.frame.map (rename f) }

/-- The raw text does not outlast the scrubbing. -/
def Rederived (r : Frame) : Prop :=
  ∀ frame data, r.frame = some frame → r.data = some data →
    r.raw = frame.render ∨ Rewritten data

/-- No library string of a frame is kept: none stands beside the data, those in the data are
covered, and the raw text does not outlast the scrubbing. -/
def FrameCovered (f : Renaming) (r r' : Frame) : Prop :=
  match r.frame, r.data with
  | some frame, some data => rename f frame = setField "data" (rename f data) frame ∧
      LongCovered f r.context data ∧ Covered f (truncateArrays (rewriteFor r.context data)) ∧
      ((rename f data = data ∧ r'.raw = r.raw) ∨ (Rederived r ∧ Rederived r'))
  | some frame, none => rename f frame = frame ∧ r'.raw = r.raw
  | none, _ => r'.raw = r.raw

section Alike

variable {r r' : Frame} (hren : FrameRenamed f r r')

include hren

theorem frame_renamed : r'.frame = r.frame.map (rename f) := by rw [hren]

theorem data_renamed : r'.data = r.data.map (rename f) := by
  unfold Frame.data
  rw [frame_renamed hren]
  cases r.frame with
  | none => rfl
  | some frame => exact get_rename frame "data"

theorem context_renamed (hcov : FrameCovered f r r') : r'.context = r.context := by
  unfold Frame.context
  rw [frame_renamed hren]
  unfold FrameCovered at hcov
  cases hr : r.frame with
  | none => rfl
  | some frame =>
    rw [hr] at hcov
    cases hd : r.data with
    | none =>
      rw [hd] at hcov
      rw [Option.map_some, hcov.1]
    | some data =>
      rw [hd] at hcov
      rw [Option.map_some, hcov.1, Option.bind_some, get_setField_of_ne (by decide),
        Option.bind_some]

end Alike

/-- The scrubbers of two runs. -/
structure SameRuns (f : Renaming) (s t : Scrubber) : Prop where
  numbers : SameNumbers f s t
  left : s.Kept Set.univ
  right : t.Kept Set.univ

theorem sameRuns_start (f : Renaming) : SameRuns f {} {} where
  numbers := ⟨rfl, rfl⟩
  left := kept_start _
  right := kept_start _

/-- What a frame is rewritten to, where it has data. -/
theorem rewritePlaceholders_eq {r : Frame} {frame data : Value} (hframe : r.frame = some frame)
    (hdata : r.data = some data) (s : Scrubber) :
    rewritePlaceholders r s =
      let (scrubbed, s') := scrubValue (truncateArrays (rewriteFor r.context data)) s
      ({ r with
        frame := some (setField "data" scrubbed frame)
        raw := if scrubbed.same data then r.raw else (setField "data" scrubbed frame).render },
        s') := by
  unfold rewritePlaceholders
  rw [hframe, hdata]
  rfl

theorem rewritePlaceholders_none {r : Frame} (h : r.frame = none ∨ r.data = none) :
    rewritePlaceholders r = pure r := by
  unfold rewritePlaceholders
  split
  · rename_i hframe hdata
    obtain h | h := h
    · rw [hframe] at h
      cases h
    · rw [hdata] at h
      cases h
  · rfl

/-- Where the data did not change, the raw text is that of the frame. -/
theorem raw_of_rederived {r : Frame} (h : Rederived r) {frame data : Value}
    (hframe : r.frame = some frame) (hdata : r.data = some data) {s : Scrubber}
    (hs : s.Numbered) {scrubbed : Value}
    (hto : ScrubbedTo s (truncateArrays (rewriteFor r.context data)) scrubbed) :
    (if scrubbed.same data then r.raw else (setField "data" scrubbed frame).render) =
      (setField "data" scrubbed frame).render := by
  split
  · obtain rfl := (Value.same_iff _ _).mp ‹_›
    have hget : frame.get "data" = some scrubbed := by
      rw [Frame.data, hframe] at hdata
      exact hdata
    obtain h | h := h frame scrubbed hframe hdata
    · rw [setField_get hget, h]
    · exact absurd hto (altered hs r.context h)
  · rfl

/-- **Two frames of two libraries are rewritten to one.** -/
theorem rewritten_alike {r r' : Frame} (hren : FrameRenamed f r r')
    (hcov : FrameCovered f r r') :
    Agree (SameRuns f) Eq (rewritePlaceholders r) (rewritePlaceholders r') := by
  have hframe := frame_renamed hren
  have hdata := data_renamed hren
  have hcontext := context_renamed hren hcov
  have hsame (hraw : r'.raw = r.raw) (hleft : r.frame.map (rename f) = r.frame) : r' = r :=
    hren.trans (by rw [hraw, hleft])
  unfold FrameCovered at hcov
  cases hr : r.frame with
  | none =>
    rw [hr] at hframe hcov
    rw [hsame hcov (by rw [hr]; rfl), rewritePlaceholders_none (.inl hr)]
    exact .pure rfl
  | some frame =>
    cases hd : r.data with
    | none =>
      rw [hr, hd] at hcov
      rw [hsame hcov.2 (by rw [hr, Option.map_some, hcov.1]), rewritePlaceholders_none (.inr hd)]
      exact .pure rfl
    | some data =>
      rw [hr, hd] at hcov
      rw [hr] at hframe
      rw [hd] at hdata
      obtain ⟨hbeside, hlong, hcovered, hraw⟩ := hcov
      intro s t h
      rw [rewritePlaceholders_eq hr hd, rewritePlaceholders_eq hframe hdata, hcontext,
        rewriteFor_rename hlong, truncate_rename]
      obtain ⟨heq, hnumbers⟩ := agree_scrubValue f _ hcovered s t h.numbers
      obtain ⟨hleft, -, hto⟩ := grows_scrubValue _ (fun _ _ => Set.mem_univ _) s h.left trivial
      obtain ⟨hright, -, hto'⟩ := grows_scrubValue (rename f (truncateArrays
        (rewriteFor r.context data))) (fun _ _ => Set.mem_univ _) t h.right trivial
      generalize scrubValue (truncateArrays (rewriteFor r.context data)) s = out at *
      generalize scrubValue (rename f (truncateArrays (rewriteFor r.context data))) t = out' at *
      obtain ⟨scrubbed, s'⟩ := out
      obtain ⟨scrubbed', t'⟩ := out'
      obtain rfl : scrubbed = scrubbed' := heq
      refine ⟨?_, hnumbers, hleft, hright⟩
      have hset : setField "data" scrubbed (rename f frame) = setField "data" scrubbed frame := by
        rw [hbeside, setField_setField]
      simp only [hset]
      rw [hren]
      obtain ⟨hfixed, hraw⟩ | ⟨hderived, hderived'⟩ := hraw
      · rw [hfixed, hraw]
      · have hto'' : ScrubbedTo t' (truncateArrays (rewriteFor r'.context (rename f data)))
            scrubbed := by
          rw [hcontext, rewriteFor_rename hlong, truncate_rename]
          exact hto'
        have hraw := raw_of_rederived hderived hr hd hleft.numbered hto
        have hraw' := raw_of_rederived hderived' hframe hdata hright.numbered hto''
        rw [hset] at hraw'
        simp only [hraw, hraw']

end Mbrc.Capture
