import MbrcPlugin.Lib.TextLines
import MbrcPlugin.Protocol.Json

/-!
# Lyrics for V4 clients

`strip_lrc`: one walk over the whole text that removes every LRC tag it comes to, wherever in a line
it stands, and one space after it.  Where no tag reaches over a line end the walk goes line by line
(`splitOn_stripLrc`).
-/

namespace Mbrc.LyricsV4

open Text

/-- `mm:ss`, `mm:ss.xx`, `mm:ss.xxx`, `mm:ss:xx`: 1-3 digits, 2 digits, and 1-3 digits if any. -/
def isLrcTimeTag (content : List Char) : Bool :=
  match splitOnce ':' content with
  | none => false
  | some (min, rest) =>
    if min = [] ∨ 3 < min.length ∨ ¬ min.all Char.isDigit then false
    else
      match rest with
      | d :: e :: frac =>
        if ¬ (d.isDigit ∧ e.isDigit) then false
        else
          match frac with
          | [] => true
          | sep :: frac =>
            (sep = '.' || sep = ':') && frac ≠ [] && frac.length ≤ 3 && frac.all Char.isDigit
      | _ => false

def lrcKeys : List String :=
  ["ti", "ar", "al", "au", "by", "re", "ve", "offset", "length", "la", "lang", "tool", "id"]

/-- A known key before the colon. -/
def isLrcMetadataTag (content : List Char) : Bool :=
  match splitOnce ':' content with
  | some (key, _) => asciiLower (String.ofList key) ∈ lrcKeys
  | none => false

def isLrcTag (content : List Char) : Bool := isLrcTimeTag content || isLrcMetadataTag content

/-- One trailing space goes with the tag. -/
def dropSpace : List Char → List Char
  | ' ' :: rest => rest
  | rest => rest

/-- What follows the tag that a text begins with. -/
def afterTag : List Char → Option (List Char)
  | '[' :: inner => do
    let (content, rest) ← splitOnce ']' inner
    if isLrcTag content then some (dropSpace rest) else none
  | _ => none

theorem dropSpace_length (rest : List Char) : (dropSpace rest).length ≤ rest.length := by
  unfold dropSpace
  split
  · exact Nat.le_succ _
  · exact le_refl _

theorem afterTag_eq_some {cs rest : List Char} : afterTag cs = some rest ↔
    ∃ content after, cs = '[' :: (content ++ ']' :: after) ∧ ']' ∉ content ∧
      isLrcTag content = true ∧ dropSpace after = rest := by
  constructor
  · intro h
    unfold afterTag at h
    split at h
    case h_2 => cases h
    case h_1 inner =>
      obtain ⟨⟨content, after⟩, hsplit, hif⟩ := Option.bind_eq_some_iff.mp h
      obtain ⟨rfl, hmem⟩ := splitOnce_eq_some.mp hsplit
      dsimp only at hif
      split at hif
      · exact ⟨content, after, rfl, hmem, ‹_›, Option.some.inj hif⟩
      · cases hif
  · rintro ⟨content, after, rfl, hmem, htag, rfl⟩
    rw [afterTag, splitOnce_append hmem, Option.bind_eq_bind, Option.bind_some]
    exact if_pos htag

theorem afterTag_length {cs rest : List Char} (h : afterTag cs = some rest) :
    rest.length < cs.length := by
  obtain ⟨content, after, rfl, -, -, rfl⟩ := afterTag_eq_some.mp h
  have := dropSpace_length after
  simp only [List.length_cons, List.length_append]
  omega

/-- The text without its tags. -/
def stripLrc : List Char → List Char
  | [] => []
  | c :: cs =>
    match _h : afterTag (c :: cs) with
    | some rest => stripLrc rest
    | none => c :: stripLrc cs
termination_by cs => cs.length
decreasing_by
  · exact afterTag_length _h
  · exact Nat.lt_succ_self _

theorem stripLrc_tag {cs rest : List Char} (h : afterTag cs = some rest) :
    stripLrc cs = stripLrc rest := by
  cases cs with
  | nil => cases h
  | cons c cs =>
    rw [stripLrc]
    split
    · rename_i rest' h'
      rw [Option.some.inj (h.symm.trans h')]
    · rename_i h'
      rw [h] at h'
      cases h'

theorem stripLrc_cons {c : Char} {cs : List Char} (h : afterTag (c :: cs) = none) :
    stripLrc (c :: cs) = c :: stripLrc cs := by
  rw [stripLrc]
  split
  · rename_i h'
    rw [h] at h'
    cases h'
  · rfl

theorem afterTag_of_ne {c : Char} (hc : c ≠ '[') (cs : List Char) : afterTag (c :: cs) = none := by
  unfold afterTag
  split
  · rename_i heq
    exact absurd (List.cons.inj heq).1 hc
  · rfl

theorem stripLrc_of_ne {c : Char} (hc : c ≠ '[') (cs : List Char) :
    stripLrc (c :: cs) = c :: stripLrc cs := stripLrc_cons (afterTag_of_ne hc cs)

/-- Nothing is put in. -/
theorem stripLrc_sublist (cs : List Char) : (stripLrc cs).Sublist cs := by
  have hspace : ∀ rest, (dropSpace rest).Sublist rest := by
    intro rest
    unfold dropSpace
    split
    · exact List.sublist_cons_self _ _
    · exact List.Sublist.refl _
  fun_induction stripLrc cs with
  | case1 => exact List.Sublist.refl _
  | case2 c cs rest h ih =>
    obtain ⟨content, after, heq, -, -, rfl⟩ := afterTag_eq_some.mp h
    rw [heq]
    refine ih.trans ((hspace after).trans (.cons _ ?_))
    exact (List.sublist_cons_self ']' after).trans (List.sublist_append_right _ _)
  | case3 c cs h ih => exact ih.cons_cons c

/-! ## Texts without tags -/

/-- No tag stands in the text. -/
def NoTag (cs : List Char) : Prop :=
  ∀ front content after, cs = front ++ '[' :: (content ++ ']' :: after) → ']' ∉ content →
    isLrcTag content = false

theorem NoTag.afterTag {cs : List Char} (h : NoTag cs) : afterTag cs = none := by
  cases hafter : LyricsV4.afterTag cs with
  | none => rfl
  | some rest =>
    obtain ⟨content, after, heq, hmem, htag, -⟩ := afterTag_eq_some.mp hafter
    rw [h [] content after heq hmem] at htag
    cases htag

theorem NoTag.of_cons {c : Char} {cs : List Char} (h : NoTag (c :: cs)) : NoTag cs := by
  intro front content after heq
  refine h (c :: front) content after ?_
  rw [heq, List.cons_append]

/-- A text without tags is left as it is, and from one with a tag a bracket goes. -/
theorem stripLrc_cases (cs : List Char) : (NoTag cs ∧ stripLrc cs = cs) ∨
    (¬ NoTag cs ∧ (stripLrc cs).count '[' < cs.count '[') := by
  fun_induction stripLrc cs with
  | case1 =>
    refine .inl ⟨fun front content after heq => ?_, rfl⟩
    exact absurd heq.symm (by simp)
  | case2 c cs rest h ih =>
    refine .inr ⟨fun hno => ?_, ?_⟩
    · rw [hno.afterTag] at h
      cases h
    · obtain ⟨content, after, heq, -, -, rfl⟩ := afterTag_eq_some.mp h
      have hle := (stripLrc_sublist (dropSpace after)).count_le '['
      have hspace : (dropSpace after).count '[' ≤ after.count '[' := by
        unfold dropSpace
        split
        · exact (List.sublist_cons_self _ _).count_le _
        · exact le_refl _
      rw [heq, List.count_cons_self, List.count_append, List.count_cons]
      omega
  | case3 c cs h ih =>
    rcases ih with ⟨hno, heq⟩ | ⟨hno, hlt⟩
    · refine .inl ⟨fun front content after hsplit hmem => ?_, by rw [heq]⟩
      cases front with
      | nil =>
        rw [← Bool.not_eq_true]
        intro htag
        have hafter := afterTag_eq_some.mpr ⟨content, after, hsplit, hmem, htag, rfl⟩
        rw [h] at hafter
        cases hafter
      | cons d front =>
        rw [List.cons_append, List.cons.injEq] at hsplit
        exact hno front content after hsplit.2 hmem
    · refine .inr ⟨fun hall => hno hall.of_cons, ?_⟩
      rw [List.count_cons, List.count_cons]
      omega

/-! ## Line by line -/

/-- No tag reaches over a line end. -/
def TagsInLines (cs : List Char) : Prop :=
  ∀ front content after, cs = front ++ '[' :: (content ++ ']' :: after) → ']' ∉ content →
    isLrcTag content = true → '\n' ∉ content

theorem TagsInLines.of_append {a b : List Char} (h : TagsInLines (a ++ b)) : TagsInLines b := by
  intro front content after heq
  refine h (a ++ front) content after ?_
  rw [heq, List.append_assoc]

theorem dropSpace_append (after rest : List Char) :
    dropSpace (after ++ '\n' :: rest) = dropSpace after ++ '\n' :: rest := by
  cases after with
  | nil => rfl
  | cons c after =>
    by_cases hc : c = ' '
    · subst hc
      rfl
    · have hkeep : ∀ l, dropSpace (c :: l) = c :: l := by
        intro l
        unfold dropSpace
        split
        · exact absurd (List.cons.inj ‹_›).1 hc
        · rfl
      rw [List.cons_append, hkeep, hkeep, List.cons_append]

/-- The walk starts anew after a line end. -/
theorem stripLrc_append {a b : List Char} (h : TagsInLines (a ++ '\n' :: b)) :
    stripLrc (a ++ '\n' :: b) = stripLrc a ++ '\n' :: stripLrc b := by
  induction hn : a.length using Nat.strong_induction_on generalizing a with
  | h n ih =>
    cases a with
    | nil =>
      rw [List.nil_append, stripLrc_of_ne (by decide)]
      simp [stripLrc]
    | cons c cs =>
      cases htag : afterTag (c :: cs) with
      | some rest =>
        have hlt := afterTag_length htag
        obtain ⟨content, after, heq, hmem, hcontent, rfl⟩ := afterTag_eq_some.mp htag
        have hwhole : afterTag ((c :: cs) ++ '\n' :: b) = some (dropSpace after ++ '\n' :: b) := by
          refine afterTag_eq_some.mpr ⟨content, after ++ '\n' :: b, ?_, hmem, hcontent, ?_⟩
          · rw [heq]
            simp
          · exact dropSpace_append after b
        have hrest : TagsInLines (dropSpace after ++ '\n' :: b) := by
          have hafter : ∃ front, c :: cs = front ++ dropSpace after := by
            rw [heq]
            unfold dropSpace
            split
            · exact ⟨'[' :: (content ++ [']', ' ']), by simp⟩
            · exact ⟨'[' :: (content ++ [']']), by simp⟩
          obtain ⟨front, hfront⟩ := hafter
          rw [hfront, List.append_assoc] at h
          exact h.of_append
        rw [stripLrc_tag hwhole, stripLrc_tag htag]
        exact ih _ (by omega) hrest rfl
      | none =>
        have hwhole : afterTag ((c :: cs) ++ '\n' :: b) = none := by
          cases hafter : afterTag ((c :: cs) ++ '\n' :: b) with
          | none => rfl
          | some rest =>
            obtain ⟨content, after, heq, hmem, hcontent, -⟩ := afterTag_eq_some.mp hafter
            -- the tag ends before the line does, so it is a tag of the line
            have hin := h [] content after heq hmem hcontent
            rw [List.cons_append, List.cons.injEq] at heq
            obtain ⟨rfl, heq⟩ := heq
            rcases List.append_eq_append_iff.mp heq with ⟨l, hl, hr⟩ | ⟨l, hl, hr⟩
            · rw [hl] at hin
              cases l with
              | nil =>
                rw [List.nil_append] at hr
                cases (List.cons.inj hr).1
              | cons d l =>
                have hd := (List.cons.inj hr).1
                subst hd
                exact absurd (by simp) hin
            · cases l with
              | nil =>
                rw [List.nil_append] at hr
                cases (List.cons.inj hr).1
              | cons d l =>
                obtain ⟨rfl, -⟩ := List.cons.inj hr
                have htag' : afterTag ('[' :: cs) = some (dropSpace l) :=
                  afterTag_eq_some.mpr ⟨content, l, by rw [hl], hmem, hcontent, rfl⟩
                rw [htag] at htag'
                cases htag'
        rw [List.cons_append] at hwhole
        rw [List.cons_append, stripLrc_cons hwhole, stripLrc_cons htag, List.cons_append]
        have hcs : TagsInLines (cs ++ '\n' :: b) := TagsInLines.of_append (a := [c]) h
        rw [ih cs.length (by rw [← hn]; exact Nat.lt_succ_self _) hcs rfl]

/-- **The walk goes line by line.** -/
theorem splitOn_stripLrc {cs : List Char} (h : TagsInLines cs) :
    (stripLrc cs).splitOn '\n' = (cs.splitOn '\n').map stripLrc := by
  have hkept : ∀ a : List Char, '\n' ∉ a → '\n' ∉ stripLrc a := fun a ha hmem =>
    ha ((stripLrc_sublist a).subset hmem)
  induction hn : cs.length using Nat.strong_induction_on generalizing cs with
  | h n ih =>
    by_cases hmem : '\n' ∈ cs
    · obtain ⟨a, b, rfl, ha⟩ := List.eq_append_cons_of_mem hmem
      have hb : TagsInLines b :=
        TagsInLines.of_append (a := a ++ ['\n']) (by rwa [List.append_assoc])
      have hlt : b.length < n := by
        rw [← hn, List.length_append, List.length_cons]
        omega
      rw [stripLrc_append h, List.splitOn_append_cons_self_of_not_mem (hkept a ha),
        List.splitOn_append_cons_self_of_not_mem ha, List.map_cons, ih _ hlt hb rfl]
    · rw [List.splitOn_eq_singleton hmem, List.splitOn_eq_singleton (hkept cs hmem)]
      rfl

end Mbrc.LyricsV4
