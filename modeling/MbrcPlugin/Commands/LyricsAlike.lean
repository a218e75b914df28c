import MbrcPlugin.Commands.LyricsV6
import MbrcPlugin.Protocol.LyricsV4

/-!
# The same lyrics for both protocols

V4 clients are sent the text without the tags of one grammar, wherever they stand; V6 clients the
lines without the tags of another grammar in front of them, and no lines of metadata.  Line by line,
`shownV4` and `shownV6` are what a client shows; `lyrics_alike` says for which lines they agree.
-/

namespace Mbrc.Lyrics

open Text LyricsV4 LyricsV6

/-! ## What is shown of a line -/

def shownV4 (line : List Char) : List Char := trimChars (stripLrc line)

/-- The line has no time and is skipped as metadata. -/
def takenForMetadata (line : List Char) : Bool :=
  (stripLrcPrefix line).1.isNone && isMetadataTag (stripLrcPrefix line).2

def shownV6 (line : List Char) : List Char :=
  if takenForMetadata line then [] else (stripLrcPrefix line).2

/-- The non-blank lines of what V4 clients are sent before escaping, trimmed. -/
def linesV4 (raw : String) : List (List Char) :=
  made trimChars (Text.lines (stripLrc raw.toList))

/-- The non-empty texts of the lines V6 clients are sent. -/
def linesV6 (raw : String) : List (List Char) :=
  ((parseLyrics raw).lines.map fun line => line.text.toList).filter (· ≠ [])

/-! ## The tags in front -/

/-- What stands between the brackets of the tag in front. -/
def tagText : List Char → List Char
  | '[' :: inner => inner.takeWhile (· ≠ ']')
  | _ => []

theorem tagText_eq {tag : List Char} (h : ']' ∉ tag) (rest : List Char) :
    tagText ('[' :: (tag ++ ']' :: rest)) = tag := by
  have hall : ∀ c ∈ tag, (decide (c ≠ ']')) = true := by
    intro c hc
    rw [decide_eq_true_eq]
    rintro rfl
    exact h hc
  rw [tagText, List.takeWhile_append_of_pos hall]
  simp

/-- The time tags that V6 takes off. -/
def fronts (s : List Char) : List (List Char) :=
  match _h : frontTag s with
  | some (_, after) => tagText s :: fronts after
  | none => []
termination_by s.length
decreasing_by exact frontTag_length _h

/-- What is left of a text then. -/
def words (s : List Char) : List Char :=
  match _h : frontTag s with
  | some (_, after) => words after
  | none => s
termination_by s.length
decreasing_by exact frontTag_length _h

theorem fronts_tag {s after : List Char} {ms : Int} (h : frontTag s = some (ms, after)) :
    fronts s = tagText s :: fronts after := by
  rw [fronts]
  split
  · rename_i heq
    obtain ⟨-, rfl⟩ := Prod.mk.inj (Option.some.inj (h.symm.trans heq))
    rfl
  · rename_i heq
    rw [h] at heq
    cases heq

theorem words_tag {s after : List Char} {ms : Int} (h : frontTag s = some (ms, after)) :
    words s = words after := by
  rw [words]
  split
  · rename_i heq
    obtain ⟨-, rfl⟩ := Prod.mk.inj (Option.some.inj (h.symm.trans heq))
    rfl
  · rename_i heq
    rw [h] at heq
    cases heq

theorem words_of_none {s : List Char} (h : frontTag s = none) : words s = s := by
  rw [words]
  split
  · rename_i heq
    rw [h] at heq
    cases heq
  · rfl

theorem stripTags_snd (first : Option Int) (s : List Char) : (stripTags first s).2 = words s := by
  fun_induction stripTags first s with
  | case1 first s ms after h ih => rw [ih, words_tag h]
  | case2 first s h => rw [words_of_none h]

theorem stripLrcPrefix_snd (line : List Char) :
    (stripLrcPrefix line).2 = trimChars (words (trimStart line)) :=
  congrArg trimChars (stripTags_snd none (trimStart line))

theorem frontTag_words (s : List Char) : frontTag (words s) = none := by
  fun_induction words s with
  | case1 s ms after h ih => exact ih
  | case2 s h => exact h

/-- White space at the end is no part of a tag. -/
theorem frontTag_append {c : Char} (hc : isWhiteSpace c = true) (s : List Char) :
    frontTag (s ++ [c]) =
      (frontTag s).map fun p => (p.1, if p.2 = [] then [] else p.2 ++ [c]) := by
  have hopen : c ≠ '[' := by
    rintro rfl
    exact absurd hc (by decide)
  have hclose : c ≠ ']' := by
    rintro rfl
    exact absurd hc (by decide)
  cases htag : frontTag s with
  | some p =>
    obtain ⟨ms, after⟩ := p
    obtain ⟨tag, rest, rfl, hmem, hms, rfl⟩ := frontTag_eq_some.mp htag
    refine frontTag_eq_some.mpr ⟨tag, rest ++ [c], by simp, hmem, hms, ?_⟩
    rw [trimStart_append, trimStart_cons hc]
    rfl
  | none =>
    rw [Option.map_none]
    cases hafter : frontTag (s ++ [c]) with
    | none => rfl
    | some p =>
      obtain ⟨ms, after⟩ := p
      obtain ⟨tag, rest, heq, hmem, hms, -⟩ := frontTag_eq_some.mp hafter
      cases s with
      | nil => exact absurd (List.cons.inj heq).1 hopen
      | cons d s =>
        rw [List.cons_append, List.cons.injEq] at heq
        obtain ⟨rfl, heq⟩ := heq
        rcases List.eq_nil_or_concat' rest with rfl | ⟨rest, e, rfl⟩
        · have hlast := congrArg List.getLast? heq
          simp only [List.getLast?_concat, Option.some.injEq] at hlast
          exact absurd hlast hclose
        · have hs : s = tag ++ ']' :: rest := by
            have hinit := congrArg List.dropLast heq
            rwa [← List.cons_append, ← List.append_assoc, List.dropLast_concat,
              List.dropLast_concat] at hinit
          have htag' : frontTag ('[' :: s) = some (ms, trimStart rest) :=
            frontTag_eq_some.mpr ⟨tag, rest, by rw [hs], hmem, hms, rfl⟩
          rw [htag] at htag'
          cases htag'

theorem stripTags_append {c : Char} (hc : isWhiteSpace c = true) (first : Option Int)
    (s : List Char) : (stripTags first (s ++ [c])).1 = (stripTags first s).1 ∧
      trimChars (stripTags first (s ++ [c])).2 = trimChars (stripTags first s).2 := by
  induction hn : s.length using Nat.strong_induction_on generalizing s first with
  | h n ih =>
    have happend := frontTag_append hc s
    cases htag : frontTag s with
    | none =>
      rw [htag, Option.map_none] at happend
      rw [stripTags_of_none htag, stripTags_of_none happend]
      exact ⟨rfl, trimChars_append hc s⟩
    | some p =>
      obtain ⟨ms, after⟩ := p
      have hlt := frontTag_length htag
      rw [htag, Option.map_some] at happend
      rw [stripTags_tag htag, stripTags_tag happend]
      dsimp only
      split
      · rename_i hnil
        subst hnil
        exact ⟨rfl, rfl⟩
      · exact ih _ (by omega) _ after rfl

theorem ignoresSpace_shownV6 : IgnoresSpace shownV6 := by
  have hsame : ∀ line line', (stripLrcPrefix line').1 = (stripLrcPrefix line).1 →
      (stripLrcPrefix line').2 = (stripLrcPrefix line).2 → shownV6 line' = shownV6 line := by
    intro line line' h1 h2
    unfold shownV6 takenForMetadata
    rw [h1, h2]
  refine ⟨by decide +kernel, fun c s hc => ?_, fun c s hc => ?_⟩
  · have heq : stripLrcPrefix (c :: s) = stripLrcPrefix s := by
      rw [stripLrcPrefix, trimStart_cons hc]
      rfl
    exact hsame _ _ (by rw [heq]) (by rw [heq])
  · by_cases hblank : trimStart s = []
    · have heq : stripLrcPrefix (s ++ [c]) = stripLrcPrefix s := by
        rw [stripLrcPrefix, trimStart_append, if_pos hblank, trimStart_cons hc, stripLrcPrefix,
          hblank]
        rfl
      exact hsame _ _ (by rw [heq]) (by rw [heq])
    · have hstart : trimStart (s ++ [c]) = trimStart s ++ [c] := by
        rw [trimStart_append, if_neg hblank]
      obtain ⟨h1, h2⟩ := stripTags_append hc none (trimStart s)
      refine hsame _ _ ?_ ?_
      · rw [stripLrcPrefix, hstart]
        exact h1
      · rw [stripLrcPrefix, hstart]
        exact h2

/-! ## The lists, line by line -/

theorem linesV4_eq {raw : String} (h : TagsInLines raw.toList) :
    linesV4 raw = made shownV4 (raw.toList.splitOn '\n') := by
  rw [linesV4, made_lines ignoresSpace_trimChars, splitOn_stripLrc h, made, List.map_map]
  rfl

/-- What a line is sent as, if it is. -/
theorem lyricLine_text (line : List Char) :
    match lyricLine line with
    | none => shownV6 line = []
    | some sent => sent.text.toList = shownV6 line := by
  unfold lyricLine shownV6 takenForMetadata
  dsimp only
  by_cases hnone : (stripLrcPrefix line).1.isNone
  · by_cases hmeta : isMetadataTag (stripLrcPrefix line).2 = true
    · simp [hnone, hmeta]
    · by_cases hnil : (stripLrcPrefix line).2 = []
      · simp [hnone, hnil]
      · simp [hnone, hmeta, hnil]
  · simp [hnone]

theorem linesV6_eq (raw : String) : linesV6 raw = made shownV6 (raw.toList.splitOn '\n') := by
  have hlines : ∀ ls : List (List Char), ((ls.filterMap lyricLine).map fun line =>
      line.text.toList).filter (· ≠ []) = made shownV6 ls := by
    intro ls
    induction ls with
    | nil => rfl
    | cons line ls ih =>
      have hline := lyricLine_text line
      rw [made_cons, ← ih, List.filterMap_cons]
      cases hsent : lyricLine line with
      | none =>
        rw [hsent] at hline
        rw [if_pos hline]
        rfl
      | some sent =>
        rw [hsent] at hline
        rw [List.map_cons, List.filter_cons, hline]
        by_cases hnil : shownV6 line = [] <;> simp [hnil]
  rw [linesV6, parseLyrics_lines, hlines, made_lines ignoresSpace_shownV6, trim_eq,
    String.toList_ofList, made_splitOn_trimChars ignoresSpace_shownV6]

/-! ## When a line is shown the same -/

theorem count_trimChars {c : Char} (hc : isWhiteSpace c = false) (s : List Char) :
    (trimChars s).count c = s.count c := by
  obtain ⟨front, back, hfront, hback, hs⟩ := exists_trimChars s
  have hnone : ∀ space : List Char, (∀ d ∈ space, isWhiteSpace d = true) → space.count c = 0 := by
    intro space hspace
    refine List.count_eq_zero.mpr fun hmem => ?_
    rw [hspace c hmem] at hc
    cases hc
  conv => rhs; rw [hs]
  rw [List.count_append, List.count_append, hnone front hfront, hnone back hback]
  omega

/-- Of what has no time tag in front, V4 shows the same when there is no tag in it at all. -/
theorem trimChars_stripLrc_iff (s : List Char) :
    trimChars (stripLrc s) = trimChars s ↔ NoTag s := by
  rcases stripLrc_cases s with ⟨hno, heq⟩ | ⟨hno, hlt⟩
  · rw [heq]
    exact iff_of_true rfl hno
  · refine iff_of_false (fun heq => ?_) hno
    have hcount := congrArg (List.count '[') heq
    rw [count_trimChars (by decide), count_trimChars (by decide)] at hcount
    omega

theorem shownV4_cons {c : Char} (hc : isWhiteSpace c = true) (s : List Char) :
    shownV4 (c :: s) = shownV4 s := by
  have hne : c ≠ '[' := by
    rintro rfl
    exact absurd hc (by decide)
  rw [shownV4, stripLrc_of_ne hne, trimChars_cons hc]
  rfl

theorem shownV4_trimStart (s : List Char) : shownV4 (trimStart s) = shownV4 s := by
  obtain ⟨space, hspace, hs⟩ := exists_trimStart s
  have hfront : ∀ t, shownV4 (space ++ t) = shownV4 t := by
    intro t
    clear hs
    induction space with
    | nil => rfl
    | cons c space ih =>
      rw [List.cons_append, shownV4_cons (hspace c List.mem_cons_self)]
      exact ih fun d hd => hspace d (List.mem_cons_of_mem _ hd)
  conv => rhs; rw [hs]
  rw [hfront]

/-- A tag in front that both read is shown by neither. -/
theorem shownV4_front {tag rest : List Char} (hmem : ']' ∉ tag) (htag : isLrcTag tag = true) :
    shownV4 ('[' :: (tag ++ ']' :: rest)) = shownV4 (trimStart rest) := by
  have hafter : afterTag ('[' :: (tag ++ ']' :: rest)) = some (dropSpace rest) :=
    afterTag_eq_some.mpr ⟨tag, rest, rfl, hmem, htag, rfl⟩
  have hspace : shownV4 (dropSpace rest) = shownV4 rest := by
    unfold dropSpace
    split
    · exact (shownV4_cons (by decide) _).symm
    · rfl
  rw [shownV4, stripLrc_tag hafter, shownV4_trimStart, ← hspace]
  rfl

theorem shownV4_words {s : List Char} (h : ∀ tag ∈ fronts s, isLrcTag tag = true) :
    shownV4 s = shownV4 (words s) := by
  induction hn : s.length using Nat.strong_induction_on generalizing s with
  | h n ih =>
    cases hfront : frontTag s with
    | none => rw [words_of_none hfront]
    | some p =>
      obtain ⟨ms, after⟩ := p
      have hlt := frontTag_length hfront
      rw [fronts_tag hfront] at h
      rw [words_tag hfront]
      obtain ⟨tag, rest, rfl, hmem, -, rfl⟩ := frontTag_eq_some.mp hfront
      rw [tagText_eq hmem] at h
      rw [shownV4_front hmem (h tag List.mem_cons_self)]
      exact ih _ (by omega) (fun t ht => h t (List.mem_cons_of_mem _ ht)) rfl

/-- Nothing is stripped up to the end of a tag that V4 does not read. -/
theorem stripLrc_front {tag rest : List Char} (hmem : ']' ∉ tag) (hopen : '[' ∉ tag)
    (htag : isLrcTag tag = false) :
    stripLrc ('[' :: (tag ++ ']' :: rest)) = '[' :: (tag ++ ']' :: stripLrc rest) := by
  have hnone : afterTag ('[' :: (tag ++ ']' :: rest)) = none := by
    cases hafter : afterTag ('[' :: (tag ++ ']' :: rest)) with
    | none => rfl
    | some r =>
      obtain ⟨content, after, heq, hmem', hcontent, -⟩ := afterTag_eq_some.mp hafter
      have hsame := congrArg (splitOnce ']') (List.cons.inj heq).2
      rw [splitOnce_append hmem, splitOnce_append hmem'] at hsame
      obtain ⟨rfl, -⟩ := Prod.mk.inj (Option.some.inj hsame)
      rw [htag] at hcontent
      cases hcontent
  have hcopied : ∀ l : List Char, '[' ∉ l → stripLrc (l ++ ']' :: rest) =
      l ++ ']' :: stripLrc rest := by
    intro l hl
    induction l with
    | nil => exact stripLrc_of_ne (by decide) rest
    | cons c l ih =>
      rw [List.mem_cons, not_or] at hl
      rw [List.cons_append, stripLrc_of_ne (Ne.symm hl.1), ih hl.2, List.cons_append]
  rw [stripLrc_cons hnone, hcopied tag hopen]

/-- The trimmed text still begins with what stands between two brackets. -/
theorem trimChars_front (tag rest : List Char) : ∃ rest',
    trimChars ('[' :: (tag ++ ']' :: rest)) = '[' :: (tag ++ ']' :: rest') := by
  have hopen : trimStart ('[' :: (tag ++ ']' :: rest)) = '[' :: (tag ++ ']' :: rest) := rfl
  have hclose : ∀ l : List Char, trimStart (']' :: l) = ']' :: l := fun l => rfl
  have hreverse : ('[' :: (tag ++ ']' :: rest)).reverse =
      rest.reverse ++ ']' :: (tag.reverse ++ ['[']) := by simp
  unfold trimChars
  rw [hopen, hreverse, trimStart_append]
  split
  · exact ⟨[], by rw [hclose]; simp⟩
  · exact ⟨(trimStart rest.reverse).reverse, by simp⟩

theorem frontTag_trimChars {s : List Char} (h : frontTag s = none) (hs : trimStart s = s) :
    frontTag (trimChars s) = none := by
  obtain ⟨back, hback, hrev⟩ := exists_trimStart (trimStart s).reverse
  have hsplit : s = trimChars s ++ back.reverse := by
    conv => lhs; rw [← hs, ← List.reverse_reverse (trimStart s), hrev, List.reverse_append]
    rfl
  have hpeel : ∀ t l : List Char, (∀ c ∈ l, isWhiteSpace c = true) → frontTag (t ++ l) = none →
      frontTag t = none := by
    intro t l hl hnone
    induction l using List.reverseRecOn with
    | nil => rwa [List.append_nil] at hnone
    | append_singleton l c ih =>
      rw [← List.append_assoc, frontTag_append (hl c (by simp)), Option.map_eq_none_iff] at hnone
      exact ih (fun d hd => hl d (List.mem_append_left _ hd)) hnone
  rw [hsplit] at h
  exact hpeel _ _ (fun c hc => hback c (List.mem_reverse.mp hc)) h

theorem trimStart_words {s : List Char} (h : trimStart s = s) : trimStart (words s) = words s := by
  fun_induction words s with
  | case1 s ms after hfront ih =>
    obtain ⟨tag, rest, -, -, -, rfl⟩ := frontTag_eq_some.mp hfront
    exact ih (trimStart_trimStart rest)
  | case2 s hfront => exact h

/-- A time tag in front that only V6 reads is a word for V4. -/
theorem shownV4_ne_words {s : List Char} (hs : trimStart s = s)
    (htidy : ∀ tag ∈ fronts s, '[' ∉ tag) (h : ∃ tag ∈ fronts s, isLrcTag tag = false) :
    shownV4 s ≠ trimChars (words s) := by
  induction hn : s.length using Nat.strong_induction_on generalizing s with
  | h n ih =>
    cases hfront : frontTag s with
    | none =>
      obtain ⟨tag, htag, -⟩ := h
      rw [fronts, hfront] at htag
      cases htag
    | some p =>
      obtain ⟨ms, after⟩ := p
      have hlt := frontTag_length hfront
      have hnone := frontTag_trimChars (frontTag_words s) (trimStart_words hs)
      rw [fronts_tag hfront] at h htidy
      obtain ⟨tag, rest, rfl, hmem, hms, rfl⟩ := frontTag_eq_some.mp hfront
      rw [tagText_eq hmem] at h htidy
      cases htag : isLrcTag tag with
      | true =>
        rw [shownV4_front hmem htag, words_tag hfront]
        refine ih _ (by omega) (trimStart_trimStart rest)
          (fun t ht => htidy t (List.mem_cons_of_mem _ ht)) ?_ rfl
        obtain ⟨other, hother, hnot⟩ := h
        rcases List.mem_cons.mp hother with rfl | hother
        · rw [htag] at hnot
          cases hnot
        · exact ⟨other, hother, hnot⟩
      | false =>
        intro heq
        rw [shownV4, stripLrc_front hmem (htidy tag List.mem_cons_self) htag] at heq
        obtain ⟨rest', hrest⟩ := trimChars_front tag (stripLrc rest)
        rw [← heq, hrest] at hnone
        have hsome := frontTag_eq_some.mpr ⟨tag, rest', rfl, hmem, hms, rfl⟩
        rw [hsome] at hnone
        cases hnone

/-- The tags in front are tags of both grammars, and in the words there is no tag of V4's. -/
def Alike (line : List Char) : Prop :=
  (∀ tag ∈ fronts (trimStart line), isLrcTag tag = true) ∧ NoTag (words (trimStart line))

theorem shown_of_alike {line : List Char} (h : Alike line)
    (htaken : takenForMetadata line = false) : shownV4 line = shownV6 line := by
  obtain ⟨hfronts, hno⟩ := h
  rw [shownV6, htaken, if_neg Bool.false_ne_true, stripLrcPrefix_snd, ← shownV4_trimStart,
    shownV4_words hfronts]
  exact (trimChars_stripLrc_iff _).mpr hno

theorem shown_iff_alike {line : List Char} (htaken : takenForMetadata line = false)
    (htidy : ∀ tag ∈ fronts (trimStart line), '[' ∉ tag) :
    shownV4 line = shownV6 line ↔ Alike line := by
  refine ⟨fun heq => ?_, fun h => shown_of_alike h htaken⟩
  rw [shownV6, htaken, if_neg Bool.false_ne_true, stripLrcPrefix_snd, ← shownV4_trimStart] at heq
  have hfronts : ∀ tag ∈ fronts (trimStart line), isLrcTag tag = true := by
    intro tag htag
    by_contra hnot
    exact shownV4_ne_words (trimStart_trimStart line) htidy
      ⟨tag, htag, Bool.not_eq_true _ ▸ hnot⟩ heq
  rw [shownV4_words hfronts] at heq
  exact ⟨hfronts, (trimChars_stripLrc_iff _).mp heq⟩

/-- **Where both protocols show the same lyrics.** -/
theorem lyrics_alike {raw : String} (h : TagsInLines raw.toList) :
    ((∀ line ∈ raw.toList.splitOn '\n', (takenForMetadata line = false ∧ Alike line) ∨
      (takenForMetadata line = true ∧ shownV4 line = [])) → linesV4 raw = linesV6 raw) ∧
    ∀ line ∈ raw.toList.splitOn '\n', takenForMetadata line = false →
      (∀ tag ∈ fronts (trimStart line), '[' ∉ tag) →
        (shownV4 line = shownV6 line ↔ Alike line) := by
  refine ⟨fun hall => ?_, fun line _ htaken htidy => shown_iff_alike htaken htidy⟩
  rw [linesV4_eq h, linesV6_eq, made, made]
  congr 1
  refine List.map_congr_left fun line hline => ?_
  rcases hall line hline with ⟨htaken, halike⟩ | ⟨htaken, hblank⟩
  · exact shown_of_alike halike htaken
  · rw [hblank, shownV6, htaken, if_pos rfl]

/-- One timed line. -/
theorem lyrics_alike_timed : linesV4 "[00:01.00] one" = linesV6 "[00:01.00] one" := by
  have hsplit : "[00:01.00] one".toList.splitOn '\n' = ["[00:01.00] one".toList] := by
    decide +kernel
  have hinside : TagsInLines "[00:01.00] one".toList := by
    intro front content after heq _ _ hmem
    have hfeed : '\n' ∈ "[00:01.00] one".toList := by
      rw [heq]
      simp [hmem]
    exact absurd hfeed (by decide)
  refine (lyrics_alike hinside).1 fun line hline => ?_
  rw [hsplit] at hline
  obtain rfl := List.mem_singleton.mp hline
  refine .inl ⟨by decide +kernel, by decide +kernel, ?_⟩
  have hwords : words (trimStart "[00:01.00] one".toList) = "one".toList := by decide +kernel
  rw [hwords]
  intro front content after heq
  have hopen : '[' ∈ "one".toList := by
    rw [heq]
    simp
  exact absurd hopen (by decide)

/-- A tag in the middle of a line is a word for V6 and none for V4. -/
theorem lyrics_differ : linesV4 "[00:01.00]a [00:02.00]b" ≠ linesV6 "[00:01.00]a [00:02.00]b" := by
  decide +kernel

end Mbrc.Lyrics
