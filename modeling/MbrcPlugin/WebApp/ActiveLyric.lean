import MbrcPlugin.Commands.LyricsV6
import Mathlib.Data.Finset.Max

/-!
# The line that is being sung

The server sends one time for each line, in the order of the file; the app walks back from the end
to the first time that has passed.  For which texts the two find the line whose tag is the latest
one: `highlight_iff`.
-/

namespace Mbrc.WebApp

open LyricsV6

/-- The last of the first `n` lines whose time has passed. -/
def lastPassed (lines : List LyricLine) (positionMs : Int) : Nat → Option Nat
  | 0 => none
  | index + 1 =>
    if ((lines[index]?.bind LyricLine.atMs).any (· ≤ positionMs)) then some index
    else lastPassed lines positionMs index

/-- The index of the line being sung.  Times are whole, so the whole milliseconds of the position
decide. -/
def activeLyricLine (lyrics : Lyrics) (positionMs : Int) : Option Nat :=
  if lyrics.type ≠ .synced then none
  else lastPassed lyrics.lines positionMs lyrics.lines.length

/-! ## What is asked of it -/

/-- The tags of the lines of a text. -/
def tagsOfText (raw : String) : List (List Int) :=
  (Text.lines (Text.trim raw).toList).map tagsOf

/-- Every line begins with a time tag. -/
def Timed (raw : String) : Prop := ∀ tags ∈ tagsOfText raw, tags ≠ []

/-- The line carries the latest tag that is not after the position; there is no line when every tag
is. -/
def Right (lines : List (List Int)) (positionMs : Int) : Option Nat → Prop
  | none => ∀ tags ∈ lines, ∀ t ∈ tags, positionMs < t
  | some index => ∃ tags, lines[index]? = some tags ∧ ∃ t ∈ tags, t ≤ positionMs ∧
      ∀ other ∈ lines, ∀ u ∈ other, u ≤ positionMs → u ≤ t

/-- The highlight is right at every position. -/
def Follows (raw : String) : Prop :=
  ∀ positionMs, Right (tagsOfText raw) positionMs (activeLyricLine (parseLyrics raw) positionMs)

/-- Whether a line's first tag is not after a time. -/
def BegunBy (t : Int) (tags : List Int) : Prop := ∃ first, tags.head? = some first ∧ first ≤ t

/-- For each tag, the last line that has begun by its time carries it. -/
def InTime (lines : List (List Int)) : Prop :=
  ∀ tags ∈ lines, ∀ t ∈ tags, ∃ (index : Nat) (other : List Int), lines[index]? = some other ∧
    t ∈ other ∧ BegunBy t other ∧
      ∀ (later : Nat) (line : List Int), index < later → lines[later]? = some line →
        ¬ BegunBy t line

/-! ## The walk back -/

theorem lastPassed_eq_some {lines : List LyricLine} {positionMs : Int} {n index : Nat} :
    lastPassed lines positionMs n = some index ↔
      (index < n ∧ (lines[index]?.bind LyricLine.atMs).any (· ≤ positionMs) = true) ∧
        ∀ later, index < later → later < n →
          (lines[later]?.bind LyricLine.atMs).any (· ≤ positionMs) = false := by
  induction n with
  | zero => simp [lastPassed]
  | succ n ih =>
    rw [lastPassed]
    split
    · rename_i hpassed
      rw [Option.some.injEq]
      constructor
      · rintro rfl
        exact ⟨⟨by omega, hpassed⟩, fun later hlt hle => absurd hlt (by omega)⟩
      · rintro ⟨⟨hlt, -⟩, hlater⟩
        by_contra hne
        rw [hlater n (by omega) (by omega)] at hpassed
        cases hpassed
    · rename_i hnot
      rw [ih]
      constructor
      · rintro ⟨⟨hlt, hpassed⟩, hlater⟩
        refine ⟨⟨by omega, hpassed⟩, fun later hl hle => ?_⟩
        by_cases heq : later = n
        · subst heq
          exact Bool.not_eq_true _ ▸ hnot
        · exact hlater later hl (by omega)
      · rintro ⟨⟨hlt, hpassed⟩, hlater⟩
        refine ⟨⟨?_, hpassed⟩, fun later hl hle => hlater later hl (by omega)⟩
        by_contra hge
        obtain rfl : index = n := by omega
        exact hnot hpassed

theorem lastPassed_eq_none {lines : List LyricLine} {positionMs : Int} {n : Nat} :
    lastPassed lines positionMs n = none ↔
      ∀ index < n, (lines[index]?.bind LyricLine.atMs).any (· ≤ positionMs) = false := by
  induction n with
  | zero => simp [lastPassed]
  | succ n ih =>
    rw [lastPassed]
    split
    · rename_i hpassed
      refine iff_of_false (by simp) fun h => ?_
      rw [h n (by omega)] at hpassed
      cases hpassed
    · rename_i hnot
      rw [ih]
      constructor
      · intro h index hlt
        by_cases heq : index = n
        · subst heq
          exact Bool.not_eq_true _ ▸ hnot
        · exact h index (by omega)
      · intro h index hlt
        exact h index (by omega)

/-! ## What is sent -/

theorem lyricLine_of_tagged {line : List Char} (h : tagsOf line ≠ []) :
    ∃ sent, lyricLine line = some sent ∧ sent.atMs = (tagsOf line).head? := by
  have hfirst := stripLrcPrefix_fst line
  obtain ⟨t, ts, htags⟩ := List.exists_cons_of_ne_nil h
  rw [htags, List.head?_cons] at hfirst
  unfold lyricLine
  dsimp only
  rw [hfirst, Option.isNone_some, Bool.false_and, if_neg Bool.false_ne_true, htags]
  exact ⟨_, rfl, rfl⟩

theorem filterMap_lyricLine {lines : List (List Char)} (h : ∀ line ∈ lines, tagsOf line ≠ []) :
    (lines.filterMap lyricLine).map LyricLine.atMs = lines.map fun line => (tagsOf line).head? := by
  induction lines with
  | nil => rfl
  | cons line lines ih =>
    obtain ⟨sent, hsent, hat⟩ := lyricLine_of_tagged (h line List.mem_cons_self)
    rw [List.filterMap_cons, hsent, List.map_cons, List.map_cons, hat,
      ih fun l hl => h l (List.mem_cons_of_mem _ hl)]

theorem parseLyrics_type {raw : String} (hlines : (parseLyrics raw).lines ≠ [])
    (h : ∃ line ∈ Text.lines (Text.trim raw).toList, (stripLrcPrefix line).1.isSome) :
    (parseLyrics raw).type = .synced := by
  rw [parseLyrics_lines] at hlines
  unfold parseLyrics
  by_cases hempty : Text.trim raw = ""
  · rw [hempty, lines_empty] at hlines
    exact absurd rfl hlines
  · rw [if_neg hempty]
    dsimp only
    have hany : (Text.lines (Text.trim raw).toList).any
        (fun line => (stripLrcPrefix line).1.isSome) = true := by
      obtain ⟨line, hline, hsome⟩ := h
      exact List.any_eq_true.mpr ⟨line, hline, hsome⟩
    rw [if_neg hlines, if_pos hany]

/-- Of a timed text every line is sent, with its first time, and as synced. -/
theorem parseLyrics_of_timed {raw : String} (h : Timed raw) :
    (parseLyrics raw).lines.map LyricLine.atMs = (tagsOfText raw).map List.head? ∧
      ((parseLyrics raw).type = .synced ∨ (parseLyrics raw).lines = []) := by
  have htags : ∀ line ∈ Text.lines (Text.trim raw).toList, tagsOf line ≠ [] := fun line hline =>
    h _ (List.mem_map_of_mem hline)
  constructor
  · rw [parseLyrics_lines, filterMap_lyricLine htags, tagsOfText, List.map_map]
    rfl
  · refine or_iff_not_imp_right.mpr fun hne => parseLyrics_type hne ?_
    rw [parseLyrics_lines] at hne
    cases hlines : Text.lines (Text.trim raw).toList with
    | nil =>
      rw [hlines] at hne
      exact absurd rfl hne
    | cons line lines =>
      refine ⟨line, List.mem_cons_self, ?_⟩
      rw [hlines] at htags
      obtain ⟨t, ts, hline⟩ := List.exists_cons_of_ne_nil (htags line List.mem_cons_self)
      rw [stripLrcPrefix_fst, hline]
      rfl

/-- A line that was sent has passed when its text has begun. -/
theorem passed_iff {raw : String} (h : Timed raw) (positionMs : Int) (index : Nat) :
    ((parseLyrics raw).lines[index]?.bind LyricLine.atMs).any (· ≤ positionMs) = true ↔
      ∃ tags, (tagsOfText raw)[index]? = some tags ∧ BegunBy positionMs tags := by
  have hat : (parseLyrics raw).lines[index]?.map LyricLine.atMs =
      (tagsOfText raw)[index]?.map List.head? := by
    rw [← List.getElem?_map, ← List.getElem?_map, (parseLyrics_of_timed h).1]
  have hbind : (parseLyrics raw).lines[index]?.bind LyricLine.atMs =
      (tagsOfText raw)[index]?.bind List.head? := by
    have hjoin := congrArg (fun o : Option (Option Int) => o.bind id) hat
    simpa [Option.bind_map] using hjoin
  rw [hbind, Option.any_eq_true]
  constructor
  · rintro ⟨first, hfirst, hle⟩
    obtain ⟨tags, htags, hhead⟩ := Option.bind_eq_some_iff.mp hfirst
    exact ⟨tags, htags, first, hhead, of_decide_eq_true hle⟩
  · rintro ⟨tags, htags, first, hhead, hle⟩
    exact ⟨first, by rw [htags]; exact hhead, decide_eq_true hle⟩

theorem active_eq {raw : String} (h : Timed raw) (positionMs : Int) :
    activeLyricLine (parseLyrics raw) positionMs =
      lastPassed (parseLyrics raw).lines positionMs (parseLyrics raw).lines.length := by
  unfold activeLyricLine
  rcases (parseLyrics_of_timed h).2 with hsynced | hnil
  · rw [if_neg (not_not.mpr hsynced)]
  · rw [hnil, ite_eq_right_iff]
    exact fun _ => rfl

/-- The highlighted line is the last one that has begun. -/
theorem active_eq_some {raw : String} (h : Timed raw) {positionMs : Int} {index : Nat} :
    activeLyricLine (parseLyrics raw) positionMs = some index ↔
      (∃ tags, (tagsOfText raw)[index]? = some tags ∧ BegunBy positionMs tags) ∧
        ∀ (later : Nat) (line : List Int), index < later → (tagsOfText raw)[later]? = some line →
          ¬ BegunBy positionMs line := by
  have hlength : (parseLyrics raw).lines.length = (tagsOfText raw).length := by
    simpa using congrArg List.length (parseLyrics_of_timed h).1
  rw [active_eq h, lastPassed_eq_some, passed_iff h, hlength]
  refine ⟨fun hl => ⟨hl.1.2, fun later line hlt hline hbegun => ?_⟩, fun hl => ⟨⟨?_, hl.1⟩, ?_⟩⟩
  · have hnot := hl.2 later hlt (List.getElem?_eq_some_iff.mp hline).1
    rw [(passed_iff h positionMs later).mpr ⟨line, hline, hbegun⟩] at hnot
    cases hnot
  · obtain ⟨tags, htags, -⟩ := hl.1
    exact (List.getElem?_eq_some_iff.mp htags).1
  · intro later hlt hle
    rw [← Bool.not_eq_true, passed_iff h]
    rintro ⟨line, hline, hbegun⟩
    exact hl.2 later line hlt hline hbegun

theorem active_eq_none {raw : String} (h : Timed raw) {positionMs : Int}
    (hnone : activeLyricLine (parseLyrics raw) positionMs = none) :
    ∀ tags ∈ tagsOfText raw, ¬ BegunBy positionMs tags := by
  intro tags htags hbegun
  obtain ⟨index, hindex⟩ := List.getElem?_of_mem htags
  have hpassed := (passed_iff h positionMs index).mpr ⟨tags, hindex, hbegun⟩
  rw [active_eq h] at hnone
  by_cases hlt : index < (parseLyrics raw).lines.length
  · rw [lastPassed_eq_none.mp hnone index hlt] at hpassed
    cases hpassed
  · rw [List.getElem?_eq_none (by omega)] at hpassed
    cases hpassed

/-! ## When the highlight follows the clock -/

theorem BegunBy.mono {t u : Int} {tags : List Int} (h : BegunBy t tags) (hle : t ≤ u) :
    BegunBy u tags := by
  obtain ⟨first, hhead, hfirst⟩ := h
  exact ⟨first, hhead, by omega⟩

/-- **The texts whose highlight follows the clock.** -/
theorem highlight_iff {raw : String} (h : Timed raw) : Follows raw ↔ InTime (tagsOfText raw) := by
  constructor
  · intro hfollows tags htags t ht
    have hright := hfollows t
    cases hactive : activeLyricLine (parseLyrics raw) t with
    | none =>
      rw [hactive] at hright
      exact absurd (hright tags htags t ht) (by omega)
    | some index =>
      rw [hactive] at hright
      obtain ⟨other, hother, u, hu, hle, hlatest⟩ := hright
      obtain ⟨⟨other', hother', hbegun⟩, hlater⟩ := (active_eq_some h).mp hactive
      obtain rfl := Option.some.inj (hother.symm.trans hother')
      have hmax := hlatest tags htags t ht (by omega)
      obtain rfl : u = t := by omega
      exact ⟨index, other, hother, hu, hbegun, hlater⟩
  · intro hintime positionMs
    cases hactive : activeLyricLine (parseLyrics raw) positionMs with
    | none =>
      intro tags htags t ht
      by_contra hle
      obtain ⟨index, other, hother, -, hbegun, -⟩ := hintime tags htags t ht
      exact active_eq_none h hactive other (List.mem_of_getElem? hother)
        (hbegun.mono (by omega))
    | some index =>
      obtain ⟨⟨tags, htags, hbegun⟩, hlater⟩ := (active_eq_some h).mp hactive
      obtain ⟨first, hhead, hfirst⟩ := hbegun
      -- the latest tag that has passed
      let passed := ((tagsOfText raw).flatten.filter (· ≤ positionMs)).toFinset
      have hmem : ∀ t, t ∈ passed ↔ (∃ line ∈ tagsOfText raw, t ∈ line) ∧ t ≤ positionMs := by
        intro t
        simp [passed]
      obtain ⟨t, ht, hmax⟩ := passed.exists_max_image id ⟨first, (hmem first).mpr
        ⟨⟨tags, List.mem_of_getElem? htags, List.mem_of_head? hhead⟩, hfirst⟩⟩
      obtain ⟨⟨line, hline, htline⟩, hle⟩ := (hmem t).mp ht
      have hlatest : ∀ other ∈ tagsOfText raw, ∀ u ∈ other, u ≤ positionMs → u ≤ t :=
        fun other hother u hu hule => hmax u ((hmem u).mpr ⟨⟨other, hother, hu⟩, hule⟩)
      obtain ⟨index', other, hother, htother, hbegun', hlater'⟩ := hintime line hline t htline
      -- no tag lies between, so what has begun by the position has begun by the tag
      have hsame : ∀ line ∈ tagsOfText raw, BegunBy positionMs line → BegunBy t line := by
        rintro line hline ⟨f, hf, hfle⟩
        exact ⟨f, hf, hlatest line hline f (List.mem_of_head? hf) hfle⟩
      obtain rfl : index = index' := by
        rcases Nat.lt_trichotomy index index' with hlt | heq | hgt
        · exact absurd (hbegun'.mono hle) (hlater index' other hlt hother)
        · exact heq
        · exact absurd (hsame tags (List.mem_of_getElem? htags) ⟨first, hhead, hfirst⟩)
            (hlater' index tags hgt htags)
      exact ⟨other, hother, t, htother, hle, hlatest⟩

/-- A chorus that is written once with both of its times: at its second time the verse that stands
after it is highlighted. -/
def chorus : String := "[00:10.00][00:50.00]chorus\n[00:20.00]verse"

theorem chorus_is_missed : Timed chorus ∧ activeLyricLine (parseLyrics chorus) 50000 = some 1 ∧
    ¬ Follows chorus := by
  have htags : tagsOfText chorus = [[10000, 50000], [20000]] := by decide +kernel
  have hactive : activeLyricLine (parseLyrics chorus) 50000 = some 1 := by decide +kernel
  refine ⟨?_, hactive, fun hfollows => ?_⟩
  · unfold Timed
    rw [htags]
    decide
  · have hright := hfollows 50000
    rw [htags, hactive] at hright
    obtain ⟨tags, hline, t, ht, -, hlatest⟩ := hright
    obtain rfl : [20000] = tags := Option.some.inj hline
    obtain rfl := List.mem_singleton.mp ht
    exact absurd (hlatest [10000, 50000] (by decide) 50000 (by decide) (by decide)) (by decide)

/-- Lines in the order of their times. -/
theorem highlight_iff_verses : Follows "[00:10.00]one\n[00:20.00]two" := by
  have htags : tagsOfText "[00:10.00]one\n[00:20.00]two" = [[10000], [20000]] := by decide +kernel
  refine (highlight_iff ?_).mpr ?_
  · unfold Timed
    rw [htags]
    decide
  · rw [htags]
    intro tags hline t ht
    have hcases : tags = [10000] ∨ tags = [20000] := by simpa using hline
    rcases hcases with rfl | rfl
    · obtain rfl := List.mem_singleton.mp ht
      refine ⟨0, [10000], rfl, ht, ⟨_, rfl, le_refl _⟩, fun later line hlt hlater => ?_⟩
      have hline := List.mem_of_getElem? hlater
      have hone : later = 1 := by
        have := (List.getElem?_eq_some_iff.mp hlater).1
        simp only [List.length_cons, List.length_nil] at this
        omega
      subst hone
      obtain rfl : [20000] = line := Option.some.inj hlater
      rintro ⟨first, hhead, hle⟩
      obtain rfl : 20000 = first := Option.some.inj hhead
      exact absurd hle (by decide)
    · obtain rfl := List.mem_singleton.mp ht
      refine ⟨1, [20000], rfl, ht, ⟨_, rfl, le_refl _⟩, fun later line hlt hlater => ?_⟩
      have := (List.getElem?_eq_some_iff.mp hlater).1
      simp only [List.length_cons, List.length_nil] at this
      omega

end Mbrc.WebApp
