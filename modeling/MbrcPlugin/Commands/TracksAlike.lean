import MbrcPlugin.Commands.TrackV6

/-!
# One track from two places

A client is shown the same track from a row of the cache and from the tags of the host exactly when
its duration and its rating read alike (`reads_alike`): the duration makes a positive total without
negative parts, or is no duration on either path, and the rating is one that single precision holds
and the clamp leaves alone.
-/

namespace Mbrc.TrackV6

open Text Cache LyricsV6

/-! ## Durations -/

/-- What the parts of a duration read as. -/
def readings (parts : List (List Char)) : List (Option Int) :=
  parts.map fun part => parseI64 (trim (String.ofList part))

/-- The numbers before the first part that is none. -/
def leading : List (Option Int) → List Int
  | some n :: rest => n :: leading rest
  | _ => []

def InI64 (i : Int) : Prop := -2 ^ 63 ≤ i ∧ i < 2 ^ 63

instance (i : Int) : Decidable (InI64 i) := inferInstanceAs (Decidable (_ ∧ _))

/-- Read to base sixty. -/
def seconds (total : Int) (ns : List Int) : Int := ns.foldl (fun total n => total * 60 + n) total

/-- No total on the way overflows. -/
def Fits : Int → List Int → Prop
  | _, [] => True
  | total, n :: ns => InI64 (total * 60) ∧ InI64 (total * 60 + n) ∧ Fits (total * 60 + n) ns

instance decidableFits : ∀ total ns, Decidable (Fits total ns)
  | _, [] => inferInstanceAs (Decidable True)
  | total, n :: ns =>
    have := decidableFits (total * 60 + n) ns
    inferInstanceAs (Decidable (_ ∧ _ ∧ _))

theorem checkedI64_eq_none {i : Int} (h : ¬InI64 i) : checkedI64 i = none := if_neg h

theorem checkedI64_eq_some {i : Int} (h : InI64 i) : checkedI64 i = some i := if_pos h

/-- **The duration of the cache**: zero where a part is no number, and nothing on overflow. -/
theorem row_durationFrom (total : Int) (parts : List (List Char)) :
    Row.durationFrom total parts =
      if Fits total (leading (readings parts)) then
        if none ∈ readings parts then some 0
        else checkedI64 (seconds total (leading (readings parts)) * 1000)
      else none := by
  induction parts generalizing total with
  | nil => simp [Row.durationFrom, readings, leading, Fits, seconds]
  | cons part parts ih =>
    unfold Row.durationFrom
    cases hread : parseI64 (trim (String.ofList part)) with
    | none => simp [readings, leading, hread, Fits]
    | some n =>
      have hcons : readings (part :: parts) = some n :: readings parts := by
        rw [readings, List.map_cons, hread]
        rfl
      simp only [hcons, leading, Fits, List.mem_cons, reduceCtorEq, false_or]
      by_cases hsixty : InI64 (total * 60)
      · by_cases hsum : InI64 (total * 60 + n)
        · simp only [checkedI64_eq_some, hsixty, hsum, Option.bind_eq_bind, Option.bind_some, ih,
            true_and]
          rfl
        · simp [checkedI64_eq_some, checkedI64_eq_none, hsixty, hsum]
      · simp [checkedI64_eq_none, hsixty]

/-- **The duration of the host**: nothing where a part is no number or a negative one. -/
theorem host_durationFrom (total : Int) (parts : List (List Char)) :
    durationFrom total parts =
      if Fits total (leading (readings parts)) ∧ none ∉ readings parts ∧
          ∀ n ∈ leading (readings parts), 0 ≤ n then
        checkedI64 (seconds total (leading (readings parts)) * 1000)
      else none := by
  induction parts generalizing total with
  | nil => simp [durationFrom, readings, leading, Fits, seconds]
  | cons part parts ih =>
    unfold durationFrom
    cases hread : parseI64 (trim (String.ofList part)) with
    | none => simp [readings, hread]
    | some n =>
      have hcons : readings (part :: parts) = some n :: readings parts := by
        rw [readings, List.map_cons, hread]
        rfl
      simp only [hcons, leading, Fits, List.mem_cons, reduceCtorEq, false_or, forall_eq_or_imp]
      by_cases hneg : 0 ≤ n
      · rw [Option.filter_some, if_pos (decide_eq_true hneg)]
        by_cases hsixty : InI64 (total * 60)
        · by_cases hsum : InI64 (total * 60 + n)
          · simp only [checkedI64_eq_some, hsixty, hsum, Option.bind_eq_bind, Option.bind_some, ih,
              true_and, hneg]
            rfl
          · simp [checkedI64_eq_some, checkedI64_eq_none, hsixty, hsum]
        · simp [checkedI64_eq_none, hsixty]
      · rw [Option.filter_some, if_neg (by simpa using hneg)]
        simp [hneg]

/-- The parts of a duration. -/
def partsOf (raw : String) : List (Option Int) := readings (raw.toList.splitOn ':')

theorem partsOf_trim (raw : String) : partsOf (trim raw) = partsOf raw := by
  have hcolon : isWhiteSpace ':' = false := by decide
  have hparts := map_trimChars_splitOn hcolon raw.toList
  have hread := congrArg (List.map fun part => parseI64 (String.ofList part)) hparts
  simpa only [partsOf, readings, trim_eq, String.toList_ofList, List.map_map,
    Function.comp_def] using hread

/-- A duration that is the same on both paths: the totals of the numbers before the first part that
is none fit, and where all are numbers so do the milliseconds, which are positive exactly when no
part is negative. -/
structure DurationAlike (raw : String) : Prop where
  fits : Fits 0 (leading (partsOf raw))
  whole : none ∉ partsOf raw → InI64 (seconds 0 (leading (partsOf raw)) * 1000) ∧
    (0 < seconds 0 (leading (partsOf raw)) ↔ ∀ n ∈ leading (partsOf raw), 0 ≤ n)

theorem durationAlike_iff {raw : String} : DurationAlike raw ↔
    Fits 0 (leading (partsOf raw)) ∧ (none ∉ partsOf raw →
      InI64 (seconds 0 (leading (partsOf raw)) * 1000) ∧
        (0 < seconds 0 (leading (partsOf raw)) ↔ ∀ n ∈ leading (partsOf raw), 0 ≤ n)) :=
  ⟨fun h => ⟨h.fits, h.whole⟩, fun h => ⟨h.1, h.2⟩⟩

instance (raw : String) : Decidable (DurationAlike raw) := decidable_of_iff _ durationAlike_iff.symm

theorem partsOf_empty : partsOf "" = [none] := by decide +kernel

theorem parseDurationMs_eq (raw : String) :
    parseDurationMs raw =
      if Fits 0 (leading (partsOf raw)) ∧ none ∉ partsOf raw ∧
          ∀ n ∈ leading (partsOf raw), 0 ≤ n then
        checkedI64 (seconds 0 (leading (partsOf raw)) * 1000)
      else none := by
  rw [← partsOf_trim]
  unfold parseDurationMs
  split
  · rename_i hblank
    rw [hblank, partsOf_empty, if_neg fun h => h.2.1 List.mem_cons_self]
  · exact host_durationFrom 0 _

theorem int_ne_null (i : Int) : Value.int i ≠ .null := by simp [Value.int]

theorem duration_alike_iff (raw : String) :
    (Row.parseDurationMs raw).map (fun ms => intJson (positive ms)) =
      some (intJson (parseDurationMs raw)) ↔ DurationAlike raw := by
  rw [durationAlike_iff, parseDurationMs_eq]
  have hcache : Row.parseDurationMs raw = if Fits 0 (leading (partsOf raw)) then
      if none ∈ partsOf raw then some 0
      else checkedI64 (seconds 0 (leading (partsOf raw)) * 1000) else none :=
    row_durationFrom 0 _
  rw [hcache]
  generalize seconds 0 (leading (partsOf raw)) = total
  by_cases hfits : Fits 0 (leading (partsOf raw))
  case neg => simp [hfits]
  by_cases hnone : none ∈ partsOf raw
  case pos => simp [hfits, hnone, positive, intJson]
  simp only [hfits, hnone, if_true, if_false, not_false_eq_true, true_and, forall_const]
  by_cases hms : InI64 (total * 1000)
  case neg => simp [checkedI64_eq_none hms, hms]
  simp only [checkedI64_eq_some hms, hms, Option.map_some, Option.some.injEq, true_and]
  have hpos : 0 < total * 1000 ↔ 0 < total := by omega
  by_cases hneg : ∀ n ∈ leading (partsOf raw), 0 ≤ n
  · rw [if_pos hneg, iff_true_right hneg]
    by_cases htotal : 0 < total
    · simp [positive, hpos, htotal]
    · simp [positive, hpos, htotal, intJson, (int_ne_null _).symm]
  · rw [if_neg hneg, iff_false_right hneg]
    by_cases htotal : 0 < total
    · simp [positive, hpos, htotal, intJson, int_ne_null]
    · simp [positive, hpos, htotal, intJson]

/-! ## Ratings -/

section Ratings

open Rounding Format

/-- A positive rating that both precisions show the same. -/
def SameShown (q : ℚ) : Prop :=
  if q ≤ 5 then single.OnGrid q (double.rounded q) else q ≤ 5 + 1 / 2 ^ 22

instance (q : ℚ) : Decidable (SameShown q) := by
  unfold SameShown
  infer_instance

/-- A rating that is the same on both paths: it is no number or not positive, or its nearest double
is one that single precision holds, or it is so little above five that both show five. -/
def RatingAlike (raw : String) : Prop :=
  match readDecimal (withPoint (trim raw).toList) with
  | some (.finite q) => 0 < q → SameShown q
  | some (.infinity negative) => negative = true
  | some .nan => True
  | none => True

instance (raw : String) : Decidable (RatingAlike raw) := by
  unfold RatingAlike
  split <;> infer_instance

theorem log_lt_three {q : ℚ} (hq : 0 < q) (h : q < 8) : Int.log 2 q < 3 := by
  have hcube : q < ((2 : ℕ) : ℚ) ^ (3 : ℤ) := by
    norm_num
    exact h
  exact (Int.lt_zpow_iff_log_lt (by decide) hq).mp hcube

theorem eight_le_rounded {format : Format} (hprecision : 0 < format.precision)
    (hmin : format.minPlace ≤ 0) {q : ℚ} (h : 8 ≤ q) : 8 ≤ format.rounded q := by
  have hq : 0 < q := by linarith
  have hlog : 3 ≤ Int.log 2 q := by
    refine (Int.zpow_le_iff_le_log (by decide) hq).mp ?_
    norm_num
    exact h
  calc (8 : ℚ) = 2 ^ (3 : ℤ) := by norm_num
    _ ≤ 2 ^ Int.log 2 q := zpow_le_zpow_right₀ (by norm_num) hlog
    _ ≤ format.rounded q := zpow_log_le_rounded hq hprecision (by omega)

/-- Up to five a rating stays up to five, in either precision. -/
theorem rounded_le_five {format : Format} (hprecision : 3 ≤ format.precision)
    (hmin : format.minPlace ≤ 0) {q : ℚ} (hq : 0 < q) (h : q ≤ 5) : format.rounded q ≤ 5 := by
  have hlog := log_lt_three hq (by linarith)
  have hplace : format.place q ≤ 0 := max_le (by omega) hmin
  simpa using rounded_le (m := 5) (e := 0) hplace (by simpa using h)

theorem five_le_rounded {format : Format} (hprecision : 3 ≤ format.precision)
    (hmin : format.minPlace ≤ 0) {q : ℚ} (h : 5 ≤ q) : 5 ≤ format.rounded q := by
  have hq : 0 < q := by linarith
  by_cases hsmall : q < 8
  · have hlog := log_lt_three hq hsmall
    have hplace : format.place q ≤ 0 := max_le (by omega) hmin
    simpa using le_rounded (m := 5) (e := 0) hplace (by simpa using h)
  · exact le_trans (by norm_num) (eight_le_rounded (by omega) hmin (not_lt.mp hsmall))

/-- Above five, single precision shows five up to half a last place further. -/
theorem single_rounded_eq_five {q : ℚ} (h : 5 < q) :
    single.rounded q = 5 ↔ q ≤ 5 + 1 / 2 ^ 22 := by
  have hq : 0 < q := by linarith
  by_cases hsmall : q < 8
  · have hlow : 2 ≤ Int.log 2 q := by
      refine (Int.zpow_le_iff_le_log (by decide) hq).mp ?_
      norm_num
      linarith
    have hlog := log_lt_three hq hsmall
    have hplace : single.place q = -21 := by
      simp only [place, single]
      omega
    have hfive : ((10485760 : ℤ) : ℚ) * 2 ^ single.place q = 5 := by
      rw [hplace]
      norm_num
    have hle : ((10485760 : ℤ) : ℚ) * 2 ^ single.place q ≤ q := hfive.le.trans h.le
    have heven := rounded_eq_of_even (by decide) hle
    rw [hfive] at heven
    rw [heven, hplace]
    norm_num
  · have height : 8 ≤ single.rounded q :=
      eight_le_rounded (by decide) (by decide) (not_lt.mp hsmall)
    exact iff_of_false (by linarith) (by norm_num; linarith)

theorem place_lt (q : ℚ) : double.place q < single.place q := by
  simp only [place, single, double]
  omega

/-- A positive rating as both paths show it. -/
theorem sameShown_iff {q : ℚ} (hq : 0 < q) :
    SameShown q ↔ single.rounded q = min (double.rounded q) 5 := by
  unfold SameShown
  split
  · rename_i hle
    rw [min_eq_left (rounded_le_five (by decide) (by decide) hq hle), rounded_eq_iff (place_lt q)]
  · rename_i hgt
    have hfive : 5 < q := not_le.mp hgt
    rw [min_eq_right (five_le_rounded (by decide) (by decide) hfive.le),
      single_rounded_eq_five hfive]

variable {float : ℚ → Float64} (hfloat : ∀ q, (float q).value = q)

/-- What is shown of a rating that is not negative. -/
def ratingValue (float : ℚ → Float64) (x : ℚ) : Value :=
  if x = 0 then .null else .number (.float (float x))

include hfloat in
theorem ratingValue_inj {x y : ℚ} : ratingValue float x = ratingValue float y ↔ x = y := by
  refine ⟨fun h => ?_, fun h => h ▸ rfl⟩
  unfold ratingValue at h
  split at h <;> split at h
  case isTrue.isTrue hx hy => rw [hx, hy]
  case isTrue.isFalse => cases h
  case isFalse.isTrue => cases h
  case isFalse.isFalse =>
    have hvalue := congrArg Float64.value (Number.float.inj (Value.number.inj h))
    rwa [hfloat, hfloat] at hvalue

/-- The rating of a row. -/
def rowRating (float : ℚ → Float64) (rating : Rating) : Value :=
  floatJson float (if isPositive rating then some rating else none)

theorem rowRating_finite {x : ℚ} (hx : 0 ≤ x) :
    rowRating float (some (x : WithTop ℚ)) = ratingValue float x := by
  have hpositive : isPositive (some (x : WithTop ℚ)) = decide (0 < x) := by
    rw [isPositive, decide_eq_decide]
    norm_cast
  unfold rowRating ratingValue
  rw [hpositive]
  by_cases hzero : x = 0
  · rw [if_pos hzero, hzero]
    rfl
  · rw [if_neg hzero, if_pos (decide_eq_true (lt_of_le_of_ne hx (Ne.symm hzero)))]
    rfl

/-- The rating of the tags. -/
def hostRating (float : ℚ → Float64) (rating : Rating) : Value :=
  floatJson float (if isUnrated rating then none else some (clampRating rating))

theorem hostRating_finite {x : ℚ} (hx : 0 ≤ x) :
    hostRating float (some (x : WithTop ℚ)) = ratingValue float (min x 5) := by
  have hunrated : isUnrated (some (x : WithTop ℚ)) = decide (x ≤ 0) := by
    rw [isUnrated, decide_eq_decide]
    norm_cast
  have hclamp : clampRating (some (x : WithTop ℚ)) =
      some (((min x 5 : ℚ) : WithTop ℚ) : WithBot (WithTop ℚ)) := by
    have hnonneg : (0 : ℚ) ≤ min x 5 := le_min hx (by norm_num)
    rw [clampRating, Option.map_some, Option.some.injEq, max_eq_right]
    · norm_cast
    · exact_mod_cast hnonneg
  unfold hostRating ratingValue
  rw [hunrated, hclamp]
  by_cases hzero : x = 0
  · rw [if_pos (decide_eq_true hzero.le), if_pos (by rw [hzero]; exact min_eq_left (by norm_num))]
    rfl
  · have hpos : 0 < x := lt_of_le_of_ne hx (Ne.symm hzero)
    rw [if_neg (by simpa using hpos), if_neg (lt_min hpos (by norm_num)).ne']
    rfl

theorem rowRating_infinite : rowRating float (some (⊤ : WithTop ℚ)) = .null := by
  rw [rowRating, if_pos (by decide +kernel)]
  rfl

theorem rowRating_nonpos {x : WithBot (WithTop ℚ)} (hx : x ≤ 0) :
    rowRating float (some x) = .null := by
  rw [rowRating, if_neg (by simpa [isPositive] using hx)]
  rfl

theorem hostRating_nonpos {x : WithBot (WithTop ℚ)} (hx : x ≤ 0) :
    hostRating float (some x) = .null := by
  rw [hostRating, if_pos (by simpa [isUnrated] using hx)]
  rfl

theorem hostRating_infinite :
    hostRating float (some (⊤ : WithTop ℚ)) = ratingValue float 5 := by
  have hclamp : clampRating (some (⊤ : WithTop ℚ)) =
      some (((5 : ℚ) : WithTop ℚ) : WithBot (WithTop ℚ)) := by
    decide +kernel
  unfold hostRating ratingValue
  rw [hclamp, if_neg (by decide +kernel), if_neg (by norm_num)]
  rfl

/-- **A positive rating** is shown from the tags as its nearest double, up to five. -/
theorem hostRating_round {q : ℚ} (hq : 0 < q) :
    hostRating float (some (double.round q)) = ratingValue float (min (double.rounded q) 5) := by
  by_cases hsmall : double.rounded q < 2 ^ double.maxExponent
  · rw [round_of_nonneg hq.le hsmall, hostRating_finite (rounded_nonneg hq.le)]
  · have hlarge : (5 : ℚ) ≤ double.rounded q := by
      refine le_trans ?_ (not_lt.mp hsmall)
      calc (5 : ℚ) ≤ 2 ^ (3 : ℤ) := by norm_num
        _ ≤ 2 ^ double.maxExponent := zpow_le_zpow_right₀ (by norm_num) (by decide)
    rw [round_of_large hq.le hsmall, hostRating_infinite, min_eq_right hlarge]

include hfloat in
/-- **A positive rating** is shown alike when single precision has what is shown of it. -/
theorem rating_round_iff {q : ℚ} (hq : 0 < q) :
    rowRating float (some (single.round q)) = hostRating float (some (double.round q)) ↔
      SameShown q := by
  rw [hostRating_round hq, sameShown_iff hq]
  by_cases hsmall : single.rounded q < 2 ^ single.maxExponent
  · rw [round_of_nonneg hq.le hsmall, rowRating_finite (rounded_nonneg hq.le),
      ratingValue_inj hfloat]
  · have hlarge : (8 : ℚ) ≤ single.rounded q := by
      refine le_trans ?_ (not_lt.mp hsmall)
      calc (8 : ℚ) = 2 ^ (3 : ℤ) := by norm_num
        _ ≤ 2 ^ single.maxExponent := zpow_le_zpow_right₀ (by norm_num) (by decide)
    have hgt : ¬q ≤ 5 := fun hle => by
      have hfive : single.rounded q ≤ 5 := rounded_le_five (by decide) (by decide) hq hle
      linarith
    have hfive : min (double.rounded q) 5 = 5 :=
      min_eq_right (five_le_rounded (by decide) (by decide) (not_le.mp hgt).le)
    rw [round_of_large hq.le hsmall, hfive, rowRating_infinite]
    refine iff_of_false ?_ (by linarith)
    unfold ratingValue
    rw [if_neg (by norm_num)]
    simp

include hfloat in
theorem rating_alike_iff (raw : String) :
    rowRating float (Row.parseRating raw) = floatJson float (parseRating raw) ↔
      RatingAlike raw := by
  have hrow : Row.parseRating raw = (parseFloat single (withPoint (trim raw).toList)).getD
      (some ((0 : ℚ) : WithTop ℚ)) := rfl
  have hzero : rowRating float (some ((0 : ℚ) : WithTop ℚ)) = .null := by
    rw [rowRating_finite le_rfl, ratingValue, if_pos rfl]
  have hhost : floatJson float (parseRating raw) =
      match parseFloat double (withPoint (trim raw).toList) with
      | some value => hostRating float value
      | none => .null := by
    unfold parseRating
    split
    · rename_i hblank
      rw [hblank]
      rfl
    · cases parseFloat double (withPoint (trim raw).toList) <;> rfl
  rw [hrow, hhost]
  unfold RatingAlike parseFloat
  cases readDecimal (withPoint (trim raw).toList) with
  | none => simpa using hzero
  | some decimal =>
    cases decimal with
    | nan => exact iff_of_true rfl trivial
    | infinity negative =>
      cases negative with
      | true =>
        exact iff_of_true ((rowRating_nonpos bot_le).trans (hostRating_nonpos bot_le).symm) rfl
      | false =>
        have hne : rowRating float (some (⊤ : WithTop ℚ)) ≠
            hostRating float (some (⊤ : WithTop ℚ)) := by
          rw [rowRating_infinite, hostRating_infinite, ratingValue, if_neg (by norm_num)]
          simp
        exact iff_of_false hne (by decide)
    | finite q =>
      rcases lt_or_ge 0 q with hq | hq
      · have hround := rating_round_iff hfloat hq
        exact hround.trans ⟨fun h _ => h, fun h => h hq⟩
      · exact iff_of_true ((rowRating_nonpos (round_nonpos hq)).trans
          (hostRating_nonpos (round_nonpos hq)).symm) fun h => absurd h hq.not_gt

end Ratings

/-! ## Years -/

theorem positive_yearOrZero (raw : String) : positive (yearOrZero raw) = parseYear raw := by
  rw [yearOrZero_eq]
  cases hyear : parseYear raw with
  | none => rfl
  | some y =>
    have hrange := parseYear_range hyear
    rw [Option.getD_some, positive, if_pos (by omega)]

/-! ## The tracks -/

/-- Two objects of a track with the same years are the same if they show the same duration and
rating. -/
theorem trackObject_eq_iff {float : ℚ → Float64} {src display title album albumArtist : String}
    {artist : Value × Value} {trackNo discNo : Int} {genre composer : List String}
    {year originalYear durationMs durationMs' : Option Int} {rating rating' : Option Rating}
    {dateAdded : String} {coverHash : Option String} :
    trackObject float src artist display title album albumArtist trackNo discNo genre composer year
        originalYear durationMs rating dateAdded coverHash =
      trackObject float src artist display title album albumArtist trackNo discNo genre composer
        year originalYear durationMs' rating' dateAdded coverHash ↔
      intJson durationMs = intJson durationMs' ∧
        floatJson float rating = floatJson float rating' := by
  simp only [trackObject, List.cons_append, List.nil_append, Value.object.injEq, List.cons.injEq,
    Prod.mk.injEq, true_and, and_true]

theorem same_track_iff (float : ℚ → Float64) (tags : TrackTags) (coverHash : Option String) :
    (tags.toCached.map fun row => cachedTrackJson float row coverHash) =
        some (trackJson float tags coverHash .lead) ↔
      (Row.parseDurationMs tags.duration).map (fun ms => intJson (positive ms)) =
          some (intJson (parseDurationMs tags.duration)) ∧
        rowRating float (Row.parseRating tags.rating) =
          floatJson float (parseRating tags.rating) := by
  unfold TrackTags.toCached
  cases Row.parseDurationMs tags.duration with
  | none => exact iff_of_false (by simp) fun h => absurd h.1 (by simp)
  | some ms =>
    simp only [Option.bind_eq_bind, Option.bind_some, Option.pure_def, Option.map_some,
      Option.some.injEq]
    unfold cachedTrackJson trackJson rowRating
    rw [positive_yearOrZero, positive_yearOrZero, trackObject_eq_iff]

/-- **A track reads the same from the cache as from the host** exactly when its duration and its
rating do. -/
theorem reads_alike (float : ℚ → Float64) (hfloat : ∀ q, (float q).value = q) (tags : TrackTags)
    (coverHash : Option String) :
    (tags.toCached.map fun row => cachedTrackJson float row coverHash) =
        some (trackJson float tags coverHash .lead) ↔
      DurationAlike tags.duration ∧ RatingAlike tags.rating := by
  rw [same_track_iff, duration_alike_iff, rating_alike_iff hfloat]

/-- The float of a number with one decimal. -/
def tenths (q : ℚ) : Float64 :=
  let text := toString ⌊q⌋ ++ "." ++ toString (⌊q * 10⌋ % 10)
  { value := q, json := text, display := text }

def song : TrackTags :=
  { src := "/song.mp3", artist := "Artist", year := "12/03/2007", duration := "4:17"
    rating := "3,5" }

theorem song_reads_alike :
    (song.toCached.map fun row => cachedTrackJson tenths row (some "c0ffee")) =
      some (trackJson tenths song (some "c0ffee") .lead) :=
  (reads_alike tenths (fun _ => rfl) song (some "c0ffee")).mpr
    ⟨by decide +kernel, by decide +kernel⟩

/-- A track of no length: the host shows zero milliseconds and the cache no duration. -/
theorem no_length_differs :
    ¬ (({ song with duration := "0:00" }.toCached.map fun row => cachedTrackJson tenths row none) =
      some (trackJson tenths { song with duration := "0:00" } none .lead)) := by
  rw [same_track_iff, duration_alike_iff]
  exact fun h => absurd h.1 (by decide +kernel)

/-- Single precision shows 3.3 as another number. -/
example : ¬ RatingAlike "3.3" := by decide +kernel

end Mbrc.TrackV6
