import MbrcPlugin.Commands.TrackV6
import MbrcPlugin.Library.SortedPages

/-!
# Whether a sort has an order to follow

The comparison of a sort takes a rating that is no number as equal to every rating, and goes on to
the reading order of an album.  Where such a row stands between two rated ones in that reading
order, the higher rating first, the three follow one another in a circle: `order_preorder_iff` says
that nothing else keeps any of the orders, in either direction, from being a total preorder.
-/

namespace Mbrc.Cache

open TrackV6 (TrackTags)

variable (lower : String → String)

/-! ## Orders of a set of rows -/

/-- The comparison is a total preorder of the rows, its two directions mirrored. -/
structure Preorders (cmp : Compare) (rows : Set CachedTags) : Prop where
  refl : ∀ a ∈ rows, cmp a a = .eq
  total : ∀ a ∈ rows, ∀ b ∈ rows, cmp a b ≠ .gt ∨ cmp b a ≠ .gt
  swap : ∀ a ∈ rows, ∀ b ∈ rows, cmp b a = (cmp a b).swap
  trans : ∀ a ∈ rows, ∀ b ∈ rows, ∀ c ∈ rows, cmp a b ≠ .gt → cmp b c ≠ .gt → cmp a c ≠ .gt

/-- The reading order of an album, which breaks the ties. -/
def readingOrder : Compare := SortField.track.compare lower

/-- A row whose rating is no number stands between two others, the higher rating first. -/
structure Straddles (low nan high : CachedTags) : Prop where
  noNumber : nan.rating = none
  rated : ∃ x y, low.rating = some x ∧ high.rating = some y ∧ x < y
  before : readingOrder lower high nan ≠ .gt
  behind : readingOrder lower nan low ≠ .gt

/-! ## The ratings -/

instance : Std.TransCmp (readingOrder lower) := by
  unfold readingOrder
  simp only [SortField.compare]
  infer_instance

theorem rating_compare_eq (a b : CachedTags) :
    SortField.rating.compare lower a b = (compareRating a b).then (readingOrder lower a b) := rfl

/-- Where a rating is no number, the reading order decides. -/
theorem rating_compare_nan {a b : CachedTags} (h : a.rating = none ∨ b.rating = none) :
    SortField.rating.compare lower a b = readingOrder lower a b := by
  have heq : compareRating a b = .eq := by
    unfold compareRating
    rcases h with h | h <;> rw [h]
    cases a.rating <;> rfl
  rw [rating_compare_eq, heq]
  rfl

/-- A row that is not behind another one has no higher rating, and is not behind it in reading
order when the ratings agree. -/
theorem rating_compare_ne_gt {a b : CachedTags} {x y : WithBot (WithTop ℚ)}
    (ha : a.rating = some x) (hb : b.rating = some y) :
    SortField.rating.compare lower a b ≠ .gt ↔
      x < y ∨ x = y ∧ readingOrder lower a b ≠ .gt := by
  have hcompare : compareRating a b = compare x y := by
    unfold compareRating
    rw [ha, hb]
  rw [rating_compare_eq, hcompare]
  rcases lt_trichotomy x y with h | h | h
  · simp [compare_lt_iff_lt.mpr h, h]
  · simp [h]
  · simp [compare_gt_iff_gt.mpr h, h.not_gt, h.ne']

/-- The three rows of a circle: each is not behind the next, and the first is behind the last. -/
theorem rating_not_trans {low nan high : CachedTags} (h : Straddles lower low nan high) :
    SortField.rating.compare lower high nan ≠ .gt ∧
      SortField.rating.compare lower nan low ≠ .gt ∧
      SortField.rating.compare lower high low = .gt := by
  obtain ⟨x, y, hlow, hhigh, hlt⟩ := h.rated
  rw [rating_compare_nan lower (.inr h.noNumber), rating_compare_nan lower (.inl h.noNumber)]
  refine ⟨h.before, h.behind, ?_⟩
  by_contra hne
  rcases (rating_compare_ne_gt lower hhigh hlow).mp hne with hgt | ⟨heq, -⟩
  · exact absurd hgt hlt.not_gt
  · exact absurd heq hlt.ne'

theorem readingOrder_trans {a b c : CachedTags} (hab : readingOrder lower a b ≠ .gt)
    (hbc : readingOrder lower b c ≠ .gt) : readingOrder lower a c ≠ .gt :=
  Comparator.ne_gt_of_isLE (Std.TransCmp.isLE_trans (Comparator.isLE_of_ne_gt hab)
    (Comparator.isLE_of_ne_gt hbc))

theorem readingOrder_total {a b : CachedTags} (h : ¬ readingOrder lower a b ≠ .gt) :
    readingOrder lower b a ≠ .gt := by
  rw [not_ne_iff] at h
  have hswap : readingOrder lower b a = (readingOrder lower a b).swap := Std.OrientedCmp.eq_swap
  rw [hswap, h]
  simp

/-- **Only a circle** keeps the order by rating from being transitive. -/
theorem rating_trans {a b c : CachedTags}
    (hnone : ∀ low ∈ [a, b, c], ∀ nan ∈ [a, b, c], ∀ high ∈ [a, b, c],
      ¬ Straddles lower low nan high)
    (hab : SortField.rating.compare lower a b ≠ .gt)
    (hbc : SortField.rating.compare lower b c ≠ .gt) :
    SortField.rating.compare lower a c ≠ .gt := by
  have hcircle {low nan high : CachedTags} {x y : WithBot (WithTop ℚ)}
      (hlow : low ∈ [a, b, c]) (hnan : nan ∈ [a, b, c]) (hhigh : high ∈ [a, b, c])
      (hno : nan.rating = none) (hx : low.rating = some x) (hy : high.rating = some y)
      (hlt : x < y) (hbefore : readingOrder lower high nan ≠ .gt) :
      ¬ readingOrder lower nan low ≠ .gt := fun hbehind =>
    hnone low hlow nan hnan high hhigh ⟨hno, ⟨x, y, hx, hy, hlt⟩, hbefore, hbehind⟩
  cases ha : a.rating with
  | none =>
    rw [rating_compare_nan lower (.inl ha)] at hab ⊢
    cases hb : b.rating with
    | none =>
      rw [rating_compare_nan lower (.inl hb)] at hbc
      exact readingOrder_trans lower hab hbc
    | some y =>
      cases hc : c.rating with
      | none =>
        rw [rating_compare_nan lower (.inr hc)] at hbc
        exact readingOrder_trans lower hab hbc
      | some z =>
        rcases (rating_compare_ne_gt lower hb hc).mp hbc with hlt | ⟨-, hbc⟩
        · by_contra hac
          exact hcircle (by simp) (by simp) (by simp) ha hb hc hlt
            (readingOrder_total lower (not_ne_iff.mpr hac)) hab
        · exact readingOrder_trans lower hab hbc
  | some x =>
    cases hb : b.rating with
    | none =>
      rw [rating_compare_nan lower (.inr hb)] at hab
      rw [rating_compare_nan lower (.inl hb)] at hbc
      cases hc : c.rating with
      | none =>
        rw [rating_compare_nan lower (.inr hc)]
        exact readingOrder_trans lower hab hbc
      | some z =>
        rw [rating_compare_ne_gt lower ha hc]
        rcases lt_trichotomy x z with hlt | heq | hgt
        · exact .inl hlt
        · exact .inr ⟨heq, readingOrder_trans lower hab hbc⟩
        · exact absurd hbc (hcircle (by simp) (by simp) (by simp) hb hc ha hgt hab)
    | some y =>
      cases hc : c.rating with
      | none =>
        rw [rating_compare_nan lower (.inr hc)] at hbc ⊢
        rcases (rating_compare_ne_gt lower ha hb).mp hab with hlt | ⟨-, hab⟩
        · by_contra hac
          exact hcircle (by simp) (by simp) (by simp) hc ha hb hlt hbc
            (readingOrder_total lower (not_ne_iff.mpr hac))
        · exact readingOrder_trans lower hab hbc
      | some z =>
        rw [rating_compare_ne_gt lower ha hb] at hab
        rw [rating_compare_ne_gt lower hb hc] at hbc
        rw [rating_compare_ne_gt lower ha hc]
        rcases hab with hxy | ⟨rfl, hab⟩
        · rcases hbc with hyz | ⟨rfl, -⟩
          · exact .inl (hxy.trans hyz)
          · exact .inl hxy
        · rcases hbc with hyz | ⟨rfl, hbc⟩
          · exact .inl hyz
          · exact .inr ⟨rfl, readingOrder_trans lower hab hbc⟩

/-! ## Every order, in both directions -/

/-- The rows that the host's tags are cached as. -/
def cachedAs (tags : Set TrackTags) : Set CachedTags := { row | ∃ t ∈ tags, t.toCached = some row }

theorem rating_ordersOn_of_none {rows : List CachedTags}
    (hnone : ∀ low ∈ rows, ∀ nan ∈ rows, ∀ high ∈ rows, ¬ Straddles lower low nan high) :
    Comparator.OrdersOn (SortField.rating.compare lower) rows where
  swap a _ b _ := compare_swap .rating a b
  trans a ha b hb c hc := by
    have hmem : ∀ t ∈ [a, b, c], t ∈ rows := by simp [ha, hb, hc]
    exact rating_trans lower fun low hlow nan hnan high hhigh =>
      hnone low (hmem _ hlow) nan (hmem _ hnan) high (hmem _ hhigh)

/-- Fields other than the rating order all rows. -/
theorem compare_ordersOn_of_ne {field : SortField} (hfield : field ≠ .rating)
    (rows : List CachedTags) : Comparator.OrdersOn (field.compare lower) rows := by
  refine .of_lawful (compareRated lower field) fun a _ b _ => ?_
  cases field <;> first | rfl | exact absurd rfl hfield

/-- **Sorting is a total preorder** of the rows cached from the host's tags, for each field and
direction, but by rating where some row without a number stands between two rated ones. -/
theorem order_preorder_iff (field : SortField) (descending : Bool) (tags : Set TrackTags) :
    Preorders (field.order lower descending) (cachedAs tags) ↔
      (field = .rating → ∀ low ∈ cachedAs tags, ∀ nan ∈ cachedAs tags, ∀ high ∈ cachedAs tags,
        ¬ Straddles lower low nan high) := by
  constructor
  · rintro hpreorders rfl low hlow nan hnan high hhigh hcircle
    obtain ⟨hbefore, hbehind, hbroken⟩ := rating_not_trans lower hcircle
    cases descending with
    | false =>
      have htrans := hpreorders.trans high hhigh nan hnan low hlow
      simp only [order_eq_compare (show SortField.rating ≠ .originalYear by decide)] at htrans
      exact htrans hbefore hbehind hbroken
    | true =>
      have htrans := hpreorders.trans low hlow nan hnan high hhigh
      simp only [order_descending (show SortField.rating ≠ .originalYear by decide),
        ← compare_swap] at htrans
      exact htrans hbehind hbefore hbroken
  · intro hnone
    have hordered (rows : List CachedTags) (hrows : ∀ t ∈ rows, t ∈ cachedAs tags) :
        Comparator.OrdersOn (field.order lower descending) rows := by
      refine Comparator.OrdersOn.directed ?_ _ _
      by_cases hfield : field = .rating
      · subst hfield
        exact rating_ordersOn_of_none lower fun low hlow nan hnan high hhigh =>
          hnone rfl low (hrows _ hlow) nan (hrows _ hnan) high (hrows _ hhigh)
      · exact compare_ordersOn_of_ne lower hfield rows
    constructor
    · intro a ha
      have hswap := (hordered [a] (by simpa using ha)).swap a (by simp) a (by simp)
      cases h : field.order lower descending a a <;> simp_all
    · intro a ha b hb
      have hswap := (hordered [a, b] (by simp [ha, hb])).swap a (by simp) b (by simp)
      rw [hswap]
      cases field.order lower descending a b <;> simp
    · intro a ha b hb
      exact (hordered [a, b] (by simp [ha, hb])).swap a (by simp) b (by simp)
    · intro a ha b hb c hc
      exact (hordered [a, b, c] (by simp [ha, hb, hc])).trans a (by simp) b (by simp) c (by simp)

/-- A track whose rating the host sends as this text. -/
def ratedBy (text : String) : TrackTags := { src := text, rating := text }

/-- The row it is cached as. -/
def cachedRating (text : String) (rating : Rating) : CachedTags := { src := text, rating }

/-- **The ratings 2, nan and 1 follow one another in a circle.** -/
theorem order_not_preorder :
    ¬ ∀ (field : SortField) (descending : Bool),
      Preorders (field.order String.toLower descending) (cachedAs Set.univ) := by
  intro h
  let high := cachedRating "2" (some ((2 : ℚ) : WithTop ℚ))
  let nan := cachedRating "nan" none
  let low := cachedRating "1" (some ((1 : ℚ) : WithTop ℚ))
  have hhigh : (ratedBy "2").toCached = some high := by decide +kernel
  have hnan : (ratedBy "nan").toCached = some nan := by decide +kernel
  have hlow : (ratedBy "1").toCached = some low := by decide +kernel
  have hmem {text : String} {row : CachedTags} (hrow : (ratedBy text).toCached = some row) :
      row ∈ cachedAs Set.univ := ⟨ratedBy text, Set.mem_univ _, hrow⟩
  refine (h .rating false).trans high (hmem hhigh) nan (hmem hnan) low (hmem hlow) ?_ ?_ ?_
  all_goals decide +kernel

end Mbrc.Cache
