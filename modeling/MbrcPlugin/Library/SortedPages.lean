import MbrcPlugin.Commands.LibraryV6
import MbrcPlugin.Library.Derived

/-!
# Pages of a stored order

A rebuild stores each order of the rows once, and one of them in both directions; a descending page
is the mirrored window of the ascending order.  After a rebuild the pages are the windows of one
sequence, the rows in order, exactly where the rows can be ordered and no order was left behind by
rows that are gone (`sorted_pages_tile_iff`).
-/

namespace Mbrc.Cache

open MetadataCache LibraryV6

variable (lower : String → String)

/-! ## A rebuild -/

/-- What `rebuild_sort_orders` may leave: `sort_by` gives no order in particular where the
comparison does not order the rows, and without rows nothing is written. -/
def Rebuilt (c c' : MetadataCache) : Prop :=
  if c.allCachedTags = [] then c' = c
  else
    ∃ order : SortKey → List CachedTags,
      (∀ key, Comparator.MaySort (key.field.order lower key.descending) c.allCachedTags
        (order key)) ∧
      c' = { c with sort := fun key => (order key).map (·.src) }

theorem rebuilt_rebuildSortOrders (c : MetadataCache) :
    Rebuilt lower c (c.rebuildSortOrders lower) := by
  unfold Rebuilt rebuildSortOrders
  dsimp only
  split
  · rfl
  · exact ⟨sorted lower c.allCachedTags, fun key => Comparator.sortBy_maySort _ _, rfl⟩

/-! ## Pages -/

/-- The rows from an offset on, to the end where there is no limit. -/
def window {α : Type} (l : List α) (offset limit : Int) : List α :=
  if limit ≤ 0 then l.drop offset.toNat else (l.drop offset.toNat).take limit.toNat

/-- `sorted_track_page` of any integers: a negative offset is the start, and no limit above zero is
the end. -/
def pageAt (c : MetadataCache) (field : SortField) (descending : Bool) (offset limit : Int) :
    List String :=
  sortedTrackPage c field offset.toNat limit.toNat descending

/-- One page behind the other. -/
def pagesFrom (c : MetadataCache) (field : SortField) (descending : Bool) :
    Int → List Int → List String
  | _, [] => []
  | offset, limit :: limits =>
    pageAt c field descending offset limit ++ pagesFrom c field descending (offset + limit) limits

/-- The pages of an order in one direction are the windows of a sequence, the rows in that order. -/
structure TiledBy (c : MetadataCache) (field : SortField) (descending : Bool)
    (rows seq : List CachedTags) : Prop where
  perm : seq.Perm rows
  inOrder : seq.Pairwise fun a b => field.order lower descending a b ≠ .gt
  window : ∀ offset limit : Int, 0 ≤ offset →
    pageAt c field descending offset limit = window (seq.map (·.src)) offset limit
  consecutive : ∀ limits : List Int, (∀ l ∈ limits, 0 < l) →
    pagesFrom c field descending 0 limits = (seq.map (·.src)).take limits.sum.toNat

def Tiled (c : MetadataCache) (rows : List CachedTags) : Prop :=
  ∀ field, ∃ up down, TiledBy lower c field false rows up ∧ TiledBy lower c field true rows down ∧
    (field ≠ .originalYear → down = up.reverse)

/-! ## Windows -/

section

variable {α : Type}

theorem window_eq (l : List α) (o k : Nat) :
    Cache.window l o k = (l.drop o).take (if k = 0 then l.length - o else k) := by
  unfold Cache.window
  rw [Int.toNat_natCast, Int.toNat_natCast]
  by_cases hk : k = 0
  · rw [if_pos (by omega), if_pos hk, ← List.length_drop, List.take_length]
  · rw [if_neg (by omega), if_neg hk]

/-- The bounds of a page that is read forwards. -/
theorem take_drop_forwards (l : List α) (o k : Nat) :
    (l.take (min (o + k) l.length)).drop o = (l.drop o).take k := by
  rw [List.drop_take, List.take_eq_take_iff, List.length_drop]
  omega

/-- The bounds of a page that is read backwards. -/
theorem take_drop_backwards (l : List α) (o k : Nat) :
    ((l.take (l.length - o)).drop (l.length - o - k)).reverse = (l.reverse.drop o).take k := by
  rw [List.drop_reverse, List.take_reverse, List.length_take,
    Nat.min_eq_left (Nat.sub_le l.length o)]

end

/-! ## The pages of a stored order -/

theorem descendingKey_of_ne {field : SortField} (h : field ≠ .originalYear) :
    field.descendingKey = none := by
  unfold SortField.descendingKey SortField.hasUndatedTail
  rw [if_neg (by simpa using h)]

theorem pageAt_eq {c : MetadataCache} {field : SortField} {descending : Bool} {l : List String}
    (h : ∀ o k : Nat, sortedTrackPage c field o k descending =
      (l.drop o).take (if k = 0 then l.length - o else k)) (offset limit : Int) (ho : 0 ≤ offset) :
    pageAt c field descending offset limit = window l offset limit := by
  obtain ⟨o, rfl⟩ := Int.eq_ofNat_of_zero_le ho
  rw [pageAt, Int.toNat_natCast, h]
  rcases lt_or_ge 0 limit with hpos | hnone
  · obtain ⟨k, rfl⟩ := Int.eq_ofNat_of_zero_le (le_of_lt hpos)
    rw [Int.toNat_natCast]
    exact (window_eq l o k).symm
  · have hzero : limit.toNat = 0 := by omega
    rw [hzero, if_pos rfl, window, if_pos hnone, Int.toNat_natCast, ← List.length_drop,
      List.take_length]

/-- An order that is stored once. -/
theorem sortedTrackPage_once (c : MetadataCache) {field : SortField} (h : field ≠ .originalYear)
    (o k : Nat) (descending : Bool) :
    sortedTrackPage c field o k descending =
      let l := c.storedOrder (.ascending field)
      let l := if descending then l.reverse else l
      (l.drop o).take (if k = 0 then l.length - o else k) := by
  unfold sortedTrackPage sortedTrackCount
  simp only [descendingKey_of_ne h]
  cases descending with
  | false =>
    simp only [Bool.false_eq_true, if_false]
    exact take_drop_forwards _ o _
  | true =>
    simp only [if_true, List.length_reverse]
    exact take_drop_backwards _ o _

/-- The order that is stored in both directions. -/
theorem sortedTrackPage_twice (c : MetadataCache) (o k : Nat) (descending : Bool)
    (hlength : (c.storedOrder (.ascending .originalYear)).length =
      (c.storedOrder .originalYearDesc).length) :
    sortedTrackPage c .originalYear o k descending =
      let l := c.storedOrder (if descending then .originalYearDesc else .ascending .originalYear)
      (l.drop o).take (if k = 0 then l.length - o else k) := by
  have hkey : SortField.originalYear.descendingKey = some .originalYearDesc := rfl
  unfold sortedTrackPage sortedTrackCount
  simp only [hkey]
  cases descending with
  | false =>
    simp only [Bool.false_eq_true, if_false, ← hlength, Nat.min_self]
    exact take_drop_forwards _ o _
  | true =>
    simp only [Bool.false_eq_true, if_true, if_false, hlength, Nat.min_self]
    exact take_drop_forwards _ o _

/-- Pages one behind the other are a beginning of the sequence. -/
theorem pagesFrom_eq {c : MetadataCache} {field : SortField} {descending : Bool} {l : List String}
    (hpage : ∀ offset limit : Int, 0 ≤ offset →
      pageAt c field descending offset limit = window l offset limit)
    {limits : List Int} (hpos : ∀ k ∈ limits, 0 < k) (o : Nat) :
    pagesFrom c field descending o limits = (l.drop o).take limits.sum.toNat := by
  induction limits generalizing o with
  | nil => rfl
  | cons k limits ih =>
    obtain ⟨hk, hrest⟩ := List.forall_mem_cons.mp hpos
    have hsum : 0 ≤ limits.sum := List.sum_nonneg fun j hj => le_of_lt (hrest j hj)
    have hnext : (o : Int) + k = ((o + k.toNat : Nat) : Int) := by omega
    have hall : (k :: limits).sum.toNat = k.toNat + limits.sum.toNat := by
      rw [List.sum_cons]
      omega
    rw [pagesFrom, hpage o k (by omega), window, if_neg (by omega), Int.toNat_natCast, hnext,
      ih hrest, hall, List.take_add, List.drop_drop]

variable {lower}

theorem tiledBy_of_page {c : MetadataCache} {field : SortField} {descending : Bool}
    {rows seq : List CachedTags} (hperm : seq.Perm rows)
    (horder : seq.Pairwise fun a b => field.order lower descending a b ≠ .gt)
    (hpage : ∀ o k : Nat, sortedTrackPage c field o k descending =
      ((seq.map (·.src)).drop o).take (if k = 0 then (seq.map (·.src)).length - o else k)) :
    TiledBy lower c field descending rows seq where
  perm := hperm
  inOrder := horder
  window := pageAt_eq hpage
  consecutive _ hpos := pagesFrom_eq (pageAt_eq hpage) hpos 0

/-! ## Rows that can be ordered -/

theorem order_eq_compare {field : SortField} (h : field ≠ .originalYear) (a b : CachedTags) :
    field.order lower false a b = field.compare lower a b := by
  have hundated (t : CachedTags) : field.undated t = false := by
    simp [SortField.undated, SortField.hasUndatedTail, h]
  simp [SortField.order, Comparator.directed, hundated]

theorem order_descending {field : SortField} (h : field ≠ .originalYear) (a b : CachedTags) :
    field.order lower true a b = (field.compare lower a b).swap := by
  have hundated (t : CachedTags) : field.undated t = false := by
    simp [SortField.undated, SortField.hasUndatedTail, h]
  simp [SortField.order, Comparator.directed, hundated]

instance : Std.OrientedCmp compareRating where
  eq_swap := by
    intro a b
    unfold compareRating
    cases a.rating with
    | none => cases b.rating <;> rfl
    | some x =>
      cases b.rating with
      | none => rfl
      | some y =>
        show compare x y = (compare y x).swap
        exact Std.OrientedOrd.eq_swap

instance (ord : Compare) [Std.OrientedCmp ord] : Std.OrientedCmp (thenTrack lower ord) := by
  unfold thenTrack
  infer_instance

theorem compare_swap (field : SortField) (a b : CachedTags) :
    field.compare lower b a = (field.compare lower a b).swap := by
  have horiented : Std.OrientedCmp (field.compare lower) := by
    cases field <;> simp only [SortField.compare] <;> infer_instance
  exact horiented.eq_swap

/-- Only ratings may leave rows without an order. -/
theorem compare_ordersOn {rows : List CachedTags}
    (h : Comparator.OrdersOn (SortField.rating.compare lower) rows) (field : SortField) :
    Comparator.OrdersOn (field.compare lower) rows := by
  by_cases hrating : field = .rating
  · rw [hrating]
    exact h
  · refine .of_lawful (compareRated lower field) fun a _ b _ => ?_
    cases field <;> first | rfl | exact absurd rfl hrating

/-- Ratings that are numbers order the rows. -/
theorem rating_ordersOn {rows : List CachedTags} (h : ∀ t ∈ rows, t.rating ≠ none) :
    Comparator.OrdersOn (SortField.rating.compare lower) rows :=
  .of_lawful (compareRated lower .rating) fun a ha b hb =>
    compare_eq_compareRated lower (h a ha) (h b hb) .rating

/-! ## What a rebuild leaves -/

variable {c : MetadataCache}

theorem validated_of_rows (h : c.allCachedTags ≠ []) : c.validated = true := by
  by_contra hv
  exact h (by simp [allCachedTags, hv])

/-- The orders of rows that can be ordered are tiled by their pages. -/
theorem tiled_of_orders (hrows : c.allCachedTags ≠ []) (order : SortKey → List CachedTags)
    (hsort : ∀ key, Comparator.MaySort (key.field.order lower key.descending) c.allCachedTags
      (order key))
    (h : Comparator.OrdersOn (SortField.rating.compare lower) c.allCachedTags) :
    Tiled lower { c with sort := fun key => (order key).map (·.src) } c.allCachedTags := by
  have hv := validated_of_rows hrows
  have hperm (key) := (hsort key).perm
  have horder (key) : (order key).Pairwise fun a b =>
      key.field.order lower key.descending a b ≠ .gt :=
    (hsort key).pairwise ((compare_ordersOn h key.field).directed _ _)
  have hstored (key) : storedOrder { c with sort := fun key => (order key).map (·.src) } key =
      (order key).map (·.src) := by
    simp [storedOrder, hv]
  intro field
  by_cases hfield : field = .originalYear
  · subst hfield
    have hlength : (storedOrder { c with sort := fun key => (order key).map (·.src) }
          (.ascending .originalYear)).length =
        (storedOrder { c with sort := fun key => (order key).map (·.src) }
          .originalYearDesc).length := by
      rw [hstored, hstored, List.length_map, List.length_map, (hperm _).length_eq,
        (hperm _).length_eq]
    refine ⟨order (.ascending .originalYear), order .originalYearDesc, ?_, ?_,
      fun hne => (hne rfl).elim⟩
    · refine tiledBy_of_page (hperm _) (horder (.ascending .originalYear)) fun o k => ?_
      rw [sortedTrackPage_twice _ o k false hlength, if_neg Bool.false_ne_true, hstored]
    · refine tiledBy_of_page (hperm _) (horder .originalYearDesc) fun o k => ?_
      rw [sortedTrackPage_twice _ o k true hlength, if_pos rfl, hstored]
  · refine ⟨order (.ascending field), (order (.ascending field)).reverse, ?_, ?_, fun _ => rfl⟩
    · refine tiledBy_of_page (hperm _) (horder (.ascending field)) fun o k => ?_
      rw [sortedTrackPage_once _ hfield, hstored]
      rfl
    · refine tiledBy_of_page ((List.reverse_perm _).trans (hperm _)) ?_ fun o k => ?_
      · rw [List.pairwise_reverse]
        refine (horder (.ascending field)).imp fun {a b} hab => ?_
        rw [order_descending hfield, ← compare_swap, ← order_eq_compare hfield]
        exact hab
      · rw [sortedTrackPage_once _ hfield, hstored, List.map_reverse]
        rfl

/-- Where no row is left, every page of an order that is still counted is too long. -/
theorem count_of_tiled (h : Tiled lower c []) (field : SortField) :
    c.sortedTrackCount field = 0 := by
  obtain ⟨up, -, hup, -⟩ := h field
  have hpage := hup.window 0 0 (le_refl 0)
  rw [List.perm_nil.mp hup.perm] at hpage
  have hkey : sortedTrackPage c field 0 0 false =
      (c.storedOrder (.ascending field)).take (c.sortedTrackCount field) := by
    unfold sortedTrackPage
    cases field.descendingKey <;> simp
  have hnil : (c.storedOrder (.ascending field)).take (c.sortedTrackCount field) = [] :=
    hkey.symm.trans hpage
  have hle : c.sortedTrackCount field ≤ (c.storedOrder (.ascending field)).length := by
    unfold sortedTrackCount
    cases field.descendingKey with
    | none => exact Nat.le_refl _
    | some key => exact Nat.min_le_left _ _
  have hlength := congrArg List.length hnil
  rw [List.length_take, Nat.min_eq_left hle] at hlength
  exact hlength

/-- Without rows and without orders there is nothing to page. -/
theorem tiled_of_count (h : ∀ field, c.sortedTrackCount field = 0) : Tiled lower c [] := by
  have hpage (field : SortField) (descending : Bool) (o k : Nat) :
      sortedTrackPage c field o k descending = [] := by
    unfold sortedTrackPage
    simp only [h field]
    cases field.descendingKey <;> cases descending <;> simp
  have htiled (field : SortField) (descending : Bool) :
      TiledBy lower c field descending [] [] :=
    tiledBy_of_page (.refl []) .nil fun o k => by rw [hpage]; simp
  exact fun field => ⟨[], [], htiled field false, htiled field true, fun _ => rfl⟩

/-- Rows of different paths are told apart by their paths. -/
theorem eq_of_map_src {l l' : List CachedTags} (h : l.map (·.src) = l'.map (·.src))
    (hsame : ∀ t ∈ l, ∀ t' ∈ l', t.src = t'.src → t = t') : l = l' := by
  induction l generalizing l' with
  | nil => exact (List.map_eq_nil_iff.mp h.symm).symm
  | cons t l ih =>
    cases l' with
    | nil => cases h
    | cons t' l' =>
      obtain ⟨hsrc, hrest⟩ := List.cons.inj h
      have hhead := hsame t List.mem_cons_self t' List.mem_cons_self hsrc
      have htail := ih hrest fun a ha b hb =>
        hsame a (List.mem_cons_of_mem _ ha) b (List.mem_cons_of_mem _ hb)
      rw [hhead, htail]

/-- The pages of an order that was stored once are tiled by that order alone. -/
theorem pairwise_of_tiled (hkeyed : Keyed c.tags) (hrows : c.allCachedTags ≠ [])
    {order : SortKey → List CachedTags} {field : SortField} (hfield : field ≠ .originalYear)
    (hperm : (order (.ascending field)).Perm c.allCachedTags)
    (h : Tiled lower { c with sort := fun key => (order key).map (·.src) } c.allCachedTags) :
    (order (.ascending field)).Pairwise fun a b => field.compare lower a b ≠ .gt := by
  have hv := validated_of_rows hrows
  obtain ⟨up, -, hup, -⟩ := h field
  have hpage := hup.window 0 0 (le_refl 0)
  have hstored : pageAt { c with sort := fun key => (order key).map (·.src) } field false 0 0 =
      (order (.ascending field)).map (·.src) := by
    refine (sortedTrackPage_once _ hfield 0 0 false).trans ?_
    simp [storedOrder, hv]
  have hpaths : (order (.ascending field)).map (·.src) = up.map (·.src) := hstored.symm.trans hpage
  have hmem {t : CachedTags} (ht : t ∈ c.allCachedTags) : c.tags.get? t.src = some t := by
    simp only [allCachedTags, hv, if_true] at ht
    exact mem_allTags hkeyed ht
  have heq := eq_of_map_src hpaths fun t ht t' ht' hsrc => by
    have hget := hmem (hperm.mem_iff.mp ht)
    rw [hsrc, hmem (hup.perm.mem_iff.mp ht')] at hget
    exact (Option.some.inj hget).symm
  rw [heq]
  exact hup.inOrder.imp fun {a b} hab => by rwa [order_eq_compare hfield] at hab

/-- **Sorted pages tile the order**, whatever a rebuild may leave, exactly where the ratings order
the rows and, without rows, no order was left from before. -/
theorem sorted_pages_tile_iff (lower : String → String) (c : MetadataCache)
    (hkeyed : Keyed c.tags) :
    (∀ c', Rebuilt lower c c' → Tiled lower c' c.allCachedTags) ↔
      (c.allCachedTags = [] → ∀ field, c.sortedTrackCount field = 0) ∧
        Comparator.OrdersOn (SortField.rating.compare lower) c.allCachedTags := by
  by_cases hrows : c.allCachedTags = []
  · simp only [Rebuilt, hrows, if_true, forall_eq, true_imp_iff]
    constructor
    · exact fun h => ⟨fun field => count_of_tiled h field, rating_ordersOn (by simp)⟩
    · exact fun h => tiled_of_count h.1
  · simp only [Rebuilt, hrows, if_false, false_imp_iff, true_and]
    constructor
    · intro h
      by_contra hunordered
      obtain ⟨out, hout, hbroken⟩ :=
        Comparator.exists_maySort_unordered (@compare_swap lower .rating) hunordered
      let order : SortKey → List CachedTags := fun key =>
        if key = .ascending .rating then out else sorted lower c.allCachedTags key
      have hrating : SortField.rating.order lower false = SortField.rating.compare lower :=
        funext fun a => funext fun b => order_eq_compare (by decide) a b
      have hsort (key : SortKey) :
          Comparator.MaySort (key.field.order lower key.descending) c.allCachedTags
            (order key) := by
        by_cases hkey : key = .ascending .rating
        · subst hkey
          simp only [order, if_true]
          show Comparator.MaySort (SortField.rating.order lower false) _ _
          rw [hrating]
          exact hout
        · simp only [order, hkey, if_false]
          exact Comparator.sortBy_maySort _ _
      have htiled := h _ ⟨order, hsort, rfl⟩
      exact hbroken (@pairwise_of_tiled lower c hkeyed hrows _ .rating (by decide)
        (hsort (.ascending .rating)).perm htiled)
    · rintro h c' ⟨order, hsort, rfl⟩
      exact tiled_of_orders hrows order hsort h

/-- Two rated tracks. -/
def twoRated : MetadataCache :=
  { MetadataCache.initial with validated := true }.putTrackTags
    [{ src := "/a", rating := some ((2 : ℚ) : WithTop ℚ) },
      { src := "/b", rating := some ((1 : ℚ) : WithTop ℚ) }]

theorem sorted_pages_tile_rated :
    ¬ ∃ c', Rebuilt id twoRated c' ∧ ¬ Tiled id c' twoRated.allCachedTags := by
  have htiled := (sorted_pages_tile_iff id twoRated (Keyed.put Keyed.empty _)).mpr
    ⟨fun h => absurd h (by decide +kernel), rating_ordersOn (by decide +kernel)⟩
  rintro ⟨c', hrebuilt, huntiled⟩
  exact huntiled (htiled c' hrebuilt)

/-- Each of the rows stands behind another, so that none can come first. -/
theorem not_pairwise_of_cycle {cmp : Compare} {rows seq : List CachedTags} (hperm : seq.Perm rows)
    (hne : rows ≠ []) (h : ∀ a ∈ rows, ∃ b ∈ rows, b ≠ a ∧ cmp a b = .gt) :
    ¬ seq.Pairwise fun a b => cmp a b ≠ .gt := by
  cases seq with
  | nil => exact (hne (List.nil_perm.mp hperm)).elim
  | cons first rest =>
    intro hpairwise
    obtain ⟨b, hb, hother, hgt⟩ := h first (hperm.mem_iff.mp List.mem_cons_self)
    rcases List.mem_cons.mp (hperm.mem_iff.mpr hb) with rfl | hrest
    · exact hother rfl
    · exact (List.pairwise_cons.mp hpairwise).1 b hrest hgt

/-- The second rating is not a number. -/
def unrated : MetadataCache :=
  { MetadataCache.initial with validated := true }.putTrackTags
    [{ src := "/a", trackNo := 3, rating := some ((1 : ℚ) : WithTop ℚ) },
      { src := "/b", trackNo := 2, rating := none },
      { src := "/c", trackNo := 1, rating := some ((2 : ℚ) : WithTop ℚ) }]

/-- Every row is gone, and an order is still stored. -/
def emptied : MetadataCache :=
  { MetadataCache.initial with validated := true, sort := fun _ => ["/a"] }

/-- **A rating that is not a number leaves no order that pages could tile**, and the rows that are
gone are still paged. -/
theorem sorted_pages_untiled :
    (∀ c', Rebuilt id unrated c' → ¬ Tiled id c' unrated.allCachedTags) ∧
      ∀ c', Rebuilt id emptied c' → ¬ Tiled id c' emptied.allCachedTags := by
  constructor
  · intro c' _ h
    obtain ⟨up, -, hup, -⟩ := h .rating
    refine not_pairwise_of_cycle hup.perm (by decide +kernel) ?_ hup.inOrder
    decide +kernel
  · intro c' hrebuilt h
    obtain rfl : c' = emptied := by
      unfold Rebuilt at hrebuilt
      rwa [if_pos (show emptied.allCachedTags = [] from rfl)] at hrebuilt
    exact absurd (count_of_tiled h .title) (by decide)

end Mbrc.Cache
