import MbrcPlugin.Lib.Transition
import MbrcPlugin.Library.MetadataCache

/-!
# What is derived from the tags

The sort orders and the album years are rebuilt by the backfill pass that finds nothing missing,
when some order has another length than the index or no album has years.  A pass is `Fresh` when
that test sees what happened since the last rebuild; in a run whose completing passes are fresh,
every order is sorted and the years are the fold of the rows after each of them
(`derived_true_to_tags`).
-/

namespace Mbrc.Cache

open MetadataCache

/-- A pass over the library. -/
inductive Pass where
  /-- The core starts again on the same store. -/
  | restart
  | invalidate
  | reconcile (albums : List (String × Int)) (fingerprint : Nat)
  | buildTrackIndex (paths : Option (List String)) (delta : Option (List String × List String))
      (now : Int)
  | relistLibrary (edited : List String) (paths : Option (List String)) (now : Int)
  | fileReportedEdits (paths : List String) (now : Int)
  /-- A page fill or a batch of the backfill writes what the host answered. -/
  | putTrackTags (tracks : List CachedTags)
  | completeBackfill

section

variable (lower : String → String)

def step (c : MetadataCache) : Pass → Option MetadataCache
  | .restart => some { c with validated := false }
  | .invalidate => some c.invalidate
  | .reconcile albums fingerprint => some (c.reconcile lower albums fingerprint)
  | .buildTrackIndex paths delta now => some (buildTrackIndex c paths delta now)
  | .relistLibrary edited paths now => some (relistLibrary c edited paths now)
  | .fileReportedEdits paths now => some (fileReportedEdits c paths now)
  | .putTrackTags tracks => some (c.putTrackTags tracks)
  | .completeBackfill => completeBackfill lower c

/-- Runs from a new store. -/
def system : Transition.System MetadataCache Pass where
  start c := c = .initial
  next := step lower

/-! ## What is promised -/

/-- The order does not put the track of one path behind the track of the other. -/
def InOrder (tags : Table String CachedTags) (key : SortKey) (p p' : String) : Prop :=
  ∀ t t', tags.get? p = some t → tags.get? p' = some t' →
    key.field.order lower key.descending t t' ≠ .gt

/-- Every stored order is the index, sorted by the rows, and the years are the fold of the
rows. -/
structure TrueToTags (c : MetadataCache) : Prop where
  perm : ∀ key, (c.storedOrder key).Perm c.trackPaths
  inOrder : ∀ key, (c.storedOrder key).Pairwise (InOrder lower c.tags key)
  years : c.albumYears = foldYears lower c.allCachedTags

/-! ## When it holds -/

/-- The rows are those of indexed tracks with comparable ratings; the counts show that a rebuild
is due unless the rows are the ones the last rebuild saw; and a library that has become empty has
no order left. -/
structure FreshRows (c : MetadataCache) : Prop where
  indexed : ∀ p t, c.tags.get? p = some t → p ∈ c.index
  rated : ∀ p t, c.tags.get? p = some t → t.rating ≠ none
  seen : c.needsRebuild = true ∨ c.builtFrom = some c.tags
  emptied : c.tags.rows = [] → ∀ key, c.sort key = []

def Fresh (c : MetadataCache) : Pass → Prop
  | .completeBackfill => c.validated = true → FreshRows c
  | _ => True

/-! ## Sorting -/

/-- A rating that is not a number comes first. -/
def ratingKey (tags : CachedTags) : WithBot (WithBot (WithTop ℚ)) := tags.rating

/-- The comparison with ratings ordered in full. -/
def compareRated : SortField → Compare
  | .rating => thenTrack lower (compareOn ratingKey)
  | field => field.compare lower

instance (name : CachedTags → String) : Std.TransCmp (byName lower name) := by
  unfold byName
  infer_instance

instance (ord : Compare) [Std.TransCmp ord] : Std.TransCmp (thenTrack lower ord) := by
  unfold thenTrack
  infer_instance

instance : Std.TransCmp (fun _ _ : CachedTags => Ordering.eq) where
  eq_swap := rfl
  isLE_trans _ h := h

instance (field : SortField) : Std.TransCmp (compareRated lower field) := by
  cases field <;> simp only [compareRated, SortField.compare] <;> infer_instance

theorem compare_coe (x y : WithBot (WithTop ℚ)) :
    compare (x : WithBot (WithBot (WithTop ℚ))) (y : WithBot (WithBot (WithTop ℚ))) =
      compare x y := by
  rcases lt_trichotomy x y with h | h | h
  · rw [compare_lt_iff_lt.mpr h, compare_lt_iff_lt.mpr (WithBot.coe_lt_coe.mpr h)]
  · rw [compare_eq_iff_eq.mpr h, compare_eq_iff_eq.mpr (congrArg _ h)]
  · rw [compare_gt_iff_gt.mpr h, compare_gt_iff_gt.mpr (WithBot.coe_lt_coe.mpr h)]

theorem compareRating_eq {a b : CachedTags} (ha : a.rating ≠ none) (hb : b.rating ≠ none) :
    compareRating a b = compareOn ratingKey a b := by
  obtain ⟨x, hx⟩ := Option.ne_none_iff_exists'.mp ha
  obtain ⟨y, hy⟩ := Option.ne_none_iff_exists'.mp hb
  have hx' : ratingKey a = (x : WithBot (WithBot (WithTop ℚ))) := hx
  have hy' : ratingKey b = (y : WithBot (WithBot (WithTop ℚ))) := hy
  simp only [compareRating, compareOn, hx, hy, hx', hy']
  exact (compare_coe x y).symm

theorem compare_eq_compareRated {a b : CachedTags} (ha : a.rating ≠ none) (hb : b.rating ≠ none)
    (field : SortField) : field.compare lower a b = compareRated lower field a b := by
  cases field with
  | rating =>
    simp only [SortField.compare, compareRated, thenTrack, compareLex]
    rw [compareRating_eq ha hb]
  | _ => rfl

/-- **A stored order is sorted**, when every rating is a number. -/
theorem sorted_pairwise {rows : List CachedTags} (h : ∀ t ∈ rows, t.rating ≠ none)
    (key : SortKey) : (sorted lower rows key).Pairwise fun a b =>
      key.field.order lower key.descending a b ≠ .gt := by
  apply Comparator.sortBy_pairwise
    (Comparator.directed key.field.undated (compareRated lower key.field) key.descending)
  intro a ha b hb
  simp only [SortField.order, Comparator.directed,
    compare_eq_compareRated lower (h a ha) (h b hb)]

theorem sorted_perm (rows : List CachedTags) (key : SortKey) :
    (sorted lower rows key).Perm rows := Comparator.sortBy_perm _ rows

end

/-! ## The rows and the index -/

/-- Every row is filed under its own path. -/
def Keyed (tags : Table String CachedTags) : Prop := ∀ p t, tags.get? p = some t → t.src = p

theorem Keyed.empty : Keyed Table.empty := by
  intro p t h
  simp at h

theorem Keyed.eraseAll {tags : Table String CachedTags} (h : Keyed tags) (paths : List String) :
    Keyed (tags.eraseAll paths) := by
  intro p t ht
  rw [Table.get?_eraseAll] at ht
  split at ht
  · simp at ht
  · exact h p t ht

theorem Keyed.put {tags : Table String CachedTags} (h : Keyed tags) (tracks : List CachedTags) :
    Keyed (tracks.foldl (fun table track => table.insert track.src track) tags) := by
  induction tracks generalizing tags with
  | nil => exact h
  | cons track tracks ih =>
    apply ih
    intro p t ht
    rw [Table.get?_insert] at ht
    split at ht
    · rename_i hp
      rw [← Option.some.inj ht, hp]
    · exact h p t ht

/-- The paths of the rows. -/
theorem Keyed.map_src {tags : Table String CachedTags} (h : Keyed tags) :
    (tags.rows.map (·.2)).map (·.src) = tags.rows.map (·.1) := by
  rw [List.map_map]
  apply List.map_congr_left
  rintro ⟨p, t⟩ hrow
  exact h p t (Table.mem_rows.mp hrow)

theorem rows_nodup (tags : Table String CachedTags) : (tags.rows.map (·.1)).Nodup := by
  rw [List.Nodup, List.pairwise_map]
  exact tags.rows_pairwise.imp fun hab => ne_of_lt hab

theorem mem_allTags {tags : Table String CachedTags} (h : Keyed tags) {t : CachedTags}
    (ht : t ∈ tags.rows.map (·.2)) : tags.get? t.src = some t := by
  obtain ⟨⟨p, t'⟩, hrow, rfl⟩ := List.mem_map.mp ht
  have hget := Table.mem_rows.mp hrow
  rwa [h p t' hget]

/-- Nothing is missing. -/
theorem tagged_of_untaggedPaths {c : MetadataCache} (hv : c.validated = true)
    (h : c.untaggedPaths backfillBatch = []) {p : String} (hp : p ∈ c.index) :
    ∃ t, c.tags.get? p = some t := by
  simp only [untaggedPaths, trackPaths, hv, if_true] at h
  rcases List.take_eq_nil_iff.mp h with h0 | hnil
  · exact absurd h0 (by decide)
  · have := List.filter_eq_nil_iff.mp hnil p hp
    exact Option.ne_none_iff_exists'.mp (by simpa using this)

/-- The rows are the index, each path once. -/
theorem rows_perm_index {c : MetadataCache}
    (htagged : ∀ p ∈ c.index, ∃ t, c.tags.get? p = some t) (hnodup : c.index.Nodup)
    (hindexed : ∀ p t, c.tags.get? p = some t → p ∈ c.index) :
    (c.tags.rows.map (·.1)).Perm c.index := by
  apply (List.perm_ext_iff_of_nodup (rows_nodup c.tags) hnodup).mpr
  intro p
  constructor
  · intro hp
    obtain ⟨⟨q, t⟩, hrow, rfl⟩ := List.mem_map.mp hp
    exact hindexed q t (Table.mem_rows.mp hrow)
  · intro hp
    obtain ⟨t, ht⟩ := htagged p hp
    exact List.mem_map.mpr ⟨(p, t), Table.mem_rows.mpr ht, rfl⟩

section

variable (lower : String → String)

/-! ## The invariant -/

/-- Rows are filed under their own paths, and the derived tables are those of the rows they were
built from. -/
structure Inv (c : MetadataCache) : Prop where
  keyed : Keyed c.tags
  order : ∀ rows, c.builtFrom = some rows → ∀ key,
    c.sort key = (sorted lower (rows.rows.map (·.2)) key).map (·.src)
  years : ∀ rows, c.builtFrom = some rows →
    c.years = some (foldYears lower (rows.rows.map (·.2)))

theorem Inv.initial : Inv lower .initial where
  keyed := Keyed.empty
  order rows h := by simp [MetadataCache.initial] at h
  years rows h := by simp [MetadataCache.initial] at h

variable {lower}

theorem Inv.clear {c : MetadataCache} : Inv lower c.clear where
  keyed := Keyed.empty
  order rows h := by simp [MetadataCache.clear] at h
  years rows h := by simp [MetadataCache.clear] at h

/-- A write that leaves the derived tables alone. -/
theorem Inv.setTags {c : MetadataCache} (h : Inv lower c) {tags : Table String CachedTags}
    (ht : Keyed tags) : Inv lower { c with tags } := { h with keyed := ht }

theorem Inv.dropTrackTags {c : MetadataCache} (h : Inv lower c) (paths : List String) :
    Inv lower (c.dropTrackTags paths) := by
  unfold MetadataCache.dropTrackTags
  split
  · exact h.setTags (h.keyed.eraseAll paths)
  · exact h

theorem Inv.replaceTrackIndex {c : MetadataCache} (h : Inv lower c) (paths : List String) :
    Inv lower (c.replaceTrackIndex paths) := by
  unfold MetadataCache.replaceTrackIndex
  split
  · exact { h with keyed := h.keyed.eraseAll _ }
  · exact h

theorem Inv.putTrackTags {c : MetadataCache} (h : Inv lower c) (tracks : List CachedTags) :
    Inv lower (c.putTrackTags tracks) := by
  unfold MetadataCache.putTrackTags
  split
  · exact h.setTags (h.keyed.put tracks)
  · exact h

theorem Inv.dropTagsOf {c : MetadataCache} (h : Inv lower c) (albums : List String) :
    Inv lower (c.dropTagsOf lower albums) := by
  unfold MetadataCache.dropTagsOf
  simp only
  split
  · exact h
  · exact
      { keyed := h.keyed.eraseAll _
        order := fun rows hb => by simp at hb
        years := fun rows hb => by simp at hb }

theorem Inv.dropMovedAlbums {c : MetadataCache} (h : Inv lower c) (albums : List (String × Int)) :
    Inv lower (c.dropMovedAlbums lower albums) := by
  unfold MetadataCache.dropMovedAlbums
  split
  · exact Inv.clear
  · simp only
    split
    · exact h
    · exact h.dropTagsOf _

theorem Inv.reconcile {c : MetadataCache} (h : Inv lower c) (albums : List (String × Int))
    (fingerprint : Nat) : Inv lower (c.reconcile lower albums fingerprint) := by
  have hstart : ∀ restaled : Prop, [Decidable restaled] →
      Inv lower (if restaled then { c.clear with schema := some tagsSchemaVersion } else c) := by
    intro restaled _
    split
    · exact { (Inv.clear : Inv lower c.clear) with }
    · exact h
  have hmoved : ∀ (d : MetadataCache) (restaled moved : Prop) [Decidable restaled]
      [Decidable moved], Inv lower d → Inv lower (if moved then
        { (if restaled then d else d.dropMovedAlbums lower albums) with
          fingerprint := some fingerprint } else d) := by
    intro d restaled moved _ _ hd
    split
    · split
      · exact { hd with }
      · exact { hd.dropMovedAlbums albums with }
    · exact hd
  have hstamps : ∀ (d : MetadataCache) (stored : Prop) [Decidable stored], Inv lower d →
      Inv lower { (if stored then d.storeAlbumStamps albums else d) with validated := true } := by
    intro d stored _ hd
    split
    · exact { hd with }
    · exact { hd with }
  exact hstamps _ _ (hmoved _ _ _ (hstart _))

theorem rebuildSortOrders_sort {c : MetadataCache} (hv : c.validated = true)
    (hempty : c.tags.rows = [] → ∀ key, c.sort key = []) (key : SortKey) :
    (c.rebuildSortOrders lower).sort key =
      (sorted lower (c.tags.rows.map (·.2)) key).map (·.src) := by
  unfold MetadataCache.rebuildSortOrders
  simp only [allCachedTags, hv, if_true]
  split
  · rename_i hnil
    rw [hempty (List.map_eq_nil_iff.mp hnil) key, hnil]
    rfl
  · rfl

variable (lower) in
theorem rebuildSortOrders_tables (c : MetadataCache) :
    (c.rebuildSortOrders lower).tags = c.tags ∧ (c.rebuildSortOrders lower).index = c.index ∧
      (c.rebuildSortOrders lower).validated = c.validated := by
  unfold MetadataCache.rebuildSortOrders
  simp only
  split <;> exact ⟨rfl, rfl, rfl⟩

variable (lower) in
theorem rebuildDerived_tables (c : MetadataCache) :
    (c.rebuildDerived lower).tags = c.tags ∧ (c.rebuildDerived lower).index = c.index ∧
      (c.rebuildDerived lower).validated = c.validated := by
  obtain ⟨h1, h2, h3⟩ := rebuildSortOrders_tables lower c
  unfold MetadataCache.rebuildDerived
  split
  · unfold MetadataCache.rebuildAlbumYears
    split <;> exact ⟨h1, h2, h3⟩
  · exact ⟨rfl, rfl, rfl⟩

/-- A pass that finds nothing missing leaves the derived tables of the present rows, when it is
fresh. -/
theorem rebuildDerived_built {c : MetadataCache} (h : Inv lower c) (hv : c.validated = true)
    (hf : FreshRows c) :
    Inv lower (c.rebuildDerived lower) ∧ (c.rebuildDerived lower).builtFrom = some c.tags := by
  unfold MetadataCache.rebuildDerived
  split
  · obtain ⟨htags, -, hval⟩ := rebuildSortOrders_tables lower c
    have hval' : (c.rebuildSortOrders lower).validated = true := hval.trans hv
    simp only [MetadataCache.rebuildAlbumYears, hval', if_true, allCachedTags, htags]
    refine ⟨⟨h.keyed, ?_, ?_⟩, ?_⟩
    · intro rows hb key
      obtain rfl := Option.some.inj hb
      exact rebuildSortOrders_sort hv hf.emptied key
    · intro rows hb
      obtain rfl := Option.some.inj hb
      rfl
    · trivial
  · rename_i hno
    exact ⟨h, hf.seen.resolve_left hno⟩

/-- Nothing is rebuilt while the cache is not validated. -/
theorem rebuildDerived_of_not_validated {c : MetadataCache} (hv : c.validated = false) :
    c.rebuildDerived lower = c := by
  have hsort : c.rebuildSortOrders lower = c := by
    simp [MetadataCache.rebuildSortOrders, allCachedTags, hv]
  unfold MetadataCache.rebuildDerived
  split
  · rw [hsort]
    unfold MetadataCache.rebuildAlbumYears
    simp only [hv]
    cases c
    rfl
  · rfl

/-- **One pass** keeps the invariant. -/
theorem inv_step {c c' : MetadataCache} {pass : Pass} (h : Inv lower c) (hf : Fresh c pass)
    (hs : step lower c pass = some c') : Inv lower c' := by
  cases pass with
  | restart =>
    obtain rfl := Option.some.inj hs
    exact { h with }
  | invalidate =>
    obtain rfl := Option.some.inj hs
    exact { (Inv.clear : Inv lower c.clear) with }
  | reconcile albums fingerprint =>
    obtain rfl := Option.some.inj hs
    exact h.reconcile albums fingerprint
  | buildTrackIndex paths delta now =>
    obtain rfl := Option.some.inj hs
    unfold buildTrackIndex
    split
    · simp only
      split
      · unfold editedSince
        split
        · exact { (h.dropTrackTags _).replaceTrackIndex _ with }
        · exact { h.replaceTrackIndex _ with }
      · exact { h.replaceTrackIndex _ with }
    · exact h
  | relistLibrary edited paths now =>
    obtain rfl := Option.some.inj hs
    unfold relistLibrary
    split
    · simp only
      split
      · exact { (h.dropTrackTags edited).replaceTrackIndex _ with }
      · exact { h.dropTrackTags edited with }
    · exact h
  | fileReportedEdits paths now =>
    obtain rfl := Option.some.inj hs
    unfold fileReportedEdits
    split
    · exact h
    · exact { h.dropTrackTags paths with }
  | putTrackTags tracks =>
    obtain rfl := Option.some.inj hs
    exact h.putTrackTags tracks
  | completeBackfill =>
    simp only [step, completeBackfill] at hs
    split at hs
    · obtain rfl := Option.some.inj hs
      cases hv : c.validated with
      | true => exact (rebuildDerived_built h hv (hf hv)).1
      | false => rwa [rebuildDerived_of_not_validated hv]
    · simp at hs

/-! ## The result -/

/-- Tables of the present rows are true to them. -/
theorem trueToTags_of_built {c : MetadataCache} (h : Inv lower c) (hv : c.validated = true)
    (hb : c.builtFrom = some c.tags) (hf : ∀ p t, c.tags.get? p = some t → t.rating ≠ none)
    (hpaths : (c.tags.rows.map (·.1)).Perm c.index) : TrueToTags lower c where
  perm key := by
    simp only [storedOrder, trackPaths, hv, if_true]
    rw [h.order _ hb key]
    have hsorted := (sorted_perm lower (c.tags.rows.map (·.2)) key).map CachedTags.src
    rw [h.keyed.map_src] at hsorted
    exact hsorted.trans hpaths
  inOrder key := by
    simp only [storedOrder, hv, if_true]
    rw [h.order _ hb key, List.pairwise_map]
    have hrated : ∀ t ∈ c.tags.rows.map (·.2), t.rating ≠ none := fun t ht =>
      hf t.src t (mem_allTags h.keyed ht)
    refine (sorted_pairwise lower hrated key).imp_of_mem ?_
    intro a b ha hb' hab t t' ht ht'
    have hmem : ∀ a ∈ sorted lower (c.tags.rows.map (·.2)) key, c.tags.get? a.src = some a :=
      fun a ha => mem_allTags h.keyed ((sorted_perm lower _ key).mem_iff.mp ha)
    rw [hmem a ha] at ht
    rw [hmem b hb'] at ht'
    rwa [← Option.some.inj ht, ← Option.some.inj ht']
  years := by
    simp only [albumYears, allCachedTags, hv, if_true, h.years _ hb, Option.getD_some]

/-- A cache that is not validated shows nothing. -/
theorem trueToTags_of_not_validated {c : MetadataCache} (hv : c.validated = false) :
    TrueToTags lower c where
  perm key := by simp [storedOrder, trackPaths, hv]
  inOrder key := by simp [storedOrder, hv]
  years := by
    simp only [albumYears, allCachedTags, hv, Bool.false_eq_true, if_false]
    rfl

/-- **The derived tables are true to the tags** after a pass that finds nothing missing, in a run
whose completing passes are fresh. -/
theorem derived_true_to_tags {c₀ c c' : MetadataCache} {passes : List Pass}
    (h₀ : (system lower).start c₀) (hrun : (system lower).Along Fresh c₀ passes)
    (he : (system lower).exec c₀ passes = some c) (hf : Fresh c .completeBackfill)
    (hs : completeBackfill lower c = some c') (hnodup : c'.trackPaths.Nodup) :
    TrueToTags lower c' := by
  have hinv : Inv lower c := by
    obtain rfl : c₀ = .initial := h₀
    exact (system lower).exec_induction (fun _ _ _ => inv_step) (Inv.initial lower) hrun he
  unfold completeBackfill at hs
  split at hs
  · rename_i hmissing
    obtain rfl := Option.some.inj hs
    obtain ⟨htags, hindex, hval⟩ := rebuildDerived_tables lower c
    cases hv : c.validated with
    | false => exact trueToTags_of_not_validated (hval.trans hv)
    | true =>
      obtain ⟨hinv', hb⟩ := rebuildDerived_built hinv hv (hf hv)
      have hv' : (c.rebuildDerived lower).validated = true := hval.trans hv
      simp only [trackPaths, hv', if_true, hindex] at hnodup
      apply trueToTags_of_built hinv' hv'
      · rw [hb, htags]
      · rw [htags]
        exact (hf hv).rated
      · rw [htags, hindex]
        exact rows_perm_index (fun p hp => tagged_of_untaggedPaths hv hmissing hp) hnodup
          (hf hv).indexed
  · simp at hs

end

/-! ## Two tracks -/

/-- A track of an album of 1999. -/
def rated (src : String) (rating : ℚ) : CachedTags :=
  { src, album := "Homework", year := 1999, rating := some (rating : WithTop ℚ) }

/-- The first pass over two tracks. -/
def twoTracks : List Pass :=
  [.reconcile [] 0, .buildTrackIndex (some ["a", "b"]) none 1,
    .putTrackTags [rated "a" 1, rated "b" 3]]

/-- The rating of the first track is edited, and the tags are read again. -/
def ratedAgain : List Pass :=
  twoTracks ++ [.completeBackfill, .fileReportedEdits ["a"] 2, .putTrackTags [rated "a" 5]]

/-- The first pass over two tracks finds no order yet, and builds them. -/
theorem derived_true_to_tags_twoTracks :
    ∃ c c', (system String.toLower).exec .initial twoTracks = some c ∧
      completeBackfill String.toLower c = some c' ∧
      c'.storedOrder (.ascending .rating) = ["a", "b"] ∧ TrueToTags String.toLower c' := by
  obtain ⟨c, c', he, hs, horder, hpaths, hrows, hindex, hdue⟩ :
      ∃ c c', (system String.toLower).exec .initial twoTracks = some c ∧
        completeBackfill String.toLower c = some c' ∧
        c'.storedOrder (.ascending .rating) = ["a", "b"] ∧ c'.trackPaths = ["a", "b"] ∧
        c.tags.rows = [("a", rated "a" 1), ("b", rated "b" 3)] ∧ c.index = ["a", "b"] ∧
        c.needsRebuild = true := by
    refine ⟨_, _, rfl, rfl, ?_, ?_, ?_, ?_, ?_⟩
    all_goals decide +kernel
  have hrow : ∀ p t, c.tags.get? p = some t → (p, t) = ("a", rated "a" 1) ∨
      (p, t) = ("b", rated "b" 3) := by
    intro p t ht
    simpa [hrows] using Table.mem_rows.mpr ht
  have hfresh : Fresh c .completeBackfill := by
    intro _
    refine ⟨?_, ?_, Or.inl hdue, ?_⟩
    · intro p t ht
      rcases hrow p t ht with h | h <;> simp [hindex, (Prod.mk.inj h).1]
    · intro p t ht
      rcases hrow p t ht with h | h <;> simp [(Prod.mk.inj h).2, rated]
    · simp [hrows]
  refine ⟨c, c', he, hs, horder, derived_true_to_tags rfl ?_ he hfresh hs (by simp [hpaths])⟩
  exact ⟨trivial, fun _ _ => ⟨trivial, fun _ _ => ⟨trivial, fun _ _ => trivial⟩⟩⟩

/-- **The order by rating is stale** after an edit of a rating: the counts are what they were. -/
theorem rating_order_is_stale :
    ∃ c c', (system String.toLower).exec .initial ratedAgain = some c ∧
      completeBackfill String.toLower c = some c' ∧ c'.trackPaths = ["a", "b"] ∧
      c'.allCachedTags = [rated "a" 5, rated "b" 3] ∧ ¬ TrueToTags String.toLower c' := by
  refine ⟨_, _, rfl, rfl, by decide +kernel, by decide +kernel, fun h => ?_⟩
  have horder := h.inOrder (.ascending .rating)
  rw [show MetadataCache.storedOrder _ (.ascending .rating) = ["a", "b"] by decide +kernel]
    at horder
  have hstale := List.rel_of_pairwise_cons horder (List.mem_singleton_self "b")
  exact hstale (rated "a" 5) (rated "b" 3) (by decide +kernel) (by decide +kernel)
    (by decide +kernel)

end Mbrc.Cache
