import MbrcPlugin.Library.Reconcile

/-!
# A reconcile that is stopped

The fingerprint is committed before the browse lists it vouches for, and the index of an earlier
run stays until the new one is written.  So a reconcile stopped in between leaves lists of the old
library that the next start takes for warm.  `repaired_iff` says exactly where a stop is harmless:
before the fingerprint, where the run found or made the index empty, or where no list that is
still unwritten has changed.
-/

namespace Mbrc.Reconcile

open Cache Interaction Interaction.Program

variable (lower : String → String)

/-! ## What is promised -/

/-- The library's fingerprint. -/
def Library.fingerprint (library : Library) : UInt64 :=
  Reconcile.fingerprint (stampsOf lower library.albums)

/-- Every flat list in the store is what the host answers. -/
def Library.Shown (library : Library) (s : Store) : Prop := ∀ f, s.lists f = some (library.list f)

/-- The store a start leaves whose reconcile runs to its end. -/
def Store.started (s : Store) (library : Library) (visit : Visit) : Store :=
  ((reconcileMetadata lower library.albums).run (answer lower (library.host visit)) s.reopen).2.2

/-- The calls made and the store left by a start that is stopped after `k` calls. -/
def Store.stopped (s : Store) (library : Library) (visit : Visit) (k : Nat) : List Call × Store :=
  (reconcileMetadata lower library.albums).upTo (answer lower (library.host visit)) k s.reopen

/-! ## When it holds -/

/-- The stored fingerprint or the shape of the tag rows is another. -/
def Store.moved (s : Store) (fingerprint : UInt64) : Bool :=
  s.tagRecordChangedShape || s.cache.fingerprint ≠ some fingerprint.toNat

/-- The reconcile starts by clearing the cache. -/
def Store.clears (s : Store) (fingerprint : UInt64) : Bool :=
  s.tagRecordChangedShape ||
    (s.cache.fingerprint ≠ some fingerprint.toNat && !s.hasAlbumStamps)

/-- The fingerprint is committed. -/
def Stamped (library : Library) (made : List Call) : Prop :=
  .commit (.storeFingerprint (library.fingerprint lower)) ∈ made

/-- The list is committed. -/
def Warmed (library : Library) (made : List Call) (f : FlatList) : Prop :=
  .commit (.put f (library.list f)) ∈ made

/-- The track index is committed. -/
def Indexed (library : Library) (made : List Call) : Prop :=
  .commit (.replaceTrackIndex library.paths) ∈ made

/-- A stop after the calls `made` of a reconcile that found the store `s` does no harm. -/
def StopHarmless (library : Library) (s : Store) (made : List Call) : Prop :=
  s.clears (library.fingerprint lower) = true ∨
  s.cache.index = [] ∨
  (s.moved (library.fingerprint lower) = true ∧ ¬ Stamped lower library made) ∨
  (Indexed library made ∧ library.paths = []) ∨
  ∀ f, Warmed library made f ∨ s.lists f = some (library.list f)

/-! ## What a stop leaves -/

/-- A start on this store builds the lists. -/
def Rebuilds (library : Library) (t : Store) : Prop :=
  t.moved (library.fingerprint lower) = true ∨ t.cache.index = []

/-- From the commit of the fingerprint on: which tables are still those of the store `s` that the
run found. -/
structure Since (library : Library) (s : Store) (made : List Call) (t : Store) : Prop where
  unmoved : t.moved (library.fingerprint lower) = false
  stamped : s.moved (library.fingerprint lower) = true → Stamped lower library made
  indexed : Indexed library made → t.cache.index = library.paths
  unindexed : ¬ Indexed library made →
    t.cache.index = if s.clears (library.fingerprint lower) then [] else s.cache.index
  warmed : ∀ f, Warmed library made f → t.lists f = some (library.list f)
  unwarmed : ∀ f, ¬ Warmed library made f →
    t.lists f = if s.clears (library.fingerprint lower) then none else s.lists f
  /-- The index is written last. -/
  last : Indexed library made → Rebuilds lower library s → ∀ f, Warmed library made f
  /-- A store taken for warm is left alone. -/
  warm : ¬ Rebuilds lower library s → ∀ f, ¬ Warmed library made f

/-- What holds wherever the run is stopped. -/
def Stop (library : Library) (s : Store) (made : List Call) (t : Store) : Prop :=
  (Rebuilds lower library t ∧ StopHarmless lower library s made) ∨ Since lower library s made t

variable {lower} {library : Library} {s t t' : Store} {made : List Call}

theorem moved_of_clears {fp : UInt64} (h : s.clears fp = true) : s.moved fp = true := by
  simp only [Store.clears, Bool.or_eq_true, Bool.and_eq_true] at h
  simp only [Store.moved, Bool.or_eq_true]
  exact h.imp id And.left

/-- A call that commits none of the three tables a start looks at. -/
structure Neutral (lower : String → String) (library : Library) (call : Call) : Prop where
  stamp : call ≠ .commit (.storeFingerprint (library.fingerprint lower))
  index : call ≠ .commit (.replaceTrackIndex library.paths)
  warm : ∀ f, call ≠ .commit (.put f (library.list f))

section Made

variable {call : Call}

theorem Neutral.stamped (h : Neutral lower library call) :
    Stamped lower library (made ++ [call]) ↔ Stamped lower library made := by
  simp [Stamped, Ne.symm h.stamp]

theorem Neutral.indexed (h : Neutral lower library call) :
    Indexed library (made ++ [call]) ↔ Indexed library made := by
  simp [Indexed, Ne.symm h.index]

theorem Neutral.warmed (h : Neutral lower library call) (f : FlatList) :
    Warmed library (made ++ [call]) f ↔ Warmed library made f := by
  simp [Warmed, Ne.symm (h.warm f)]

end Made

theorem neutral_look : Neutral lower library .look := ⟨by simp, by simp, by simp⟩

/-- The fields a start looks at are the same. -/
structure SameView (t t' : Store) : Prop where
  schema : t'.cache.schema = t.cache.schema
  fingerprint : t'.cache.fingerprint = t.cache.fingerprint
  index : t'.cache.index = t.cache.index
  lists : t'.lists = t.lists

theorem SameView.refl (t : Store) : SameView t t := ⟨rfl, rfl, rfl, rfl⟩

theorem SameView.moved (h : SameView t t') (fp : UInt64) : t'.moved fp = t.moved fp := by
  simp only [Store.moved, Store.tagRecordChangedShape, h.schema, h.fingerprint]

/-- A neutral call keeps it. -/
theorem Since.keep (h : Since lower library s made t) {call : Call}
    (hc : Neutral lower library call) (hv : SameView t t') :
    Since lower library s (made ++ [call]) t' := by
  constructor
  · rw [hv.moved]
    exact h.unmoved
  · simpa only [hc.stamped] using h.stamped
  · simpa only [hc.indexed, hv.index] using h.indexed
  · simpa only [hc.indexed, hv.index] using h.unindexed
  · simpa only [hc.warmed, hv.lists] using h.warmed
  · simpa only [hc.warmed, hv.lists] using h.unwarmed
  · simpa only [hc.indexed, hc.warmed] using h.last
  · simpa only [hc.warmed] using h.warm

/-! ## Up to the fingerprint -/

/-- The fingerprint is the library's, and neither a list nor the index is written yet. -/
structure Entered (lower : String → String) (library : Library) (s : Store) (made : List Call)
    (t : Store) : Prop where
  unmoved : t.moved (library.fingerprint lower) = false
  stamped : s.moved (library.fingerprint lower) = true → Stamped lower library made
  index : t.cache.index = if s.clears (library.fingerprint lower) then [] else s.cache.index
  lists : t.lists = if s.clears (library.fingerprint lower) then fun _ => none else s.lists
  unindexed : ¬ Indexed library made
  unwarmed : ∀ f, ¬ Warmed library made f

theorem Entered.since (h : Entered lower library s made t) : Since lower library s made t where
  unmoved := h.unmoved
  stamped := h.stamped
  indexed hi := absurd hi h.unindexed
  unindexed _ := h.index
  warmed f hf := absurd hf (h.unwarmed f)
  unwarmed f _ := by
    rw [h.lists]
    split <;> rfl
  last hi := absurd hi h.unindexed
  warm _ := h.unwarmed

theorem Entered.keep (h : Entered lower library s made t) {call : Call}
    (hc : Neutral lower library call) (hv : SameView t t') :
    Entered lower library s (made ++ [call]) t' where
  unmoved := by
    rw [hv.moved]
    exact h.unmoved
  stamped := by simpa only [hc.stamped] using h.stamped
  index := by simpa only [hv.index] using h.index
  lists := by simpa only [hv.lists] using h.lists
  unindexed := by simpa only [hc.indexed] using h.unindexed
  unwarmed := by simpa only [hc.warmed] using h.unwarmed

theorem Entered.stop (h : Entered lower library s made t) : Stop lower library s made t :=
  Or.inr h.since

/-- On a cleared cache the next start builds. -/
theorem Stop.of_cleared (hclears : s.clears (library.fingerprint lower) = true)
    (hindex : t.cache.index = []) : Stop lower library s made t :=
  Or.inl ⟨Or.inr hindex, Or.inl hclears⟩

/-- Before the fingerprint is committed the next start builds. -/
theorem Stop.of_moved (hs : s.moved (library.fingerprint lower) = true)
    (ht : t.moved (library.fingerprint lower) = true) (hmade : ¬ Stamped lower library made) :
    Stop lower library s made t :=
  Or.inl ⟨Or.inl ht, Or.inr (Or.inr (Or.inl ⟨hs, hmade⟩))⟩

/-- Dropping the moved albums clears a store without stamps and leaves the index of another. -/
theorem dropMovedAlbums_view (lower : String → String) (c : MetadataCache)
    (albums : List (String × Int)) :
    (c.dropMovedAlbums lower albums).index = (if c.stamps.rows = [] then [] else c.index) ∧
      (c.dropMovedAlbums lower albums).schema = c.schema ∧
      (c.dropMovedAlbums lower albums).fingerprint = c.fingerprint := by
  unfold MetadataCache.dropMovedAlbums
  split
  · exact ⟨rfl, rfl, rfl⟩
  · dsimp only
    split
    · exact ⟨rfl, rfl, rfl⟩
    · unfold MetadataCache.dropTagsOf
      dsimp only
      split <;> exact ⟨rfl, rfl, rfl⟩

/-- Where `reconcile` ends. -/
structure Reconciled (lower : String → String) (library : Library) (s : Store) (changed : Bool)
    (made : List Call) (t : Store) : Prop extends Entered lower library s made t where
  changed : changed = s.moved (library.fingerprint lower)
  validated : t.cache.validated = true

theorem reconcileRest_meets {host : Host} {moved : Bool}
    (hmoved : moved = s.moved (library.fingerprint lower)) (h : Entered lower library s made t) :
    (reconcileRest (stampsOf lower library.albums) moved).Meets (answer lower host)
      (Stop lower library s) (Reconciled lower library s) made t := by
  unfold reconcileRest
  rw [meets_bind, meets_look]
  refine ⟨h.stop, ?_⟩
  have h1 := h.keep neutral_look (SameView.refl t)
  rw [meets_bind]
  -- the stamps
  have hstamps : (when (moved || !t.hasAlbumStamps)
      (commit (.storeAlbumStamps (stampsOf lower library.albums)))).Meets (answer lower host)
      (Stop lower library s) (fun _ => Entered lower library s) (made ++ [.look]) t := by
    rw [meets_when, meets_commit]
    exact ⟨fun _ => ⟨h1.stop, h1.keep ⟨by simp, by simp, by simp⟩ ⟨rfl, rfl, rfl, rfl⟩⟩,
      fun _ => h1⟩
  refine hstamps.post fun _ made t h2 => ?_
  rw [meets_bind, meets_look]
  refine ⟨h2.stop, ?_⟩
  have h3 := h2.keep neutral_look (SameView.refl t)
  rw [meets_bind]
  -- the drill-downs
  have hnav : (when (moved || t.navVersion ≠ some navListsVersion) (commit .dropNavLists)).Meets
      (answer lower host) (Stop lower library s) (fun _ => Entered lower library s)
      (made ++ [.look]) t := by
    rw [meets_when, meets_commit]
    exact ⟨fun _ => ⟨h3.stop, h3.keep ⟨by simp, by simp, by simp⟩ ⟨rfl, rfl, rfl, rfl⟩⟩,
      fun _ => h3⟩
  refine hnav.post fun _ made t h4 => ?_
  rw [meets_bind, meets_setValidated]
  exact ⟨h4.stop, h4.keep ⟨by simp, by simp, by simp⟩ ⟨rfl, rfl, rfl, rfl⟩, hmoved, rfl⟩

theorem reconcile_meets (host : Host) (s : Store) :
    (reconcile (stampsOf lower library.albums) (library.fingerprint lower)).Meets
      (answer lower host) (Stop lower library s) (Reconciled lower library s) [] s := by
  unfold reconcile
  simp only [meets_bind, meets_look, meets_when, meets_commit, List.nil_append, List.cons_append]
  by_cases hre : s.tagRecordChangedShape = true
  · -- the cache is cleared first, and stays without an index
    have hclears : s.clears (library.fingerprint lower) = true := by simp [Store.clears, hre]
    have hmoved := moved_of_clears hclears
    simp only [hre, true_implies, Bool.true_or, Bool.not_true, Bool.true_eq_false,
      Bool.false_eq_true, false_implies, true_and, and_true]
    have hstart : ∀ made, ¬ Stamped lower library made → Stop lower library s made s :=
      fun made => Stop.of_moved hmoved hmoved
    refine ⟨hstart _ (by simp [Stamped]), hstart _ (by simp [Stamped]), Stop.of_cleared hclears rfl,
      Stop.of_cleared hclears rfl, Stop.of_cleared hclears rfl, ?_⟩
    apply reconcileRest_meets hmoved.symm
    refine ⟨?_, fun _ => by simp [Stamped], by rw [if_pos hclears]; rfl,
      by rw [if_pos hclears]; rfl, by simp [Indexed], by simp [Warmed]⟩
    simp [Store.moved, Store.tagRecordChangedShape, Store.commit]
  · have hschema : s.cache.schema = some tagsSchemaVersion := by
      simpa [Store.tagRecordChangedShape] using hre
    have hsame : s.moved (library.fingerprint lower) =
        decide (s.cache.fingerprint ≠ some (library.fingerprint lower).toNat) := by
      simp [Store.moved, hre]
    simp only [hre, true_implies, Bool.false_or, Bool.not_false, Bool.true_eq_false,
      Bool.false_eq_true, false_implies, true_and, and_true]
    by_cases hfp : s.cache.fingerprint = some (library.fingerprint lower).toNat
    · -- nothing moved
      have hmoved : s.moved (library.fingerprint lower) = false := by simp [hsame, hfp]
      have hkept : s.clears (library.fingerprint lower) = false := by
        simp [Store.clears, hre, hfp]
      have hentered : ∀ made, ¬ Indexed library made → (∀ f, ¬ Warmed library made f) →
          Entered lower library s made s := fun made hi hw =>
        ⟨hmoved, by simp [hmoved], by simp [hkept], by simp [hkept], hi, hw⟩
      refine ⟨(hentered _ (by simp [Indexed]) (by simp [Warmed])).stop,
        (hentered _ (by simp [Indexed]) (by simp [Warmed])).stop, by simp [hfp], fun _ => ?_⟩
      exact reconcileRest_meets hsame.symm (hentered _ (by simp [Indexed]) (by simp [Warmed]))
    · -- the albums that moved are dropped, then the fingerprint is stored
      have hmoved : s.moved (library.fingerprint lower) = true := by simp [hsame, hfp]
      have hstart : ∀ made, ¬ Stamped lower library made → Stop lower library s made s :=
        fun made => Stop.of_moved hmoved hmoved
      obtain ⟨hindex, hschema', hfp'⟩ :=
        dropMovedAlbums_view lower s.cache (stampsOf lower library.albums)
      refine ⟨hstart _ (by simp [Stamped]), hstart _ (by simp [Stamped]),
        fun _ => ⟨hstart _ (by simp [Stamped]), ?_, ?_⟩, by simp [hfp]⟩
      · apply Stop.of_moved hmoved ?_ (by simp [Stamped])
        simp [Store.moved, Store.commit, hfp', hfp]
      · apply reconcileRest_meets hsame.symm
        have hclears :
            s.clears (library.fingerprint lower) = decide (s.cache.stamps.rows = []) := by
          simp [Store.clears, hre, hfp, Store.hasAlbumStamps]
        refine ⟨?_, fun _ => by simp [Stamped], ?_, ?_, by simp [Indexed], by simp [Warmed]⟩
        · simp [Store.moved, Store.tagRecordChangedShape, Store.commit, hschema', hschema]
        · simp [Store.commit, hindex, hclears]
        · simp [Store.commit, hclears]

/-! ## The lists -/

/-- The cache is live and the index is not written yet. -/
structure Warming (lower : String → String) (library : Library) (s : Store) (made : List Call)
    (t : Store) : Prop where
  since : Since lower library s made t
  validated : t.cache.validated = true
  unindexed : ¬ Indexed library made

theorem Reconciled.warming {changed : Bool} (h : Reconciled lower library s changed made t) :
    Warming lower library s made t := ⟨h.since, h.validated, h.unindexed⟩

theorem Warming.stop (h : Warming lower library s made t) : Stop lower library s made t :=
  Or.inr h.since

theorem Warming.keep (h : Warming lower library s made t) {call : Call}
    (hc : Neutral lower library call) : Warming lower library s (made ++ [call]) t :=
  ⟨h.since.keep hc (SameView.refl t), h.validated, by simpa only [hc.indexed] using h.unindexed⟩

theorem warmed_put (made : List Call) (f g : FlatList) :
    Warmed library (made ++ [.commit (.put f (library.list f))]) g ↔
      Warmed library made g ∨ g = f := by
  constructor
  · intro h
    rcases List.mem_append.mp h with h | h
    · exact Or.inl h
    · simp only [List.mem_singleton, Call.commit.injEq, Txn.put.injEq] at h
      exact Or.inr h.1
  · rintro (h | rfl)
    · exact List.mem_append_left _ h
    · exact List.mem_append_right _ (List.mem_singleton.mpr rfl)

/-- The commit of a list. -/
theorem Warming.put (h : Warming lower library s made t) (hre : Rebuilds lower library s)
    (f : FlatList) :
    Warming lower library s (made ++ [.commit (.put f (library.list f))])
      { t with lists := Function.update t.lists f (some (library.list f)) } := by
  have hi : Indexed library (made ++ [.commit (.put f (library.list f))]) ↔
      Indexed library made := by
    simp [Indexed]
  have hst : Stamped lower library (made ++ [.commit (.put f (library.list f))]) ↔
      Stamped lower library made := by
    simp [Stamped]
  refine ⟨?_, h.validated, by rw [hi]; exact h.unindexed⟩
  constructor
  · exact h.since.unmoved
  · simpa only [hst] using h.since.stamped
  · simpa only [hi] using h.since.indexed
  · simpa only [hi] using h.since.unindexed
  · intro g hg
    by_cases hgf : g = f
    · subst hgf
      exact Function.update_self ..
    · show Function.update t.lists f (some (library.list f)) g = _
      rw [Function.update_of_ne hgf]
      exact h.since.warmed g (((warmed_put made f g).mp hg).resolve_right hgf)
  · intro g hg
    have hno := fun hw => hg ((warmed_put made f g).mpr hw)
    show Function.update t.lists f (some (library.list f)) g = _
    rw [Function.update_of_ne fun hgf => hno (Or.inr hgf)]
    exact h.since.unwarmed g fun hw => hno (Or.inl hw)
  · exact fun hind => absurd (hi.mp hind) h.unindexed
  · exact fun hnot => absurd hre hnot

theorem prewarm_meets {visit : Visit} (h : Warming lower library s made t)
    (hre : Rebuilds lower library s) (f : FlatList) :
    (prewarm f).Meets (answer lower (library.host visit)) (Stop lower library s)
      (fun _ made' t' => Warming lower library s made' t' ∧
        ∀ g, Warmed library made g ∨ g = f → Warmed library made' g) made t := by
  unfold prewarm
  rw [meets_bind, meets_browse]
  refine ⟨h.stop, ?_⟩
  have h1 : Warming lower library s (made ++ [.browse f]) t := h.keep ⟨by simp, by simp, by simp⟩
  show (commit (.put f (library.list f))).Meets _ _ _ _ t
  rw [meets_commit, Store.commit, if_pos h.validated]
  refine ⟨h1.stop, h1.put hre f, fun g hg => (warmed_put _ f g).mpr (hg.imp_left fun hw => ?_)⟩
  exact List.mem_append_left _ hw

theorem prewarmBrowseLists_meets {visit : Visit} (h : Warming lower library s made t)
    (hre : Rebuilds lower library s) :
    prewarmBrowseLists.Meets (answer lower (library.host visit)) (Stop lower library s)
      (fun _ made' t' => Warming lower library s made' t' ∧ ∀ f, Warmed library made' f)
      made t := by
  unfold prewarmBrowseLists
  rw [meets_bind]
  refine (prewarm_meets h hre .genres).post fun _ made1 t1 ⟨h1, hw1⟩ => ?_
  rw [meets_bind]
  refine (prewarm_meets h1 hre (.artists false)).post fun _ made2 t2 ⟨h2, hw2⟩ => ?_
  rw [meets_bind]
  refine (prewarm_meets h2 hre (.artists true)).post fun _ made3 t3 ⟨h3, hw3⟩ => ?_
  refine (prewarm_meets h3 hre .albums).post fun _ made4 t4 ⟨h4, hw4⟩ => ⟨h4, fun f => ?_⟩
  apply hw4
  match f with
  | .genres => exact Or.inl (hw3 _ (Or.inl (hw2 _ (Or.inl (hw1 _ (Or.inr rfl))))))
  | .artists false => exact Or.inl (hw3 _ (Or.inl (hw2 _ (Or.inr rfl))))
  | .artists true => exact Or.inl (hw3 _ (Or.inr rfl))
  | .albums => exact Or.inr rfl

/-! ## The index -/

/-- The commit of the index. -/
theorem Warming.index (h : Warming lower library s made t)
    (hall : Rebuilds lower library s → ∀ f, Warmed library made f) :
    Since lower library s (made ++ [.commit (.replaceTrackIndex library.paths)])
      { t with cache := t.cache.replaceTrackIndex library.paths } := by
  have hw : ∀ f, Warmed library (made ++ [.commit (.replaceTrackIndex library.paths)]) f ↔
      Warmed library made f := fun f => by simp [Warmed]
  have hst : Stamped lower library (made ++ [.commit (.replaceTrackIndex library.paths)]) ↔
      Stamped lower library made := by
    simp [Stamped]
  have hi : Indexed library (made ++ [.commit (.replaceTrackIndex library.paths)]) := by
    simp [Indexed]
  have hrow : t.cache.replaceTrackIndex library.paths =
      { t.cache with
        index := library.paths
        tags := t.cache.tags.eraseAll
          ((t.cache.tags.rows.map (·.1)).filter (· ∉ library.paths)) } := by
    rw [MetadataCache.replaceTrackIndex, if_pos h.validated]
  rw [hrow]
  constructor
  · exact h.since.unmoved
  · simpa only [hst] using h.since.stamped
  · exact fun _ => rfl
  · exact fun hno => absurd hi hno
  · simpa only [hw] using h.since.warmed
  · simpa only [hw] using h.since.unwarmed
  · exact fun _ hre f => (hw f).mpr (hall hre f)
  · simpa only [hw] using h.since.warm

/-- Where a run ends. -/
structure Finished (lower : String → String) (library : Library) (s : Store) (made : List Call)
    (t : Store) : Prop where
  since : Since lower library s made t
  indexed : Indexed library made

theorem editedSince_meets {visit : Visit} (h : Warming lower library s made t)
    (hall : Rebuilds lower library s → ∀ f, Warmed library made f) (since : Int) :
    (editedSince since).Meets (answer lower (library.host visit)) (Stop lower library s)
      (fun _ made' t' => Warming lower library s made' t' ∧
        (Rebuilds lower library s → ∀ f, Warmed library made' f)) made t := by
  unfold editedSince
  rw [meets_bind, meets_syncDelta]
  refine ⟨h.stop, ?_⟩
  have h1 : Warming lower library s (made ++ [.syncDelta since]) t :=
    h.keep ⟨by simp, by simp, by simp⟩
  show Meets _ _ _ (commit (.dropTrackTags _) >>= _) _ t
  rw [meets_bind, meets_commit]
  refine ⟨h1.stop, ?_⟩
  show Warming _ _ _ _ _ ∧ _
  have hview : ∀ paths, SameView t { t with cache := t.cache.dropTrackTags paths } := by
    intro paths
    unfold MetadataCache.dropTrackTags
    split <;> exact ⟨rfl, rfl, rfl, rfl⟩
  refine ⟨⟨h1.since.keep ⟨by simp, by simp, by simp⟩ (hview _), ?_, ?_⟩, fun hre f => ?_⟩
  · show (t.cache.dropTrackTags _).validated = true
    rw [MetadataCache.dropTrackTags, if_pos h.validated]
    exact h.validated
  · simpa [Indexed] using h1.unindexed
  · exact List.mem_append_left _ (List.mem_append_left _ (hall hre f))

theorem sameView_record (lower : String → String) (newEpoch : Epoch) (t : Store)
    (paths : Option (List Path)) (edited : List Path) :
    SameView t (t.commit lower newEpoch (.recordChanges paths edited)) := by
  show SameView t (if t.cache.validated then _ else t)
  split
  · exact ⟨rfl, rfl, rfl, rfl⟩
  · exact SameView.refl t

theorem fileListing_meets {visit : Visit} (h : Warming lower library s made t)
    (hall : Rebuilds lower library s → ∀ f, Warmed library made f) :
    (fileListing library.paths).Meets (answer lower (library.host visit)) (Stop lower library s)
      (fun _ => Finished lower library s) made t := by
  unfold fileListing
  rw [meets_bind, meets_look]
  refine ⟨h.stop, ?_⟩
  have h1 := h.keep neutral_look
  have hall1 : Rebuilds lower library s → ∀ f, Warmed library (made ++ [.look]) f :=
    fun hre f => List.mem_append_left _ (hall hre f)
  -- the edits the host reports
  have hedited : (if t.cache.syncedAt > 0 then editedSince t.cache.syncedAt else pure []).Meets
      (answer lower (library.host visit)) (Stop lower library s)
      (fun _ made' t' => Warming lower library s made' t' ∧
        (Rebuilds lower library s → ∀ f, Warmed library made' f)) (made ++ [.look]) t := by
    split
    · exact editedSince_meets h1 hall1 _
    · exact ⟨h1, hall1⟩
  rw [meets_bind]
  refine hedited.post fun edited made t ⟨h2, hall2⟩ => ?_
  rw [meets_bind, meets_commit]
  refine ⟨h2.stop, ?_⟩
  have h3 := h2.index hall2
  rw [meets_bind, meets_commit]
  refine ⟨Or.inr h3, ?_⟩
  -- the log and the watermark
  have h4 : Since lower library s (made ++ [.commit (.replaceTrackIndex library.paths)] ++
      [.commit (.recordChanges (some library.paths) edited)]) _ :=
    h3.keep ⟨by simp, by simp, by simp⟩
      (sameView_record lower visit.newEpoch _ (some library.paths) edited)
  rw [meets_bind, meets_now]
  refine ⟨Or.inr h4, ?_⟩
  have h5 : Since lower library s (made ++ [.commit (.replaceTrackIndex library.paths)] ++
      [.commit (.recordChanges (some library.paths) edited)] ++ [.now]) _ :=
    h4.keep ⟨by simp, by simp, by simp⟩ (SameView.refl _)
  rw [meets_commit]
  refine ⟨Or.inr h5, h5.keep ⟨by simp, by simp, by simp⟩ ⟨rfl, rfl, rfl, rfl⟩, ?_⟩
  simp [Indexed]

theorem buildTrackIndex_meets {visit : Visit} (h : Warming lower library s made t)
    (hall : Rebuilds lower library s → ∀ f, Warmed library made f) :
    buildTrackIndex.Meets (answer lower (library.host visit)) (Stop lower library s)
      (fun _ => Finished lower library s) made t := by
  unfold buildTrackIndex
  rw [meets_bind, meets_trackPaths]
  refine ⟨h.stop, ?_⟩
  exact fileListing_meets (h.keep ⟨by simp, by simp, by simp⟩)
    fun hre f => List.mem_append_left _ (hall hre f)

theorem clears_eq_false {fp : UInt64} (h : s.moved fp = false) : s.clears fp = false := by
  by_contra hc
  have := moved_of_clears (Bool.eq_true_of_not_eq_false hc)
  simp [h] at this

/-- Whether the lists are built is decided by the store the run found. -/
theorem Reconciled.needsRebuild {changed : Bool} (h : Reconciled lower library s changed made t) :
    (changed || !t.browseListsCached) = true ↔ Rebuilds lower library s := by
  have hcached : t.browseListsCached = decide (t.cache.index ≠ []) := by
    simp [Store.browseListsCached, MetadataCache.trackCount, h.validated, List.length_pos_iff]
  rw [h.changed, hcached, h.index, Rebuilds]
  cases hm : s.moved (library.fingerprint lower) with
  | true => simp
  | false =>
    simp [clears_eq_false hm]

/-- **The run.** Wherever it stops, and where it ends. -/
theorem reconcileMetadata_meets (visit : Visit) (s : Store) :
    (reconcileMetadata lower library.albums).Meets (answer lower (library.host visit))
      (Stop lower library s) (fun _ => Finished lower library s) [] s := by
  unfold reconcileMetadata
  show Meets _ _ _ (reconcile (stampsOf lower library.albums) (library.fingerprint lower) >>= _) _ s
  rw [meets_bind]
  refine (reconcile_meets _ s).post fun changed made t h => ?_
  rw [meets_bind, meets_look]
  refine ⟨h.warming.stop, ?_⟩
  have h1 := h.warming.keep neutral_look
  have hneeds := h.needsRebuild
  rw [meets_bind, meets_when]
  constructor
  · intro hn
    have hre := hneeds.mp hn
    exact (prewarmBrowseLists_meets h1 hre).post fun _ made t ⟨h2, hall⟩ =>
      buildTrackIndex_meets h2 fun _ => hall
  · intro hn
    have hre : ¬ Rebuilds lower library s := fun h => by simp [hneeds.mpr h] at hn
    exact buildTrackIndex_meets h1 fun h => absurd h hre

/-! ## The next start -/

/-- A list is shown when it was committed, or was right before and not cleared. -/
theorem Since.shows_iff (h : Since lower library s made t) (f : FlatList) :
    t.lists f = some (library.list f) ↔ Warmed library made f ∨
      (s.clears (library.fingerprint lower) = false ∧ s.lists f = some (library.list f)) := by
  by_cases hw : Warmed library made f
  · simp [hw, h.warmed f hw]
  · rw [h.unwarmed f hw]
    cases s.clears (library.fingerprint lower) <;> simp [hw]

theorem not_rebuilds (h : ¬ Rebuilds lower library s) :
    s.moved (library.fingerprint lower) = false ∧ s.cache.index ≠ [] := by
  simpa [Rebuilds] using h

/-- What the next start needs of the store that a stop leaves. -/
theorem Since.harmless_iff (h : Since lower library s made t) :
    t.cache.index = [] ∨ library.Shown t ↔ StopHarmless lower library s made := by
  have hshown : library.Shown t ↔ ∀ f, Warmed library made f ∨
      (s.clears (library.fingerprint lower) = false ∧ s.lists f = some (library.list f)) :=
    forall_congr' h.shows_iff
  rw [hshown, StopHarmless]
  have hstamped : ¬ (s.moved (library.fingerprint lower) = true ∧ ¬ Stamped lower library made) :=
    fun hno => hno.2 (h.stamped hno.1)
  by_cases hi : Indexed library made
  · by_cases hre : Rebuilds lower library s
    · have hall := h.last hi hre
      simp [hall]
    · obtain ⟨hmoved, hindex⟩ := not_rebuilds hre
      simp [h.indexed hi, hi, hindex, hmoved, clears_eq_false hmoved]
  · rw [h.unindexed hi]
    cases hc : s.clears (library.fingerprint lower) with
    | true => simp
    | false => simp [hi, hstamped]

/-- **A whole run** shows the library, unless it takes the lists it finds for warm. -/
theorem started_shown_iff (visit : Visit) (s : Store) :
    library.Shown (s.started lower library visit) ↔ Rebuilds lower library s ∨ library.Shown s := by
  obtain ⟨hsince, hindexed⟩ : Finished lower library s.reopen _ (s.started lower library visit) :=
    (reconcileMetadata_meets visit s.reopen).run
  have hshown := forall_congr' hsince.shows_iff
  rw [Library.Shown, hshown]
  by_cases hre : Rebuilds lower library s
  · exact iff_of_true (fun f => Or.inl (hsince.last hindexed hre f)) (Or.inl hre)
  · have hnone := hsince.warm hre
    have hc : s.reopen.clears (library.fingerprint lower) = false :=
      clears_eq_false (not_rebuilds hre).1
    simp only [hnone, hc, false_or, true_and, hre]
    exact Iff.rfl

/-- **A stopped reconcile is repaired by the next start** exactly when the stop was harmless. -/
theorem repaired_iff (lower : String → String) (library : Library) (first next : Visit) (s : Store)
    (k : Nat) :
    library.Shown ((s.stopped lower library first k).2.started lower library next) ↔
      StopHarmless lower library s (s.stopped lower library first k).1 := by
  have hstop : Stop lower library s.reopen (s.stopped lower library first k).1
      (s.stopped lower library first k).2 :=
    (reconcileMetadata_meets first s.reopen).upTo (fun _ _ _ h => Or.inr h.since) k
  rw [started_shown_iff]
  rcases hstop with ⟨hre, hharmless⟩ | hsince
  · exact iff_of_true (Or.inl hre) hharmless
  · have hre : Rebuilds lower library (s.stopped lower library first k).2 ↔
        (s.stopped lower library first k).2.cache.index = [] := by
      simp [Rebuilds, hsince.unmoved]
    rw [hre]
    exact hsince.harmless_iff

/-! ## A stop that is not repaired -/

/-- A library of one genre. -/
def oneGenre (genre : String) (albums : List AlbumIdentifier) (paths : List Path) : Library where
  albums
  paths
  list
    | .genres => ⟨1, 0, 0, [{ genre, count := 1 }]⟩
    | .artists _ => ⟨0, 0, 0, []⟩
    | .albums => ⟨0, 0, 0, []⟩

/-- The library an earlier run reconciled. -/
def before : Library := oneGenre "Jazz" [{ artist := "a", album := "b", modified := 1 }] ["p"]

/-- The same library with an album added and its genre edited. -/
def after : Library :=
  oneGenre "Rock" [{ artist := "a", album := "b", modified := 1 }, { artist := "c", modified := 2 }]
    ["p", "q"]

def quiet : Visit := { delta := fun _ => ([], []), now := 1, newEpoch := "e" }

/-- The cache the first library leaves. -/
def leftBehind : Store := Store.initial.started id before quiet

/-- Stopped as soon as the fingerprint of the second library is stored, the reconcile leaves the
genres of the first to the next start; left alone, it shows the second library. -/
theorem stop_after_fingerprint :
    before.Shown leftBehind ∧ after.Shown (leftBehind.started id after quiet) ∧
      ¬ ∀ k, after.Shown ((leftBehind.stopped id after quiet k).2.started id after quiet) := by
  refine ⟨?_, ?_, fun hall => ?_⟩
  · rintro (_ | ⟨_ | _⟩ | _) <;> decide +kernel
  · rintro (_ | ⟨_ | _⟩ | _) <;> decide +kernel
  · have hgenres : ((leftBehind.stopped id after quiet 4).2.started id after quiet).lists .genres ≠
        some (after.list .genres) := by decide +kernel
    exact hgenres (hall 4 .genres)

end Mbrc.Reconcile
