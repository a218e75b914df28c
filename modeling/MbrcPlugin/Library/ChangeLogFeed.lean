import MbrcPlugin.Library.ChangeLog

/-!
# The change log as a change feed

What the two tables say together is a change feed with a floor: a path's row of
`TRACK_CHANGES`, the newest generation and the floor.  The file proves the refinement.  A
well-formed log keeps its two tables in step (`WellFormed`), `record` moves the feed as a feed
may move (`record_advances`), and a page that `read` answers is a page of the feed's window
(`read_changes`).
-/

namespace Mbrc

/-- A continuation as the log hands it out: its last change lies in its window. -/
def Continuation.InWindow (k : Continuation) : Prop :=
  (∀ s ∈ k.since, s < k.generation) ∧ k.generation ≤ k.untilGen

namespace ChangeLog

open ChangeFeed

/-- What the log says of every path. -/
def feed (c : ChangeLog) : Feed Path where
  generation := c.generation
  floor := c.floor
  row := c.trackChanges.get?

/-- The path is in the library as far as the log knows. -/
def IsLive (c : ChangeLog) (p : Path) : Prop := c.feed.Live p

/-- The two tables file the same changes. -/
def Mirrors (known : Table Path (Nat × Bool)) (log : Table LogKey Bool) : Prop :=
  ∀ g p l, log.get? (toLex (g, p)) = some l ↔ known.get? p = some (g, l)

/-- The log between two passes. -/
structure WellFormed (c : ChangeLog) : Prop where
  mirrors : Mirrors c.trackChanges c.log
  sound : c.feed.Sound
  /-- A tombstone below the floor was forgotten. -/
  dead_ge : ∀ {p g}, c.trackChanges.get? p = some (g, false) → c.floor ≤ g

theorem empty_wellFormed : empty.WellFormed where
  mirrors := by
    intro g p l
    simp [empty, log]
  sound := ⟨fun h => by simp [feed, empty] at h, Nat.le_refl 0⟩
  dead_ge h := by simp [empty] at h

/-! ## Filing -/

theorem Filing.file_known (next : Nat) (st : Filing) (path : Path) (live : Bool) (p : Path) :
    (st.file next (path, live)).known.get? p =
      if path = p then some (next, live) else st.known.get? p :=
  Table.get?_insert _ _ _ _

theorem Filing.file_mirrors {next : Nat} {st : Filing} (path : Path) (live : Bool)
    (h : Mirrors st.known st.log) :
    Mirrors (st.file next (path, live)).known (st.file next (path, live)).log := by
  intro g p l
  rw [Filing.file_known]
  -- the old row of `path` is gone from the log, so its only row there is the new one
  have hlog : (st.file next (path, live)).log.get? (toLex (g, p)) =
      if path = p then (if next = g then some live else none)
      else st.log.get? (toLex (g, p)) := by
    simp only [Filing.file, Table.get?_insert, toLex_inj, Prod.mk.injEq]
    by_cases hp : path = p
    · subst hp
      by_cases hg : next = g
      · simp [hg]
      · have hrow : ∀ l, st.log.get? (toLex (g, path)) = some l ↔
            st.known.get? path = some (g, l) := fun l => h g path l
        cases hwas : st.known.get? path with
        | none =>
          have : st.log.get? (toLex (g, path)) = none :=
            Option.eq_none_iff_forall_ne_some.mpr fun l hl => by simp [hrow l, hwas] at hl
          simp [hg, this]
        | some was =>
          obtain ⟨old, l₀⟩ := was
          by_cases hold : old = g
          · simp [hg, hold, Table.get?_erase]
          · have : st.log.get? (toLex (g, path)) = none :=
              Option.eq_none_iff_forall_ne_some.mpr fun l hl => by
                simp [hrow l, hwas, hold] at hl
            simp [hg, Table.get?_erase, hold, this]
    · cases hwas : st.known.get? path with
      | none => simp [hp]
      | some was => simp [hp, Table.get?_erase]
  rw [hlog]
  by_cases hp : path = p
  · by_cases hg : next = g <;> simp [hp, hg]
  · simpa [hp] using h g p l

/-- **The filing loop.** A path keeps its row or has a new one of this pass, and the two tables
stay in step. -/
theorem foldl_file (next : Nat) (moved : List (Path × Bool)) {st : Filing}
    (h : Mirrors st.known st.log) :
    Mirrors (moved.foldl (Filing.file next) st).known (moved.foldl (Filing.file next) st).log ∧
    ∀ p, (moved.foldl (Filing.file next) st).known.get? p = st.known.get? p ∨
      ∃ l, (moved.foldl (Filing.file next) st).known.get? p = some (next, l) := by
  induction moved generalizing st with
  | nil => exact ⟨h, fun p => Or.inl rfl⟩
  | cons m moved ih =>
    obtain ⟨path, live⟩ := m
    obtain ⟨hm, hrow⟩ := ih (Filing.file_mirrors path live h)
    refine ⟨hm, fun p => ?_⟩
    rcases hrow p with heq | hnew
    · rw [Filing.file_known] at heq
      by_cases hp : path = p
      · exact Or.inr ⟨live, by simpa [hp] using heq⟩
      · exact Or.inl (by simpa [hp] using heq)
    · exact Or.inr hnew

/-! ## Forgetting -/

theorem mem_oldestTombstones {log : Table LogKey Bool} {n : Nat} {k : LogKey}
    (h : k ∈ oldestTombstones log n) : log.get? k = some false := by
  obtain ⟨⟨k', l⟩, hrow, rfl⟩ := List.mem_map.mp (List.mem_of_mem_take h)
  obtain ⟨hmem, hl⟩ := List.mem_filter.mp hrow
  obtain rfl : l = false := by simpa using hl
  exact Table.mem_rows.mp hmem

theorem tombstoneKeys_pairwise (log : Table LogKey Bool) :
    ((log.rows.filter fun row => !row.2).map (·.1)).Pairwise (· < ·) :=
  List.pairwise_map.mpr (log.rows_pairwise.filter _)

/-- What is dropped lies at or below the last one dropped, what is left above it. -/
theorem oldestTombstones_split {log : Table LogKey Bool} {n : Nat} {last : LogKey}
    (hlast : (oldestTombstones log n).getLast? = some last) :
    (∀ k ∈ oldestTombstones log n, k ≤ last) ∧
    ∀ k, log.get? k = some false → k ∉ oldestTombstones log n → last < k := by
  have hpw : ((log.rows.filter fun row => !row.2).map (·.1)).Pairwise fun a b => id a < id b :=
    tombstoneKeys_pairwise log
  obtain ⟨hle, hlt⟩ := Table.take_split hpw hlast
  refine ⟨hle, fun k hk hnot => hlt k ?_ hnot⟩
  exact List.mem_map.mpr ⟨(k, false), List.mem_filter.mpr ⟨Table.mem_rows.mpr hk, rfl⟩, rfl⟩

theorem oldestTombstones_eq_nil {log : Table LogKey Bool} {n : Nat}
    (h : oldestTombstones log n = []) (k : LogKey) : log.get? k ≠ some false := by
  intro hk
  have hkmem : k ∈ (log.rows.filter fun row => !row.2).map (·.1) :=
    List.mem_map.mpr ⟨(k, false), List.mem_filter.mpr ⟨Table.mem_rows.mpr hk, rfl⟩, rfl⟩
  rcases List.take_eq_nil_iff.mp h with h0 | hnil
  · omega
  · simp [hnil] at hkmem

/-- What forgetting leaves, `floor` being the newest generation dropped: paths keep their rows
or lose a tombstone at or below it, and the tombstones left lie at or above it. -/
structure Forgot (known known' : Table Path (Nat × Bool)) (log' : Table LogKey Bool)
    (floor : Option Nat) : Prop where
  mirrors : Mirrors known' log'
  row : ∀ p, known'.get? p = known.get? p ∨
    (known'.get? p = none ∧ ∃ g f, known.get? p = some (g, false) ∧ floor = some f ∧ g ≤ f)
  floor_mem : ∀ f ∈ floor, ∃ p, known.get? p = some (f, false)
  floor_le : ∀ p g, known'.get? p = some (g, false) → ∃ f ∈ floor, f ≤ g

theorem forgetOldestTombstones_forgot {known : Table Path (Nat × Bool)}
    {log : Table LogKey Bool} (h : Mirrors known log) (n : Nat) :
    Forgot known (forgetOldestTombstones known log n).1 (forgetOldestTombstones known log n).2.1
      (forgetOldestTombstones known log n).2.2 := by
  simp only [forgetOldestTombstones]
  set oldest := oldestTombstones log n with hold
  -- the row of a dropped key is the tombstone the key names
  have hdead : ∀ k ∈ oldest, known.get? (ofLex k).2 = some ((ofLex k).1, false) :=
    fun k hk => (h _ _ _).mp (mem_oldestTombstones hk)
  have hknown : ∀ p, (known.eraseAll (oldest.map fun key => (ofLex key).2)).get? p =
      if ∃ k ∈ oldest, (ofLex k).2 = p then none else known.get? p := by
    intro p
    simp only [Table.get?_eraseAll, List.mem_map]
  have hsplit : ∀ last, oldest.getLast? = some last →
      (∀ k ∈ oldest, (ofLex k).1 ≤ (ofLex last).1) ∧
      ∀ k, log.get? k = some false → k ∉ oldest → (ofLex last).1 ≤ (ofLex k).1 := by
    intro last hlast
    obtain ⟨hle, hlt⟩ := oldestTombstones_split hlast
    exact ⟨fun k hk => Prod.Lex.monotone_fst_ofLex (hle k hk),
      fun k hk hnot => Prod.Lex.monotone_fst_ofLex (hlt k hk hnot).le⟩
  refine ⟨?_, fun p => ?_, ?_, ?_⟩
  · intro g p l
    rw [hknown, Table.get?_eraseAll]
    by_cases hp : ∃ k ∈ oldest, (ofLex k).2 = p
    · obtain ⟨k, hk, rfl⟩ := hp
      have hrow := hdead k hk
      have hex : ∃ k' ∈ oldest, (ofLex k').2 = (ofLex k).2 := ⟨k, hk, rfl⟩
      rw [if_pos hex]
      by_cases hkey : toLex (g, (ofLex k).2) ∈ oldest
      · simp [hkey]
      · have hne : log.get? (toLex (g, (ofLex k).2)) = none := by
          refine Option.eq_none_iff_forall_ne_some.mpr fun l' hl' => hkey ?_
          rw [h, hrow] at hl'
          obtain ⟨rfl, rfl⟩ : (ofLex k).1 = g ∧ false = l' := by simpa using hl'
          exact hk
        simp [hkey, hne]
    · have hkey : toLex (g, p) ∉ oldest := fun hk => hp ⟨_, hk, rfl⟩
      rw [if_neg hkey, if_neg hp]
      exact h g p l
  · rw [hknown]
    by_cases hp : ∃ k ∈ oldest, (ofLex k).2 = p
    · rw [if_pos hp]
      obtain ⟨k, hk, rfl⟩ := hp
      cases hlast : oldest.getLast? with
      | none => simp [List.getLast?_eq_none_iff.mp hlast] at hk
      | some last =>
        exact Or.inr ⟨rfl, (ofLex k).1, (ofLex last).1, hdead k hk, rfl,
          (hsplit last hlast).1 k hk⟩
    · exact Or.inl (if_neg hp)
  · intro f hf
    obtain ⟨last, hlast, rfl⟩ := Option.mem_map.mp hf
    exact ⟨_, hdead last (List.mem_of_getLast? hlast)⟩
  · intro p g hrow
    rw [hknown] at hrow
    by_cases hp : ∃ k ∈ oldest, (ofLex k).2 = p
    · simp [hp] at hrow
    · rw [if_neg hp] at hrow
      have hlog : log.get? (toLex (g, p)) = some false := (h _ _ _).mpr hrow
      cases hlast : oldest.getLast? with
      | none => exact absurd hlog (oldestTombstones_eq_nil (List.getLast?_eq_none_iff.mp hlast) _)
      | some last =>
        exact ⟨_, rfl, (hsplit last hlast).2 _ hlog fun hk => hp ⟨_, hk, rfl⟩⟩

/-! ## A pass moves the feed -/

/-- Filing under the next generation keeps the log well formed and moves its feed. -/
theorem fileAll_advances {c : ChangeLog} (h : c.WellFormed) (moved : List (Path × Bool)) :
    (c.fileAll moved).WellFormed ∧ Advances c.feed (c.fileAll moved).feed := by
  have hst₀ : Mirrors (⟨c.tombstones, c.live, c.trackChanges, c.log⟩ : Filing).known
      (⟨c.tombstones, c.live, c.trackChanges, c.log⟩ : Filing).log := h.mirrors
  obtain ⟨hmir, hrow⟩ := foldl_file (c.generation + 1) moved hst₀
  simp only [fileAll]
  set st := moved.foldl (Filing.file (c.generation + 1))
    ⟨c.tombstones, c.live, c.trackChanges, c.log⟩ with hst
  -- a tombstone of the pass is an old one, or is filed under the new generation
  have hfloor : ∀ {p g}, st.known.get? p = some (g, false) → c.floor ≤ g := by
    intro p g hp
    rcases hrow p with heq | ⟨l, hnew⟩
    · exact h.dead_ge (heq.symm.trans hp)
    · obtain ⟨rfl, -⟩ : c.generation + 1 = g ∧ l = false := by simpa [hnew] using hp
      exact h.sound.floor_le.trans (Nat.le_succ _)
  have hle : ∀ {p g l}, st.known.get? p = some (g, l) → g ≤ c.generation + 1 := by
    intro p g l hp
    rcases hrow p with heq | ⟨l', hnew⟩
    · exact (h.sound.row_le (heq.symm.trans hp)).trans (Nat.le_succ _)
    · obtain ⟨rfl, -⟩ : c.generation + 1 = g ∧ l' = l := by simpa [hnew] using hp
      exact Nat.le_refl _
  split
  · have hf := forgetOldestTombstones_forgot hmir (st.tombstones - maxTombstones)
    generalize forgetOldestTombstones st.known st.log (st.tombstones - maxTombstones) = kept
      at hf ⊢
    obtain ⟨known, log, floor⟩ := kept
    have hmono : c.floor ≤ floor.getD c.floor := by
      cases floor with
      | none => exact Nat.le_refl _
      | some f =>
        obtain ⟨p, hp⟩ := hf.floor_mem f rfl
        exact hfloor hp
    refine ⟨⟨hf.mirrors, ⟨fun {p g l} hp => ?_, ?_⟩, fun {p g} hp => ?_⟩,
      ⟨Nat.le_succ _, hmono, fun p => ?_⟩⟩
    · rcases hf.row p with heq | ⟨hnone, -⟩
      · exact hle (heq.symm.trans hp)
      · simp [feed, hnone] at hp
    · cases floor with
      | none => exact h.sound.floor_le.trans (Nat.le_succ _)
      | some f =>
        obtain ⟨p, hp⟩ := hf.floor_mem f rfl
        exact hle hp
    · obtain ⟨f, hfl, hge⟩ := hf.floor_le p g hp
      obtain rfl : floor = some f := hfl
      exact hge
    · rcases hf.row p with heq | ⟨hnone, g, f, hdead, rfl, hgf⟩
      · rcases hrow p with hsame | ⟨l, hnew⟩
        · exact Or.inl (heq.trans hsame)
        · exact Or.inr (Or.inl ⟨_, l, heq.trans hnew, Nat.lt_succ_self _⟩)
      · refine Or.inr (Or.inr ⟨hnone, ?_⟩)
        rcases hrow p with hsame | ⟨l, hnew⟩
        · exact Or.inl ⟨g, hsame.symm.trans hdead, hgf⟩
        · obtain ⟨rfl, -⟩ : c.generation + 1 = g ∧ l = false := by simpa [hnew] using hdead
          exact Or.inr (Nat.lt_of_lt_of_le (Nat.lt_succ_self _) hgf)
  · refine ⟨⟨hmir, ⟨hle, h.sound.floor_le.trans (Nat.le_succ _)⟩, hfloor⟩,
      ⟨Nat.le_succ _, Nat.le_refl _, fun p => ?_⟩⟩
    rcases hrow p with hsame | ⟨l, hnew⟩
    · exact Or.inl hsame
    · exact Or.inr (Or.inl ⟨_, l, hnew, Nat.lt_succ_self _⟩)

theorem advances_refl (f : Feed Path) : Advances f f :=
  ⟨Nat.le_refl _, Nat.le_refl _, fun _ => Or.inl rfl⟩

/-- **A pass refines a move of the feed**, whatever it lists and whatever it was told changed;
it starts an epoch only where there was none. -/
theorem record_advances {c : ChangeLog} (h : c.WellFormed) (newEpoch : Epoch)
    (paths : Option (List Path)) (updated : List Path) :
    (c.record newEpoch paths updated).1.WellFormed ∧
    Advances c.feed (c.record newEpoch paths updated).1.feed ∧
    ((c.record newEpoch paths updated).1.epoch = c.epoch ∨
      (c.epoch = none ∧ (c.record newEpoch paths updated).1.epoch = some newEpoch)) := by
  unfold record
  split
  · exact ⟨h, advances_refl _, Or.inl rfl⟩
  · set c' : ChangeLog := { c with epoch := some (c.epoch.getD newEpoch) } with hc'
    have hwf : c'.WellFormed := ⟨h.mirrors, h.sound, h.dead_ge⟩
    have hepoch : c'.epoch = c.epoch ∨ (c.epoch = none ∧ c'.epoch = some newEpoch) := by
      cases he : c.epoch with
      | none => exact Or.inr ⟨rfl, by simp [hc', he]⟩
      | some e => exact Or.inl (by simp [hc', he])
    simp only
    split
    · exact ⟨hwf, advances_refl _, hepoch⟩
    · obtain ⟨hwf', hadv⟩ := fileAll_advances hwf (c'.filings paths updated)
      refine ⟨hwf', hadv, ?_⟩
      have hsame : (c'.fileAll (c'.filings paths updated)).epoch = c'.epoch := by
        unfold fileAll
        simp only
        split <;> rfl
      rw [hsame]
      exact hepoch

/-! ## A page of the log is a page of the feed -/

/-- The keys a read has gone past before it serves a page. -/
def Reached (after : Option LogKey) (key : LogKey) : Prop := ∃ last ∈ after, key ≤ last

/-- The keys it has gone past with the page: all of them when nothing follows. -/
def ReachedWith (next : Option Continuation) (key : LogKey) : Prop :=
  ∀ k ∈ next, key ≤ toLex (k.generation, k.src)

/-- A row of the log as a reader is told it. -/
def toChange (row : LogKey × Bool) : Change := ⟨(ofLex row.1).1, (ofLex row.1).2, row.2⟩

theorem toChange_key (row : LogKey × Bool) : (toChange row).key = row.1 := rfl

/-- The serving loop takes the first rows it does not pass over, and says whether one is left. -/
theorem serve_eq (fromStart : Bool) (limit : Nat) (rows : List (LogKey × Bool)) :
    serve fromStart limit rows =
      (((rows.filter fun row => row.2 || !fromStart).take limit).map toChange,
        decide (limit < (rows.filter fun row => row.2 || !fromStart).length)) := by
  induction rows generalizing limit with
  | nil => simp [serve]
  | cons row rows ih =>
    obtain ⟨key, live⟩ := row
    rw [serve.eq_def]
    dsimp only
    by_cases hskip : (!live && fromStart) = true
    · obtain ⟨rfl, rfl⟩ : live = false ∧ fromStart = true := by simpa using hskip
      rw [if_pos hskip, ih]
      simp
    · rw [if_neg hskip]
      have hkeep : (live || !fromStart) = true := by
        cases live <;> cases fromStart <;> simp_all
      have hfilter : ((key, live) :: rows).filter (fun row : LogKey × Bool => row.2 || !fromStart)
          = (key, live) :: rows.filter fun row => row.2 || !fromStart :=
        List.filter_cons_of_pos hkeep
      rw [hfilter]
      cases limit with
      | zero => simp
      | succ limit => simp [ih, toChange]

theorem not_lt_emptyPath (p : Path) : ¬ p < "" := by
  rw [String.lt_iff_toList_lt]
  simp

theorem inRange_iff {since : Option Nat} {untilGen : Nat} {after : Option LogKey}
    (hafter : ∀ last ∈ after, ∀ s ∈ since, s < (ofLex last).1) (g : Nat) (p : Path) :
    inRange since untilGen after (toLex (g, p)) = true ↔
      g ≤ untilGen ∧ (∀ s ∈ since, s < g) ∧ ¬ Reached after (toLex (g, p)) := by
  have hupper : (toLex (g, p) : LogKey) < toLex (untilGen + 1, "") ↔ g ≤ untilGen := by
    rw [Prod.Lex.toLex_lt_toLex]
    simp only [not_lt_emptyPath, and_false, or_false]
    exact Nat.lt_succ_iff
  cases after with
  | none =>
    have hlower : toLex ((since.map (· + 1)).getD 0, "") ≤ (toLex (g, p) : LogKey) ↔
        ∀ s ∈ since, s < g := by
      rw [Prod.Lex.toLex_le_toLex]
      have hp : ("" : Path) ≤ p := not_lt.mp (not_lt_emptyPath p)
      cases since with
      | none => simp [hp, Nat.eq_zero_or_pos, eq_comm, or_comm]
      | some s =>
        simp only [Option.map_some, Option.getD_some, hp, and_true, Option.mem_def,
          Option.some.injEq, forall_eq']
        omega
    simp [inRange, hupper, hlower, Reached, and_comm]
  | some last =>
    have hs : last < toLex (g, p) → ∀ s ∈ since, s < g := fun hlt s hmem =>
      (hafter last rfl s hmem).trans_le (Prod.Lex.monotone_fst_ofLex hlt.le)
    simp only [inRange, hupper, Reached, Bool.and_eq_true, decide_eq_true_eq, Option.mem_def,
      Option.some.injEq, exists_eq_left', not_le]
    exact ⟨fun h => ⟨h.2, hs h.1, h.1⟩, fun h => ⟨h.2.2, h.1⟩⟩

/-- The rows a page is cut from: those of the range, less the removals when the read started
from nothing. -/
def servable (c : ChangeLog) (since : Option Nat) (untilGen : Nat) (after : Option LogKey) :
    List (LogKey × Bool) :=
  (c.log.range (inRange since untilGen after)).filter fun row => row.2 || !since.isNone

theorem mem_servable {c : ChangeLog} {since : Option Nat} {untilGen : Nat}
    {after : Option LogKey} (h : c.WellFormed)
    (hafter : ∀ last ∈ after, ∀ s ∈ since, s < (ofLex last).1) {g : Nat} {p : Path} {l : Bool} :
    (toLex (g, p), l) ∈ c.servable since untilGen after ↔
      c.feed.row p = some (g, l) ∧ (g ≤ untilGen ∧ (∀ s ∈ since, s < g) ∧
        ¬ Reached after (toLex (g, p))) ∧ (since = none → l = true) := by
  rw [servable, List.mem_filter, Table.mem_range, h.mirrors, inRange_iff hafter]
  cases since <;> simp [feed, and_assoc]

theorem servable_pairwise (c : ChangeLog) (since : Option Nat) (untilGen : Nat)
    (after : Option LogKey) :
    (c.servable since untilGen after).Pairwise fun a b => a.1 < b.1 :=
  (c.log.range_pairwise _).filter _

/-- What a page of `limit` changes holds, and what it says follows, is a page of the feed. -/
theorem servable_isPage {c : ChangeLog} (h : c.WellFormed) {since : Option Nat} {untilGen : Nat}
    {after : Option LogKey} (hafter : ∀ last ∈ after, ∀ s ∈ since, s < (ofLex last).1)
    {limit : Nat} (hlimit : 0 < limit) {next : Option Continuation}
    (hnext : next.map (fun k => toLex (k.generation, k.src)) =
      if limit < (c.servable since untilGen after).length then
        ((c.servable since untilGen after).take limit).getLast?.map (·.1) else none) :
    IsPage c.feed since untilGen (Reached after) (ReachedWith next)
      (((c.servable since untilGen after).take limit).map toChange) := by
  set rows := c.servable since untilGen after with hrows
  have hmem : ∀ row ∈ rows.take limit, (toLex ((ofLex row.1).1, (ofLex row.1).2), row.2) ∈ rows :=
    fun row hrow => List.mem_of_mem_take hrow
  have hspec : ∀ row ∈ rows.take limit, _ := fun row hrow =>
    (mem_servable h hafter).mp (hmem row hrow)
  -- what follows the page starts past its last change
  have hpast : ∀ k ∈ next, ∃ last : LogKey × Bool,
      (rows.take limit).getLast? = some last ∧ toLex (k.generation, k.src) = last.1 := by
    intro k hk
    obtain rfl : next = some k := hk
    by_cases hmore : limit < rows.length
    · rw [if_pos hmore, Option.map_some, eq_comm, Option.map_eq_some_iff] at hnext
      obtain ⟨last, hlast, hkey⟩ := hnext
      exact ⟨last, hlast, hkey.symm⟩
    · simp [hmore] at hnext
  refine ⟨fun key hr k hk => ?_, fun ch hch => ?_, fun ch hch => ⟨?_, fun k hk => ?_⟩,
    fun ch hch => ?_, fun p g l hrow hle hs hl hr hr' => ?_⟩
  · obtain ⟨last, hlast, hkey⟩ := hpast k hk
    obtain ⟨a, ha, hka⟩ := hr
    rw [hkey]
    have hnot := (hspec last (List.mem_of_getLast? hlast)).2.1.2.2
    exact hka.trans (not_le.mp fun hle => hnot ⟨a, ha, hle⟩).le
  · obtain ⟨row, hrow, rfl⟩ := List.mem_map.mp hch
    exact (hspec row hrow).1
  · obtain ⟨row, hrow, rfl⟩ := List.mem_map.mp hch
    exact (hspec row hrow).2.1.2.2
  · obtain ⟨row, hrow, rfl⟩ := List.mem_map.mp hch
    obtain ⟨last, hlast, hkey⟩ := hpast k hk
    rw [hkey]
    exact (Table.take_split (c.servable_pairwise since untilGen after) hlast).1 row hrow
  · obtain ⟨row, hrow, rfl⟩ := List.mem_map.mp hch
    exact ⟨(hspec row hrow).2.1.1, (hspec row hrow).2.1.2.1, (hspec row hrow).2.2⟩
  · have hin : (toLex (g, p), l) ∈ rows := (mem_servable h hafter).mpr ⟨hrow, ⟨hle, hs, hr⟩, hl⟩
    have htake : (toLex (g, p), l) ∈ rows.take limit := by
      by_contra hnot
      by_cases hmore : limit < rows.length
      · have hne : rows.take limit ≠ [] := by
          intro hnil
          rcases List.take_eq_nil_iff.mp hnil with h0 | hnil
          · omega
          · simp [hnil] at hmore
        have hlast := List.getLast?_eq_some_getLast hne
        have hlt := (Table.take_split (c.servable_pairwise since untilGen after) hlast).2 _ hin hnot
        rw [if_pos hmore, hlast, Option.map_some, Option.map_eq_some_iff] at hnext
        obtain ⟨k, hk, hkey⟩ := hnext
        have hle' := hr' k hk
        rw [hkey] at hle'
        exact absurd hlt (not_lt.mpr hle')
      · rw [List.take_of_length_le (Nat.le_of_not_lt hmore)] at hnot
        exact hnot hin
    exact ⟨toChange (toLex (g, p), l), List.mem_map_of_mem htake, rfl⟩

/-- What an answered page tells of the log it was read from. -/
structure Answers (c : ChangeLog) (source : ReadFrom) (head : Cursor) (changes : List Change)
    (next : Option Continuation) : Prop where
  epoch : c.epoch = some head.epoch
  head_generation : head.generation = (c.window source).2.1
  own : c.foreign head.epoch source = false
  answerable : ∀ s ∈ (c.window source).1, c.floor ≤ s ∧ s ≤ c.generation
  page : IsPage c.feed (c.window source).1 (c.window source).2.1
    (Reached (c.window source).2.2) (ReachedWith next) changes
  follows : ∀ k ∈ next, k.epoch = head.epoch ∧ k.since = (c.window source).1 ∧
    k.untilGen = (c.window source).2.1 ∧ k.InWindow

/-- **A read answers a page of the feed.** -/
theorem read_changes {c : ChangeLog} (h : c.WellFormed) {source : ReadFrom}
    (hsource : ∀ k, source = .resume k → k.InWindow) {limit : Nat} (hlimit : 0 < limit)
    {head : Cursor} {total : Nat} {changes : List Change} {next : Option Continuation}
    (hread : c.read source limit = some (.changes head total changes next)) :
    c.Answers source head changes next := by
  have hafter : ∀ last ∈ (c.window source).2.2, ∀ s ∈ (c.window source).1,
      s < (ofLex last).1 := by
    cases source with
    | start => simp [window]
    | since cursor => simp [window]
    | resume k =>
      intro last hlast s hs
      obtain rfl : toLex (k.generation, k.src) = last := by simpa [window] using hlast
      exact (hsource k rfl).1 s hs
  obtain ⟨epoch, hepoch, hread⟩ := Option.map_eq_some_iff.mp hread
  by_cases hbad : (c.foreign epoch source || c.unanswerable (c.window source).1) = true
  · simp [hbad] at hread
  · simp only [hbad, Bool.false_eq_true, if_false] at hread
    obtain ⟨hown, hans⟩ : c.foreign epoch source = false ∧
        c.unanswerable (c.window source).1 = false := by simpa using hbad
    have hanswerable : ∀ s ∈ (c.window source).1, c.floor ≤ s ∧ s ≤ c.generation := by
      intro s hs
      rw [Option.mem_def.mp hs] at hans
      simpa [unanswerable] using hans
    cases hlog : c.changeLog with
    | none =>
      simp only [hlog, ChangePage.changes.injEq] at hread
      obtain ⟨rfl, rfl, rfl, rfl⟩ := hread
      refine ⟨hepoch, rfl, hown, hanswerable, ?_, by simp⟩
      have hrows : c.servable (c.window source).1 (c.window source).2.1
          (c.window source).2.2 = [] := by
        simp [servable, log, hlog, Table.range, Table.rows_empty]
      have hpage : IsPage c.feed (c.window source).1 (c.window source).2.1
          (Reached (c.window source).2.2) (ReachedWith none) _ :=
        servable_isPage h hafter hlimit (by simp [hrows])
      simpa [hrows] using hpage
    | some log =>
      simp only [hlog, serve_eq, ChangePage.changes.injEq] at hread
      obtain ⟨rfl, rfl, rfl, hnext⟩ := hread
      have hserv : c.servable (c.window source).1 (c.window source).2.1 (c.window source).2.2 =
          (log.range (inRange (c.window source).1 (c.window source).2.1
            (c.window source).2.2)).filter fun row => row.2 || !(c.window source).1.isNone := by
        simp [servable, ChangeLog.log, hlog]
      rw [← hserv] at hnext ⊢
      have hkeys : next.map (fun k => toLex (k.generation, k.src)) =
          if limit < (c.servable (c.window source).1 (c.window source).2.1
              (c.window source).2.2).length then
            ((c.servable (c.window source).1 (c.window source).2.1
              (c.window source).2.2).take limit).getLast?.map (·.1) else none := by
        rw [← hnext]
        split <;> rename_i hmore
        · rw [if_pos (by simpa using hmore), List.getLast?_map, Option.map_map, Option.map_map]
          rfl
        · rw [if_neg (by simpa using hmore)]
          rfl
      refine ⟨hepoch, rfl, hown, hanswerable, servable_isPage h hafter hlimit hkeys, ?_⟩
      intro k hk
      rw [Option.mem_def, ← hnext] at hk
      split at hk
      · obtain ⟨last, hlast, rfl⟩ := Option.map_eq_some_iff.mp hk
        obtain ⟨row, hrow, rfl⟩ := List.mem_map.mp (List.mem_of_getLast? hlast)
        have hin := (mem_servable (p := (ofLex row.1).2) (l := row.2) (g := (ofLex row.1).1) h
          hafter).mp (List.mem_of_mem_take hrow)
        exact ⟨rfl, rfl, rfl, hin.2.1.2.1, hin.2.1.1⟩
      · simp at hk

end ChangeLog

end Mbrc
