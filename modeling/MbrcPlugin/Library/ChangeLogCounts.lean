import MbrcPlugin.Library.ChangeLogFeed

/-!
# The representation of the change log

After any passes and resets the two tables are inverse to each other, the two counters count the
rows they are for, and the floor lies between what was forgotten and what is kept.  A pass over a
listing leaves the listed paths live and no others.
-/

namespace Mbrc.ChangeLog

open ChangeFeed

/-! ## What a listing adds and removes -/

theorem mem_sortDedup {paths : List Path} {p : Path} : p ∈ sortDedup paths ↔ p ∈ paths := by
  rw [sortDedup, List.mem_dedup, List.mem_insertionSort]

theorem sortDedup_pairwise (paths : List Path) : (sortDedup paths).Pairwise (· < ·) := by
  have hsorted : (paths.insertionSort (· ≤ ·)).Pairwise (· ≤ ·) :=
    List.pairwise_insertionSort (· ≤ ·) paths
  have hle : (sortDedup paths).Pairwise (· ≤ ·) := hsorted.sublist (List.dedup_sublist _)
  have hne : (sortDedup paths).Pairwise (· ≠ ·) := List.nodup_dedup _
  exact (hle.and hne).imp fun h => lt_of_le_of_ne h.1 h.2

/-- **The merge.** It adds what is listed and not live, and removes what is live and not listed;
by induction on the rows, what is listed below the first row being behind it. -/
theorem mem_diffWalk {listed : List Path} {rows : List (Path × Nat × Bool)}
    (hl : listed.Pairwise (· < ·)) (hr : rows.Pairwise fun a b => a.1 < b.1) (p : Path) :
    (p ∈ (diffWalk listed rows).1 ↔ p ∈ listed ∧ ∀ g, (p, g, true) ∉ rows) ∧
    (p ∈ (diffWalk listed rows).2 ↔ p ∉ listed ∧ ∃ g, (p, g, true) ∈ rows) := by
  induction rows generalizing listed with
  | nil => simp [diffWalk]
  | cons row rows ih =>
    obtain ⟨path, g₀, live⟩ := row
    obtain ⟨habove, hr⟩ := List.pairwise_cons.mp hr
    have hrows : ∀ g b, (p, g, b) ∈ rows → path < p := fun g b h => habove _ h
    have hpassed := Table.mem_takeWhile_lt hl (k := path) (a := p)
    have hrest := Table.mem_dropWhile_lt hl (k := path) (a := p)
    have hsorted : (listed.dropWhile (· < path)).Pairwise (· < ·) :=
      hl.sublist (List.dropWhile_sublist _)
    unfold diffWalk
    dsimp only
    by_cases hhead : (listed.dropWhile (· < path)).head? = some path
    · rw [if_pos hhead]
      have hlisted := (Table.head?_dropWhile_lt hl).mp hhead
      obtain ⟨tail, htail⟩ := List.head?_eq_some_iff.mp hhead
      rw [htail] at hsorted hrest ⊢
      obtain ⟨hpath, hsorted⟩ := List.pairwise_cons.mp hsorted
      obtain ⟨hadded, hremoved⟩ := ih hsorted hr
      have hmem : p ∈ tail ↔ p ∈ listed ∧ path < p := by
        constructor
        · intro h
          exact ⟨(hrest.mp (List.mem_cons_of_mem _ h)).1, hpath p h⟩
        · rintro ⟨h, hlt⟩
          rcases List.mem_cons.mp (hrest.mpr ⟨h, hlt.le⟩) with rfl | h
          · exact absurd hlt (lt_irrefl p)
          · exact h
      generalize listed.takeWhile (· < path) = passed at hpassed ⊢
      rcases lt_trichotomy p path with hlt | rfl | hgt
      · have hnot : ∀ g b, (p, g, b) ∉ rows := fun g b h => hlt.not_gt (hrows g b h)
        cases live <;> simp [hpassed, hadded, hremoved, hmem, hnot, hlt, hlt.ne, hlt.not_gt]
      · have hnot : ∀ g b, (p, g, b) ∉ rows := fun g b h => lt_irrefl p (hrows g b h)
        cases live <;> simp [hpassed, hadded, hremoved, hmem, hnot, hlisted]
      · cases live <;> simp [hpassed, hadded, hremoved, hmem, hgt, hgt.ne', hgt.not_gt]
    · rw [if_neg hhead]
      have hlisted : path ∉ listed := fun h => hhead ((Table.head?_dropWhile_lt hl).mpr h)
      obtain ⟨hadded, hremoved⟩ := ih hsorted hr
      generalize listed.takeWhile (· < path) = passed at hpassed ⊢
      generalize listed.dropWhile (· < path) = rest at hrest hadded hremoved ⊢
      rcases lt_trichotomy p path with hlt | rfl | hgt
      · have hnot : ∀ g b, (p, g, b) ∉ rows := fun g b h => hlt.not_gt (hrows g b h)
        cases live <;> simp [hpassed, hadded, hremoved, hrest, hnot, hlt, hlt.ne, hlt.not_ge]
      · have hnot : ∀ g b, (p, g, b) ∉ rows := fun g b h => lt_irrefl p (hrows g b h)
        cases live <;> simp [hpassed, hadded, hremoved, hrest, hnot, hlisted]
      · cases live <;> simp [hpassed, hadded, hremoved, hrest, hgt.ne', hgt.not_gt, hgt.le]

theorem mem_diff (known : Table Path (Nat × Bool)) (paths : List Path) (p : Path) :
    (p ∈ (diff known paths).1 ↔ p ∈ paths ∧ ∀ g, known.get? p ≠ some (g, true)) ∧
    (p ∈ (diff known paths).2 ↔ p ∉ paths ∧ ∃ g, known.get? p = some (g, true)) := by
  obtain ⟨hadded, hremoved⟩ := mem_diffWalk (sortDedup_pairwise paths) known.rows_pairwise p
  simp only [mem_sortDedup, Table.mem_rows] at hadded hremoved
  simp only [diff, List.mem_insertionSort]
  exact ⟨hadded, hremoved⟩

/-! ## What a pass files -/

theorem isLive_iff {c : ChangeLog} {p : Path} :
    c.IsLive p ↔ ∃ g, c.trackChanges.get? p = some (g, true) := Iff.rfl

theorem mem_liveAmong {c : ChangeLog} {paths : List Path} {p : Path} :
    p ∈ c.liveAmong paths ↔ p ∈ paths ∧ c.IsLive p := by
  rw [liveAmong, List.mem_filter, isLive_iff]
  apply and_congr_right
  intro _
  cases hrow : c.trackChanges.get? p with
  | none => simp
  | some row =>
    obtain ⟨g, live⟩ := row
    simp

/-- What a pass files as in the library, and what as removed from it. -/
def rises (c : ChangeLog) (paths : Option (List Path)) (updated : List Path) : List Path :=
  let added := (paths.map fun paths => (diff c.trackChanges paths).1).getD []
  added ++ sortDedup ((c.liveAmong updated).filter fun path => path ∉ added)

def falls (c : ChangeLog) (paths : Option (List Path)) : List Path :=
  (paths.map fun paths => (diff c.trackChanges paths).2).getD []

theorem filings_eq (c : ChangeLog) (paths : Option (List Path)) (updated : List Path) :
    c.filings paths updated =
      (c.rises paths updated).map (fun path => (path, true)) ++
        (c.falls paths).map fun path => (path, false) := by
  cases paths with
  | none => rfl
  | some paths => rfl

theorem mem_rises {c : ChangeLog} {paths : Option (List Path)} {updated : List Path} {p : Path} :
    p ∈ c.rises paths updated ↔
      (∃ ps, paths = some ps ∧ p ∈ ps ∧ ¬c.IsLive p) ∨ (p ∈ updated ∧ c.IsLive p) := by
  have hadded : p ∈ (paths.map fun paths => (diff c.trackChanges paths).1).getD [] ↔
      ∃ ps, paths = some ps ∧ p ∈ ps ∧ ¬c.IsLive p := by
    cases paths with
    | none => simp
    | some ps => simpa [isLive_iff] using (mem_diff c.trackChanges ps p).1
  rw [rises, List.mem_append, mem_sortDedup, List.mem_filter, mem_liveAmong, decide_eq_true_eq,
    hadded]
  constructor
  · rintro (h | ⟨h, -⟩)
    · exact .inl h
    · exact .inr h
  · rintro (h | h)
    · exact .inl h
    · refine .inr ⟨h, ?_⟩
      rintro ⟨ps, -, -, hdead⟩
      exact hdead h.2

theorem mem_falls {c : ChangeLog} {paths : Option (List Path)} {p : Path} :
    p ∈ c.falls paths ↔ ∃ ps, paths = some ps ∧ p ∉ ps ∧ c.IsLive p := by
  cases paths with
  | none => simp [falls]
  | some ps => simpa [falls, isLive_iff] using (mem_diff c.trackChanges ps p).2

/-- Filing paths one way leaves each its new row. -/
theorem foldl_file_known (next : Nat) (live : Bool) (ps : List Path) (st : Filing) (p : Path) :
    ((ps.map fun path => (path, live)).foldl (Filing.file next) st).known.get? p =
      if p ∈ ps then some (next, live) else st.known.get? p := by
  induction ps generalizing st with
  | nil => simp
  | cons q ps ih =>
    rw [List.map_cons, List.foldl_cons, ih, Filing.file_known]
    by_cases hp : p ∈ ps
    · simp [hp]
    · by_cases hq : q = p
      · simp [hq]
      · simp [hp, hq, Ne.symm hq]

/-- **The rows after the filing loop**: a path that was listed no more is dead even where it was
reported as updated too. -/
theorem filed_known (c : ChangeLog) (paths : Option (List Path)) (updated : List Path)
    (next : Nat) (st : Filing) (p : Path) :
    ((c.filings paths updated).foldl (Filing.file next) st).known.get? p =
      if p ∈ c.falls paths then some (next, false)
      else if p ∈ c.rises paths updated then some (next, true) else st.known.get? p := by
  rw [filings_eq, List.foldl_append, foldl_file_known, foldl_file_known]

/-! ## The counters -/

/-- How many paths the log holds as in the library, and as removed. -/
def liveRows (known : Table Path (Nat × Bool)) : Nat := known.count fun row => row.2.2

def deadRows (known : Table Path (Nat × Bool)) : Nat := known.count fun row => !row.2.2

/-- The counters are right. -/
structure Filing.Counted (st : Filing) : Prop where
  live : st.inLibrary = liveRows st.known
  dead : st.tombstones = deadRows st.known

/-- What a filing does to the counters, where the path was filed before. -/
theorem Filing.file_counters (next : Nat) (live : Bool) {st : Filing} {path : Path} {g : Nat}
    {wasLive : Bool} (hwas : st.known.get? path = some (g, wasLive)) :
    (st.file next (path, live)).inLibrary =
      (if wasLive then if live then st.inLibrary else st.inLibrary - 1
        else if live then st.inLibrary + 1 else st.inLibrary) ∧
    (st.file next (path, live)).tombstones =
      (if wasLive then st.tombstones else st.tombstones - 1) + if live then 0 else 1 := by
  cases wasLive <;> cases live <;> simp [Filing.file, hwas]

theorem Filing.file_counted {next : Nat} {st : Filing} (h : st.Counted) (path : Path)
    (live : Bool) : (st.file next (path, live)).Counted := by
  have hknown : (st.file next (path, live)).known = st.known.insert path (next, live) := rfl
  cases hwas : st.known.get? path with
  | none =>
    have hlive := Table.count_insert_none (fun row => row.2.2) hwas (next, live)
    have hdead := Table.count_insert_none (fun row => !row.2.2) hwas (next, live)
    constructor
    · rw [hknown, liveRows, hlive, ← liveRows, ← h.live]
      cases live <;> simp [Filing.file, hwas]
    · rw [hknown, deadRows, hdead, ← deadRows, ← h.dead]
      cases live <;> simp [Filing.file, hwas]
  | some was =>
    obtain ⟨g, wasLive⟩ := was
    have hlive := Table.count_insert_some (fun row => row.2.2) hwas (next, live)
    have hdead := Table.count_insert_some (fun row => !row.2.2) hwas (next, live)
    rw [← hknown, ← liveRows, ← liveRows, ← h.live] at hlive
    rw [← hknown, ← deadRows, ← deadRows, ← h.dead] at hdead
    obtain ⟨hinLibrary, htombstones⟩ := Filing.file_counters next live hwas
    dsimp only at hlive hdead
    constructor
    · rw [hinLibrary]
      clear hinLibrary htombstones hdead
      cases wasLive <;> cases live <;> simp only [Bool.false_eq_true, if_true, if_false] at hlive ⊢
      all_goals omega
    · have hwasDead := Table.count_erase (fun row => !row.2.2) hwas
      rw [← deadRows, ← deadRows, ← h.dead] at hwasDead
      dsimp only at hwasDead
      rw [htombstones]
      clear hinLibrary htombstones hlive
      cases wasLive <;> cases live <;>
        simp only [Bool.not_true, Bool.not_false, Bool.false_eq_true, if_true, if_false]
          at hdead hwasDead ⊢
      all_goals omega

theorem foldl_file_counted (next : Nat) (moved : List (Path × Bool)) {st : Filing}
    (h : st.Counted) : (moved.foldl (Filing.file next) st).Counted := by
  induction moved generalizing st with
  | nil => exact h
  | cons m moved ih => exact ih (Filing.file_counted h m.1 m.2)

/-- Both tables hold the same tombstones. -/
theorem deadRows_eq {known : Table Path (Nat × Bool)} {log : Table LogKey Bool}
    (h : Mirrors known log) : (log.count fun row => !row.2) = deadRows known := by
  -- a tombstone of the one is a tombstone of the other, its key turned round
  let turn : LogKey × Bool → Path × Nat × Bool :=
    fun row => ((ofLex row.1).2, (ofLex row.1).1, row.2)
  have hturn : Function.Injective turn := by
    rintro ⟨k, l⟩ ⟨k', l'⟩ h
    simp only [turn, Prod.mk.injEq] at h
    obtain ⟨h2, h1, rfl⟩ := h
    rw [show k = k' from ofLex.injective (Prod.ext h1 h2)]
  have hperm : ((log.rows.filter fun row => !row.2).map turn).Perm
      (known.rows.filter fun row => !row.2.2) := by
    apply (List.perm_ext_iff_of_nodup
      ((log.rows_nodup.filter _).map hturn) (known.rows_nodup.filter _)).mpr
    rintro ⟨p, g, l⟩
    simp only [List.mem_map, List.mem_filter, turn, Prod.mk.injEq]
    constructor
    · rintro ⟨⟨k, l'⟩, ⟨hrow, hl⟩, rfl, rfl, rfl⟩
      exact ⟨Table.mem_rows.mpr ((h _ _ _).mp (Table.mem_rows.mp hrow)), hl⟩
    · rintro ⟨hrow, hl⟩
      exact ⟨(toLex (g, p), l), ⟨Table.mem_rows.mpr ((h _ _ _).mpr (Table.mem_rows.mp hrow)), hl⟩,
        rfl, rfl, rfl⟩
  rw [Table.count, deadRows, Table.count, List.countP_eq_length_filter,
    List.countP_eq_length_filter, ← hperm.length_eq, List.length_map]

/-- **Forgetting keeps the count.** As many tombstones go as there are too many. -/
theorem forgetOldestTombstones_counts {known : Table Path (Nat × Bool)} {log : Table LogKey Bool}
    (h : Mirrors known log) {n : Nat} (hn : 0 < n) (hle : n ≤ deadRows known) :
    deadRows (forgetOldestTombstones known log n).1 + n = deadRows known ∧
    liveRows (forgetOldestTombstones known log n).1 = liveRows known := by
  set oldest := oldestTombstones log n with hold
  have hrow : ∀ key ∈ oldest, known.get? (ofLex key).2 = some ((ofLex key).1, false) :=
    fun key hkey => (h _ _ _).mp (mem_oldestTombstones hkey)
  have hlength : oldest.length = n := by
    rw [hold, oldestTombstones, List.length_take, List.length_map,
      ← List.countP_eq_length_filter, ← Table.count, deadRows_eq h]
    omega
  have hnodup : (oldest.map fun key => (ofLex key).2).Nodup := by
    have hkeys : oldest.Nodup := (tombstoneKeys_pairwise log).imp ne_of_lt |>.sublist
      (List.take_sublist _ _)
    refine hkeys.map_on ?_
    intro a ha b hb hab
    have hgen : (ofLex a).1 = (ofLex b).1 := by
      have ha' := hrow a ha
      rw [hab, hrow b hb] at ha'
      exact (congrArg Prod.fst (Option.some.inj ha')).symm
    exact ofLex.injective (Prod.ext hgen hab)
  constructor
  · have hcount := Table.count_eraseAll (t := known) (fun row => !row.2.2) hnodup ?_
    · rw [List.length_map, hlength] at hcount
      exact hcount
    · intro p hp
      obtain ⟨key, hkey, rfl⟩ := List.mem_map.mp hp
      exact ⟨_, hrow key hkey, rfl⟩
  · apply Table.count_eraseAll_of_not _ hnodup
    intro p hp
    obtain ⟨key, hkey, rfl⟩ := List.mem_map.mp hp
    exact ⟨_, hrow key hkey, rfl⟩

/-! ## The representation -/

/-- What holds of the log between two passes. -/
structure Consistent (c : ChangeLog) : Prop where
  /-- The tables are inverse to each other. -/
  inverse : ∀ p g l, c.trackChanges.get? p = some (g, l) ↔ c.log.get? (toLex (g, p)) = some l
  live_eq : c.live = liveRows c.trackChanges
  tombstones_eq : c.tombstones = deadRows c.trackChanges
  tombstones_le : c.tombstones ≤ maxTombstones
  row_le : ∀ p g l, c.trackChanges.get? p = some (g, l) → g ≤ c.generation
  dead_ge : ∀ p g, c.trackChanges.get? p = some (g, false) → c.floor ≤ g
  floor_le : c.floor ≤ c.generation
  /-- A log without an epoch is one nothing was filed in. -/
  unstarted : c.epoch = none → ∀ p, c.trackChanges.get? p = none

theorem Consistent.wellFormed {c : ChangeLog} (h : c.Consistent) : c.WellFormed where
  mirrors g p l := (h.inverse p g l).symm
  sound := ⟨fun hrow => h.row_le _ _ _ hrow, h.floor_le⟩
  dead_ge hrow := h.dead_ge _ _ hrow

theorem Consistent.of_wellFormed {c : ChangeLog} (h : c.WellFormed)
    (hlive : c.live = liveRows c.trackChanges) (hdead : c.tombstones = deadRows c.trackChanges)
    (hle : c.tombstones ≤ maxTombstones)
    (hunstarted : c.epoch = none → ∀ p, c.trackChanges.get? p = none) : c.Consistent where
  inverse p g l := (h.mirrors g p l).symm
  live_eq := hlive
  tombstones_eq := hdead
  tombstones_le := hle
  row_le _ _ _ hrow := h.sound.row_le hrow
  dead_ge _ _ hrow := h.dead_ge hrow
  floor_le := h.sound.floor_le
  unstarted := hunstarted

theorem empty_consistent : empty.Consistent := by
  apply Consistent.of_wellFormed empty_wellFormed
  · simp [empty, liveRows]
  · simp [empty, deadRows]
  · simp [empty]
  · intro _ p
    exact Table.get?_empty p

/-- **Filing a pass** keeps the counters right and the tombstones within their bound. -/
theorem fileAll_consistent {c : ChangeLog} (h : c.Consistent) (hepoch : c.epoch ≠ none)
    (moved : List (Path × Bool)) : (c.fileAll moved).Consistent := by
  have hst : Filing.Counted ⟨c.tombstones, c.live, c.trackChanges, c.log⟩ :=
    ⟨h.live_eq, h.tombstones_eq⟩
  have hmir : Mirrors (⟨c.tombstones, c.live, c.trackChanges, c.log⟩ : Filing).known
      (⟨c.tombstones, c.live, c.trackChanges, c.log⟩ : Filing).log := h.wellFormed.mirrors
  have hwf := (fileAll_advances h.wellFormed moved).1
  have hcounted := foldl_file_counted (c.generation + 1) moved hst
  have hmirrors := (foldl_file (c.generation + 1) moved hmir).1
  dsimp only [fileAll] at hwf ⊢
  generalize moved.foldl (Filing.file (c.generation + 1))
    ⟨c.tombstones, c.live, c.trackChanges, c.log⟩ = st at hwf hcounted hmirrors ⊢
  by_cases hmany : st.tombstones > maxTombstones
  · rw [if_pos hmany] at hwf ⊢
    have hdead := hcounted.dead
    obtain ⟨hdropped, hkept⟩ := forgetOldestTombstones_counts hmirrors
      (n := st.tombstones - maxTombstones) (by omega) (by omega)
    generalize forgetOldestTombstones st.known st.log (st.tombstones - maxTombstones) = kept
      at hwf hdropped hkept ⊢
    obtain ⟨known, log, floor⟩ := kept
    dsimp only at hdropped hkept
    have hlive : st.inLibrary = liveRows known := hcounted.live.trans hkept.symm
    have hcount : maxTombstones = deadRows known := by omega
    exact Consistent.of_wellFormed hwf hlive hcount le_rfl fun hnone => absurd hnone hepoch
  · rw [if_neg hmany] at hwf ⊢
    exact Consistent.of_wellFormed hwf hcounted.live hcounted.dead (not_lt.mp hmany)
      fun hnone => absurd hnone hepoch

theorem Consistent.named {c : ChangeLog} (h : c.Consistent) (epoch : Epoch) :
    Consistent { c with epoch := some epoch } :=
  ⟨h.inverse, h.live_eq, h.tombstones_eq, h.tombstones_le, h.row_le, h.dead_ge, h.floor_le,
    fun hnone => by simp at hnone⟩

theorem record_consistent {c : ChangeLog} (h : c.Consistent) (newEpoch : Epoch)
    (paths : Option (List Path)) (updated : List Path) :
    (c.record newEpoch paths updated).1.Consistent := by
  unfold record
  split
  · exact h
  · have hnamed := h.named (c.epoch.getD newEpoch)
    dsimp only
    split
    · exact hnamed
    · exact fileAll_consistent hnamed (by simp) _

/-! ## What a pass leaves -/

/-- The live rows are those of the filing loop. -/
theorem fileAll_row {c : ChangeLog} (h : c.Consistent) (moved : List (Path × Bool)) (p : Path)
    (g : Nat) :
    (c.fileAll moved).trackChanges.get? p = some (g, true) ↔
      (moved.foldl (Filing.file (c.generation + 1))
        ⟨c.tombstones, c.live, c.trackChanges, c.log⟩).known.get? p = some (g, true) := by
  have hmir : Mirrors (⟨c.tombstones, c.live, c.trackChanges, c.log⟩ : Filing).known
      (⟨c.tombstones, c.live, c.trackChanges, c.log⟩ : Filing).log := h.wellFormed.mirrors
  have hmirrors := (foldl_file (c.generation + 1) moved hmir).1
  dsimp only [fileAll]
  generalize moved.foldl (Filing.file (c.generation + 1))
    ⟨c.tombstones, c.live, c.trackChanges, c.log⟩ = st at hmirrors ⊢
  split
  · -- only tombstones are forgotten
    have hforgot := forgetOldestTombstones_forgot hmirrors (st.tombstones - maxTombstones)
    rcases hforgot.row p with heq | ⟨hnone, g, f, hdead, -⟩
    · rw [heq]
    · rw [hnone, hdead]
      simp
  · exact Iff.rfl

theorem fileAll_live {c : ChangeLog} (h : c.Consistent) (moved : List (Path × Bool)) (p : Path) :
    (c.fileAll moved).IsLive p ↔ ∃ g, (moved.foldl (Filing.file (c.generation + 1))
      ⟨c.tombstones, c.live, c.trackChanges, c.log⟩).known.get? p = some (g, true) := by
  rw [isLive_iff]
  exact exists_congr fun g => fileAll_row h moved p g

/-- **A live row after a pass** is filed by it, or is an old one of a path that was not updated. -/
theorem record_row {c : ChangeLog} (h : c.Consistent) (newEpoch : Epoch)
    (paths : Option (List Path)) (updated : List Path) {p : Path} {g : Nat}
    (hrow : (c.record newEpoch paths updated).1.trackChanges.get? p = some (g, true)) :
    g = c.generation + 1 ∨ (c.trackChanges.get? p = some (g, true) ∧ p ∉ updated) := by
  have hlive : c.trackChanges.get? p = some (g, true) → c.IsLive p := fun hr => ⟨g, hr⟩
  unfold record at hrow
  split at hrow
  · rename_i hfresh
    simp only [Bool.and_eq_true, Option.isNone_iff_eq_none] at hfresh
    simp [h.unstarted hfresh.1 p] at hrow
  · have hnamed := h.named (c.epoch.getD newEpoch)
    dsimp only at hrow
    split at hrow
    · rename_i hempty
      rw [List.isEmpty_iff, filings_eq, List.append_eq_nil_iff, List.map_eq_nil_iff] at hempty
      refine Or.inr ⟨hrow, fun hup => ?_⟩
      have hmem : p ∈ rises { c with epoch := some (c.epoch.getD newEpoch) } paths updated :=
        mem_rises.mpr (Or.inr ⟨hup, hlive hrow⟩)
      rw [hempty.1] at hmem
      exact List.not_mem_nil hmem
    · rw [fileAll_row hnamed, filed_known] at hrow
      split at hrow
      · simp at hrow
      · split at hrow
        · exact Or.inl (by simpa using hrow.symm)
        · rename_i hnot
          exact Or.inr ⟨hrow, fun hup => hnot (mem_rises.mpr (Or.inr ⟨hup, hlive hrow⟩))⟩

/-- A pass that listed nothing takes nothing out of the library. -/
theorem record_none_live {c : ChangeLog} (h : c.Consistent) (newEpoch : Epoch)
    (updated : List Path) {p : Path} (hp : c.IsLive p) :
    (c.record newEpoch none updated).1.IsLive p := by
  unfold record
  split
  · exact hp
  · have hnamed := h.named (c.epoch.getD newEpoch)
    dsimp only
    split
    · exact hp
    · rw [fileAll_live hnamed, filed_known]
      by_cases hup : p ∈ rises { c with epoch := some (c.epoch.getD newEpoch) } none updated
      · exact ⟨c.generation + 1, by simp [falls, hup]⟩
      · obtain ⟨g, hg⟩ := isLive_iff.mp hp
        exact ⟨g, by simpa [falls, hup] using hg⟩

/-- A pass that listed nothing takes nothing in or out. -/
theorem record_none_isLive {c : ChangeLog} (h : c.Consistent) (newEpoch : Epoch)
    (updated : List Path) (p : Path) :
    (c.record newEpoch none updated).1.IsLive p ↔ c.IsLive p := by
  refine ⟨fun hp => ?_, record_none_live h newEpoch updated⟩
  unfold record at hp
  split at hp
  · exact hp
  · have hnamed := h.named (c.epoch.getD newEpoch)
    dsimp only at hp
    split at hp
    · exact hp
    · obtain ⟨g, hg⟩ := (fileAll_live hnamed _ p).mp hp
      rw [filed_known] at hg
      split at hg
      · simp at hg
      · split at hg
        · rename_i hup
          obtain ⟨ps, hps, -⟩ | ⟨-, hlive⟩ := mem_rises.mp hup
          · cases hps
          · exact hlive
        · exact isLive_iff.mpr ⟨g, hg⟩

theorem record_generation {c : ChangeLog} (newEpoch : Epoch) (paths : Option (List Path))
    (updated : List Path) : c.generation ≤ (c.record newEpoch paths updated).1.generation := by
  unfold record
  split
  · exact le_rfl
  · dsimp only
    split
    · exact le_rfl
    · dsimp only [fileAll]
      split <;> exact Nat.le_succ _

/-- **After a listing** the listed paths are live, and no others. -/
theorem record_live {c : ChangeLog} (h : c.Consistent) (newEpoch : Epoch) (paths : List Path)
    (updated : List Path) (p : Path) :
    (c.record newEpoch (some paths) updated).1.IsLive p ↔ p ∈ paths := by
  unfold record
  rw [if_neg (by simp)]
  have hnamed := h.named (c.epoch.getD newEpoch)
  generalize { c with epoch := some (c.epoch.getD newEpoch) } = c' at hnamed ⊢
  have hrises : p ∈ c'.rises (some paths) updated ↔ _ := mem_rises
  have hfalls : p ∈ c'.falls (some paths) ↔ _ := mem_falls
  simp only [Option.some.injEq, exists_eq_left'] at hrises hfalls
  dsimp only
  split
  · -- nothing moved: what is live is what is listed
    rename_i hempty
    rw [filings_eq, List.isEmpty_iff, List.append_eq_nil_iff, List.map_eq_nil_iff,
      List.map_eq_nil_iff] at hempty
    rw [hempty.1] at hrises
    rw [hempty.2] at hfalls
    simp only [List.not_mem_nil, false_iff] at hrises hfalls
    tauto
  · rw [fileAll_live hnamed, filed_known]
    by_cases hdown : p ∈ c'.falls (some paths)
    · have := hfalls.mp hdown
      simp [hdown, this.1]
    · by_cases hup : p ∈ c'.rises (some paths) updated
      · have := hrises.mp hup
        simp only [hdown, hup, if_true, if_false]
        tauto
      · rw [if_neg hdown, if_neg hup, ← isLive_iff]
        tauto

/-- Nothing is filed where the listing is what is live and no live path was updated. -/
theorem filings_eq_nil {c : ChangeLog} {paths : Option (List Path)} {updated : List Path} :
    c.filings paths updated = [] ↔
      (∀ ps, paths = some ps → ∀ p, c.IsLive p ↔ p ∈ ps) ∧ ∀ p ∈ updated, ¬c.IsLive p := by
  rw [filings_eq, List.append_eq_nil_iff, List.map_eq_nil_iff, List.map_eq_nil_iff,
    List.eq_nil_iff_forall_not_mem, List.eq_nil_iff_forall_not_mem]
  simp only [mem_rises, mem_falls, not_or, not_exists, not_and, not_not]
  constructor
  · rintro ⟨hrises, hfalls⟩
    refine ⟨fun ps hps p => ⟨fun hlive => ?_, fun hp => (hrises p).1 ps hps hp⟩,
      fun p hp => (hrises p).2 hp⟩
    by_contra hp
    exact hfalls p ps hps hp hlive
  · rintro ⟨hlisted, hupdated⟩
    refine ⟨fun p => ⟨fun ps hps hp => (hlisted ps hps p).mpr hp, hupdated p⟩, ?_⟩
    intro p ps hps hp hlive
    exact hp ((hlisted ps hps p).mp hlive)

/-- **No answer** exactly where nothing moved. -/
theorem record_eq_none {c : ChangeLog} (h : c.Consistent) (newEpoch : Epoch)
    (paths : Option (List Path)) (updated : List Path) :
    (c.record newEpoch paths updated).2 = none ↔
      (∀ ps, paths = some ps → ∀ p, c.IsLive p ↔ p ∈ ps) ∧ ∀ p ∈ updated, ¬c.IsLive p := by
  unfold record
  split
  · rename_i hfresh
    simp only [Bool.and_eq_true, Option.isNone_iff_eq_none] at hfresh
    refine iff_of_true rfl ⟨fun ps hps => by simp [hfresh.2] at hps, fun p _ => ?_⟩
    rw [isLive_iff, h.unstarted hfresh.1 p]
    simp
  · rw [← filings_eq_nil (c := c)]
    dsimp only
    split
    · rename_i hempty
      exact iff_of_true rfl (List.isEmpty_iff.mp hempty)
    · rename_i hempty
      exact iff_of_false (by simp) fun hnil => hempty (List.isEmpty_iff.mpr hnil)

/-! ## Runs -/

/-- What is done to the log: a pass over the index, with the epoch drawn if it starts one, or a
library switch. -/
inductive Pass where
  | record (newEpoch : Epoch) (paths : Option (List Path)) (updated : List Path)
  | reset

def after (c : ChangeLog) : Pass → ChangeLog
  | .record newEpoch paths updated => (c.record newEpoch paths updated).1
  | .reset => c.reset

/-- The log after a run from an empty store. -/
def run (passes : List Pass) : ChangeLog := passes.foldl after empty

theorem run_consistent (passes : List Pass) : (run passes).Consistent := by
  suffices h : ∀ c : ChangeLog, c.Consistent → (passes.foldl after c).Consistent from
    h empty empty_consistent
  induction passes with
  | nil => exact fun _ h => h
  | cons pass passes ih =>
    intro c h
    apply ih
    cases pass with
    | record newEpoch paths updated => exact record_consistent h newEpoch paths updated
    | reset => exact empty_consistent

/-- Passes of one epoch: no reset among them. -/
def passesFrom (c : ChangeLog) (records : List (Epoch × Option (List Path) × List Path)) :
    ChangeLog :=
  records.foldl (fun c r => (c.record r.1 r.2.1 r.2.2).1) c

/-- **Within an epoch** the generation and the floor only grow. -/
theorem passesFrom_grows {c : ChangeLog} (h : c.Consistent)
    (records : List (Epoch × Option (List Path) × List Path)) :
    c.generation ≤ (c.passesFrom records).generation ∧ c.floor ≤ (c.passesFrom records).floor := by
  induction records generalizing c with
  | nil => exact ⟨le_rfl, le_rfl⟩
  | cons r records ih =>
    have hadv := (record_advances h.wellFormed r.1 r.2.1 r.2.2).2.1
    obtain ⟨hgeneration, hfloor⟩ := ih (record_consistent h r.1 r.2.1 r.2.2)
    exact ⟨hadv.generation_le.trans hgeneration, hadv.floor_le.trans hfloor⟩

/-- **The representation of the change log**, over every run: the tables and the counters are in
step, the generation and the floor grow until the next reset, a listing leaves its paths live and
no others, and a pass answers nothing exactly where nothing moved. -/
theorem representation (passes : List Pass) :
    (run passes).Consistent ∧
    (∀ records, (run passes).generation ≤ ((run passes).passesFrom records).generation ∧
      (run passes).floor ≤ ((run passes).passesFrom records).floor) ∧
    (∀ newEpoch paths updated p,
      ((run passes).record newEpoch (some paths) updated).1.IsLive p ↔ p ∈ paths) ∧
    (∀ newEpoch paths updated, ((run passes).record newEpoch paths updated).2 = none ↔
      (∀ ps, paths = some ps → ∀ p, (run passes).IsLive p ↔ p ∈ ps) ∧
        ∀ p ∈ updated, ¬(run passes).IsLive p) := by
  have h := run_consistent passes
  refine ⟨h, ?_, ?_, ?_⟩
  · exact passesFrom_grows h
  · exact record_live h
  · exact record_eq_none h

end Mbrc.ChangeLog
