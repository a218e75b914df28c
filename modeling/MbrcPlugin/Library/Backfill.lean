import MbrcPlugin.Commands.TrackV6
import MbrcPlugin.Lib.WorkList
import MbrcPlugin.Library.MetadataCache

/-!
# The backfill of the tag rows

A pass asks the host for the first tracks of the index that have no row, files what it answers, and
goes on until its time is up.  A track that the host does not describe stays without a row and is
asked for again each time, so a full batch of them hides every track behind
(`backfill_reaches_iff`).
-/

namespace Mbrc.Backfill

open Cache TrackV6 WorkList

/-- What the host knows of a path. -/
structure Host where
  describe : String → Option TrackTags

namespace Host

variable (host : Host)

/-- The record of a path, filed under it. -/
def record (path : String) : Option TrackTags :=
  (host.describe path).map fun tags => { tags with src := path }

/-- `tracks_detailed_for_paths`. -/
def tracksDetailed (paths : List String) : List TrackTags := paths.filterMap host.record

def describes (path : String) : Bool := (host.describe path).isSome

/-- The row of a path; there is none where the conversion of its record overflows. -/
def row (path : String) : Option CachedTags := (host.record path).bind TrackTags.toCached

end Host

/-- How one turn of the loop ends. -/
inductive Turn where
  /-- Nothing is missing. -/
  | complete
  /-- The host answered nothing. -/
  | stuck
  /-- The conversion of a record overflowed. -/
  | panicked
  | fetched (c : MetadataCache)

section

variable (lower : String → String) (host : Host)

/-- A turn of the loop of `backfill_tags`. -/
def turn (c : MetadataCache) : Turn :=
  let missing := c.untaggedPaths backfillBatch
  if missing = [] then .complete
  else
    match (host.tracksDetailed missing).mapM TrackTags.toCached with
    | none => .panicked
    | some [] => .stuck
    | some cached => .fetched (c.putTrackTags cached)

/-- `backfill_tags`, for as many turns as its budget lasts: what it leaves, and whether another
burst is to follow. -/
def backfillTags : Nat → MetadataCache → MetadataCache × Bool
  | 0, c => (c, true)
  | turns + 1, c =>
    match turn host c with
    | .complete => (c.rebuildDerived lower, false)
    | .stuck | .panicked => (c, false)
    | .fetched c => backfillTags turns c

/-- The cache after some passes, each with a budget of its own. -/
def afterPasses (budget : Nat → Nat) (c : MetadataCache) : Nat → MetadataCache
  | 0 => c
  | n + 1 => (backfillTags lower host (budget n) (afterPasses budget c n)).1

end

/-! ## What is missing -/

/-- The work list: the indexed paths without a row. -/
def missing (c : MetadataCache) : List String :=
  c.trackPaths.filter fun path => (c.tags.get? path).isNone

theorem untaggedPaths_eq (c : MetadataCache) (limit : Nat) :
    c.untaggedPaths limit = (missing c).take limit := rfl

theorem mem_missing {c : MetadataCache} {path : String} :
    path ∈ missing c ↔ path ∈ c.trackPaths ∧ c.tags.get? path = none := by
  simp [missing, List.mem_filter]

theorem validated_of_missing {c : MetadataCache} (h : missing c ≠ []) : c.validated = true := by
  by_contra hv
  refine h ?_
  simp [missing, MetadataCache.trackPaths, hv]

theorem Host.mem_tracksDetailed {host : Host} {paths : List String} {tags : TrackTags} :
    tags ∈ host.tracksDetailed paths ↔ ∃ path ∈ paths, host.record path = some tags := by
  simp [tracksDetailed, List.mem_filterMap]

theorem Host.src_of_record {host : Host} {path : String} {tags : TrackTags}
    (h : host.record path = some tags) : tags.src = path := by
  obtain ⟨known, -, rfl⟩ := Option.map_eq_some_iff.mp h
  rfl

theorem Host.describes_iff {host : Host} {path : String} :
    host.describes path = true ↔ ∃ tags, host.record path = some tags := by
  simp [describes, record, Option.isSome_iff_exists]

theorem src_of_toCached {tags : TrackTags} {cached : CachedTags}
    (h : tags.toCached = some cached) : cached.src = tags.src := by
  obtain ⟨ms, -, hcached⟩ := Option.bind_eq_some_iff.mp h
  obtain rfl := Option.some.inj hcached
  rfl

theorem mem_of_mapM {α β : Type} {f : α → Option β} {l : List α} {out : List β}
    (h : l.mapM f = some out) :
    (∀ b ∈ out, ∃ a ∈ l, f a = some b) ∧ ∀ a ∈ l, ∃ b ∈ out, f a = some b := by
  induction l generalizing out with
  | nil =>
    obtain rfl : [] = out := Option.some.inj h
    simp
  | cons a l ih =>
    simp only [List.mapM_cons, Option.pure_def, Option.bind_eq_bind, Option.bind_eq_some_iff] at h
    obtain ⟨b, hb, rest, hrest, hout⟩ := h
    obtain rfl := Option.some.inj hout
    obtain ⟨hfrom, hto⟩ := ih hrest
    refine ⟨fun b' hb' => ?_, fun a' ha' => ?_⟩
    · rcases List.mem_cons.mp hb' with rfl | hb'
      · exact ⟨a, List.mem_cons_self, hb⟩
      · obtain ⟨a', ha', hf⟩ := hfrom b' hb'
        exact ⟨a', List.mem_cons_of_mem _ ha', hf⟩
    · rcases List.mem_cons.mp ha' with rfl | ha'
      · exact ⟨b, List.mem_cons_self, hb⟩
      · obtain ⟨b', hb', hf⟩ := hto a' ha'
        exact ⟨b', List.mem_cons_of_mem _ hb', hf⟩

theorem exists_none_of_mapM {α β : Type} {f : α → Option β} {l : List α} (h : l.mapM f = none) :
    ∃ a ∈ l, f a = none := by
  induction l with
  | nil => cases h
  | cons a l ih =>
    cases ha : f a with
    | none => exact ⟨a, List.mem_cons_self, ha⟩
    | some b =>
      rw [List.mapM_cons, ha] at h
      cases hrest : l.mapM f with
      | none =>
        obtain ⟨a', ha', hf⟩ := ih hrest
        exact ⟨a', List.mem_cons_of_mem _ ha', hf⟩
      | some rest =>
        rw [hrest] at h
        cases h

/-! ## A turn -/

/-- What the passes do to a cache: the rows that are filed are those of described tracks, and a
track that the host describes stays missing behind a full batch of others. -/
structure Goes (host : Host) (c c' : MetadataCache) : Prop where
  paths : c'.trackPaths = c.trackPaths
  kept : ∀ p, c.tags.get? p ≠ none → c'.tags.get? p ≠ none
  filed : ∀ p, c.tags.get? p = none → c'.tags.get? p ≠ none → (host.row p).isSome
  before : ∀ p, host.describes p = true → p ∈ missing c' →
    unableBefore host.describes (missing c') p = unableBefore host.describes (missing c) p
  blocked : ∀ p, host.describes p = true → p ∈ missing c →
    backfillBatch ≤ unableBefore host.describes (missing c) p → p ∈ missing c'
  shorter : (missing c').length ≤ (missing c).length

theorem Goes.of_tags {host : Host} {c c' : MetadataCache} (hpaths : c'.trackPaths = c.trackPaths)
    (htags : c'.tags = c.tags) : Goes host c c' := by
  have hmissing : missing c' = missing c := by rw [missing, missing, hpaths, htags]
  constructor
  · exact hpaths
  · rw [htags]
    exact fun _ h => h
  · rw [htags]
    exact fun _ hnone hsome => absurd hnone hsome
  · rw [hmissing]
    exact fun _ _ _ => rfl
  · rw [hmissing]
    exact fun _ _ h _ => h
  · rw [hmissing]

theorem Goes.trans {host : Host} {c c' c'' : MetadataCache} (h : Goes host c c')
    (h' : Goes host c' c'') : Goes host c c'' := by
  have hback : ∀ p ∈ missing c'', p ∈ missing c' := by
    intro p hp
    obtain ⟨hpath, hnone⟩ := mem_missing.mp hp
    rw [h'.paths] at hpath
    exact mem_missing.mpr ⟨hpath, by_contra fun hsome => h'.kept p hsome hnone⟩
  constructor
  · rw [h'.paths, h.paths]
  · exact fun p hp => h'.kept p (h.kept p hp)
  · intro p hnone hsome
    by_cases hmid : c'.tags.get? p = none
    · exact h'.filed p hmid hsome
    · exact h.filed p hnone hmid
  · intro p hable hp
    rw [h'.before p hable hp, h.before p hable (hback p hp)]
  · intro p hable hp hblocked
    have hp' := h.blocked p hable hp hblocked
    refine h'.blocked p hable hp' ?_
    rw [h.before p hable hp']
    exact hblocked
  · exact h'.shorter.trans h.shorter

/-- The paths a turn asks the host for. -/
def batch (c : MetadataCache) : List String := (missing c).take backfillBatch

/-- **What a turn does**, case by case. -/
inductive Turned (host : Host) (c : MetadataCache) : Turn → Prop where
  | complete (hnone : missing c = []) : Turned host c .complete
  | stuck (hunable : ∀ p ∈ batch c, host.describes p = false) : Turned host c .stuck
  | panicked {p : String} (hp : p ∈ missing c) (hable : host.describes p = true)
      (hrow : host.row p = none) : Turned host c .panicked
  | fetched {cached : List CachedTags} {p : String} (hp : p ∈ batch c)
      (hable : host.describes p = true)
      (hkeys : ∀ q, q ∈ cached.map (·.src) ↔ q ∈ batch c ∧ host.describes q = true)
      (hrows : ∀ q ∈ cached.map (·.src), (host.row q).isSome) :
      Turned host c (.fetched (c.putTrackTags cached))

theorem turned (host : Host) (c : MetadataCache) : Turned host c (turn host c) := by
  by_cases hnil : c.untaggedPaths backfillBatch = []
  · rw [turn, if_pos hnil]
    refine .complete ?_
    rcases List.take_eq_nil_iff.mp hnil with hzero | hnone
    · cases hzero
    · exact hnone
  · rw [turn, if_neg hnil]
    cases hmap : (host.tracksDetailed (c.untaggedPaths backfillBatch)).mapM TrackTags.toCached with
    | none =>
      obtain ⟨tags, htags, hnone⟩ := exists_none_of_mapM hmap
      obtain ⟨p, hp, hrecord⟩ := Host.mem_tracksDetailed.mp htags
      refine .panicked (List.mem_of_mem_take hp) (Host.describes_iff.mpr ⟨tags, hrecord⟩) ?_
      rw [Host.row, hrecord]
      exact hnone
    | some cached =>
      obtain ⟨hfrom, hto⟩ := mem_of_mapM hmap
      have hrecords : ∀ q, q ∈ cached.map (·.src) → q ∈ batch c ∧ (host.row q).isSome ∧
          host.describes q = true := by
        intro q hq
        obtain ⟨row, hrow, rfl⟩ := List.mem_map.mp hq
        obtain ⟨tags, htags, hcached⟩ := hfrom row hrow
        obtain ⟨p, hp, hrecord⟩ := Host.mem_tracksDetailed.mp htags
        obtain rfl : row.src = p := (src_of_toCached hcached).trans (Host.src_of_record hrecord)
        refine ⟨hp, ?_, Host.describes_iff.mpr ⟨tags, hrecord⟩⟩
        rw [Host.row, hrecord]
        exact Option.isSome_iff_exists.mpr ⟨row, hcached⟩
      have hdescribed : ∀ q ∈ batch c, host.describes q = true → q ∈ cached.map (·.src) := by
        intro q hq hable
        obtain ⟨tags, hrecord⟩ := Host.describes_iff.mp hable
        obtain ⟨row, hrow, hcached⟩ := hto tags (Host.mem_tracksDetailed.mpr ⟨q, hq, hrecord⟩)
        exact List.mem_map.mpr
          ⟨row, hrow, (src_of_toCached hcached).trans (Host.src_of_record hrecord)⟩
      cases cached with
      | nil =>
        refine .stuck fun q hq => ?_
        cases hable : host.describes q with
        | false => rfl
        | true => exact absurd (hdescribed q hq hable) List.not_mem_nil
      | cons row rest =>
        have hfirst := hrecords row.src List.mem_cons_self
        exact .fetched hfirst.1 hfirst.2.2
          (fun q => ⟨fun hq => ⟨(hrecords q hq).1, (hrecords q hq).2.2⟩,
            fun hq => hdescribed q hq.1 hq.2⟩)
          fun q hq => (hrecords q hq).2.1

/-- **A turn that files rows** takes what the host describes of the batch off the list. -/
theorem putTrackTags_goes {host : Host} {c : MetadataCache} {cached : List CachedTags}
    (hv : c.validated = true)
    (hkeys : ∀ q, q ∈ cached.map (·.src) ↔ q ∈ batch c ∧ host.describes q = true)
    (hrows : ∀ q ∈ cached.map (·.src), (host.row q).isSome) :
    missing (c.putTrackTags cached) = afterRound backfillBatch host.describes (missing c) ∧
      Goes host c (c.putTrackTags cached) := by
  have hput : c.putTrackTags cached =
      { c with tags := cached.foldl (fun table track => table.insert track.src track) c.tags } :=
    if_pos hv
  have hpaths : (c.putTrackTags cached).trackPaths = c.trackPaths := by rw [hput]; rfl
  have hin : ∀ q ∈ cached.map (·.src), (c.putTrackTags cached).tags.get? q ≠ none := by
    intro q hq
    obtain ⟨row, -, -, hget⟩ := Table.get?_foldl_insert_of_key CachedTags.src id hq c.tags
    rw [hput]
    exact fun hnone => by
      have := hget.symm.trans hnone
      cases this
  have hout : ∀ q, q ∉ cached.map (·.src) →
      (c.putTrackTags cached).tags.get? q = c.tags.get? q := by
    intro q hq
    rw [hput]
    exact Table.get?_foldl_insert CachedTags.src id hq c.tags
  have hmissing : missing (c.putTrackTags cached) =
      afterRound backfillBatch host.describes (missing c) := by
    rw [missing, hpaths, afterRound, missing, List.filter_filter]
    refine List.filter_congr fun q _ => ?_
    change ((c.putTrackTags cached).tags.get? q).isNone =
      (!(host.describes q && decide (q ∈ batch c)) && (c.tags.get? q).isNone)
    by_cases hq : q ∈ cached.map (·.src)
    · obtain ⟨hbatch, hable⟩ := (hkeys q).mp hq
      rw [Option.isNone_eq_false_iff.mpr (Option.isSome_iff_ne_none.mpr (hin q hq)), hable,
        decide_eq_true hbatch]
      rfl
    · have hleft : (host.describes q && decide (q ∈ batch c)) = false := by
        by_contra hboth
        rw [Bool.not_eq_false, Bool.and_eq_true, decide_eq_true_eq] at hboth
        exact hq ((hkeys q).mpr ⟨hboth.2, hboth.1⟩)
      rw [hout q hq, hleft]
      rfl
  refine ⟨hmissing, hpaths, fun p hp => ?_, fun p hnone hsome => ?_, ?_, ?_, ?_⟩
  · by_cases hq : p ∈ cached.map (·.src)
    · exact hin p hq
    · rwa [hout p hq]
  · by_cases hq : p ∈ cached.map (·.src)
    · exact hrows p hq
    · rw [hout p hq] at hsome
      exact absurd hnone hsome
  · rw [hmissing]
    exact fun p _ hp => unableBefore_afterRound hp
  · rw [hmissing]
    exact fun p _ hp hblocked => mem_afterRound_of_blocked hp hblocked
  · rw [hmissing]
    exact List.length_filter_le _ _

/-! ## Passes -/

theorem rebuildDerived_tags (lower : String → String) (c : MetadataCache) :
    (c.rebuildDerived lower).tags = c.tags ∧
      (c.rebuildDerived lower).trackPaths = c.trackPaths := by
  unfold MetadataCache.rebuildDerived MetadataCache.rebuildAlbumYears
    MetadataCache.rebuildSortOrders MetadataCache.trackPaths
  dsimp only
  split
  · split <;> split <;> exact ⟨rfl, rfl⟩
  · exact ⟨rfl, rfl⟩

section

variable (lower : String → String) {host : Host}

/-- **A pass** keeps the rows there are, and files those of described tracks alone. -/
theorem backfillTags_goes (turns : Nat) (c : MetadataCache) :
    Goes host c (backfillTags lower host turns c).1 := by
  induction turns generalizing c with
  | zero => exact .of_tags rfl rfl
  | succ turns ih =>
    have hturn := turned host c
    rw [backfillTags]
    cases hcase : turn host c with
    | complete => exact .of_tags (rebuildDerived_tags lower c).2 (rebuildDerived_tags lower c).1
    | stuck => exact .of_tags rfl rfl
    | panicked => exact .of_tags rfl rfl
    | fetched c' =>
      rw [hcase] at hturn
      cases hturn with
      | fetched hp hable hkeys hrows =>
        have hv := validated_of_missing fun hnil => by
          rw [batch, hnil] at hp
          simp at hp
        exact (putTrackTags_goes hv hkeys hrows).2.trans (ih _)

/-- How a pass that files no row ends. -/
def Settled (host : Host) (c : MetadataCache) : Prop :=
  (∀ p ∈ batch c, host.describes p = false) ∨
    ∃ p ∈ missing c, host.describes p = true ∧ host.row p = none

/-- **A pass that has a turn** files a row, unless the host answers nothing of the first batch or
the conversion of a record overflows. -/
theorem backfillTags_settled (turns : Nat) (c : MetadataCache) :
    Settled host c ∧ (backfillTags lower host (turns + 1) c).1.tags = c.tags ∨
      (missing (backfillTags lower host (turns + 1) c).1).length < (missing c).length := by
  have hturn := turned host c
  rw [backfillTags]
  cases hcase : turn host c with
  | complete =>
    rw [hcase] at hturn
    obtain ⟨hnil⟩ := hturn
    refine .inl ⟨.inl fun p hp => ?_, (rebuildDerived_tags lower c).1⟩
    rw [batch, hnil] at hp
    simp at hp
  | stuck =>
    rw [hcase] at hturn
    cases hturn with
    | stuck hunable => exact .inl ⟨.inl hunable, rfl⟩
  | panicked =>
    rw [hcase] at hturn
    cases hturn with
    | panicked hp hable hrow => exact .inl ⟨.inr ⟨_, hp, hable, hrow⟩, rfl⟩
  | fetched c' =>
    rw [hcase] at hturn
    cases hturn with
    | fetched hp hable hkeys hrows =>
      have hv := validated_of_missing fun hnil => by
        rw [batch, hnil] at hp
        simp at hp
      have hput := putTrackTags_goes hv hkeys hrows
      refine .inr (Nat.lt_of_le_of_lt (backfillTags_goes lower turns _).shorter ?_)
      rw [hput.1]
      exact length_afterRound_lt hp hable

theorem afterPasses_goes (budget : Nat → Nat) (c : MetadataCache) (n : Nat) :
    Goes host c (afterPasses lower host budget c n) := by
  induction n with
  | zero => exact .of_tags rfl rfl
  | succ n ih => exact ih.trans (backfillTags_goes lower _ _)

/-- Some pass files no row. -/
theorem exists_settled {budget : Nat → Nat} (hbudget : ∀ n, 0 < budget n) (c : MetadataCache) :
    ∃ n, (afterPasses lower host budget c (n + 1)).tags =
      (afterPasses lower host budget c n).tags := by
  by_contra hall
  rw [not_exists] at hall
  have hlt : ∀ n, (missing (afterPasses lower host budget c (n + 1))).length <
      (missing (afterPasses lower host budget c n)).length := by
    intro n
    have hpass := @backfillTags_settled lower host (budget n - 1)
      (afterPasses lower host budget c n)
    rw [Nat.sub_add_cancel (hbudget n)] at hpass
    exact hpass.resolve_left fun h => hall n h.2
  have hle : ∀ n, (missing (afterPasses lower host budget c n)).length + n ≤
      (missing c).length := by
    intro n
    induction n with
    | zero => exact le_rfl
    | succ n ih =>
      have := hlt n
      omega
  have := hle ((missing c).length + 1)
  omega

/-- A pass that files no row has settled. -/
theorem settled_of_unchanged {budget : Nat → Nat} (hbudget : ∀ n, 0 < budget n) {c : MetadataCache}
    {n : Nat} (h : (afterPasses lower host budget c (n + 1)).tags =
      (afterPasses lower host budget c n).tags) :
    Settled host (afterPasses lower host budget c n) := by
  have hpass := @backfillTags_settled lower host (budget n - 1)
    (afterPasses lower host budget c n)
  rw [Nat.sub_add_cancel (hbudget n)] at hpass
  rcases hpass with hsettled | hlt
  · exact hsettled.1
  · have hpaths := (@backfillTags_goes lower host (budget n)
      (afterPasses lower host budget c n)).paths
    have hsame : missing (backfillTags lower host (budget n)
        (afterPasses lower host budget c n)).1 = missing (afterPasses lower host budget c n) := by
      rw [missing, missing, hpaths]
      exact List.filter_congr fun p _ => congrArg (fun t => (t.get? p).isNone) h
    rw [hsame] at hlt
    exact absurd hlt (Nat.lt_irrefl _)

/-- Every indexed track that the host describes has a row. -/
def Reached (host : Host) (c : MetadataCache) : Prop :=
  ∀ p ∈ c.trackPaths, host.describes p = true → c.tags.get? p ≠ none

/-- The record of every missing track that the host describes converts, and fewer than a batch of
those it does not describe are missing before it. -/
def Reachable (host : Host) (c : MetadataCache) : Prop :=
  ∀ p ∈ missing c, host.describes p = true →
    (host.row p).isSome ∧ unableBefore host.describes (missing c) p < backfillBatch

/-- **The backfill** comes to a pass that files no row, and then every indexed track the host
describes has one exactly if none of them had a full batch of undescribed ones missing before it,
nor a record that overflows. -/
theorem backfill_reaches_iff {budget : Nat → Nat} (hbudget : ∀ n, 0 < budget n)
    (c : MetadataCache) :
    (∃ n, (afterPasses lower host budget c (n + 1)).tags =
      (afterPasses lower host budget c n).tags) ∧
    ∀ n, (afterPasses lower host budget c (n + 1)).tags =
        (afterPasses lower host budget c n).tags →
      (Reached host (afterPasses lower host budget c n) ↔ Reachable host c) := by
  refine ⟨exists_settled lower hbudget c, fun n hsame => ?_⟩
  have hgoes := @afterPasses_goes lower host budget c n
  have hsettled := settled_of_unchanged lower hbudget hsame
  generalize afterPasses lower host budget c n = last at hgoes hsettled
  constructor
  · intro hreached p hp hable
    obtain ⟨hpath, hnone⟩ := mem_missing.mp hp
    have hrow := hreached p (hgoes.paths ▸ hpath) hable
    refine ⟨hgoes.filed p hnone hrow, Nat.lt_of_not_le fun hblocked => ?_⟩
    exact hrow (mem_missing.mp (hgoes.blocked p hable hp hblocked)).2
  · intro hreachable p hpath hable hnone
    have hlast : p ∈ missing last := mem_missing.mpr ⟨hpath, hnone⟩
    have hback : ∀ q ∈ missing last, q ∈ missing c := by
      intro q hq
      obtain ⟨hqpath, hqnone⟩ := mem_missing.mp hq
      rw [hgoes.paths] at hqpath
      exact mem_missing.mpr ⟨hqpath, by_contra fun hsome => hgoes.kept q hsome hqnone⟩
    rcases hsettled with hunable | ⟨q, hq, hqable, hqrow⟩
    · have hfull := stuck_before hunable hlast hable
      rw [hgoes.before p hable hlast] at hfull
      exact absurd (hreachable p (hback p hlast) hable).2 (Nat.not_lt.mpr hfull)
    · have hsome := (hreachable q (hback q hq) hqable).1
      rw [hqrow] at hsome
      cases hsome

end

/-! ## A host that describes one file -/

def oneFile : Host where
  describe path := if path = "a.mp3" then some { src := path, title := "A" } else none

/-- The index of files without rows. -/
def indexed (index : List String) : MetadataCache :=
  { MetadataCache.initial with validated := true, index := index }

theorem missing_indexed (index : List String) : missing (indexed index) = index := by
  simp [missing, indexed, MetadataCache.trackPaths, MetadataCache.initial]

/-- A track behind another one that the host does not describe is reached. -/
theorem backfill_reaches_second :
    ∃ n, (afterPasses id oneFile (fun _ => 1) (indexed ["b.mp3", "a.mp3"]) (n + 1)).tags =
        (afterPasses id oneFile (fun _ => 1) (indexed ["b.mp3", "a.mp3"]) n).tags ∧
      Reached oneFile (afterPasses id oneFile (fun _ => 1) (indexed ["b.mp3", "a.mp3"]) n) := by
  have hreachable : Reachable oneFile (indexed ["b.mp3", "a.mp3"]) := by
    unfold Reachable
    rw [missing_indexed]
    decide +kernel
  obtain ⟨⟨n, hsame⟩, hiff⟩ := @backfill_reaches_iff id oneFile _
    (fun _ => Nat.one_pos) (indexed ["b.mp3", "a.mp3"])
  exact ⟨n, hsame, (hiff n hsame).mpr hreachable⟩

/-- Five hundred files that the host does not describe. -/
def undescribed : List String := (List.range 500).map fun n => "lost" ++ toString n

/-- **Behind a full batch** a track is never reached, however many passes there are. -/
theorem backfill_never_reaches :
    ¬ ∃ (budget : Nat → Nat) (n : Nat),
      Reached oneFile (afterPasses id oneFile budget (indexed (undescribed ++ ["a.mp3"])) n) := by
  rintro ⟨budget, n, hreached⟩
  have hgoes := @afterPasses_goes id oneFile budget (indexed (undescribed ++ ["a.mp3"])) n
  have hblocked : backfillBatch ≤ unableBefore oneFile.describes
      (missing (indexed (undescribed ++ ["a.mp3"]))) "a.mp3" := by
    rw [missing_indexed]
    decide +kernel
  have hmissing : "a.mp3" ∈ missing (indexed (undescribed ++ ["a.mp3"])) := by
    rw [missing_indexed]
    exact List.mem_append_right _ List.mem_cons_self
  have hdescribes : oneFile.describes "a.mp3" = true := by decide +kernel
  have hstill := hgoes.blocked "a.mp3" hdescribes hmissing hblocked
  have hpath := (mem_missing.mp hstill).1
  exact hreached "a.mp3" hpath hdescribes (mem_missing.mp hstill).2

end Mbrc.Backfill
