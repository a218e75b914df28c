import MbrcPlugin.Library.Derived
import MbrcPlugin.Library.TrackFilter

/-!
# Only library tracks are counted

The browse lists and the sort orders range over the tag rows, and count the library when the rows
are those of its index.  The index passes keep it so; what reads tags for a page, a playlist or the
queue files the rows of whatever paths it asked the host for: of files outside the library, and of
files that were taken out of it meanwhile.  In a run that files rows of indexed paths only, no other
path has a row, and the counts and the rebuilt orders range over exactly the index
(`only_library_counted`).
-/

namespace Mbrc.IndexedRows

open Cache Cache.MetadataCache

/-! ## The tables and who reads them -/

/-- A call of `genre_rows` that holds the lock of the kept rows. -/
inductive Counting where
  /-- It found the tags complete. -/
  | complete
  | read (rows : List BrowseRow)

/-- A rebuild of the sort orders by the pass that holds the reconcile guard. -/
inductive Rebuild where
  /-- No indexed path was found without tags. -/
  | due
  | read (rows : List CachedTags)

structure State where
  cache : MetadataCache := .initial
  /-- `genre_rows`, kept. -/
  kept : Option (List BrowseRow) := none
  counting : Option Counting := none
  /-- The writes that have committed and are still to drop the kept rows. -/
  moved : Nat := 0
  /-- What the reads of tags under way asked the host for. -/
  fills : List (List String) := []
  rebuild : Option Rebuild := none

namespace State

variable (s : State)

/-- A write to the rows or the index. -/
def write (cache : MetadataCache) : State := { s with cache, moved := s.moved + 1 }

/-- The rows the browse lists are counted from. -/
def genreRows : Option (List BrowseRow) := s.kept.or s.cache.genreRows

def genreCounts : Option (List (String × Nat)) := s.genreRows.map Cache.genreCounts

def creditedArtists (genre : Option String) : Option (List (String × Nat)) :=
  s.genreRows.map fun rows => Cache.creditedArtists rows genre

def creditedAlbums (artist : String) : Option (List (String × String × Nat)) :=
  s.genreRows.map fun rows => Cache.creditedAlbums rows artist

/-- The paths `tags_for_paths` asks the host for. -/
def misses (paths : List String) : List String :=
  paths.filter fun path => !s.cache.validated || (s.cache.tags.get? path).isNone

end State

inductive Step where
  /-- The core starts again on the same store. -/
  | restart
  | invalidate
  | reconcile (albums : List (String × Int)) (fingerprint : Nat)
  | replaceTrackIndex (paths : List String)
  | dropTrackTags (paths : List String)
  /-- A playlist, the queue or a syncing client: what the cache holds is not asked for. -/
  | tagsForPaths (paths : List String)
  /-- A page of tracks or a batch of the backfill. -/
  | readTags (paths : List String)
  /-- The host answers for the paths it was asked for, and the tags are filed. -/
  | fill (task : Nat) (fetched : List CachedTags)
  | fail (task : Nat)
  /-- A write returns, and drops the kept rows. -/
  | drop
  | countCheck
  | countRead
  | countKeep
  | rebuildStart
  | rebuildRead
  | rebuildWrite
  deriving DecidableEq

section

variable (lower : String → String)

/-- The end of `rebuild_derived`, with the rows the orders were sorted from. -/
def writeOrders (rows : List CachedTags) (c : MetadataCache) : MetadataCache :=
  let orders := fun key => (sorted lower rows key).map (·.src)
  (if rows = [] then c else { c with sort := orders }).rebuildAlbumYears lower

/-- One pass holds the reconcile guard at a time. -/
def passes (s : State) (s' : State) : Option State := if s.rebuild.isNone then some s' else none

def next (s : State) : Step → Option State
  | .restart => some { cache := { s.cache with validated := false } }
  | .invalidate => some (s.write s.cache.invalidate)
  | .reconcile albums fingerprint =>
    passes s (s.write (s.cache.reconcile lower albums fingerprint))
  | .replaceTrackIndex paths => passes s (s.write (s.cache.replaceTrackIndex paths))
  | .dropTrackTags paths => passes s (s.write (s.cache.dropTrackTags paths))
  | .tagsForPaths paths =>
    let misses := s.misses paths
    some (if misses = [] then s else { s with fills := s.fills ++ [misses] })
  | .readTags paths => some { s with fills := s.fills ++ [paths] }
  | .fill task fetched =>
    s.fills[task]?.bind fun asked =>
      if ∀ t ∈ fetched, t.src ∈ asked then
        some { s.write (s.cache.putTrackTags fetched) with fills := s.fills.eraseIdx task }
      else none
  | .fail task => some { s with fills := s.fills.eraseIdx task }
  | .drop =>
    if s.moved > 0 ∧ s.counting.isNone then some { s with kept := none, moved := s.moved - 1 }
    else none
  | .countCheck =>
    if s.kept.isNone ∧ s.counting.isNone ∧ s.cache.tagsComplete then
      some { s with counting := some .complete }
    else none
  | .countRead =>
    match s.counting with
    | some .complete =>
      some { s with counting := some (.read (s.cache.allCachedTags.map BrowseRow.ofTags)) }
    | _ => none
  | .countKeep =>
    match s.counting with
    | some (.read rows) => some { s with kept := some rows, counting := none }
    | _ => none
  | .rebuildStart =>
    if s.rebuild.isNone ∧ s.cache.untaggedPaths backfillBatch = [] then
      some { s with rebuild := some .due }
    else none
  | .rebuildRead =>
    match s.rebuild with
    | some .due =>
      let rows := s.cache.allCachedTags
      some { s with rebuild := if s.cache.needsRebuild then some (.read rows) else none }
    | _ => none
  | .rebuildWrite =>
    match s.rebuild with
    | some (.read rows) =>
      some { s with cache := writeOrders lower rows s.cache, rebuild := none }
    | _ => none

def system : Transition.System State Step where
  start s := s = {}
  next := next lower

end

/-! ## What is promised -/

/-- The counts range over the rows of exactly the indexed tracks. -/
def CountsIndex (s : State) : Prop :=
  ∃ tracks : List CachedTags, (tracks.map (·.src)).Perm s.cache.index ∧
    (∀ t ∈ tracks, s.cache.tags.get? t.src = some t) ∧
    let rows := tracks.map BrowseRow.ofTags
    s.genreCounts = some (Cache.genreCounts rows) ∧
      (∀ genre, s.creditedArtists genre = some (Cache.creditedArtists rows genre)) ∧
      ∀ artist, s.creditedAlbums artist = some (Cache.creditedAlbums rows artist)

/-- Every order is of exactly the indexed tracks, and as long as the index. -/
def OrdersIndex (s : State) : Prop :=
  (∀ key, (s.cache.storedOrder key).Perm s.cache.index) ∧
    ∀ field, s.cache.sortedTrackCount field = s.cache.trackCount

/-- Only library tracks are counted: no row of another path; where the tags are complete, the counts
range over the index, once the writes before have dropped the rows kept; and so does every order
that is rebuilt. -/
structure OnlyLibrary (lower : String → String) (s : State) : Prop where
  indexed : ∀ p t, s.cache.tags.get? p = some t → p ∈ s.cache.index
  counted : s.cache.tagsComplete = true → s.kept = none ∨ s.moved = 0 → CountsIndex s
  rebuilt : ∀ s', next lower s .rebuildWrite = some s' → s'.cache.tagsComplete = true →
    OrdersIndex s'

/-! ## When it holds -/

/-- The rows filed are of indexed paths, and the host lists each path once. -/
def Guard (s : State) : Step → Prop
  | .fill _ fetched => s.cache.validated = true → ∀ t ∈ fetched, t.src ∈ s.cache.index
  | .replaceTrackIndex paths => paths.Nodup
  | _ => True

/-! ## Rows and index -/

/-- The rows are filed under their own paths, which the index lists, each once. -/
structure Filed (tags : Table String CachedTags) (index : List String) : Prop where
  keyed : Keyed tags
  indexed : ∀ p t, tags.get? p = some t → p ∈ index
  nodup : index.Nodup

namespace Filed

variable {tags : Table String CachedTags} {index : List String}

theorem empty : Filed .empty [] where
  keyed := Keyed.empty
  indexed p t h := by simp at h
  nodup := List.nodup_nil

theorem eraseAll (h : Filed tags index) (paths : List String) :
    Filed (tags.eraseAll paths) index where
  keyed := h.keyed.eraseAll paths
  indexed p t ht := by
    rw [Table.get?_eraseAll] at ht
    split at ht
    · simp at ht
    · exact h.indexed p t ht
  nodup := h.nodup

/-- A new index, and the rows of paths that are not in it dropped. -/
theorem replace (h : Filed tags index) {paths : List String} (hpaths : paths.Nodup) :
    Filed (tags.eraseAll ((tags.rows.map (·.1)).filter (· ∉ paths))) paths where
  keyed := h.keyed.eraseAll _
  indexed p t ht := by
    rw [Table.get?_eraseAll] at ht
    split at ht
    · simp at ht
    · rename_i hkept
      by_contra hout
      have hrow : p ∈ tags.rows.map (·.1) := List.mem_map.mpr ⟨(p, t), Table.mem_rows.mpr ht, rfl⟩
      exact hkept (List.mem_filter.mpr ⟨hrow, decide_eq_true hout⟩)
  nodup := hpaths

theorem put (h : Filed tags index) {tracks : List CachedTags} (hsrc : ∀ t ∈ tracks, t.src ∈ index) :
    Filed (tracks.foldl (fun table track => table.insert track.src track) tags) index where
  keyed := h.keyed.put tracks
  indexed p t ht := by
    by_cases hp : p ∈ tracks.map (·.src)
    · obtain ⟨track, htrack, rfl⟩ := List.mem_map.mp hp
      exact hsrc track htrack
    · have hget := Table.get?_foldl_insert CachedTags.src id hp tags
      exact h.indexed p t (hget.symm.trans ht)
  nodup := h.nodup

end Filed

section

variable (lower : String → String) {c : MetadataCache}

theorem Filed.dropMovedAlbums (h : Filed c.tags c.index) (albums : List (String × Int)) :
    Filed (c.dropMovedAlbums lower albums).tags (c.dropMovedAlbums lower albums).index := by
  unfold MetadataCache.dropMovedAlbums
  split
  · exact Filed.empty
  · simp only
    split
    · exact h
    · unfold MetadataCache.dropTagsOf
      simp only
      split
      · exact h
      · exact h.eraseAll _

theorem Filed.reconcile (h : Filed c.tags c.index) (albums : List (String × Int))
    (fingerprint : Nat) :
    Filed (c.reconcile lower albums fingerprint).tags
      (c.reconcile lower albums fingerprint).index := by
  let Good := fun d : MetadataCache => Filed d.tags d.index
  have hstart : ∀ (restaled : Prop) [Decidable restaled],
      Good (if restaled then { c.clear with schema := some tagsSchemaVersion } else c) := by
    intro restaled _
    split
    · exact Filed.empty
    · exact h
  have hmoved : ∀ (d : MetadataCache) (restaled moved : Prop) [Decidable restaled]
      [Decidable moved], Good d → Good (if moved then
        { (if restaled then d else d.dropMovedAlbums lower albums) with
          fingerprint := some fingerprint } else d) := by
    intro d restaled moved _ _ hd
    split
    · split
      · exact hd
      · exact Filed.dropMovedAlbums lower hd albums
    · exact hd
  have hstamps : ∀ (d : MetadataCache) (stored : Prop) [Decidable stored], Good d →
      Good { (if stored then d.storeAlbumStamps albums else d) with validated := true } := by
    intro d stored _ hd
    split
    · exact hd
    · exact hd
  exact hstamps _ _ (hmoved _ _ _ (hstart _))

end

theorem Filed.replaceTrackIndex {c : MetadataCache} (h : Filed c.tags c.index)
    {paths : List String} (hpaths : paths.Nodup) :
    Filed (c.replaceTrackIndex paths).tags (c.replaceTrackIndex paths).index := by
  unfold MetadataCache.replaceTrackIndex
  split
  · exact h.replace hpaths
  · exact h

theorem Filed.dropTrackTags {c : MetadataCache} (h : Filed c.tags c.index) (paths : List String) :
    Filed (c.dropTrackTags paths).tags (c.dropTrackTags paths).index := by
  unfold MetadataCache.dropTrackTags
  split
  · exact h.eraseAll paths
  · exact h

theorem Filed.putTrackTags {c : MetadataCache} (h : Filed c.tags c.index)
    {tracks : List CachedTags}
    (hsrc : c.validated = true → ∀ t ∈ tracks, t.src ∈ c.index) :
    Filed (c.putTrackTags tracks).tags (c.putTrackTags tracks).index := by
  unfold MetadataCache.putTrackTags
  split
  · rename_i hv
    exact h.put (hsrc hv)
  · exact h

/-! ## Kept rows and rebuilds -/

section

variable {lower : String → String}

/-- The rows of the tables, as the browse lists take them. -/
def browseRows (c : MetadataCache) : List BrowseRow := c.allCachedTags.map BrowseRow.ofTags

/-- Besides the rows being filed: what was read of them since the last write is what they are, and a
rebuild goes over the whole index. -/
structure Inv (s : State) : Prop where
  filed : Filed s.cache.tags s.cache.index
  kept : s.moved = 0 → ∀ rows, s.kept = some rows → rows = browseRows s.cache
  counting : s.moved = 0 → ∀ rows, s.counting = some (.read rows) → rows = browseRows s.cache
  due : s.rebuild.isSome → s.cache.validated = true →
    ∀ p ∈ s.cache.index, ∃ t, s.cache.tags.get? p = some t
  read : ∀ rows, s.rebuild = some (.read rows) → s.cache.validated = true →
    (rows.map (·.src)).Perm s.cache.index

theorem Inv.start : Inv {} where
  filed := Filed.empty
  kept _ rows h := by cases h
  counting _ rows h := by cases h
  due h := by cases h
  read rows h := by cases h

variable {s : State}

/-- A write while no rebuild is under way. -/
theorem Inv.write (hidle : s.rebuild = none) {cache : MetadataCache}
    (hfiled : Filed cache.tags cache.index) : Inv (s.write cache) where
  filed := hfiled
  kept hmoved := absurd hmoved (Nat.succ_ne_zero _)
  counting hmoved := absurd hmoved (Nat.succ_ne_zero _)
  due hsome := by simp [State.write, hidle] at hsome
  read rows hread := by simp [State.write, hidle] at hread

/-- What a pass writes under the guard. -/
theorem Inv.passes {cache : MetadataCache} {s' : State}
    (hs : IndexedRows.passes s (s.write cache) = some s')
    (hfiled : Filed cache.tags cache.index) : Inv s' := by
  unfold IndexedRows.passes at hs
  split at hs
  · rename_i hidle
    obtain rfl := Option.some.inj hs
    exact Inv.write (Option.isNone_iff_eq_none.mp hidle) hfiled
  · simp at hs

/-- A path that has tags keeps some. -/
theorem tagged_foldl_insert {tags : Table String CachedTags} {p : String}
    (tracks : List CachedTags) (h : ∃ t, tags.get? p = some t) :
    ∃ t, (tracks.foldl (fun table track => table.insert track.src track) tags).get? p =
      some t := by
  induction tracks generalizing tags with
  | nil => exact h
  | cons track tracks ih =>
    apply ih
    rw [Table.get?_insert]
    split
    · exact ⟨track, rfl⟩
    · exact h

theorem tagged_putTrackTags {c : MetadataCache} {p : String} (tracks : List CachedTags)
    (h : ∃ t, c.tags.get? p = some t) : ∃ t, (c.putTrackTags tracks).tags.get? p = some t := by
  unfold MetadataCache.putTrackTags
  split
  · exact tagged_foldl_insert tracks h
  · exact h

theorem putTrackTags_tables (c : MetadataCache) (tracks : List CachedTags) :
    (c.putTrackTags tracks).index = c.index ∧
      (c.putTrackTags tracks).validated = c.validated := by
  unfold MetadataCache.putTrackTags
  split <;> exact ⟨rfl, rfl⟩

/-- The tags a read was answered with are filed. -/
theorem Inv.fill (h : Inv s) {fetched : List CachedTags} {fills : List (List String)}
    (hsrc : s.cache.validated = true → ∀ t ∈ fetched, t.src ∈ s.cache.index) :
    Inv { s.write (s.cache.putTrackTags fetched) with fills } where
  filed := h.filed.putTrackTags hsrc
  kept hmoved := absurd hmoved (Nat.succ_ne_zero _)
  counting hmoved := absurd hmoved (Nat.succ_ne_zero _)
  due hsome hv p hp := by
    obtain ⟨hindex, hvalid⟩ := putTrackTags_tables s.cache fetched
    exact tagged_putTrackTags fetched (h.due hsome (hvalid ▸ hv) p (hindex ▸ hp))
  read rows hread hv := by
    obtain ⟨hindex, hvalid⟩ := putTrackTags_tables s.cache fetched
    show (rows.map _).Perm (s.cache.putTrackTags fetched).index
    rw [hindex]
    exact h.read rows hread (hvalid ▸ hv)

/-- The paths of the rows are the index. -/
theorem Filed.perm {c : MetadataCache} (h : Filed c.tags c.index) (hv : c.validated = true)
    (htagged : ∀ p ∈ c.index, ∃ t, c.tags.get? p = some t) :
    (c.allCachedTags.map (·.src)).Perm c.index := by
  simp only [allCachedTags, hv, if_true]
  rw [h.keyed.map_src]
  exact rows_perm_index htagged h.nodup h.indexed

theorem writeOrders_tables (lower : String → String) (rows : List CachedTags)
    (c : MetadataCache) :
    (writeOrders lower rows c).tags = c.tags ∧ (writeOrders lower rows c).index = c.index ∧
      (writeOrders lower rows c).validated = c.validated := by
  unfold writeOrders MetadataCache.rebuildAlbumYears
  simp only
  split <;> split <;> exact ⟨rfl, rfl, rfl⟩

theorem writeOrders_sort {rows : List CachedTags} (hrows : rows ≠ []) (c : MetadataCache)
    (key : SortKey) :
    (writeOrders lower rows c).sort key = (sorted lower rows key).map (·.src) := by
  unfold writeOrders MetadataCache.rebuildAlbumYears
  simp only [hrows, if_false]
  split <;> rfl

/-- **One step** keeps the invariant. -/
theorem inv_step {s' : State} {step : Step} (h : Inv s) (hg : Guard s step)
    (hs : next lower s step = some s') : Inv s' := by
  cases step with
  | restart =>
    obtain rfl := Option.some.inj hs
    exact
      { filed := h.filed
        kept := fun _ rows hkept => by cases hkept
        counting := fun _ rows hcounting => by cases hcounting
        due := fun hsome => by cases hsome
        read := fun rows hread => by cases hread }
  | invalidate =>
    obtain rfl := Option.some.inj hs
    exact
      { filed := Filed.empty
        kept := fun hmoved => absurd hmoved (Nat.succ_ne_zero _)
        counting := fun hmoved => absurd hmoved (Nat.succ_ne_zero _)
        due := fun _ hv => by cases hv
        read := fun _ _ hv => by cases hv }
  | reconcile albums fingerprint => exact Inv.passes hs (h.filed.reconcile lower albums fingerprint)
  | replaceTrackIndex paths => exact Inv.passes hs (h.filed.replaceTrackIndex hg)
  | dropTrackTags paths => exact Inv.passes hs (h.filed.dropTrackTags paths)
  | tagsForPaths paths =>
    obtain rfl := Option.some.inj hs
    split
    · exact h
    · exact { h with }
  | readTags paths =>
    obtain rfl := Option.some.inj hs
    exact { h with }
  | fill task fetched =>
    obtain ⟨asked, -, hs⟩ := Option.bind_eq_some_iff.mp hs
    split at hs
    · obtain rfl := Option.some.inj hs
      exact h.fill hg
    · simp at hs
  | fail task =>
    obtain rfl := Option.some.inj hs
    exact { h with }
  | drop =>
    simp only [next] at hs
    split at hs
    · rename_i hfree
      obtain rfl := Option.some.inj hs
      have hnone := Option.isNone_iff_eq_none.mp hfree.2
      exact
        { filed := h.filed
          kept := fun _ rows hkept => by cases hkept
          counting := fun _ rows hcounting => by simp [hnone] at hcounting
          due := h.due
          read := h.read }
    · simp at hs
  | countCheck =>
    simp only [next] at hs
    split at hs
    · obtain rfl := Option.some.inj hs
      exact { h with counting := fun _ rows hcounting => by simp at hcounting }
    · simp at hs
  | countRead =>
    simp only [next] at hs
    split at hs
    · obtain rfl := Option.some.inj hs
      refine { h with counting := fun _ rows hcounting => ?_ }
      obtain rfl : browseRows s.cache = rows := by simpa [browseRows] using hcounting
      rfl
    · simp at hs
  | countKeep =>
    simp only [next] at hs
    split at hs
    · rename_i rows hcounting
      obtain rfl := Option.some.inj hs
      refine
        { h with
          kept := fun hmoved rows' hkept => ?_
          counting := fun _ _ hcounting => by simp at hcounting }
      obtain rfl : rows = rows' := Option.some.inj hkept
      exact h.counting hmoved rows hcounting
    · simp at hs
  | rebuildStart =>
    simp only [next] at hs
    split at hs
    · rename_i hmissing
      obtain rfl := Option.some.inj hs
      refine { h with due := fun _ hv p hp => ?_, read := fun _ hread => by simp at hread }
      exact tagged_of_untaggedPaths hv hmissing.2 hp
    · simp at hs
  | rebuildRead =>
    simp only [next] at hs
    split at hs
    · rename_i hdue
      obtain rfl := Option.some.inj hs
      have htagged := h.due (by rw [hdue]; rfl)
      refine { h with due := fun _ => htagged, read := fun rows hread hv => ?_ }
      simp only at hread
      split at hread
      · obtain rfl : s.cache.allCachedTags = rows := by simpa using hread
        exact h.filed.perm hv (htagged hv)
      · simp at hread
    · simp at hs
  | rebuildWrite =>
    simp only [next] at hs
    split at hs
    · rename_i rows _
      obtain rfl := Option.some.inj hs
      obtain ⟨htags, hindex, hvalid⟩ := writeOrders_tables lower rows s.cache
      have hbrowse : browseRows (writeOrders lower rows s.cache) = browseRows s.cache := by
        simp only [browseRows, allCachedTags, htags, hvalid]
      exact
        { filed := by simpa only [htags, hindex] using h.filed
          kept := by simpa only [hbrowse] using h.kept
          counting := by simpa only [hbrowse] using h.counting
          due := fun hsome => by simp at hsome
          read := fun _ hread => by simp at hread }
    · simp at hs

/-! ## The result -/

theorem Inv.countsIndex (h : Inv s) (hcomplete : s.cache.tagsComplete = true)
    (hsettled : s.kept = none ∨ s.moved = 0) : CountsIndex s := by
  obtain ⟨hv, -, htagged⟩ := (tagsComplete_iff s.cache).mp hcomplete
  have hrows : s.genreRows = some (browseRows s.cache) := by
    unfold State.genreRows
    cases hkept : s.kept with
    | none => exact if_pos hcomplete
    | some rows =>
      have hmoved : s.moved = 0 := hsettled.resolve_left (by simp [hkept])
      rw [h.kept hmoved rows hkept]
      rfl
  refine ⟨s.cache.allCachedTags, h.filed.perm hv htagged, ?_, ?_, ?_, ?_⟩
  · intro t ht
    simp only [allCachedTags, hv, if_true] at ht
    exact mem_allTags h.filed.keyed ht
  · rw [State.genreCounts, hrows]
    rfl
  · intro genre
    rw [State.creditedArtists, hrows]
    rfl
  · intro artist
    rw [State.creditedAlbums, hrows]
    rfl

theorem Inv.ordersIndex (h : Inv s) {s' : State} (hs : next lower s .rebuildWrite = some s')
    (hcomplete : s'.cache.tagsComplete = true) : OrdersIndex s' := by
  simp only [next] at hs
  split at hs
  · rename_i rows hread
    obtain rfl := Option.some.inj hs
    obtain ⟨-, hindex, hvalid⟩ := writeOrders_tables lower rows s.cache
    obtain ⟨hv, hne, -⟩ := (tagsComplete_iff _).mp hcomplete
    replace hv : (writeOrders lower rows s.cache).validated = true := hv
    have hperm := h.read rows hread (hvalid ▸ hv)
    have hrows : rows ≠ [] := by
      rintro rfl
      exact hne (hindex.trans (List.nil_perm.mp hperm))
    have horder : ∀ key, ((writeOrders lower rows s.cache).storedOrder key).Perm
        (writeOrders lower rows s.cache).index := by
      intro key
      simp only [storedOrder, hv, if_true, writeOrders_sort hrows, hindex]
      exact ((sorted_perm lower rows key).map _).trans hperm
    refine ⟨horder, fun field => ?_⟩
    have hlength : ∀ key, ((writeOrders lower rows s.cache).storedOrder key).length =
        (writeOrders lower rows s.cache).trackCount := by
      intro key
      rw [(horder key).length_eq, trackCount, if_pos hv]
    simp only [sortedTrackCount, hlength]
    split
    · exact Nat.min_self _
    · rfl
  · simp at hs

/-- **Only library tracks are counted**, in a run that files rows of indexed paths only and whose
host lists each path once. -/
theorem only_library_counted {s₀ : State} {steps : List Step} (h₀ : (system lower).start s₀)
    (hrun : (system lower).Along Guard s₀ steps) (he : (system lower).exec s₀ steps = some s) :
    OnlyLibrary lower s := by
  have hinv : Inv s := by
    obtain rfl : s₀ = {} := h₀
    exact (system lower).exec_induction (fun _ _ _ => inv_step) Inv.start hrun he
  exact ⟨hinv.filed.indexed, hinv.countsIndex, fun _ hs => hinv.ordersIndex hs⟩

end

/-! ## A playlist of files outside the library -/

def track (src genre : String) : CachedTags := { src, genre, artist := "Air", year := 1998 }

/-- Two tracks are listed. -/
def listing : List Step :=
  [.reconcile [] 0, .drop, .replaceTrackIndex ["a", "b"], .drop]

/-- The backfill reads them, and the orders are built. -/
def backfill : List Step :=
  [.readTags ["a", "b"], .fill 0 [track "a" "Rock", track "b" "Jazz"], .drop, .rebuildStart,
    .rebuildRead, .rebuildWrite]

/-- A playlist of one of the tracks is read before them. -/
def ownPlaylist : List Step :=
  listing ++ [.tagsForPaths ["a"], .fill 0 [track "a" "Rock"], .drop] ++ backfill ++
    [.countCheck, .countRead, .countKeep]

/-- A playlist with a file elsewhere is read before them. -/
def otherPlaylist : List Step :=
  listing ++ [.tagsForPaths ["a", "x"], .fill 0 [track "a" "Rock", track "x" "Polka"], .drop] ++
    backfill

/-- A checkable part of the condition. -/
def guarded (s : State) : Step → Bool
  | .fill _ fetched => fetched.all (·.src ∈ s.cache.index)
  | .replaceTrackIndex paths => paths.Nodup
  | _ => true

theorem guard_of_guarded {s : State} {step : Step} (h : guarded s step = true) : Guard s step := by
  cases step with
  | fill task fetched =>
    intro _ t ht
    exact of_decide_eq_true (List.all_eq_true.mp h t ht)
  | replaceTrackIndex paths => exact (of_decide_eq_true h : paths.Nodup)
  | _ => trivial

/-- A playlist of library tracks leaves the counts what they are. -/
theorem only_library_counted_ownPlaylist :
    ∃ s, (system String.toLower).exec {} ownPlaylist = some s ∧
      s.genreCounts = some [("Jazz", 1), ("Rock", 1)] ∧ OnlyLibrary String.toLower s := by
  have hrun : ((system String.toLower).exec {} ownPlaylist).any (fun s =>
      s.genreCounts = some [("Jazz", 1), ("Rock", 1)]) = true := by
    decide +kernel
  have hguard : (system String.toLower).checked guarded {} ownPlaylist = true := by
    decide +kernel
  obtain ⟨s, hexec, hfacts⟩ := (Option.any_eq_true _ _).mp hrun
  exact ⟨s, hexec, of_decide_eq_true hfacts, only_library_counted rfl
    ((system String.toLower).along_of_checked (fun _ _ => guard_of_guarded) hguard) hexec⟩

/-- **A file outside the library is counted**, in the genres and in the orders. -/
theorem outsider_counted :
    ∃ s, (system String.toLower).Reachable s ∧ s.cache.index = ["a", "b"] ∧
      s.cache.tagsComplete = true ∧ s.moved = 0 ∧
      s.genreCounts = some [("Jazz", 1), ("Polka", 1), ("Rock", 1)] ∧
      s.cache.sortedTrackCount .title = 3 ∧ ¬OnlyLibrary String.toLower s := by
  have hrun : ((system String.toLower).exec {} otherPlaylist).any (fun s =>
      s.cache.index = ["a", "b"] ∧ s.cache.tagsComplete = true ∧ s.moved = 0 ∧
        s.genreCounts = some [("Jazz", 1), ("Polka", 1), ("Rock", 1)] ∧
        s.cache.sortedTrackCount .title = 3 ∧ (s.cache.tags.get? "x").isSome = true) = true := by
    decide +kernel
  obtain ⟨s, hexec, hfacts⟩ := (Option.any_eq_true _ _).mp hrun
  obtain ⟨hindex, hcomplete, hmoved, hcounts, hsorted, houtside⟩ := of_decide_eq_true hfacts
  refine ⟨s, ⟨{}, otherPlaylist, rfl, hexec⟩, hindex, hcomplete, hmoved, hcounts, hsorted, ?_⟩
  intro h
  obtain ⟨t, ht⟩ := Option.isSome_iff_exists.mp houtside
  have hlisted := h.indexed "x" t ht
  rw [hindex] at hlisted
  revert hlisted
  decide

end Mbrc.IndexedRows
