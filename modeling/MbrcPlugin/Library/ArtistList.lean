import MbrcPlugin.Library.Derived
import MbrcPlugin.Library.TrackFilter

/-!
# What the artist list opens onto

The artist list counts the credited names of every tag row, split again at the separators of a field
of several values; a name is opened with the filter, which compares it whole with the artist tags
and the credits.  The two agree on a library exactly when each of its tracks is `Browsable`: it has
no artist tag at all where it credits nobody, and each name it is counted under is one of its artist
tags or a credit that stands in its stored list (`rows_open_iff`).
-/

namespace Mbrc.Cache

open Text

/-! ## Names -/

/-- An entry that is no performer's is named by its text. -/
theorem parseEntry_name {entry : List Char} {credit : Credit}
    (h : Credits.parseEntry entry = some credit) (hlead : credit.role.isLead = true) :
    trim credit.name = credit.name ∧ credit.name ≠ "" := by
  obtain ⟨⟨role, rest⟩, -, h⟩ := Option.bind_eq_some_iff.mp h
  simp only at h
  split at h
  · simp at h
  · rename_i hne
    obtain rfl := Option.some.inj h
    have hrole : role ≠ .performer := by
      rintro rfl
      simp [Credits.Role.isLead] at hlead
    simp only [if_neg hrole]
    exact ⟨trim_trim _, hne⟩

/-- The credited names are trimmed, and there are no empty ones. -/
theorem trim_of_credited {t : CachedTags} {name : String} (h : name ∈ t.creditedNames) :
    trim name = name ∧ name ≠ "" := by
  obtain ⟨credit, hcredit, rfl⟩ := List.mem_map.mp h
  obtain ⟨hmem, hlead⟩ := List.mem_filter.mp hcredit
  have hparsed : credit ∈ Credits.parse t.multiArtist →
      trim credit.name = credit.name ∧ credit.name ≠ "" := by
    intro hmem
    obtain ⟨entry, -, hentry⟩ := List.mem_filterMap.mp hmem
    exact parseEntry_name hentry hlead
  simp only [Credits.orDisplay] at hmem
  split at hmem
  · exact hparsed hmem
  · rename_i hshown
    rcases List.mem_cons.mp hmem with rfl | hmem
    · refine ⟨trim_trim _, fun hempty => hshown ?_⟩
      simp only at hempty
      simp [hempty]
    · exact hparsed (List.mem_filter.mp hmem).1

/-- The names of a track's credits, joined and split again. -/
theorem values_joined (t : CachedTags) :
    MultiValue.values (BrowseRow.ofTags t).joined = t.creditedNames.flatMap MultiValue.values := by
  rw [BrowseRow.joined, MultiValue.values_intercalate, BrowseRow.credited_ofTags]

section

variable (lower : String → String)

/-! ## What is promised -/

/-- The cache holds one tag row for each path of its index. -/
structure WholeLibrary (c : MetadataCache) : Prop where
  complete : c.tagsComplete = true
  keyed : Keyed c.tags
  indexed : ∀ p t, c.tags.get? p = some t → p ∈ c.index

/-- The track is counted under a name of the list of a genre. -/
def CountedUnder (genre : Option String) (name : String) (t : CachedTags) : Prop :=
  genre.all (MultiValue.holds t.genre ·) = true ∧
    MultiValue.CountedUnder name (BrowseRow.ofTags t).joined

instance (genre : Option String) (name : String) (t : CachedTags) :
    Decidable (CountedUnder genre name t) := inferInstanceAs (Decidable (_ ∧ _))

/-- A name of the artist list opens onto the tracks counted under it. -/
def RowsOpen (c : MetadataCache) : Prop :=
  ∀ rows, c.genreRows = some rows → ∀ genre name n, (name, n) ∈ creditedArtists rows genre →
    let opened := c.trackPathsWhere lower { artist := some name, genre } none false
    n ≤ opened.length ∧ ∀ t ∈ c.allCachedTags, CountedUnder genre name t → t.src ∈ opened

/-! ## When it holds -/

/-- A name is an artist tag of the track. -/
def IsArtistTag (t : CachedTags) (name : String) : Prop :=
  asciiLower t.artist = asciiLower name ∨ asciiLower t.albumArtist = asciiLower name

/-- The filter finds the track under each name it is counted under. -/
structure Browsable (t : CachedTags) : Prop where
  unnamed : (∀ name ∈ t.creditedNames, MultiValue.values name = []) →
    t.artist = "" ∧ t.albumArtist = ""
  whole : ∀ name ∈ t.creditedNames, MultiValue.Whole name →
    IsArtistTag t name ∨ contains lower t.multiArtist name = true
  parts : ∀ name ∈ t.creditedNames, ¬MultiValue.Whole name → ∀ part ∈ MultiValue.values name,
    IsArtistTag t part ∨ contains lower t.multiArtist part = true ∧
      ∃ credited ∈ t.creditedNames, asciiLower credited = asciiLower part

instance (t : CachedTags) (name : String) : Decidable (IsArtistTag t name) :=
  inferInstanceAs (Decidable (_ ∨ _))

/-! ## What the filter admits -/

variable {lower}

theorem filedUnder_empty (t : CachedTags) :
    filedUnder lower t "" = true ↔ t.artist = "" ∧ t.albumArtist = "" := by
  simp [filedUnder]

theorem filedUnder_iff {t : CachedTags} {name : String} (hne : name ≠ "") :
    filedUnder lower t name = true ↔
      IsArtistTag t name ∨ contains lower t.multiArtist name = true ∧
        ∃ credited ∈ t.creditedNames, asciiLower credited = asciiLower name := by
  simp only [filedUnder, if_neg hne, Bool.or_eq_true, Bool.and_eq_true, List.any_eq_true,
    MultiValue.sameName_iff, IsArtistTag]

/-- The filter does not see ASCII case. -/
theorem filedUnder_congr (hlower : ∀ a b, asciiLower a = asciiLower b → lower a = lower b)
    {t : CachedTags} {a b : String} (h : asciiLower a = asciiLower b) :
    filedUnder lower t a = true ↔ filedUnder lower t b = true := by
  by_cases hne : a = ""
  · have hb : b = "" := asciiLower_eq_empty.mp (h ▸ asciiLower_eq_empty.mpr hne)
    rw [hne, hb]
  · have hb : b ≠ "" := fun hb => hne (asciiLower_eq_empty.mp (h ▸ asciiLower_eq_empty.mpr hb))
    rw [filedUnder_iff hne, filedUnder_iff hb]
    simp only [IsArtistTag, contains, h, hlower a b h]

theorem mem_trackPathsWhere {c : MetadataCache} {filter : TrackFilter} {path : String} :
    path ∈ c.trackPathsWhere lower filter none false ↔
      path ∈ c.trackPaths ∧ filter.admits lower (c.tags.get? path) path = true := by
  simp only [MetadataCache.trackPathsWhere, List.mem_map, (Comparator.sortBy_perm _ _).mem_iff,
    MetadataCache.matched, List.mem_filter]
  constructor
  · rintro ⟨_, ⟨path, h, rfl⟩, rfl⟩
    exact h
  · exact fun h => ⟨_, ⟨path, h, rfl⟩, rfl⟩

/-- Under a name of a genre's list the filter admits the tracks of the genre filed under it. -/
theorem admits_artist {t : CachedTags} {path name : String} {genre : Option String} :
    TrackFilter.admits lower { artist := some name, genre } (some t) path = true ↔
      filedUnder lower t name = true ∧ genre.all (MultiValue.holds t.genre ·) = true := by
  simp [TrackFilter.admits]

/-! ## A track and the names it is counted under -/

/-- The filter finds the track under each name it is counted under. -/
def Found (lower : String → String) (t : CachedTags) : Prop :=
  ∀ name ∈ MultiValue.fieldValues (BrowseRow.ofTags t).joined, filedUnder lower t name = true

theorem mem_fieldValues_joined {t : CachedTags} {name part : String}
    (hname : name ∈ t.creditedNames) (hpart : part ∈ MultiValue.values name) :
    part ∈ MultiValue.fieldValues (BrowseRow.ofTags t).joined := by
  have hmem : part ∈ t.creditedNames.flatMap MultiValue.values :=
    List.mem_flatMap.mpr ⟨name, hname, hpart⟩
  rw [MultiValue.fieldValues, values_joined, if_neg (List.ne_nil_of_mem hmem)]
  exact hmem

theorem values_of_credited {t : CachedTags} {name : String} (hname : name ∈ t.creditedNames)
    (hwhole : MultiValue.Whole name) : MultiValue.values name = [name] :=
  MultiValue.values_of_whole hwhole (trim_of_credited hname).1 (trim_of_credited hname).2

theorem Found.browsable {t : CachedTags} (h : Found lower t) : Browsable lower t where
  unnamed hnone := by
    have hvalues : t.creditedNames.flatMap MultiValue.values = [] :=
      List.flatMap_eq_nil_iff.mpr hnone
    refine (filedUnder_empty t).mp (h "" ?_)
    rw [MultiValue.fieldValues, values_joined, if_pos hvalues]
    exact List.mem_singleton_self ""
  whole name hname hwhole := by
    have hpart : name ∈ MultiValue.values name := by
      rw [values_of_credited hname hwhole]
      exact List.mem_singleton_self name
    have hfound := h name (mem_fieldValues_joined hname hpart)
    exact ((filedUnder_iff (trim_of_credited hname).2).mp hfound).imp_right And.left
  parts name hname _ part hpart :=
    (filedUnder_iff (MultiValue.ne_empty_of_mem_values hpart)).mp
      (h part (mem_fieldValues_joined hname hpart))

theorem Browsable.found {t : CachedTags} (h : Browsable lower t) : Found lower t := by
  intro value hvalue
  rw [MultiValue.fieldValues, values_joined] at hvalue
  split at hvalue
  · rename_i hnone
    obtain rfl := List.mem_singleton.mp hvalue
    exact (filedUnder_empty t).mpr (h.unnamed (List.flatMap_eq_nil_iff.mp hnone))
  · obtain ⟨name, hname, hpart⟩ := List.mem_flatMap.mp hvalue
    have hne := MultiValue.ne_empty_of_mem_values hpart
    by_cases hwhole : MultiValue.Whole name
    · rw [values_of_credited hname hwhole] at hpart
      obtain rfl := List.mem_singleton.mp hpart
      exact (filedUnder_iff hne).mpr
        ((h.whole value hname hwhole).imp_right fun hstored => ⟨hstored, value, hname, rfl⟩)
    · exact (filedUnder_iff hne).mpr (h.parts name hname hwhole value hpart)

section

variable {c : MetadataCache}

theorem WholeLibrary.genreRows (hc : WholeLibrary c) :
    c.genreRows = some (c.allCachedTags.map BrowseRow.ofTags) := if_pos hc.complete

/-- A row of the cache is of a path of the index. -/
theorem WholeLibrary.row (hc : WholeLibrary c) {t : CachedTags} (ht : t ∈ c.allCachedTags) :
    t.src ∈ c.trackPaths ∧ c.tags.get? t.src = some t := by
  have hvalid := ((c.tagsComplete_iff).mp hc.complete).1
  simp only [MetadataCache.allCachedTags, hvalid, if_true] at ht
  have hget := mem_allTags hc.keyed ht
  simp only [MetadataCache.trackPaths, hvalid, if_true]
  exact ⟨hc.indexed _ _ hget, hget⟩

/-- A track opens under a name of a genre's list when it is filed under it. -/
theorem WholeLibrary.opened_iff (hc : WholeLibrary c) {t : CachedTags} (ht : t ∈ c.allCachedTags)
    {name : String} {genre : Option String} :
    t.src ∈ c.trackPathsWhere lower { artist := some name, genre } none false ↔
      filedUnder lower t name = true ∧ genre.all (MultiValue.holds t.genre ·) = true := by
  obtain ⟨hpath, hget⟩ := hc.row ht
  rw [mem_trackPathsWhere, hget, admits_artist, and_iff_right hpath]

/-- The fields an artist list is counted from. -/
theorem map_joined (genre : Option String) (tags : List CachedTags) :
    (ofGenre genre (tags.map BrowseRow.ofTags)).map (·.joined) =
      (tags.filter fun t => genre.all (MultiValue.holds t.genre ·)).map
        fun t => (BrowseRow.ofTags t).joined := by
  simp only [ofGenre, List.filter_map, List.map_map, Function.comp_def, BrowseRow.genre_ofTags]

/-- The tracks of the library are its rows, each path once. -/
theorem WholeLibrary.nodup (hc : WholeLibrary c) : (c.allCachedTags.map (·.src)).Nodup := by
  have hvalid := ((c.tagsComplete_iff).mp hc.complete).1
  simp only [MetadataCache.allCachedTags, hvalid, if_true]
  rw [hc.keyed.map_src]
  exact rows_nodup c.tags

/-- A row of an artist list counts the tracks that are counted under its name. -/
theorem count_of_mem_creditedArtists {tags : List CachedTags} {genre : Option String}
    {name : String} {n : Nat}
    (h : (name, n) ∈ creditedArtists (tags.map BrowseRow.ofTags) genre) :
    n = tags.countP fun t => CountedUnder genre name t := by
  rw [MultiValue.count_of_mem_counts h, map_joined, List.countP_map, List.countP_filter]
  apply List.countP_congr
  intro t _
  rw [Function.comp_apply, Bool.and_eq_true, decide_eq_true_iff, decide_eq_true_iff]
  exact and_comm

end

/-! ## The result -/

/-- **Every name the artist list shows opens onto its tracks** exactly when every track is
browsable. -/
theorem rows_open_iff (hlower : ∀ a b, asciiLower a = asciiLower b → lower a = lower b)
    {c : MetadataCache} (hc : WholeLibrary c) :
    RowsOpen lower c ↔ ∀ t ∈ c.allCachedTags, Browsable lower t := by
  constructor
  · intro h t ht
    refine Found.browsable fun name hname => ?_
    have hfield : (BrowseRow.ofTags t).joined ∈
        (ofGenre none (c.allCachedTags.map BrowseRow.ofTags)).map (·.joined) := by
      rw [map_joined]
      exact List.mem_map_of_mem (List.mem_filter.mpr ⟨ht, rfl⟩)
    obtain ⟨row, n, hrow, hsame⟩ := MultiValue.exists_mem_counts hfield hname
    have hcounted : CountedUnder none row t :=
      ⟨rfl, MultiValue.countedUnder_iff.mpr ⟨name, hname, hsame.symm⟩⟩
    have hopened := (h _ hc.genreRows none row n hrow).2 t ht hcounted
    exact (filedUnder_congr hlower hsame).mp ((hc.opened_iff ht).mp hopened).1
  · intro h rows hrows genre name n hrow
    obtain rfl := Option.some.inj (hc.genreRows.symm.trans hrows)
    have hopened : ∀ t ∈ c.allCachedTags, CountedUnder genre name t →
        t.src ∈ c.trackPathsWhere lower { artist := some name, genre } none false := by
      intro t ht hcounted
      obtain ⟨v, hv, hsame⟩ := MultiValue.countedUnder_iff.mp hcounted.2
      have hfiled := (filedUnder_congr hlower hsame).mp ((h t ht).found v hv)
      exact (hc.opened_iff ht).mpr ⟨hfiled, hcounted.1⟩
    refine ⟨?_, hopened⟩
    -- the tracks counted have paths of their own, and each of them is opened
    have hnodup : ((c.allCachedTags.filter fun t => CountedUnder genre name t).map (·.src)).Nodup :=
      hc.nodup.sublist (List.filter_sublist.map _)
    rw [count_of_mem_creditedArtists hrow, List.countP_eq_length_filter,
      ← List.length_map (·.src)]
    refine (List.subperm_of_subset hnodup fun path hpath => ?_).length_le
    obtain ⟨t, ht, rfl⟩ := List.mem_map.mp hpath
    obtain ⟨ht, hcounted⟩ := List.mem_filter.mp ht
    exact hopened t ht (of_decide_eq_true hcounted)

end

/-! ## Two libraries -/

/-- A library of one track. -/
def oneTrack (t : CachedTags) : MetadataCache :=
  { MetadataCache.initial with
    validated := true, index := [t.src], tags := Table.empty.insert t.src t }

theorem oneTrack_whole (t : CachedTags) : WholeLibrary (oneTrack t) := by
  have hget : ∀ p, (oneTrack t).tags.get? p = if t.src = p then some t else none := by
    intro p
    rw [oneTrack, Table.get?_insert, Table.get?_empty]
  refine ⟨(MetadataCache.tagsComplete_iff _).mpr ⟨rfl, List.cons_ne_nil _ _, ?_⟩, ?_, ?_⟩
  · intro path hpath
    exact ⟨t, by rw [hget, if_pos (List.mem_singleton.mp hpath).symm]⟩
  · intro p t' h
    rw [hget] at h
    split at h
    · rename_i hp
      rw [← Option.some.inj h, hp]
    · simp at h
  · intro p t' h
    rw [hget] at h
    split at h
    · rename_i hp
      exact List.mem_singleton.mpr hp.symm
    · simp at h

theorem allCachedTags_oneTrack (t : CachedTags) : (oneTrack t).allCachedTags = [t] := by
  have hrows : (Table.empty.insert t.src t).rows = [(t.src, t)] := by
    have hperm := Table.rows_insert_perm Table.empty t.src t
    rwa [Table.erase_of_none (Table.get?_empty _), Table.rows_empty, List.perm_singleton] at hperm
  show (Table.rows _).map (·.2) = _
  rw [oneTrack, hrows]
  rfl

/-- A collaboration that is split into an artist and a guest. -/
def collaboration : CachedTags :=
  { src := "/duet.mp3", artist := "Tarja feat. Sharon", multiArtist := "Tarja\x00\x01Sharon\x00" }

/-- A track nobody split, shown under two names. -/
def shownTogether : CachedTags := { src := "/duet.mp3", artist := "Tarja; Sharon" }

/-- Both names of a split collaboration open onto it. -/
theorem rows_open_collaboration : RowsOpen asciiLower (oneTrack collaboration) :=
  (rows_open_iff (fun _ _ h => h) (oneTrack_whole collaboration)).mpr (by
    rw [allCachedTags_oneTrack]
    intro t ht
    obtain rfl := List.mem_singleton.mp ht
    exact ⟨by decide +kernel, by decide +kernel, by decide +kernel⟩)

/-- **A name of a track nobody split opens onto nothing.** -/
theorem row_opens_nothing :
    WholeLibrary (oneTrack shownTogether) ∧ ¬RowsOpen asciiLower (oneTrack shownTogether) := by
  refine ⟨oneTrack_whole shownTogether, fun h => ?_⟩
  have hrows := (oneTrack_whole shownTogether).genreRows
  rw [allCachedTags_oneTrack] at hrows
  have hrow : ("Tarja", 1) ∈ creditedArtists [BrowseRow.ofTags shownTogether] none := by
    decide +kernel
  have hlength : 1 ≤ ((oneTrack shownTogether).trackPathsWhere asciiLower
      { artist := some "Tarja" } none false).length :=
    (h _ hrows none "Tarja" 1 hrow).1
  revert hlength
  decide +kernel

end Mbrc.Cache
