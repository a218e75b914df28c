import Mathlib.Algebra.GroupWithZero.Nat
import MbrcPlugin.Library.TrackFilter

/-!
# The counts of the genres

A row of the genre list is a name and a number; opening it shows the tracks a filter for that name
admits, or the artists with tracks there.  The counting splits the field and keys its values in
lower case, the filter splits it again and compares without regard to case, and the artists are
tallied by their exact name: the three agree for every text (`genre_counts_open`).
-/

namespace Mbrc

open Text

/-! ## Lower case and white space -/

theorem isWhiteSpace_toLower (c : Char) : isWhiteSpace c.toLower = isWhiteSpace c := by
  by_cases hascii : c.toNat < 128
  · have hall : ∀ n < 128, isWhiteSpace (Char.ofNat n).toLower = isWhiteSpace (Char.ofNat n) := by
      decide +kernel
    have hc := hall c.toNat hascii
    rwa [Char.ofNat_toNat] at hc
  · have hsame : c.toLower = c := by
      refine dif_neg fun h => hascii ?_
      have hhigh : c.toNat ≤ 90 := h.2
      omega
    rw [hsame]

theorem trimStart_toLower (s : List Char) :
    trimStart (s.map Char.toLower) = (trimStart s).map Char.toLower := by
  simp only [trimStart, List.dropWhile_map]
  congr 2
  funext c
  exact isWhiteSpace_toLower c

/-- Trimming and lower case do not see each other. -/
theorem trim_asciiLower (s : String) : trim (asciiLower s) = asciiLower (trim s) := by
  simp only [trim, asciiLower, String.toList_ofList, trimStart_toLower, ← List.map_reverse]

namespace MultiValue

/-! ## Counting and holding -/

theorem trim_of_mem_values {raw value : String} (h : value ∈ values raw) : trim value = value := by
  obtain ⟨part, -, rfl⟩ := List.mem_map.mp (List.mem_filter.mp h).1
  exact trim_trim _

theorem trim_of_mem_fieldValues {raw value : String} (h : value ∈ fieldValues raw) :
    trim value = value := by
  unfold fieldValues at h
  split at h
  · obtain rfl := List.mem_singleton.mp h
    rfl
  · exact trim_of_mem_values h

/-- A key is lower case already and has no white space around it. -/
theorem trim_of_mem_keys {raw key : String} (h : key ∈ keys raw) : trim key = key := by
  obtain ⟨value, hvalue, rfl⟩ := List.mem_map.mp h
  rw [trim_asciiLower, trim_of_mem_fieldValues hvalue]

/-- **The empty name** counts and filters the fields without values. -/
theorem countedUnder_empty {name raw : String} (hname : asciiLower name = "") :
    CountedUnder name raw ↔ values raw = [] := by
  rw [countedUnder_iff, hname]
  unfold fieldValues
  constructor
  · rintro ⟨value, hvalue, hlower⟩
    by_contra hsome
    rw [if_neg hsome] at hvalue
    exact ne_empty_of_mem_values hvalue (asciiLower_eq_empty.mp hlower)
  · intro hnone
    exact ⟨"", by simp [hnone], rfl⟩

/-- Any other name counts and filters the fields with a value of that name. -/
theorem countedUnder_of_ne_empty {name raw : String} (hname : asciiLower name ≠ "") :
    CountedUnder name raw ↔ ∃ value ∈ values raw, asciiLower value = asciiLower name := by
  rw [countedUnder_iff]
  unfold fieldValues
  split
  · rename_i hnone
    simp only [hnone, List.mem_singleton, List.not_mem_nil, false_and, exists_false, iff_false]
    rintro ⟨value, rfl, hlower⟩
    exact hname hlower.symm
  · rfl

/-- **Opening what was counted**: for a name whose key is trimmed, a field holds the name exactly
if it is counted under it. -/
theorem holds_iff_countedUnder {name raw : String}
    (htrim : trim (asciiLower name) = asciiLower name) :
    holds raw name = true ↔ CountedUnder name raw := by
  have hlower : asciiLower (trim name) = asciiLower name := by rw [← trim_asciiLower, htrim]
  unfold holds
  split
  · rename_i hempty
    rw [hempty] at hlower
    rw [decide_eq_true_eq, countedUnder_empty hlower.symm]
  · rename_i hne
    have hname : asciiLower name ≠ "" := fun h => hne (asciiLower_eq_empty.mp (hlower.trans h))
    rw [List.any_eq_true, countedUnder_of_ne_empty hname]
    simp only [sameName_iff, hlower]

/-- Each row of the counts has a field that named it. -/
theorem exists_mem_keys {fields : List String} {key : String} {tally : Tally}
    (hget : (byKey fields).get? key = some tally) : ∃ raw ∈ fields, key ∈ keys raw := by
  induction fields using List.reverseRecOn generalizing tally with
  | nil => simp [byKey] at hget
  | append_singleton fields raw ih =>
    rw [byKey, List.foldl_append, List.foldl_cons, List.foldl_nil, ← byKey] at hget
    have hfield := get?_countField (byKey fields) raw key
    split at hfield
    · rename_i hkey
      exact ⟨raw, by simp, hkey⟩
    · rw [hfield] at hget
      obtain ⟨old, hold, hkey⟩ := ih hget
      exact ⟨old, by simp [hold], hkey⟩

theorem trim_name_of_mem_counts {fields : List String} {name : String} {n : Nat}
    (h : (name, n) ∈ counts fields) : trim (asciiLower name) = asciiLower name := by
  obtain ⟨key, tally, hget, rfl, rfl⟩ := mem_counts.mp h
  obtain ⟨raw, -, hkey⟩ := exists_mem_keys hget
  rw [(tallied_byKey fields).name hget]
  exact trim_of_mem_keys hkey

/-- A row counts the fields that hold its name. -/
theorem countP_holds_of_mem_counts {fields : List String} {name : String} {n : Nat}
    (h : (name, n) ∈ counts fields) : (fields.countP fun raw => holds raw name) = n := by
  rw [count_of_mem_counts h]
  refine List.countP_congr fun raw _ => ?_
  rw [holds_iff_countedUnder (trim_name_of_mem_counts h), decide_eq_true_eq]

/-- The names of the rows differ, case aside. -/
theorem nodup_names_counts (fields : List String) :
    ((counts fields).map fun row => asciiLower row.1).Nodup := by
  have hperm := (Comparator.sortBy_perm byName ((byKey fields).rows.map fun row =>
    (row.2.name, row.2.count))).map fun row => asciiLower row.1
  rw [counts, hperm.nodup_iff, List.map_map]
  have hkeys : (byKey fields).rows.map ((fun row => asciiLower row.1) ∘ fun row =>
      (row.2.name, row.2.count)) = (byKey fields).rows.map Prod.fst := by
    refine List.map_congr_left fun row hrow => ?_
    exact (tallied_byKey fields).name (Table.mem_rows.mp (by simpa using hrow))
  rw [hkeys]
  exact Table.keys_nodup _

end MultiValue

namespace Cache

/-! ## The artists of a genre -/

/-- Counts one track for its artist, as spelled. -/
def countArtist (counts : Table String Nat) (row : BrowseRow) : Table String Nat :=
  counts.insert row.artist ((counts.get? row.artist).getD 0 + 1)

/-- `genre_artists`. -/
def genreArtists (lower : String → String) (rows : List BrowseRow) (genre : String) :
    List (String × Nat) :=
  Comparator.sortBy
    (compareLex (compareOn fun row : String × Nat => lower row.1) (compareOn Prod.fst))
    ((ofGenre (some genre) rows).foldl countArtist .empty).rows

example : genreArtists asciiLower
    [{ genre := "Rock", artist := "b", credited := [], album := "", albumOwner := "" },
     { genre := "rock; Jazz", artist := "A", credited := [], album := "", albumOwner := "" },
     { genre := "Jazz", artist := "A", credited := [], album := "", albumOwner := "" }] "ROCK" =
    [("A", 1), ("b", 1)] := by
  decide +kernel

theorem sum_countArtist (counts : Table String Nat) (row : BrowseRow) :
    ((countArtist counts row).rows.map Prod.snd).sum = (counts.rows.map Prod.snd).sum + 1 := by
  have hnew := (Table.rows_insert_perm counts row.artist
    ((counts.get? row.artist).getD 0 + 1)).map Prod.snd
  rw [countArtist, hnew.sum_nat, List.map_cons, List.sum_cons]
  cases hget : counts.get? row.artist with
  | none =>
    rw [Table.erase_of_none hget, Option.getD_none]
    omega
  | some n =>
    rw [((Table.rows_perm_of_get? hget).map Prod.snd).sum_nat, List.map_cons, List.sum_cons,
      Option.getD_some]
    omega

theorem sum_foldl_countArtist (rows : List BrowseRow) (counts : Table String Nat) :
    ((rows.foldl countArtist counts).rows.map Prod.snd).sum =
      (counts.rows.map Prod.snd).sum + rows.length := by
  induction rows generalizing counts with
  | nil => rfl
  | cons row rows ih =>
    rw [List.foldl_cons, ih, sum_countArtist, List.length_cons]
    omega

/-- Every track of the genre is counted for one artist. -/
theorem sum_genreArtists (lower : String → String) (rows : List BrowseRow) (genre : String) :
    ((genreArtists lower rows genre).map Prod.snd).sum =
      rows.countP fun row => MultiValue.holds row.genre genre := by
  have hperm := (Comparator.sortBy_perm
    (compareLex (compareOn fun row : String × Nat => lower row.1) (compareOn Prod.fst))
    ((ofGenre (some genre) rows).foldl countArtist .empty).rows).map Prod.snd
  rw [genreArtists, hperm.sum_nat, sum_foldl_countArtist, List.countP_eq_length_filter]
  simp [ofGenre]

/-! ## The result -/

section

variable (lower : String → String)

/-- What opening a genre shows: a filter for nothing else. -/
def TrackFilter.ofGenre (genre : String) : TrackFilter := { genre := some genre }

theorem TrackFilter.admits_ofGenre (genre : String) (track : CachedTags) (path : String) :
    (TrackFilter.ofGenre genre).admits lower (some track) path =
      MultiValue.holds track.genre genre := by
  simp [TrackFilter.ofGenre, TrackFilter.admits]

namespace MetadataCache

/-- The tracks a filter lists are the indexed ones it admits, in some order. -/
theorem length_trackPathsWhere (c : MetadataCache) (filter : TrackFilter)
    (sort : Option SortField) (descending : Bool) :
    (c.trackPathsWhere lower filter sort descending).length =
      c.trackPaths.countP fun path => filter.admits lower (c.tags.get? path) path := by
  have hmatched : (c.matched lower filter).length =
      c.trackPaths.countP fun path => filter.admits lower (c.tags.get? path) path := by
    rw [matched, List.length_map, List.countP_eq_length_filter]
  unfold trackPathsWhere
  rw [← hmatched, List.length_map]
  cases sort with
  | none => exact (Comparator.sortBy_perm _ _).length_eq
  | some field =>
    exact (Comparator.sortBy_perm _ _).length_eq.trans (Comparator.sortBy_perm _ _).length_eq

/-- With the tags of just the indexed files, a genre lists the tracks whose tags are admitted. -/
theorem length_trackPathsWhere_ofGenre {c : MetadataCache} (hvalid : c.validated = true)
    (hindex : c.index.Perm (c.tags.rows.map Prod.fst)) (genre : String)
    (sort : Option SortField) (descending : Bool) :
    (c.trackPathsWhere lower (.ofGenre genre) sort descending).length =
      c.allCachedTags.countP fun t => MultiValue.holds t.genre genre := by
  rw [length_trackPathsWhere, trackPaths, if_pos hvalid, allCachedTags, if_pos hvalid,
    hindex.countP_eq, List.countP_map, List.countP_map]
  refine List.countP_congr fun row hrow => ?_
  have hget : c.tags.get? row.1 = some row.2 := Table.mem_rows.mp (by simpa using hrow)
  simp only [Function.comp_apply, hget, TrackFilter.admits_ofGenre]

end MetadataCache

/-- **A genre's count matches what opening it shows.** Once every track has its tags, the number of
a row is the number of tracks the filter for its name admits, which are the tracks listed where
tags are cached for just the indexed files, and the numbers of the genre's artists add up to it.
Every value of a genre field, and the lack of one, is the name of one row, case aside. -/
theorem genre_counts_open (c : MetadataCache) (rows : List BrowseRow)
    (hrows : c.genreRows = some rows) :
    (∀ genre n, (genre, n) ∈ genreCounts rows →
      (c.allCachedTags.countP fun t =>
        (TrackFilter.ofGenre genre).admits lower (some t) t.src) = n ∧
      ((genreArtists lower rows genre).map Prod.snd).sum = n ∧
      (c.index.Perm (c.tags.rows.map Prod.fst) → ∀ sort descending,
        (c.trackPathsWhere lower (.ofGenre genre) sort descending).length = n)) ∧
    (∀ t ∈ c.allCachedTags, ∀ value ∈ MultiValue.fieldValues t.genre,
      ∃ genre n, (genre, n) ∈ genreCounts rows ∧ asciiLower genre = asciiLower value ∧
        (TrackFilter.ofGenre genre).admits lower (some t) t.src = true) ∧
    ((genreCounts rows).map fun row => asciiLower row.1).Nodup := by
  have hcomplete : c.tagsComplete = true := by
    by_contra h
    simp [MetadataCache.genreRows, h] at hrows
  have hall : rows = c.allCachedTags.map BrowseRow.ofTags := by
    rw [MetadataCache.genreRows, if_pos hcomplete] at hrows
    exact (Option.some.inj hrows).symm
  have hgenres : rows.map (·.genre) = c.allCachedTags.map (·.genre) := by
    rw [hall, List.map_map]
    rfl
  have hvalid : c.validated = true := (c.tagsComplete_iff.mp hcomplete).1
  simp only [genreCounts, TrackFilter.admits_ofGenre]
  refine ⟨fun genre n hrow => ?_, fun t ht value hvalue => ?_, MultiValue.nodup_names_counts _⟩
  · have hcount := MultiValue.countP_holds_of_mem_counts hrow
    rw [hgenres, List.countP_map] at hcount
    refine ⟨hcount, ?_, fun hindex sort descending => ?_⟩
    · rw [sum_genreArtists, hall, List.countP_map]
      exact hcount
    · rw [MetadataCache.length_trackPathsWhere_ofGenre lower hvalid hindex]
      exact hcount
  · have hmem : t.genre ∈ rows.map (·.genre) := by
      rw [hgenres]
      exact List.mem_map_of_mem ht
    obtain ⟨genre, n, hrow, hname⟩ := MultiValue.exists_mem_counts hmem hvalue
    refine ⟨genre, n, hrow, hname, ?_⟩
    rw [MultiValue.holds_iff_countedUnder (MultiValue.trim_name_of_mem_counts hrow),
      MultiValue.countedUnder_iff]
    exact ⟨value, hvalue, hname.symm⟩

end

/-- A file that names its genre twice, and one that spells it in lower case. -/
def spelledTwice : MetadataCache :=
  { MetadataCache.initial with
    validated := true, index := ["b", "a"]
    tags := (Table.empty.insert "a" { src := "a", genre := "Rock; ROCK", artist := "Air" }).insert
      "b" { src := "b", genre := " rock ;", artist := "air" } }

theorem genre_counts_open_spelledTwice :
    (spelledTwice.trackPathsWhere asciiLower (.ofGenre "Rock") none false).length = 2 ∧
      ((genreArtists asciiLower (spelledTwice.allCachedTags.map BrowseRow.ofTags) "Rock").map
        Prod.snd).sum = 2 := by
  have hcomplete : spelledTwice.tagsComplete = true := by decide +kernel
  have hrows : spelledTwice.genreRows =
      some (spelledTwice.allCachedTags.map BrowseRow.ofTags) := if_pos hcomplete
  have hrow : ("Rock", 2) ∈ genreCounts (spelledTwice.allCachedTags.map BrowseRow.ofTags) := by
    decide +kernel
  have hindex : spelledTwice.index.Perm (spelledTwice.tags.rows.map Prod.fst) := by
    decide +kernel
  obtain ⟨-, hartists, hshown⟩ := (genre_counts_open asciiLower _ _ hrows).1 _ _ hrow
  exact ⟨hshown hindex none false, hartists⟩

end Cache

end Mbrc
