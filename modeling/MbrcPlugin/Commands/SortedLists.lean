import MbrcPlugin.Commands.MediaV6
import MbrcPlugin.Library.Derived

/-!
# The order of the sorted lists

The lists of the media categories and of an album are sorted by `SortField::compare` and reversed
for a descending one, not by `SortField::order`.  So the original year puts the files without a year
first, and an album is sorted by what its walk carries, which is no album, year, rating or date: the
two lists are in the order asked for exactly when none of this shows (`sorted_lists_iff`).
-/

namespace Mbrc.MediaV6

open Cache LibraryV6 TrackV6 Comparator

section

variable (lower : String → String)

/-- The rows are in the order asked for. -/
def InOrder (field : SortField) (descending : Bool) (rows : List File) : Prop :=
  rows.Pairwise fun a b => field.order lower descending a.typed b.typed ≠ .gt

/-- A list in order has its pages in order. -/
theorem InOrder.slice {field : SortField} {descending : Bool} {rows : List File}
    (h : InOrder lower field descending rows) (offset limit : Nat) :
    InOrder lower field descending (slice rows offset limit) :=
  h.sublist ((List.take_sublist _ _).trans (List.drop_sublist _ _))

theorem slice_all {α : Type} (rows : List α) : LibraryV6.slice rows 0 0 = rows := by
  simp [LibraryV6.slice]

/-- The whole list is one of its pages. -/
theorem pages_inOrder_iff {field : SortField} {descending : Bool} {rows : List File} :
    (∀ offset limit, InOrder lower field descending (LibraryV6.slice rows offset limit)) ↔
      InOrder lower field descending rows :=
  ⟨fun h => slice_all rows ▸ h 0 0, fun h offset limit => h.slice lower offset limit⟩

/-! ## Dates -/

theorem yearOrZero_nonneg (raw : String) : 0 ≤ yearOrZero raw := by
  rw [yearOrZero_eq]
  cases hyear : parseYear raw with
  | none => exact le_rfl
  | some y =>
    have hrange := parseYear_range hyear
    rw [Option.getD_some]
    omega

theorem File.releaseYear_nonneg (file : File) : 0 ≤ file.typed.releaseYear := by
  obtain ⟨raw, typed, typed_eq⟩ := file
  obtain ⟨ms, -, htyped⟩ := Option.bind_eq_some_iff.mp typed_eq
  obtain rfl := Option.some.inj htyped
  change 0 ≤ if _ > 0 then _ else _
  split
  · rename_i hpos
    exact Int.le_of_lt hpos
  · exact yearOrZero_nonneg raw.year

/-- The file has no year to be placed by. -/
def File.undated (file : File) : Bool := SortField.originalYear.undated file.typed

theorem File.undated_eq_true {file : File} :
    file.undated = true ↔ file.typed.releaseYear = 0 := by
  simp [File.undated, SortField.undated, SortField.hasUndatedTail]

/-- `compare` puts a file without a year first. -/
theorem compare_of_undated {a b : File} (ha : a.undated = true) (hb : b.undated = false) :
    SortField.originalYear.compare lower a.typed b.typed = .lt := by
  have ha' := File.undated_eq_true.mp ha
  have hb' : b.typed.releaseYear ≠ 0 := fun h => by
    rw [File.undated_eq_true.mpr h] at hb
    cases hb
  have hlt : a.typed.releaseYear < b.typed.releaseYear := by
    have := b.releaseYear_nonneg
    omega
  have hyear : compareOn CachedTags.releaseYear a.typed b.typed = .lt := compare_lt_iff_lt.mpr hlt
  simp only [SortField.compare, thenTrack, compareLex, hyear, Ordering.then]

/-! ## The media lists -/

/-- Every rating that is sorted by is a number. -/
def Rated (field : SortField) (files : List File) : Prop :=
  field = .rating → ∀ file ∈ files, file.typed.rating ≠ none

theorem compare_lawful {field : SortField} {files : List File} (h : Rated field files) {a b : File}
    (ha : a ∈ files) (hb : b ∈ files) :
    via File.typed (field.compare lower) a b = via File.typed (compareRated lower field) a b := by
  cases field with
  | rating => exact compare_eq_compareRated lower (h rfl a ha) (h rfl b hb) .rating
  | _ => rfl

/-- Two files that the asked order and the reversed one place alike: with the original year they
both have a year or both have none, and without one they are tied where it is descending. -/
def PlacedAlike (field : SortField) (descending : Bool) (a b : File) : Prop :=
  field = .originalYear →
    if descending then
      a.undated = true → b.undated = true → field.compare lower a.typed b.typed = .eq
    else a.undated = b.undated

theorem placedAlike_iff {field : SortField} {files : List File} (h : Rated field files)
    (descending : Bool) {a b : File} (ha : a ∈ files) (hb : b ∈ files) :
    Sorted (via File.typed (field.compare lower)) (fun a b =>
        if descending then field.order lower true b.typed a.typed ≠ .gt
        else field.order lower false a.typed b.typed ≠ .gt) a b ↔
      PlacedAlike lower field descending a b := by
  have hswap : field.compare lower b.typed a.typed =
      (field.compare lower a.typed b.typed).swap := by
    have hab := compare_lawful lower h ha hb
    have hba := compare_lawful lower h hb ha
    unfold via at hab hba
    rw [hab, hba]
    exact Std.OrientedCmp.eq_swap
  have hundated : ∀ file : File, field.undated file.typed =
      (decide (field = .originalYear) && file.undated) := by
    intro file
    simp [SortField.undated, File.undated, SortField.hasUndatedTail]
  simp only [Sorted, via, PlacedAlike, SortField.order, directed, hundated, hswap]
  by_cases hfield : field = .originalYear
  · subst hfield
    cases hua : a.undated with
    | true =>
      cases hub : b.undated with
      | true =>
        cases SortField.originalYear.compare lower a.typed b.typed <;> cases descending <;> simp
      | false =>
        rw [compare_of_undated lower hua hub]
        cases descending <;> simp
    | false =>
      cases hub : b.undated with
      | true =>
        have hgt : SortField.originalYear.compare lower a.typed b.typed = .gt := by
          rw [compare_of_undated lower hub hua] at hswap
          cases hc : SortField.originalYear.compare lower a.typed b.typed <;> simp [hc] at hswap ⊢
        rw [hgt]
        cases descending <;> simp
      | false =>
        cases SortField.originalYear.compare lower a.typed b.typed <;> cases descending <;> simp
  · simp only [hfield, decide_false, Bool.false_and, false_implies, iff_true]
    cases field.compare lower a.typed b.typed <;> cases descending <;> simp

/-- **A media list** is in order exactly when its files are all placed alike. -/
theorem mediaRows_inOrder_iff {field : SortField} {files : List File} (h : Rated field files)
    (descending : Bool) :
    InOrder lower field descending (mediaRows lower files (some field) descending) ↔
      files.Pairwise (PlacedAlike lower field descending) := by
  have hlist := pairwise_reversed_iff (R := fun a b : File =>
    field.order lower descending a.typed b.typed ≠ .gt) (via File.typed (compareRated lower field))
    (fun _ ha _ hb => compare_lawful lower h ha hb) descending
  refine hlist.trans (List.Pairwise.iff_of_mem fun {a b} ha hb => ?_)
  rw [← placedAlike_iff lower h descending ha hb]
  cases descending <;> rfl

theorem mediaList_eq {media : MediaSource → Except String (List File)} {source : MediaSource}
    {data : Value} {files : List File} {filter : TrackFilter} {sort : Option SortField}
    {down : Bool} (hsort : sortField data = .ok sort) (hdown : descending data = .ok down)
    (hfiles : media source = .ok files) (hfilter : mediaFilter lower data = .ok filter) :
    mediaList lower media source data =
      .ok (mediaRows lower (selected lower filter files) sort down) := by
  unfold mediaList fromHost
  rw [hsort, hdown, hfiles, hfilter]
  rfl

/-! ## The list of an album -/

/-- What is sorted of an album: the records of its walk, which carry no more than that does. -/
def albumSelected (walk : List Track) (artist needle : Option String) : List CachedTags :=
  ((oneAlbum walk (choosesBetweenAlbums walk artist)).filter (answersQuery lower needle)).map
    Track.toTags

/-- Two tracks of an album that are shown as they were sorted: the one that the records of the walk
put first, or the walk itself where they tie, is not shown out of its turn. -/
def ShownAlike (details : String → File) (field : SortField) (descending : Bool) :
    CachedTags → CachedTags → Prop :=
  Sorted (field.compare lower) fun first second =>
    first.src ≠ "" → second.src ≠ "" →
      if descending then
        field.order lower true (details second.src).typed (details first.src).typed ≠ .gt
      else field.order lower false (details first.src).typed (details second.src).typed ≠ .gt

/-- The tracks of an album in the order they are shown in. -/
def albumShown (walk : List Track) (artist needle : Option String) (field : SortField)
    (descending : Bool) : List CachedTags :=
  let sorted := sortBy (field.compare lower) (albumSelected lower walk artist needle)
  if descending then sorted.reverse else sorted

theorem albumPage_eq {host : Host} {album : String} {walk : List Track}
    (hwalk : host.albumTracks album = .ok walk) (artist needle : Option String)
    (field : SortField) (descending : Bool) (offset limit : Nat) :
    albumPage lower host album artist needle (some field) descending offset limit =
      .ok ((albumShown lower walk artist needle field descending).length,
        LibraryV6.slice ((albumShown lower walk artist needle field descending).map CachedTags.src)
          offset limit) := by
  unfold albumPage fromHost
  rw [hwalk, ← @List.length_map _ _ (albumShown lower walk artist needle field descending)
    CachedTags.src]
  rfl

/-- The walk carries no rating, so its records are sorted by a lawful comparison. -/
theorem album_lawful {walk : List Track} {artist needle : Option String} {a b : CachedTags}
    (ha : a ∈ albumSelected lower walk artist needle)
    (hb : b ∈ albumSelected lower walk artist needle) (field : SortField) :
    field.compare lower a b = compareRated lower field a b := by
  obtain ⟨t, -, rfl⟩ := List.mem_map.mp ha
  obtain ⟨u, -, rfl⟩ := List.mem_map.mp hb
  exact compare_eq_compareRated lower (by simp [Track.toTags]) (by simp [Track.toTags]) field

theorem rowsOf_sublist (details : String → File) {paths paths' : List String}
    (h : List.Sublist paths paths') : List.Sublist (rowsOf details paths) (rowsOf details paths') :=
  (h.filter _).map _

/-- **The list of an album** is in order exactly when its tracks are all shown alike. -/
theorem albumPages_inOrder_iff {host : Host} {album : String} {walk : List Track}
    (hwalk : host.albumTracks album = .ok walk) (artist needle : Option String)
    (details : String → File) (field : SortField) (descending : Bool) :
    (∀ offset limit total paths,
        albumPage lower host album artist needle (some field) descending offset limit =
          .ok (total, paths) → InOrder lower field descending (rowsOf details paths)) ↔
      (albumSelected lower walk artist needle).Pairwise
        (ShownAlike lower details field descending) := by
  have hpage := albumPage_eq lower hwalk artist needle field descending
  have hlist := pairwise_reversed_iff (R := fun a b : CachedTags => a.src ≠ "" → b.src ≠ "" →
      field.order lower descending (details a.src).typed (details b.src).typed ≠ .gt)
    (compareRated lower field)
    (fun a (ha : a ∈ albumSelected lower walk artist needle) b hb =>
      album_lawful lower ha hb field) descending
  have hall : InOrder lower field descending (rowsOf details
      ((albumShown lower walk artist needle field descending).map CachedTags.src)) ↔
      (albumSelected lower walk artist needle).Pairwise
        (ShownAlike lower details field descending) := by
    rw [InOrder, rowsOf, List.pairwise_map, List.pairwise_filter, List.pairwise_map]
    simp only [decide_eq_true_eq]
    refine hlist.trans (List.Pairwise.iff fun {a b} => ?_)
    unfold ShownAlike
    cases descending with
    | true =>
      unfold Sorted
      split <;> exact Imp.swap
    | false => rfl
  rw [← hall]
  constructor
  · intro h
    have hwhole := h 0 0 _ _ (hpage 0 0)
    rwa [slice_all] at hwhole
  · intro h offset limit total paths hanswer
    rw [hpage offset limit] at hanswer
    obtain ⟨-, rfl⟩ := Prod.mk.inj (Except.ok.inj hanswer)
    exact h.sublist (rowsOf_sublist details
      ((List.take_sublist _ _).trans (List.drop_sublist _ _)))

/-- **The sorted lists.**  A list of `media_tracks` is in the order asked for, page by page, exactly
when its files are placed alike by it and by the reversed `compare`, and the list of an album in
`library_tracks` exactly when its tracks are shown as their walk has them sorted. -/
theorem sorted_lists_iff {media : MediaSource → Except String (List File)} {source : MediaSource}
    {data : Value} {field : SortField} {down : Bool} {files : List File} {filter : TrackFilter}
    {host : Host} {album : String} {walk : List Track} (artist needle : Option String)
    (details : String → File) (hsort : sortField data = .ok (some field))
    (hdown : descending data = .ok down) (hfiles : media source = .ok files)
    (hfilter : mediaFilter lower data = .ok filter)
    (hrated : Rated field (selected lower filter files))
    (hwalk : host.albumTracks album = .ok walk) :
    ((∀ rows, mediaList lower media source data = .ok rows →
        ∀ offset limit, InOrder lower field down (LibraryV6.slice rows offset limit)) ↔
      (selected lower filter files).Pairwise (PlacedAlike lower field down)) ∧
    ((∀ offset limit total paths,
        albumPage lower host album artist needle (some field) down offset limit =
          .ok (total, paths) → InOrder lower field down (rowsOf details paths)) ↔
      (albumSelected lower walk artist needle).Pairwise (ShownAlike lower details field down)) := by
  refine ⟨?_, albumPages_inOrder_iff lower hwalk artist needle details field down⟩
  rw [← mediaRows_inOrder_iff lower hrated down, ← pages_inOrder_iff,
    mediaList_eq lower hsort hdown hfiles hfilter]
  exact ⟨fun h => h _ rfl, fun h rows hrows => Except.ok.inj hrows ▸ h⟩

end

/-! ## Two videos and an album -/

instance (lower : String → String) (field : SortField) (descending : Bool) (rows : List File) :
    Decidable (InOrder lower field descending rows) := by
  unfold InOrder
  infer_instance

instance (lower : String → String) (field : SortField) (descending : Bool) :
    DecidableRel (PlacedAlike lower field descending) := by
  unfold PlacedAlike
  infer_instance

instance (lower : String → String) (details : String → File) (field : SortField)
    (descending : Bool) : DecidableRel (ShownAlike lower details field descending) := by
  unfold ShownAlike Sorted
  infer_instance

/-- A file of the year. -/
def filed (src year : String) (h : ({ src, year : TrackTags }).toCached.isSome) : File :=
  ⟨{ src, year }, _, Option.some_get h |>.symm⟩

def undatedVideo : File := filed "a.mp4" "" (by decide +kernel)

def datedVideo : File := filed "b.mp4" "1999" (by decide +kernel)

def byOriginalYear (order : String) : Value :=
  .object [("source", .string "videos"), ("sort", .string "original_year"),
    ("order", .string order)]

/-- What the host knows of two tracks. -/
def trackDetails (src : String) : File :=
  if src = "1.mp3" then filed "1.mp3" "2001" (by decide +kernel)
  else filed "2.mp3" "1999" (by decide +kernel)

def walked (first second : Int) : List Track :=
  [{ src := "1.mp3", trackno := first }, { src := "2.mp3", trackno := second }]

def twoVideos : MediaSource → Except String (List File) :=
  fun _ => .ok [undatedVideo, datedVideo]

def albumHost (walk : List Track) : Host where
  albumTracks := fun _ => .ok walk
  artistAlbums := fun _ => .ok []
  genreTracks := fun _ => .ok []
  trackPaths := .ok []
  excludedPaths := .ok []

/-- Newest first: the video without a year is last, and so is the older track, which its number
puts first. -/
theorem sorted_lists_of_newest :
    (∀ rows, mediaList id twoVideos .videos (byOriginalYear "desc") = .ok rows →
      ∀ offset limit, InOrder id .originalYear true (LibraryV6.slice rows offset limit)) ∧
    (∀ offset limit total paths,
      albumPage id (albumHost (walked 2 1)) "X" none none (some .originalYear) true offset limit =
        .ok (total, paths) → InOrder id .originalYear true (rowsOf trackDetails paths)) := by
  have hlists := @sorted_lists_iff id twoVideos .videos (byOriginalYear "desc") .originalYear true
    [undatedVideo, datedVideo] { } (albumHost (walked 2 1)) "X" (walked 2 1) none none trackDetails
    rfl rfl rfl rfl (fun h => by cases h) rfl
  exact ⟨hlists.1.mpr (by decide +kernel), hlists.2.mpr (by decide +kernel)⟩

/-- Oldest first, the video without a year comes before the one of 1999, and an album sorted by
year has its track of 2001 before that of 1999. -/
theorem sorted_lists_out_of_order :
    (∃ rows, mediaList id twoVideos .videos (byOriginalYear "asc") = .ok rows ∧
      ¬ InOrder id .originalYear false (LibraryV6.slice rows 0 0)) ∧
    (∃ total paths,
      albumPage id (albumHost (walked 1 2)) "X" none none (some .year) false 0 0 =
        .ok (total, paths) ∧ ¬ InOrder id .year false (rowsOf trackDetails paths)) := by
  refine ⟨⟨_, @mediaList_eq id _ _ _ [undatedVideo, datedVideo] { } _ _
      rfl rfl rfl rfl, ?_⟩,
    ⟨_, _, @albumPage_eq id _ _ (walked 1 2) rfl none none .year false 0 0, ?_⟩⟩
  · decide +kernel
  · decide +kernel

end Mbrc.MediaV6
