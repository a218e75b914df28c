import MbrcPlugin.Library.ChangeLogCounts
import MbrcPlugin.Library.MediaLibrary

/-!
# The reported files outside the music library

The scanner files what MusicBee reported in the music library's change log, and hands the files
that it takes for the media categories' to `files_changed`.  It tells them apart by the music
library as it stood before the pass, so a file that an edit takes out of the music library is handed
to neither, and a category drops a file that left it only where some other reported file has no
category.  That is all that goes wrong (`finds_home_iff`).
-/

namespace Mbrc.MediaSplit

open ChangeLog MediaLibrary
open MediaV6 (MediaSource)

/-! ## Reports -/

/-- What a pass has to apply. -/
structure Reported where
  relist : Bool := false
  unnamedEdit : Bool := false
  tagged : List Path := []
  rated : List Path := []
  moved : List Path := []
  /-- A file that was added or removed has the library listed. -/
  relists_moved : moved ≠ [] → relist = true := by intro h; exact absurd rfl h

namespace Reported

variable (r : Reported)

/-- `membership_changed`. -/
def membershipChanged (path : Option Path) : Reported :=
  { r with relist := true, moved := r.moved ++ path.toList, relists_moved := fun _ => rfl }

/-- `tags_changed`. -/
def tagsChanged : Option Path → Reported
  | some path => { r with tagged := r.tagged ++ [path] }
  | none => { r with relist := true, unnamedEdit := true, relists_moved := fun _ => rfl }

/-- `rating_changed`. -/
def ratingChanged (path : Path) : Reported := { r with rated := r.rated ++ [path] }

def isEmpty : Bool := !r.relist && r.tagged.isEmpty && r.rated.isEmpty

/-- Whether the pass lists the library. -/
def relists : Bool := r.relist || !r.tagged.isEmpty

/-- The edited files, sorted and without repeats. -/
def edited : List Path := sortDedup (r.tagged ++ r.rated)

/-- Every file of the batch. -/
def named : List Path := r.tagged ++ r.rated ++ r.moved

end Reported

/-! ## The pass -/

variable {τ : Type}

/-- What the pass reads and writes. -/
structure Cache (τ : Type) where
  validated : Bool
  log : ChangeLog
  consistent : log.Consistent
  media : Store τ

namespace Cache

variable (c : Cache τ)

def inLibrary (paths : List Path) : List Path := if c.validated then c.log.liveAmong paths else []

/-- `record_changes`. -/
def recordChanges (epoch : Epoch) (paths : Option (List Path)) (updated : List Path) : Cache τ :=
  if c.validated then
    { c with
      log := (c.log.record epoch paths updated).1
      consistent := record_consistent c.consistent epoch paths updated }
  else c

/-- `relist_library`, as far as the log goes: `listing` is the answer to `track_paths`. -/
def relistLibrary (epoch : Epoch) (listing : Option (List Path)) (edited : List Path) : Cache τ :=
  c.recordChanges epoch listing edited

/-- `file_reported_edits`. -/
def fileReportedEdits (epoch : Epoch) (paths : List Path) : Cache τ :=
  if paths = [] then c else c.recordChanges epoch none paths

/-- The pass over the music library. -/
def musicPass (r : Reported) (epoch : Epoch) (listing : Option (List Path)) : Cache τ :=
  if r.relists then c.relistLibrary epoch listing r.edited else c.fileReportedEdits epoch r.edited

end Cache

/-- `MediaSplit`. -/
structure Split where
  validated : Bool
  /-- Edits to files the music library did not hold. -/
  edited : List Path
  /-- Adds and removals the music library did not hold before the pass. -/
  moved : List Path

/-- `before_pass`. -/
def beforePass (c : Cache τ) (r : Reported) : Split :=
  let edited := r.tagged ++ r.rated
  if !c.validated then { validated := false, edited, moved := r.moved }
  else
    let inMusic := c.inLibrary (edited ++ r.moved)
    { validated := true
      edited := edited.filter (· ∉ inMusic)
      moved := r.moved.filter (· ∉ inMusic) }

/-- `outside`: the files for the media categories. -/
def Split.outside (split : Split) (c : Cache τ) : List Path :=
  let moved :=
    if split.validated then
      let inMusic := c.inLibrary split.moved
      split.moved.filter (· ∉ inMusic)
    else split.moved
  split.edited ++ moved

/-- `apply_reported_now`, under the reconcile guard. -/
def applyReportedNow (walk : Walk) (c : Cache τ) (r : Reported) (epoch : Epoch)
    (listing : Option (List Path)) : Cache τ :=
  if r.isEmpty then c
  else
    let split := if c.media.listings.holdsListings then some (beforePass c r) else none
    let c := c.musicPass r epoch listing
    match split with
    | some split => { c with media := c.media.filesChanged walk (split.outside c) }
    | none => c

/-! ## What is promised -/

/-- In the music library, as last listed. -/
def Cache.InMusic (c : Cache τ) (p : Path) : Prop := p ∈ c.inLibrary [p]

/-- The change log has the file under the generation of this pass. -/
def Filed (c c' : Cache τ) (p : Path) : Prop :=
  c'.log.trackChanges.get? p = some (c.log.generation + 1, true)

/-- Every reported file finds its home: `host` are the categories' files after the edits, which the
media task reads of the categories it is asked to list. -/
structure FindsHome (walk : Walk) (c : Cache τ) (r : Reported) (epoch : Epoch)
    (listing : Option (List Path)) (arcs : MediaSource → Nat) (host : MediaSource → List Path) :
    Prop where
  /-- A file outside the music library is handed to the media categories. -/
  media : c.media.listings.holdsListings = true → ∀ p ∈ r.named,
    ¬ (applyReportedNow walk c r epoch listing).InMusic p →
      p ∈ (beforePass c r).outside (c.musicPass r epoch listing)
  /-- An edited file that is in it is filed in the change log. -/
  edits : ∀ p ∈ r.tagged ++ r.rated, (applyReportedNow walk c r epoch listing).InMusic p →
    Filed c (applyReportedNow walk c r epoch listing) p
  /-- And so is one that joined it. -/
  joins : ∀ p ∈ r.named, (applyReportedNow walk c r epoch listing).InMusic p →
    c.InMusic p ∨ Filed c (applyReportedNow walk c r epoch listing) p
  /-- No listing keeps a file that moved out of it. -/
  listings : ∀ p ∈ r.named, ∀ s,
    ((applyReportedNow walk c r epoch listing).media.relisted arcs host).Holds s p → p ∈ host s

/-! ## When it holds -/

/-- In the music library once the pass is through. -/
def StaysMusic (c : Cache τ) (r : Reported) (listing : Option (List Path)) (p : Path) : Prop :=
  c.validated = true ∧
    match (if r.relists then listing else none) with
    | some paths => p ∈ paths
    | none => c.log.IsLive p

/-- The reported file is outside the music library before the pass, and after it where it was added
or removed; and no category lists it. -/
def Unplaced (c : Cache τ) (r : Reported) (listing : Option (List Path)) (p : Path) : Prop :=
  ¬ c.InMusic p ∧ (p ∈ r.tagged ++ r.rated ∨ p ∈ r.moved ∧ ¬ StaysMusic c r listing p) ∧
    ∀ s, ¬ c.media.listings.Holds s p

/-- Once some category is listed, no reported file leaves the music library; and none leaves a
category that is not listed again. -/
structure Placed (c : Cache τ) (r : Reported) (listing : Option (List Path))
    (host : MediaSource → List Path) : Prop where
  stays : c.media.listings.holdsListings = true → ∀ p ∈ r.named, c.InMusic p →
    StaysMusic c r listing p
  listed : ∀ p ∈ r.named, ∀ s, c.media.listings.Holds s p → p ∉ host s →
    c.media.pending.relist s = true ∨ ∃ q ∈ r.named, Unplaced c r listing q

/-! ## The log after the pass -/

theorem inMusic_iff {c : Cache τ} {p : Path} :
    c.InMusic p ↔ c.validated = true ∧ c.log.IsLive p := by
  unfold Cache.InMusic Cache.inLibrary
  split
  · rename_i hv
    rw [mem_liveAmong]
    simp [hv]
  · rename_i hv
    simp [hv]

theorem mem_inLibrary {c : Cache τ} {paths : List Path} {p : Path} :
    p ∈ c.inLibrary paths ↔ p ∈ paths ∧ c.InMusic p := by
  rw [inMusic_iff]
  unfold Cache.inLibrary
  split
  · rename_i hv
    rw [mem_liveAmong]
    simp [hv]
  · rename_i hv
    simp [hv]

theorem musicPass_validated (c : Cache τ) (r : Reported) (epoch : Epoch)
    (listing : Option (List Path)) : (c.musicPass r epoch listing).validated = c.validated := by
  unfold Cache.musicPass Cache.relistLibrary Cache.fileReportedEdits Cache.recordChanges
  split <;> split <;> first | rfl | (split <;> rfl)

theorem musicPass_media (c : Cache τ) (r : Reported) (epoch : Epoch)
    (listing : Option (List Path)) : (c.musicPass r epoch listing).media = c.media := by
  unfold Cache.musicPass Cache.relistLibrary Cache.fileReportedEdits Cache.recordChanges
  split <;> split <;> first | rfl | (split <;> rfl)

/-- What the music library is once the pass is through. -/
theorem musicPass_inMusic (c : Cache τ) (r : Reported) (epoch : Epoch)
    (listing : Option (List Path)) (p : Path) :
    (c.musicPass r epoch listing).InMusic p ↔ StaysMusic c r listing p := by
  rw [inMusic_iff, musicPass_validated, StaysMusic]
  refine and_congr_right fun hv => ?_
  unfold Cache.musicPass Cache.relistLibrary Cache.fileReportedEdits Cache.recordChanges
  cases hrelists : r.relists with
  | true =>
    rw [if_pos rfl, if_pos rfl, if_pos hv]
    cases listing with
    | some paths => exact record_live c.consistent epoch paths r.edited p
    | none => exact record_none_isLive c.consistent epoch r.edited p
  | false =>
    rw [if_neg Bool.false_ne_true, if_neg Bool.false_ne_true]
    split
    · exact Iff.rfl
    · exact record_none_isLive c.consistent epoch r.edited p

/-! ## What is handed over -/

/-- The files that are handed to the media categories. -/
theorem mem_outside {c : Cache τ} {r : Reported} {epoch : Epoch} {listing : Option (List Path)}
    {p : Path} :
    p ∈ (beforePass c r).outside (c.musicPass r epoch listing) ↔
      ¬ c.InMusic p ∧ (p ∈ r.tagged ++ r.rated ∨ p ∈ r.moved ∧ ¬ StaysMusic c r listing p) := by
  unfold beforePass
  cases hv : c.validated with
  | false =>
    have hin : ¬ c.InMusic p := fun h => by
      rw [inMusic_iff, hv] at h
      cases h.1
    have hstays : ¬ StaysMusic c r listing p := fun h => by
      rw [StaysMusic, hv] at h
      cases h.1
    simp [Split.outside, hin, hstays, or_assoc]
  | true =>
    simp only [Split.outside, Bool.not_true, Bool.false_eq_true, if_false, if_true, List.mem_append,
      List.mem_filter, decide_eq_true_eq, mem_inLibrary, musicPass_inMusic]
    tauto

theorem holdsListings_iff {l : Listings τ} : l.holdsListings = true ↔ ∃ s, (l s).isSome = true := by
  unfold Listings.holdsListings
  rw [List.any_eq_true]
  exact exists_congr fun s => and_iff_right (mem_allSources s)

/-! ## The whole pass -/

theorem applyReportedNow_log (walk : Walk) (c : Cache τ) {r : Reported} (epoch : Epoch)
    (listing : Option (List Path)) (h : r.isEmpty = false) :
    (applyReportedNow walk c r epoch listing).log = (c.musicPass r epoch listing).log ∧
      (applyReportedNow walk c r epoch listing).validated = c.validated := by
  rw [← musicPass_validated c r epoch listing]
  unfold applyReportedNow
  rw [if_neg (by simp [h])]
  dsimp only
  split <;> exact ⟨rfl, rfl⟩

/-- A batch that is nothing names no file. -/
theorem named_of_isEmpty {r : Reported} (h : r.isEmpty = true) : r.named = [] := by
  simp only [Reported.isEmpty, Bool.and_eq_true, Bool.not_eq_true', List.isEmpty_iff] at h
  obtain ⟨⟨hrelist, htagged⟩, hrated⟩ := h
  have hmoved : r.moved = [] := by
    by_contra hne
    rw [r.relists_moved hne] at hrelist
    cases hrelist
  rw [Reported.named, htagged, hrated, hmoved]
  rfl

theorem nonempty_of_named {r : Reported} {p : Path} (hp : p ∈ r.named) : r.isEmpty = false := by
  rw [← Bool.not_eq_true]
  intro hempty
  rw [named_of_isEmpty hempty] at hp
  cases hp

theorem applyReportedNow_inMusic (walk : Walk) (c : Cache τ) {r : Reported} (epoch : Epoch)
    (listing : Option (List Path)) (h : r.isEmpty = false) (p : Path) :
    (applyReportedNow walk c r epoch listing).InMusic p ↔ StaysMusic c r listing p := by
  obtain ⟨hlog, hvalidated⟩ := applyReportedNow_log walk c epoch listing h
  rw [← musicPass_inMusic c r epoch, inMusic_iff, inMusic_iff, hlog, hvalidated,
    musicPass_validated]

/-- The media task is asked to list the category. -/
def Asked (c : Cache τ) (r : Reported) (listing : Option (List Path)) (s : MediaSource) : Prop :=
  c.media.pending.relist s = true ∨
    c.media.listings.holdsListings = true ∧ ∃ q ∈ r.named, Unplaced c r listing q

theorem unplaced_named {c : Cache τ} {r : Reported} {listing : Option (List Path)} {q : Path}
    (h : Unplaced c r listing q) : q ∈ r.named := by
  rcases h.2.1 with hq | ⟨hq, -⟩
  · exact List.mem_append_left _ hq
  · exact List.mem_append_right _ hq

theorem applyReportedNow_relist (walk : Walk) (c : Cache τ) {r : Reported} (epoch : Epoch)
    (listing : Option (List Path)) (h : r.isEmpty = false) (s : MediaSource) :
    (applyReportedNow walk c r epoch listing).media.pending.relist s = true ↔
      Asked c r listing s := by
  unfold applyReportedNow Asked
  rw [if_neg (by simp [h])]
  dsimp only
  cases hholds : c.media.listings.holdsListings with
  | false => simp [musicPass_media]
  | true =>
    simp only [if_true, filesChanged_relist, musicPass_media, mem_outside, true_and]
    refine or_congr_right ⟨?_, ?_⟩
    · rintro ⟨q, ⟨hout, hq⟩, hnone⟩
      have hunplaced : Unplaced c r listing q := ⟨hout, hq, hnone⟩
      exact ⟨q, unplaced_named hunplaced, hunplaced⟩
    · rintro ⟨q, -, hout, hq, hnone⟩
      exact ⟨q, ⟨hout, hq⟩, hnone⟩

theorem applyReportedNow_holds (walk : Walk) (c : Cache τ) (r : Reported) (epoch : Epoch)
    (listing : Option (List Path)) {s : MediaSource} {p : Path} :
    (applyReportedNow walk c r epoch listing).media.listings.Holds s p ↔
      c.media.listings.Holds s p := by
  unfold applyReportedNow
  split
  · exact Iff.rfl
  · dsimp only
    split
    · rw [filesChanged_holds, musicPass_media]
    · rw [musicPass_media]

/-- Which categories hold a file once the media task has listed those it is asked to. -/
theorem relisted_applyReportedNow (walk : Walk) (c : Cache τ) {r : Reported} (epoch : Epoch)
    (listing : Option (List Path)) (arcs : MediaSource → Nat) (host : MediaSource → List Path)
    (h : r.isEmpty = false) {s : MediaSource} {p : Path} :
    ((applyReportedNow walk c r epoch listing).media.relisted arcs host).Holds s p ↔
      Asked c r listing s ∧ p ∈ host s ∨
        ¬ Asked c r listing s ∧ c.media.listings.Holds s p := by
  rw [relisted_holds, applyReportedNow_holds]
  by_cases hasked : Asked c r listing s
  · rw [if_pos ((applyReportedNow_relist walk c epoch listing h s).mpr hasked)]
    simp [hasked]
  · rw [if_neg ((applyReportedNow_relist walk c epoch listing h s).not.mpr hasked)]
    simp [hasked]

theorem holdsListings_of_holds {l : Listings τ} {s : MediaSource} {p : Path} (h : l.Holds s p) :
    l.holdsListings = true := by
  obtain ⟨x, hx, -⟩ := h
  exact holdsListings_iff.mpr ⟨s, by rw [hx]; rfl⟩

/-! ## The log's side -/

/-- A live row that the pass left is an old one of a file that was not edited. -/
theorem filed_of_stays (walk : Walk) {c : Cache τ} {r : Reported} (epoch : Epoch)
    (listing : Option (List Path)) {p : Path} (h : r.isEmpty = false)
    (hin : (applyReportedNow walk c r epoch listing).InMusic p) :
    Filed c (applyReportedNow walk c r epoch listing) p ∨
      c.InMusic p ∧ p ∉ r.tagged ++ r.rated := by
  obtain ⟨hlog, hvalidated⟩ := applyReportedNow_log walk c epoch listing h
  obtain ⟨hv, hlive⟩ := inMusic_iff.mp hin
  rw [hvalidated] at hv
  obtain ⟨g, hg⟩ := isLive_iff.mp hlive
  unfold Filed
  rw [hg]
  rw [hlog] at hg
  unfold Cache.musicPass Cache.relistLibrary Cache.fileReportedEdits Cache.recordChanges at hg
  have hedited : p ∈ r.edited ↔ p ∈ r.tagged ++ r.rated := mem_sortDedup
  rw [← hedited, inMusic_iff]
  split at hg
  · rcases record_row c.consistent epoch listing r.edited hg with rfl | ⟨hold, hnot⟩
    · exact Or.inl rfl
    · exact Or.inr ⟨⟨hv, isLive_iff.mpr ⟨g, hold⟩⟩, hnot⟩
  · split at hg
    · rename_i hnone
      rw [hnone]
      exact Or.inr ⟨⟨hv, isLive_iff.mpr ⟨g, hg⟩⟩, List.not_mem_nil⟩
    · rcases record_row c.consistent epoch none r.edited hg with rfl | ⟨hold, hnot⟩
      · exact Or.inl rfl
      · exact Or.inr ⟨⟨hv, isLive_iff.mpr ⟨g, hold⟩⟩, hnot⟩

/-! ## The law -/

/-- **A reported file finds its home** exactly where none leaves the music library once a category
is listed, and none leaves a category that is not listed again. -/
theorem finds_home_iff (walk : Walk) (c : Cache τ) (r : Reported) (epoch : Epoch)
    (listing : Option (List Path)) (arcs : MediaSource → Nat) (host : MediaSource → List Path) :
    FindsHome walk c r epoch listing arcs host ↔ Placed c r listing host := by
  constructor
  · intro h
    refine ⟨fun hholds p hp hin => ?_, fun p hp s hheld hgone => ?_⟩
    · by_contra hleaves
      have hnow := (applyReportedNow_inMusic walk c epoch listing (nonempty_of_named hp) p).not.mpr
        hleaves
      exact (mem_outside.mp (h.media hholds p hp hnow)).1 hin
    · by_contra hkept
      rw [not_or] at hkept
      refine hgone (h.listings p hp s ?_)
      rw [relisted_applyReportedNow walk c epoch listing arcs host (nonempty_of_named hp)]
      refine Or.inr ⟨?_, hheld⟩
      rintro (hdue | ⟨-, hunplaced⟩)
      · exact hkept.1 hdue
      · exact hkept.2 hunplaced
  · intro h
    refine ⟨fun hholds p hp hout => ?_, fun p hp hin => ?_, fun p hp hin => ?_,
      fun p hp s hheld => ?_⟩
    · rw [applyReportedNow_inMusic walk c epoch listing (nonempty_of_named hp)] at hout
      refine mem_outside.mpr ⟨fun hin => hout (h.stays hholds p hp hin), ?_⟩
      rcases List.mem_append.mp hp with hedited | hmoved
      · exact Or.inl hedited
      · exact Or.inr ⟨hmoved, hout⟩
    · have hnamed : p ∈ r.named := List.mem_append_left _ hp
      rcases filed_of_stays walk epoch listing (nonempty_of_named hnamed) hin with
        hfiled | ⟨-, hnot⟩
      · exact hfiled
      · exact absurd hp hnot
    · rcases filed_of_stays walk epoch listing (nonempty_of_named hp) hin with hfiled | ⟨hbefore, -⟩
      · exact Or.inr hfiled
      · exact Or.inl hbefore
    · rw [relisted_applyReportedNow walk c epoch listing arcs host (nonempty_of_named hp)] at hheld
      rcases hheld with ⟨-, hhost⟩ | ⟨hnot, hheld⟩
      · exact hhost
      · by_contra hgone
        rcases h.listed p hp s hheld hgone with hdue | hunplaced
        · exact hnot (Or.inl hdue)
        · exact hnot (Or.inr ⟨holdsListings_of_holds hheld, hunplaced⟩)

/-! ## Files without a home -/

/-- Two tracks are listed in the music library and one audiobook. -/
def shelf : Cache Unit where
  validated := true
  log := (ChangeLog.empty.record "e" (some ["book", "song"]) []).1
  consistent := record_consistent empty_consistent _ _ _
  media := { listings := fun s => if s = .audiobooks then some ⟨0, ["old"], none⟩ else none }

theorem shelf_inMusic {p : Path} : shelf.InMusic p ↔ p ∈ ["book", "song"] := by
  rw [inMusic_iff]
  exact (and_iff_right rfl).trans (record_live empty_consistent "e" ["book", "song"] [] p)

/-- The genre of `book` makes it an audiobook. -/
def shelved : MediaSource → List Path := fun s => if s = .audiobooks then ["old", "book"] else []

/-- A music file that an edit makes an audiobook is handed to neither side, and the audiobooks keep
a file that an edit makes music. -/
theorem file_without_home :
    ¬ FindsHome ⟨allSources, mem_allSources⟩ shelf { tagged := ["book"] } "" (some ["song"])
        (fun _ => 1) shelved ∧
      ¬ FindsHome ⟨allSources, mem_allSources⟩ shelf { tagged := ["old"] } ""
        (some ["book", "old", "song"]) (fun _ => 1) (fun _ => []) := by
  constructor
  · intro h
    have hgone : ¬ StaysMusic shelf { tagged := ["book"] } (some ["song"]) "book" := by
      rintro ⟨-, hstays⟩
      exact absurd (show "book" ∈ ["song"] from hstays) (by decide)
    have hout := h.media rfl "book" (by decide)
      ((applyReportedNow_inMusic _ shelf "" _ rfl "book").not.mpr hgone)
    exact (mem_outside.mp hout).1 (shelf_inMusic.mpr (by decide))
  · intro h
    have hheld : shelf.media.listings.Holds .audiobooks "old" := ⟨_, rfl, by decide⟩
    have hnot : ¬ Asked shelf { tagged := ["old"] } (some ["book", "old", "song"]) .audiobooks := by
      rintro (hdue | ⟨-, q, hq, hunplaced⟩)
      · cases hdue
      · rw [List.mem_singleton.mp hq] at hunplaced
        exact hunplaced.2.2 .audiobooks hheld
    have hkept := h.listings "old" (by decide) .audiobooks
      ((relisted_applyReportedNow _ shelf "" _ _ _ rfl).mpr (Or.inr ⟨hnot, hheld⟩))
    cases hkept

end Mbrc.MediaSplit
