import MbrcPlugin.Commands.MediaV6
import MbrcPlugin.Library.ChangeLog

/-!
# The listings of the media categories

`MediaLibrary` holds the files of each category outside the music library, as they were last
listed.  A report of a file that a listing holds drops the category's tags; a report of any other
file asks for every category to be listed again.
-/

namespace Mbrc.MediaLibrary

open MediaV6 (MediaSource)

/-! ## The store -/

/-- A category as last listed, with its tags once something needed them. -/
structure Listing (τ : Type) where
  /-- Which allocation the shared list is. -/
  arc : Nat
  paths : List Path
  tags : Option τ
  deriving DecidableEq

abbrev Listings (τ : Type) := MediaSource → Option (Listing τ)

/-- What the media task has been asked to look at. -/
structure Pending where
  relist : MediaSource → Bool := fun _ => false
  changed : MediaSource → Bool := fun _ => false

/-- `ALL`. -/
def allSources : List MediaSource := [.audiobooks, .videos, .inbox]

theorem mem_allSources (s : MediaSource) : s ∈ allSources := by
  cases s <;> decide

/-- The order in which the map of the listings is walked. -/
structure Walk where
  sources : List MediaSource
  all : ∀ s, s ∈ sources

structure Store (τ : Type) where
  listings : Listings τ := fun _ => none
  pending : Pending := {}

variable {τ : Type}

namespace Listings

variable (l : Listings τ)

def Holds (s : MediaSource) (p : Path) : Prop := ∃ x, l s = some x ∧ p ∈ x.paths

def holds (s : MediaSource) (p : Path) : Bool := (l s).any fun x => decide (p ∈ x.paths)

theorem holds_iff {s : MediaSource} {p : Path} : l.holds s p = true ↔ l.Holds s p := by
  unfold holds Holds
  simp [Option.any_eq_true]

/-- `holds_listings`. -/
def holdsListings : Bool := allSources.any fun s => (l s).isSome

/-- The category a file is taken for: of several, the last in the order of the map. -/
def owner (walk : Walk) (p : Path) : Option MediaSource :=
  walk.sources.reverse.find? fun s => l.holds s p

theorem owner_eq_none {walk : Walk} {p : Path} :
    l.owner walk p = none ↔ ∀ s, ¬ l.Holds s p := by
  unfold owner
  rw [List.find?_eq_none]
  constructor
  · intro h s hs
    exact h s (List.mem_reverse.mpr (walk.all s)) (l.holds_iff.mpr hs)
  · intro h s _ hs
    exact h s (l.holds_iff.mp hs)

end Listings

/-! ## Reports and re-lists -/

namespace Listings

variable (l : Listings τ) (walk : Walk) (paths : List Path)

/-- Some of the files are taken for the category's. -/
def owns (s : MediaSource) : Bool := paths.any fun p => l.owner walk p = some s

/-- Some of the files are in no listing. -/
def unplaced : Bool := paths.any fun p => (l.owner walk p).isNone

def dropTags : Listings τ := fun s =>
  if l.owns walk paths s then (l s).map fun x => { x with tags := none } else l s

end Listings

/-- `files_changed`. -/
def Store.filesChanged (walk : Walk) (paths : List Path) (m : Store τ) : Store τ :=
  if paths = [] then m
  else
    { listings := m.listings.dropTags walk paths
      pending :=
        { changed := fun s => m.pending.changed s || m.listings.owns walk paths s
          relist := fun s => m.pending.relist s || m.listings.unplaced walk paths } }

/-- One turn of `relist`: the host's listing of a category, unless it is the one held. -/
def Listings.relistOne (l : Listings τ) (arc : Nat) (s : MediaSource) (fresh : List Path) :
    Listings τ :=
  if (l s).any (fun x => decide (x.paths = fresh)) then l
  else Function.update l s (some { arc, paths := fresh, tags := none })

/-- The media task lists what it is asked to, and the host answers each time. -/
def Listings.relist (l : Listings τ) (arcs : MediaSource → Nat) (host : MediaSource → List Path)
    (sources : List MediaSource) : Listings τ :=
  sources.foldl (fun l s => l.relistOne (arcs s) s (host s)) l

/-- The categories the media task is asked to list. -/
def Store.due (m : Store τ) : List MediaSource := allSources.filter m.pending.relist

def Store.relisted (m : Store τ) (arcs : MediaSource → Nat) (host : MediaSource → List Path) :
    Listings τ :=
  m.listings.relist arcs host m.due

/-- `forget`. -/
def Listings.forget (_ : Listings τ) : Listings τ := fun _ => none

/-! ## What the listings hold afterwards -/

@[simp] theorem filesChanged_nil (walk : Walk) (m : Store τ) :
    m.filesChanged walk [] = m := by
  unfold Store.filesChanged
  rw [if_pos rfl]

/-- A report moves no listing. -/
theorem dropTags_holds (l : Listings τ) (walk : Walk) (paths : List Path) {s : MediaSource}
    {p : Path} : (l.dropTags walk paths).Holds s p ↔ l.Holds s p := by
  unfold Listings.Holds Listings.dropTags
  split
  · simp [Option.map_eq_some_iff]
  · exact Iff.rfl

theorem unplaced_iff (l : Listings τ) (walk : Walk) (paths : List Path) :
    l.unplaced walk paths = true ↔ ∃ p ∈ paths, ∀ s, ¬ l.Holds s p := by
  unfold Listings.unplaced
  simp only [List.any_eq_true, Option.isNone_iff_eq_none, Listings.owner_eq_none]

theorem filesChanged_holds (walk : Walk) (paths : List Path) (m : Store τ) {s : MediaSource}
    {p : Path} : (m.filesChanged walk paths).listings.Holds s p ↔ m.listings.Holds s p := by
  unfold Store.filesChanged
  split
  · exact Iff.rfl
  · exact dropTags_holds m.listings walk paths

theorem filesChanged_relist (walk : Walk) (paths : List Path) (m : Store τ) (s : MediaSource) :
    (m.filesChanged walk paths).pending.relist s = true ↔
      m.pending.relist s = true ∨ ∃ p ∈ paths, ∀ t, ¬ m.listings.Holds t p := by
  rw [← unplaced_iff m.listings walk paths]
  unfold Store.filesChanged
  split
  · rename_i hnil
    simp [hnil, Listings.unplaced]
  · exact Bool.or_eq_true_iff

theorem relistOne_other (l : Listings τ) (arc : Nat) {s t : MediaSource} (h : t ≠ s)
    (fresh : List Path) : l.relistOne arc s fresh t = l t := by
  unfold Listings.relistOne
  split
  · rfl
  · exact Function.update_of_ne h _ _

theorem relistOne_holds (l : Listings τ) (arc : Nat) (s : MediaSource) (fresh : List Path)
    {p : Path} : (l.relistOne arc s fresh).Holds s p ↔ p ∈ fresh := by
  unfold Listings.relistOne Listings.Holds
  split
  · rename_i hsame
    obtain ⟨x, hx, hpaths⟩ := (Option.any_eq_true _ _).mp hsame
    simp [hx, of_decide_eq_true hpaths]
  · simp

/-- A category that is listed again holds what the host lists, another what it held. -/
theorem relist_holds (l : Listings τ) (arcs : MediaSource → Nat) (host : MediaSource → List Path)
    {sources : List MediaSource} (hnodup : sources.Nodup) {s : MediaSource} {p : Path} :
    (l.relist arcs host sources).Holds s p ↔
      if s ∈ sources then p ∈ host s else l.Holds s p := by
  induction sources generalizing l with
  | nil => simp [Listings.relist]
  | cons t sources ih =>
    obtain ⟨hfresh, hnodup⟩ := List.nodup_cons.mp hnodup
    have hrest := ih (l.relistOne (arcs t) t (host t)) hnodup
    rw [Listings.relist, List.foldl_cons, ← Listings.relist, hrest]
    by_cases hst : s = t
    · subst hst
      rw [if_neg hfresh, if_pos (List.mem_cons_self), relistOne_holds]
    · have hother : (l.relistOne (arcs t) t (host t)).Holds s p ↔ l.Holds s p := by
        unfold Listings.Holds
        rw [relistOne_other l _ hst]
      simp only [List.mem_cons, hst, false_or, hother]

theorem relisted_holds (m : Store τ) (arcs : MediaSource → Nat) (host : MediaSource → List Path)
    {s : MediaSource} {p : Path} :
    (m.relisted arcs host).Holds s p ↔
      if m.pending.relist s = true then p ∈ host s else m.listings.Holds s p := by
  unfold Store.relisted
  have hnodup : m.due.Nodup := List.Nodup.filter _ (by decide)
  have hdue : s ∈ m.due ↔ m.pending.relist s = true := by
    unfold Store.due
    rw [List.mem_filter]
    exact and_iff_right (mem_allSources s)
  rw [relist_holds m.listings arcs host hnodup]
  simp only [hdue]

end Mbrc.MediaLibrary
