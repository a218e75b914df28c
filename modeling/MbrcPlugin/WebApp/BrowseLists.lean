import Mathlib.Data.List.Infix
import MbrcPlugin.WebApp.LibraryStore
import MbrcPlugin.WebApp.MediaStore

/-!
# A browse list shows what was asked for last

The library store takes every answer, and the media store every answer for what it shows; both
continue rows by a page that was asked for where they ended then.  `lists_show_last` says of which
runs the lists are right nevertheless: each answer that is taken is in turn.
-/

namespace Mbrc.WebApp.Browse

open Paging

variable {α β γ : Type}

/-- The two stores of one page. -/
structure Lists (α β γ : Type) where
  library : Library α
  media : Media β γ

namespace Lists

inductive Event (α β γ : Type) where
  | library (e : Library.Event α)
  | media (e : Media.Event β γ)

def step (w : Lists α β γ) : Event α β γ → Option (Lists α β γ)
  | .library e => (w.library.step e).map fun library => { w with library }
  | .media e => (w.media.step e).map fun media => { w with media }

def system (α β γ : Type) : Transition.System (Lists α β γ) (Event α β γ) where
  start w := w.library.Starts ∧ w.media.Starts
  next := step

/-- What lands and is taken is in turn. -/
def InTurn (w : Lists α β γ) : Event α β γ → Prop
  | .library e => w.library.InTurn e
  | .media e => w.media.InTurn e

instance (w : Lists α β γ) (e : Event α β γ) : Decidable (w.InTurn e) := by
  unfold InTurn
  split <;> infer_instance

structure Inv (w : Lists α β γ) : Prop where
  library : w.library.Inv
  media : w.media.Inv

theorem inv_step {w w' : Lists α β γ} {e : Event α β γ} (h : w.Inv) (hturn : w.InTurn e)
    (hs : w.step e = some w') : w'.Inv := by
  cases e with
  | library e =>
    obtain ⟨library, hlibrary, rfl⟩ := Option.map_eq_some_iff.mp hs
    exact { h with library := Library.inv_step h.library hturn hlibrary }
  | media e =>
    obtain ⟨media, hmedia, rfl⟩ := Option.map_eq_some_iff.mp hs
    exact { h with media := h.media.step hturn hmedia }

end Lists

/-- **A browse list shows what was asked for last.** -/
theorem lists_show_last {w₀ w : Lists α β γ} {events : List (Lists.Event α β γ)}
    (hstart : (Lists.system α β γ).start w₀)
    (hturn : (Lists.system α β γ).Along Lists.InTurn w₀ events)
    (hrun : (Lists.system α β γ).exec w₀ events = some w) :
    w.library.ShowsLast ∧ w.media.ShowsLast := by
  have hinv : Lists.Inv w :=
    (Lists.system α β γ).exec_induction (fun _ _ _ h hturn hs => Lists.inv_step h hturn hs)
      ⟨Library.inv_start hstart.1, Media.inv_start hstart.2⟩ hturn hrun
  exact ⟨hinv.library.showsLast, hinv.media.showsLast⟩

/-! ## Runs -/

/-- As many artists as their search is long, in fifties, and 250 books of each category. -/
def Lists.opened : Lists Nat Nat Nat where
  library :=
    { history := fun _ request => List.range (50 * (request.query.getD "").length), now := 1 }
  media :=
    { showMedia := true
      albumHistory := fun _ _ => List.range 250
      trackHistory := fun _ _ => List.range 30
      now := 1 }

/-- The artists, as searched for. -/
def searched (query : String) : Library.Event Nat :=
  .show { level := .artists, scope := {} } { query }

/-- Two searches whose answers land in order, and a page more; the books of a category, and one of
them, which is closed before its files land. -/
def Lists.orderedRun : List (Lists.Event Nat Nat Nat) :=
  [.library (searched "ab"), .library (searched " abba"), .library (.answer 1),
    .library (.answer 0), .library (.land 0), .library (.land 0), .library (.load true),
    .library (.answer 0), .library (.land 0),
    .media (.showSource .audiobooks), .media (.answerAlbums 0), .media (.landAlbums 0),
    .media (.loadAlbums true), .media (.answerAlbums 0), .media (.landAlbums 0),
    .media (.openBook { album := some "Emma" }), .media .close, .media (.answerTracks 0),
    .media (.landTracks 0)]

theorem lists_show_last_ordered :
    ∃ w, (Lists.system Nat Nat Nat).exec Lists.opened Lists.orderedRun = some w ∧
      (w.library.ShowsLast ∧ w.media.ShowsLast) ∧
      w.library.pane.rows .libraryArtists = List.range 200 ∧
      w.media.albums.rows () = List.range 200 ∧ w.media.tracks.rows () = [] := by
  have hrun : ((Lists.system Nat Nat Nat).exec Lists.opened Lists.orderedRun).any (fun w =>
      w.library.pane.rows .libraryArtists = List.range 200 ∧
        w.media.albums.rows () = List.range 200 ∧ w.media.tracks.rows () = []) = true := by
    decide +kernel
  have hturn : (Lists.system Nat Nat Nat).checked (fun w e => decide (w.InTurn e)) Lists.opened
      Lists.orderedRun = true := by decide +kernel
  obtain ⟨w, hexec, hfacts⟩ := (Option.any_eq_true _ _).mp hrun
  have halong := (Lists.system Nat Nat Nat).along_of_checked
    (fun _ _ h => of_decide_eq_true h) hturn
  exact ⟨w, hexec, lists_show_last ⟨⟨_, _, rfl⟩, ⟨_, _, _, _, rfl⟩⟩ halong hexec,
    of_decide_eq_true hfacts⟩

/-- The answer to the first of two searches lands last; and a page of books lands after a re-read
that a `media_changed` started. -/
def Lists.overtakenRun : List (Lists.Event Nat Nat Nat) :=
  [.library (searched "ab"), .library (searched "a"), .library (.answer 1), .library (.land 1),
    .library (.answer 0), .library (.land 0),
    .media (.showSource .audiobooks), .media (.answerAlbums 0), .media (.landAlbums 0),
    .media (.loadAlbums true), .media (.answerAlbums 0), .media (.landAlbums 0),
    .media (.loadAlbums true), .media (.mediaChanged .audiobooks), .media (.answerAlbums 1),
    .media (.landAlbums 1), .media (.answerAlbums 0), .media (.landAlbums 0)]

/-- The artists are those of the first search, and a hundred books are left out. -/
theorem overtaken_lists :
    ∃ w, (Lists.system Nat Nat Nat).exec Lists.opened Lists.overtakenRun = some w ∧
      ¬ w.library.ShowsLast ∧ ¬ w.media.ShowsLast ∧
      w.library.query = "a" ∧ w.library.pane.rows .libraryArtists = List.range 100 ∧
      w.media.albums.rows () = List.range 100 ++ (List.range 250).drop 200 := by
  have hrun : ((Lists.system Nat Nat Nat).exec Lists.opened Lists.overtakenRun).any (fun w =>
      (w.library.pane.reads = [] ∧ w.library.pane.failed = false ∧
        w.media.albums.reads = [] ∧ w.media.albums.failed = false ∧
        w.media.source = some .audiobooks) ∧
      ¬ (w.library.pane.counted.all fun o => o.list = w.library.request) ∧
      (w.media.albums.pages () = [{ list := .audiobooks, version := 1 },
          { list := .audiobooks, version := 1 }] ∧
        ¬ w.media.albums.rows () <+: w.media.albumHistory 1 .audiobooks) ∧
      w.library.query = "a" ∧ w.library.pane.rows .libraryArtists = List.range 100 ∧
        w.media.albums.rows () = List.range 100 ++ (List.range 250).drop 200) = true := by
    decide +kernel
  obtain ⟨w, hexec, hfacts⟩ := (Option.any_eq_true _ _).mp hrun
  obtain ⟨⟨hreads, hfailed, hreads', hfailed', hsource⟩, hother, ⟨hpages, hgap⟩, hrows⟩ :=
    of_decide_eq_true hfacts
  refine ⟨w, hexec, fun h => hother ?_, fun h => hgap ?_, hrows⟩
  · rw [Option.all_eq_true]
    intro o ho
    exact decide_eq_true ((h hreads hfailed).total o ho).1
  · refine ((h.books hreads' hfailed' _ hsource).gapless 1 fun o ho => ?_)
    have ho : o ∈ w.media.albums.pages () := ho
    rw [hpages] at ho
    rcases List.mem_cons.mp ho with rfl | ho
    · rfl
    · rw [List.mem_singleton.mp ho]

end Mbrc.WebApp.Browse
