import MbrcPlugin.Lib.Paging
import MbrcPlugin.Lib.Transition

/-!
# The library store of the web app

Four browse levels and the playlists, each a list of its own on screen, with one total for all of
them.  An answer is taken whatever is shown by then.  What resumes after an answer runs before the
page does anything else, so an answer lands in one step.

The list asks for more as it is scrolled; here that is at any time.
-/

namespace Mbrc.WebApp.Browse

open Flight Paging

variable {α : Type}

/-! ## Positions -/

inductive LibraryLevel where
  | genres | artists | albums | tracks
  deriving DecidableEq

structure LibraryScope where
  genre : Option String := none
  artist : Option String := none
  album : Option String := none
  deriving DecidableEq

structure Position where
  level : LibraryLevel
  scope : LibraryScope
  deriving DecidableEq

/-- What a level is showing beyond its scope: a search, and an order. -/
structure ViewOptions where
  query : String := ""
  sort : Option String := none
  descending : Bool := false
  albumArtists : Bool := false
  deriving DecidableEq

/-- The order each level opens in; inside one album there is only one worth having. -/
def defaultSort (p : Position) : String :=
  if p.scope.album.isSome then "track"
  else
    match p.level with
    | .genres | .artists | .albums => "name"
    | .tracks => "album"

/-! ## Requests -/

/-- White space and line terminators, as `trim` takes them off. -/
def isSpace (c : Char) : Bool :=
  ('\t' ≤ c && c ≤ '\r') || c = ' ' || c = '\u00A0' || c = '\u1680' ||
    ('\u2000' ≤ c && c ≤ '\u200A') || c = '\u2028' || c = '\u2029' || c = '\u202F' ||
    c = '\u205F' || c = '\u3000' || c = '\uFEFF'

def trim (s : String) : String :=
  String.ofList ((s.toList.dropWhile isSpace).reverse.dropWhile isSpace).reverse

inductive ListOp where
  | libraryGenres | libraryArtists | libraryAlbums | libraryTracks | playlistList
  deriving DecidableEq

/-- A list as it is asked for, but for its page. -/
structure ListRequest where
  op : ListOp
  query : Option String := none
  sort : Option String := none
  descending : Bool := false
  genre : Option String := none
  artist : Option String := none
  album : Option String := none
  albumArtists : Bool := false
  deriving DecidableEq

def pageSize : Nat := 100

/-! ## The store -/

structure Library (α : Type) where
  here : Position := { level := .artists, scope := {} }
  query : String := ""
  sort : Option String := none
  descending : Bool := false
  albumArtists : Bool := false
  pane : Pane ListRequest ListOp α := {}
  history : History ListRequest α
  now : Nat

namespace Library

/-- The request of the level on screen. -/
def request (w : Library α) : ListRequest :=
  let trimmed := trim w.query
  let query := if trimmed = "" then none else some trimmed
  let sort := w.sort <|> if trimmed = "" then some (defaultSort w.here) else none
  let scope := w.here.scope
  match w.here.level with
  | .genres => { op := .libraryGenres, query, sort, descending := w.descending }
  | .artists =>
    { op := .libraryArtists, query, sort, descending := w.descending, genre := scope.genre
      albumArtists := w.albumArtists }
  | .albums =>
    { op := .libraryAlbums, query, sort, descending := w.descending, artist := scope.artist }
  | .tracks =>
    { op := .libraryTracks, query, sort, descending := w.descending, album := scope.album
      artist := scope.artist }

def load (w : Library α) (append : Bool) : Library α :=
  { w with
    pane := if append then w.pane.ask ListRequest.op w.request true
      else w.pane.start ListRequest.op w.request }

/-- Reads the position a URL named. -/
def «show» (w : Library α) (position : Position) (view : ViewOptions) : Library α :=
  { w with
    here := position
    query := view.query
    sort := view.sort
    descending := view.descending
    albumArtists := view.albumArtists }.load false

def loadPlaylists (w : Library α) : Library α :=
  { w with pane := w.pane.ask ListRequest.op { op := .playlistList } false }

inductive Event (α : Type) where
  | «show» (position : Position) (view : ViewOptions)
  | load (append : Bool)
  | loadPlaylists
  /-- A `library_changed`. -/
  | changed
  /-- The library becomes another. -/
  | change (lists : ListRequest → List α)
  | answer (i : Nat)
  | land (i : Nat)
  | fail (i : Nat)

def step (w : Library α) : Event α → Option (Library α)
  | .show position view => some (w.show position view)
  | .load append => some (w.load append)
  | .loadPlaylists => some w.loadPlaylists
  | .changed => some (w.load false)
  | .change lists =>
    some { w with history := Function.update w.history (w.now + 1) lists, now := w.now + 1 }
  | .answer i =>
    match w.pane.reads[i]? with
    | some { asked, answer := none } =>
      some { w with pane := w.pane.answer i (asked.page pageSize w.history w.now) }
    | _ => none
  | .land i =>
    match w.pane.reads[i]? with
    | some { asked, answer := some page } =>
      some { w with pane := (w.pane.off i).take ListRequest.op asked page }
    | _ => none
  | .fail i => w.pane.reads[i]?.map fun _ => { w with pane := w.pane.fail i }

/-- The store begins at the artists, with no request sent. -/
def Starts (w : Library α) : Prop := ∃ history now, w = { history, now }

/-! ## What is on screen -/

/-- What lands is in turn. -/
def InTurn (w : Library α) : Event α → Prop
  | .land i => w.pane.InTurn ListRequest.op w.request i
  | _ => True

instance (w : Library α) (e : Event α) : Decidable (w.InTurn e) := by
  unfold InTurn
  split <;> infer_instance

/-- With every request answered and none failed, what is on screen is what was asked for last. -/
def ShowsLast (w : Library α) : Prop :=
  w.pane.reads = [] → w.pane.failed = false → w.pane.Shows ListRequest.op w.history w.request

def Inv (w : Library α) : Prop := w.pane.Inv ListRequest.op pageSize w.history w.now w.request

variable {w w' : Library α}

theorem inv_start (h : w.Starts) : w.Inv := by
  obtain ⟨history, now, rfl⟩ := h
  refine ⟨⟨by simp, by simp, fun _ _ => rfl, by simp, by simp⟩, .inr (.inr ⟨?_, ?_, nofun, ?_⟩)⟩
  · simp
  · simp
  · exact fun _ _ => List.nil_prefix

/-- Whatever was shown, a list that is asked for from the start is to come. -/
theorem inv_load (h : w.pane.Sound pageSize w.history w.now) : (w.load false).Inv :=
  Pane.Inv.start h w.request

/-- **One event.** -/
theorem inv_step {e : Event α} (h : w.Inv) (hturn : w.InTurn e) (hs : w.step e = some w') :
    w'.Inv := by
  cases e with
  | «show» position view =>
    obtain rfl := Option.some.inj hs
    exact inv_load h.sound
  | load append =>
    obtain rfl := Option.some.inj hs
    cases append with
    | true => exact Pane.Inv.ask h w.request true
    | false => exact inv_load h.sound
  | loadPlaylists =>
    obtain rfl := Option.some.inj hs
    exact Pane.Inv.ask h { op := .playlistList } false
  | changed =>
    obtain rfl := Option.some.inj hs
    exact inv_load h.sound
  | change lists =>
    obtain rfl := Option.some.inj hs
    exact Pane.Inv.change h lists
  | answer i =>
    simp only [step] at hs
    split at hs
    case h_2 => cases hs
    case h_1 a hr =>
      obtain rfl := Option.some.inj hs
      exact Pane.Inv.answer h hr
  | land i =>
    simp only [step] at hs
    split at hs
    case h_2 => cases hs
    case h_1 a page hr =>
      obtain rfl := Option.some.inj hs
      exact Pane.Inv.take h hr rfl hturn
  | fail i =>
    obtain ⟨r, -, rfl⟩ := Option.map_eq_some_iff.mp hs
    exact Pane.Inv.fail h i

theorem Inv.showsLast (h : w.Inv) : w.ShowsLast := fun hreads hfailed =>
  Pane.Inv.settled h hreads hfailed

end Library

end Mbrc.WebApp.Browse
