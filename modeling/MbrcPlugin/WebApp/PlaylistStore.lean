import MbrcPlugin.Commands.PlaylistV6
import MbrcPlugin.Lib.Flight

/-!
# The playlist store of the web app

The open playlist with its rows, the rows picked for an edit, and the requests of both in flight.
On the other side are the playlists: a read answers a window of the rows of one of them, and an
edit is checked against the version it carries.  `Editing.step` is one event.
-/

namespace Mbrc.WebApp.Playlist

open Providers Flight

/-! ## What goes over the wire -/

structure Row where
  order : Nat
  path : String
  deriving DecidableEq

/-- One answer of `playlist_tracks`. -/
structure Page where
  rows : List Row
  version : String
  total : Nat
  deriving DecidableEq

/-- What is done once a read has landed. -/
inductive Continuation where
  | nothing
  /-- `loadAll`, which held this many rows. -/
  | loadAll (held : Nat)
  deriving DecidableEq

structure Read where
  url : String
  append : Bool
  offset : Nat
  query : String
  after : Continuation := .nothing
  deriving DecidableEq

inductive Op where
  | remove (orders : List Nat)
  | move (order target : Nat)
  deriving DecidableEq

/-- A row as it was shown when it was picked, and the playlist that was open. -/
structure Pick where
  url : String
  row : Row
  deriving DecidableEq

structure Edit where
  url : String
  version : String
  op : Op
  picks : List Pick
  deriving DecidableEq

structure Add where
  url : String
  paths : List String
  deriving DecidableEq

/-! ## The playlists -/

/-- Rows per request. -/
def pageSize : Nat := 200

/-- Every row of a playlist, at its place. -/
def rowsOf (paths : List String) : List Row := paths.zipIdx.map fun p => ⟨p.2, p.1⟩

/-- `tracks`: the window of a read.  A search keeps the rows that match, with their places. -/
def tracks (paths : List String) (r : Read) (matching : List Nat) : Page :=
  let rows :=
    if r.query = "" then rowsOf paths else (rowsOf paths).filter fun row => row.order ∈ matching
  { rows := (rows.drop r.offset).take pageSize
    version := CommandsV6.versionOf paths
    total := rows.length }

/-- What an edit makes of the paths, where its places are in range. -/
def written (paths : List String) : Op → Option (List String)
  | .remove orders =>
    if orders ≠ [] ∧ ∀ o ∈ orders, o < paths.length then
      some (CommandsV6.partitionAt paths (orders.map Int.ofNat)).2
    else none
  | .move order target =>
    if order < paths.length ∧ target ≤ paths.length - 1 then
      some (CommandsV6.movedTo paths [order] target)
    else none

/-- `playlist_remove_tracks` and `playlist_move_tracks`: `none` where the edit is refused. -/
def edited (files : PlaylistFiles) (e : Edit) : Option (List String) :=
  if CommandsV6.editable files.kind ∧ e.version = CommandsV6.versionOf files.paths then
    written files.paths e.op
  else none

/-! ## The store -/

structure Store where
  url : String := ""
  tracks : List Row := []
  version : String := ""
  total : Nat := 0
  query : String := ""
  deriving DecidableEq

namespace Store

def hasMore (s : Store) : Bool := s.tracks.length < s.total

/-- The request of `load`. -/
def read (s : Store) (url : String) (append : Bool) (after : Continuation := .nothing) : Read :=
  { url, append, after
    offset := if append then s.tracks.length else 0
    query := Text.trim s.query }

/-- What `load` makes of the answer. -/
def landed (s : Store) (r : Read) (page : Page) : Store :=
  { s with
    url := r.url
    tracks := if r.append then s.tracks ++ page.rows else page.rows
    version := page.version
    total := page.total }

/-- Drops what is held. -/
def close : Store := {}

end Store

/-! ## The rows picked -/

/-- `useQueueSelection`: the rows picked, and the last one toggled. -/
structure Selection where
  picked : List Pick := []
  anchor : Option Nat := none
  deriving DecidableEq

namespace Selection

def has (s : Selection) (order : Nat) : Bool := s.picked.any (·.row.order = order)

def orders (s : Selection) : List Nat := s.picked.map (·.row.order)

/-- A set of places: one that is in it is not added again. -/
def add (s : Selection) (url : String) (row : Row) : Selection :=
  if s.has row.order then s else { s with picked := s.picked ++ [{ url, row }] }

def addAll (s : Selection) (url : String) (rows : List Row) : Selection :=
  rows.foldl (fun (s : Selection) row => s.add url row) s

/-- Toggles one row, or picks every row from the anchor to it. -/
def toggle (s : Selection) (store : Store) (row : Row) (extend : Bool) : Selection :=
  let place (order : Nat) := store.tracks.findIdx? (·.order = order)
  let toggled :=
    match extend, place row.order, s.anchor.bind place with
    | true, some last, some first =>
      s.addAll store.url ((store.tracks.take (max first last + 1)).drop (min first last))
    | _, _, _ =>
      if s.has row.order then { s with picked := s.picked.filter (·.row.order ≠ row.order) }
      else s.add store.url row
  { toggled with anchor := some row.order }

def selectAll (s : Selection) (store : Store) : Selection :=
  ({ s with picked := [] } : Selection).addAll store.url store.tracks

end Selection

/-! ## Store, playlists and requests -/

/-- An edit that was accepted, with the paths it was made to. -/
structure Accepted where
  edit : Edit
  before : List String
  deriving DecidableEq

structure Editing where
  store : Store := {}
  selection : Selection := {}
  reads : List (Request Read Page) := []
  /-- An edit is answered by whether it was accepted. -/
  edits : List (Request Edit Bool) := []
  adds : List (Request Add Bool) := []
  playlists : String → PlaylistFiles := fun _ => { name := "", paths := [], kind := "" }
  /-- What reads were answered from, and the edits that were accepted. -/
  served : List (String × List String) := []
  accepted : List Accepted := []

inductive Editing.Event where
  | load (url : String) (append : Bool)
  | loadAll
  | search (url term : String)
  | close
  | toggle (i : Nat) (extend : Bool)
  | selectAll
  | stopSelection
  | remove
  | move (i j : Nat)
  | addTo (url : String) (paths : List String)
  /-- A playlist changes on the server by another hand. -/
  | change (url : String) (files : PlaylistFiles)
  | answerRead (i : Nat) (matching : List Nat)
  | answerEdit (i : Nat)
  | answerAdd (i : Nat)
  | landRead (i : Nat)
  | failRead (i : Nat)
  | landEdit (i : Nat)
  | landAdd (i : Nat)

namespace Editing

def ask (w : Editing) (r : Read) : Editing := { w with reads := send w.reads r }

/-- The selection belongs to one version and one search: it is dropped when either has moved. -/
def watch (w : Editing) (store : Store) : Editing :=
  { w with
    store
    selection :=
      if store.version = w.store.version ∧ store.query = w.store.query then w.selection else {} }

def loadAll (w : Editing) : Editing :=
  if !w.store.hasMore || w.store.url == "" then w
  else w.ask (w.store.read w.store.url true (.loadAll w.store.tracks.length))

def reload (w : Editing) : Editing :=
  if w.store.url = "" then w else w.ask (w.store.read w.store.url false)

/-- A read lands: the page is taken, and `loadAll` goes on unless the page added nothing. -/
def landRead (w : Editing) (r : Read) (page : Page) : Editing :=
  let w := w.watch (w.store.landed r page)
  match r.after with
  | .nothing => w
  | .loadAll held => if w.store.tracks.length ≤ held then w else w.loadAll

def sendEdit (w : Editing) (op : Op) (picks : List Pick) : Editing :=
  { w with
    edits := send w.edits { url := w.store.url, version := w.store.version, op, picks } }

/-- The paths of one playlist are written. -/
def write (w : Editing) (url : String) (paths : List String) : Editing :=
  { w with
    playlists := Function.update w.playlists url { w.playlists url with paths } }

def answerEdit (w : Editing) (i : Nat) (e : Edit) : Editing :=
  match edited (w.playlists e.url) e with
  | some paths =>
    { w.write e.url paths with
      edits := answerAt w.edits i true
      accepted := { edit := e, before := (w.playlists e.url).paths } :: w.accepted }
  | none => { w with edits := answerAt w.edits i false }

def answerAdd (w : Editing) (i : Nat) (a : Add) : Editing :=
  if CommandsV6.editable (w.playlists a.url).kind then
    { w.write a.url ((w.playlists a.url).paths ++ a.paths) with adds := answerAt w.adds i true }
  else { w with adds := answerAt w.adds i false }

/-- One event, `none` where it cannot happen: nothing lands that is not in flight, and a page lands
once it was answered. -/
def step (w : Editing) : Event → Option Editing
  | .load url append => some (w.ask (w.store.read url append))
  | .loadAll => some w.loadAll
  | .search url term =>
    let w := w.watch { w.store with query := term }
    some (w.ask (w.store.read url false))
  | .close => some (w.watch .close)
  | .toggle i extend =>
    w.store.tracks[i]?.map fun row =>
      { w with selection := w.selection.toggle w.store row extend }
  | .selectAll => some { w with selection := w.selection.selectAll w.store }
  | .stopSelection => some { w with selection := {} }
  | .remove =>
    some { w.sendEdit (.remove w.selection.orders) w.selection.picked with selection := {} }
  | .move i j =>
    match w.store.tracks[i]?, w.store.tracks[j]? with
    | some moved, some target =>
      some (w.sendEdit (.move moved.order target.order) [{ url := w.store.url, row := moved }])
    | _, _ => none
  | .addTo url paths => some { w with adds := send w.adds { url, paths } }
  | .change url files => some { w with playlists := Function.update w.playlists url files }
  | .answerRead i matching =>
    match w.reads[i]? with
    | some { asked, answer := none } =>
      let paths := (w.playlists asked.url).paths
      some
        { w with
          reads := answerAt w.reads i (tracks paths asked matching)
          served := (asked.url, paths) :: w.served }
    | _ => none
  | .answerEdit i =>
    match w.edits[i]? with
    | some { asked, answer := none } => some (w.answerEdit i asked)
    | _ => none
  | .answerAdd i =>
    match w.adds[i]? with
    | some { asked, answer := none } => some (w.answerAdd i asked)
    | _ => none
  | .landRead i =>
    match w.reads[i]? with
    | some { asked, answer := some page } =>
      some ({ w with reads := w.reads.eraseIdx i }.landRead asked page)
    | _ => none
  | .failRead i => if i < w.reads.length then some { w with reads := w.reads.eraseIdx i } else none
  -- an edit that was refused, or was not answered, is followed by a re-read as well
  | .landEdit i =>
    if i < w.edits.length then some { w with edits := w.edits.eraseIdx i }.reload else none
  | .landAdd i =>
    w.adds[i]?.map fun a =>
      let w := { w with adds := w.adds.eraseIdx i }
      if a.answer = some true ∧ a.asked.url = w.store.url then w.reload else w

end Editing

end Mbrc.WebApp.Playlist
