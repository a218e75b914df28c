import MbrcPlugin.Lib.Flight
import MbrcPlugin.Lib.Transition

/-!
# The queue store of the web app

The rows of the queue on screen, the reads in flight and what waits for them.  `reload` keeps one
running read and one trailing one; a page that continues the rows, and the re-read that a page at
another version starts, run outside of that.  A read is one promise from its request to its end,
through a re-read; what awaits it runs later, as a task of its own.

The server is a history of contents by their versions.  How many events the store was given before
a read was sent (`sentAt`), the view the rows are of (`held`) and the events before them (`readAt`)
are kept beside, as the code keeps none of them.
-/

namespace Mbrc.WebApp.Queue

open Flight

variable {α : Type}

/-! ## The server's queue -/

/-- The rows of the queue and of its Up Next view. -/
structure Content (α : Type) where
  full : List α
  upNext : List α
  deriving DecidableEq

def Content.view (c : Content α) (next : Bool) : List α := if next then c.upNext else c.full

/-- One answer of `now_playing_list`. -/
structure Page (α : Type) where
  rows : List α
  total : Nat
  version : Nat
  deriving DecidableEq

/-- Rows per request. -/
def pageSize : Nat := 200

/-! ## The store -/

/-- What awaits a read. -/
inductive Owner where
  /-- The loop of `reload`. -/
  | reload
  /-- A page that continues the rows. -/
  | append
  /-- `loadAll`, which held this many rows. -/
  | loadAll (held : Nat)
  deriving DecidableEq

structure Read where
  append : Bool
  offset : Nat
  upNext : Bool
  owner : Owner
  promise : Nat
  sentAt : Nat
  deriving DecidableEq

/-- What runs once a promise has settled. -/
inductive Task where
  | done (owner : Owner)
  /-- `loadAll`, which has waited out a read. -/
  | resume
  deriving DecidableEq

structure Store (α : Type) where
  items : List α := []
  total : Nat := 0
  version : Nat := 0
  upNext : Bool := false
  reads : List (Request Read (Page α)) := []
  /-- The promise of the last read that was started, until it settles. -/
  current : Option Nat := none
  nextRead : Nat := 0
  reading : Bool := false
  readAgain : Bool := false
  /-- The promises that `loadAll` waits out. -/
  waiting : List Nat := []
  tasks : List Task := []
  /-- How many mutations are in flight. -/
  mutations : Nat := 0
  history : Nat → Content α
  now : Nat
  /-- The changes the store was told of. -/
  events : Nat := 0
  failed : Bool := false
  /-- Some page was taken. -/
  loaded : Bool := false
  /-- The view that the rows are a gapless beginning of. -/
  held : Option Bool := none
  readAt : Nat := 0

namespace Store

/-- The rows of the chosen view at the version held. -/
def shown (w : Store α) : List α := (w.history w.version).view w.upNext

/-- The page of a read that is answered now. -/
def page (w : Store α) (r : Read) : Page α :=
  let rows := (w.history w.now).view r.upNext
  { rows := (rows.drop r.offset).take pageSize, total := rows.length, version := w.now }

def hasMore (w : Store α) : Bool := w.items.length < w.total

/-- `readPage`: one request. -/
def readPage (w : Store α) (append : Bool) (owner : Owner) (promise : Nat) : Store α :=
  { w with
    reads := send w.reads
      { append, owner, promise
        offset := if append then w.items.length else 0
        upNext := w.upNext
        sentAt := w.events } }

/-- `read`: a request whose promise is kept hold of. -/
def read (w : Store α) (append : Bool) (owner : Owner) : Store α :=
  { w.readPage append owner w.nextRead with
    current := some w.nextRead
    nextRead := w.nextRead + 1 }

def readUntilSettled (w : Store α) : Store α := { w with readAgain := false }.read false .reload

/-- One read for a burst of asks, and one more after it. -/
def reload (w : Store α) : Store α :=
  if w.reading then { w with readAgain := true }
  else { w with reading := true }.readUntilSettled

def load (w : Store α) (append : Bool) : Store α :=
  if append then w.read true .append else w.reload

def loadAll (w : Store α) : Store α :=
  match w.current with
  | some promise => { w with waiting := w.waiting ++ [promise] }
  | none => if w.hasMore then w.read true (.loadAll w.items.length) else w

def setView (w : Store α) (next : Bool) : Store α := { w with upNext := next }.reload

/-! ## Answers -/

/-- The page continues the rows held, in their view and at their end. -/
def inPlace (w : Store α) (r : Read) : Bool :=
  r.offset = w.items.length && (!w.loaded || w.held = some r.upNext) && w.readAt ≤ r.sentAt

/-- The page is taken. -/
def take (w : Store α) (r : Read) (page : Page α) : Store α :=
  { w with
    items := if r.append then w.items ++ page.rows else page.rows
    total := page.total
    version := page.version
    loaded := true
    held := if r.append && !w.inPlace r then none else some r.upNext
    readAt := if r.append then w.readAt else r.sentAt }

/-- A promise settles: what awaits it is to run. -/
def settle (w : Store α) (promise : Nat) (done : List Task) : Store α :=
  { w with
    current := if w.current = some promise then none else w.current
    waiting := w.waiting.filter (· ≠ promise)
    tasks := w.tasks ++ done ++
      (w.waiting.filter (· = promise)).map fun _ => .resume }

/-- A page at another version than the rows it continues is read over from the start. -/
def land (w : Store α) (r : Read) (page : Page α) : Store α :=
  if r.append ∧ page.version ≠ w.version then w.readPage false r.owner r.promise
  else (w.take r page).settle r.promise [.done r.owner]

/-- A read that fails ends what awaits it, but for the loop of `reload`. -/
def fail (w : Store α) (r : Read) : Store α :=
  { w with failed := true }.settle r.promise
    (if r.owner = Owner.reload then [.done .reload] else [])

def run (w : Store α) : Task → Store α
  | .done .reload => if w.readAgain then w.readUntilSettled else { w with reading := false }
  | .done .append => w
  | .done (.loadAll held) => if w.items.length ≤ held then w else w.loadAll
  | .resume => w.loadAll

/-! ## One event -/

inductive Event (α : Type) where
  | load (append : Bool)
  | loadAll
  | setView (next : Bool)
  /-- `play`, `remove`, `move` and `clear`: sent, and answered in one way or another. -/
  | mutate
  | mutated
  /-- A `now_playing_list_changed`. -/
  | changed
  /-- The queue becomes another. -/
  | change (content : Content α)
  | answer (i : Nat)
  | land (i : Nat)
  | fail (i : Nat)
  | run (i : Nat)

def step (w : Store α) : Event α → Option (Store α)
  | .load append => some (w.load append)
  | .loadAll => some w.loadAll
  | .setView next => some (w.setView next)
  | .mutate => some { w with mutations := w.mutations + 1 }
  | .mutated =>
    if w.mutations = 0 then none else some { w with mutations := w.mutations - 1 }.reload
  | .changed => some { w with events := w.events + 1 }.reload
  | .change content =>
    some { w with history := Function.update w.history (w.now + 1) content, now := w.now + 1 }
  | .answer i =>
    match w.reads[i]? with
    | some { asked, answer := none } =>
      some { w with reads := answerAt w.reads i (w.page asked) }
    | _ => none
  | .land i =>
    match w.reads[i]? with
    | some { asked, answer := some page } =>
      some ({ w with reads := w.reads.eraseIdx i }.land asked page)
    | _ => none
  | .fail i => w.reads[i]?.map fun r => { w with reads := w.reads.eraseIdx i }.fail r.asked
  | .run i => w.tasks[i]?.map fun task => { w with tasks := w.tasks.eraseIdx i }.run task

/-- The store begins empty, with the server at any version. -/
def system (α : Type) : Transition.System (Store α) (Event α) where
  start w := ∃ history now, w = { history, now }
  next := step

end Store

end Mbrc.WebApp.Queue
