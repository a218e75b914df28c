import MbrcPlugin.Lib.Flight
import MbrcPlugin.Lib.Text
import Mathlib.Logic.Function.Basic

/-!
# The tags store of the web app

The tags held for the playing file, the texts drafted from them, and the requests in flight.  On
the other side is the player: a read answers with the path and the tags of the file that plays,
and a write is refused when another file plays than the one it names.  `World.step` is one event.
-/

namespace Mbrc.WebApp.Tags

open Flight Text

abbrev Path := String
abbrev Key := String

/-- An array for a multi-value field, a string otherwise. -/
inductive TagValue where
  | text (text : String)
  | items (items : List String)
  deriving DecidableEq

abbrev Values := Key → Option TagValue

structure TagField where
  key : Key
  name : String
  multiValue : Bool
  deriving DecidableEq

/-- Why a request was refused, or was not answered. -/
structure Fault where
  code : String := "unreachable"
  message : String
  deriving DecidableEq

/-- Why the last save of a field did not land. -/
structure TagRefusal where
  key : Key
  fault : Fault
  deriving DecidableEq

/-! ## The player -/

structure Player where
  /-- The file that plays, empty when none does. -/
  playing : Path := ""
  /-- What each file's tags have been, the latest first. -/
  versions : Path → List Values := fun _ => []

/-- What is asked; a read carries its number, and whether a save waits for it. -/
inductive Ask where
  | fields (mine : Nat) (saving : Bool)
  | tags (mine : Nat) (saving : Bool)
  /-- `adding`: the value is the list of `addItem`. -/
  | write (path : Path) (key : Key) (value : TagValue) (adding : Bool)
  deriving DecidableEq

inductive Reply where
  | fields (listed : List TagField)
  | tags (path : Option Path) (tags : Values)
  | written (value : TagValue)
  | refused (fault : Fault)

/-- What the server does about a request. -/
inductive Deed where
  | list (fields : List TagField)
  | read
  /-- The file is written, and this is read back. -/
  | store (kept : TagValue)
  | refuse (fault : Fault)
  deriving DecidableEq

namespace Player

def tags (s : Player) (path : Path) : Values := (s.versions path).headD fun _ => none

/-- A file's tags change. -/
def edit (s : Player) (path : Path) (tags : Values) : Player :=
  { s with versions := Function.update s.versions path (tags :: s.versions path) }

def staleTrack (path : Path) : Fault where
  code := "stale_track"
  message := path ++ " is no longer the playing track; nothing was written"

/-- `now_playing_tags`. -/
def read (s : Player) : Reply :=
  if s.playing = "" then .tags none fun _ => none else .tags (some s.playing) (s.tags s.playing)

def answer (s : Player) : Ask → Deed → Option (Player × Reply)
  | .fields _ _, .list fields => some (s, .fields fields)
  | .tags _ _, .read => some (s, s.read)
  | .write path key _ _, .store kept =>
    if path = "" ∨ path ≠ s.playing then some (s, .refused (staleTrack path))
    else some (s.edit path (Function.update (s.tags path) key (some kept)), .written kept)
  | _, .refuse fault => some (s, .refused fault)
  | _, _ => none

end Player

/-! ## The store and the texts drafted from it -/

structure Store where
  fields : List TagField := []
  path : Option Path := none
  values : Values := fun _ => none
  saving : Option Key := none
  refusal : Option TagRefusal := none
  «open» : Bool := false
  loaded : Bool := false
  failure : Option String := none
  latestLoad : Nat := 0

structure Editor where
  drafts : Key → Option String := fun _ => none
  /-- The item being typed for a multi-value field. -/
  adding : Key → Option String := fun _ => none

/-- A list has no text. -/
def text : Option TagValue → String
  | some (.text text) => text
  | _ => ""

def items : Option TagValue → List String
  | some (.items items) => items
  | _ => []

/-- A field that still shows what was stored follows the new value. -/
def followStoredValues (drafts : Key → Option String) (values before : Values) :
    Key → Option String := fun key =>
  match values key with
  | none => drafts key
  | some value =>
    if drafts key = none ∨ drafts key = some (text (before key)) then some (text (some value))
    else drafts key

def draftsOf (values : Values) : Key → Option String := fun key =>
  (values key).map fun value => text (some value)

/-- The watchers on the values and on the path, after they were taken from an answer. -/
def Editor.watch (e : Editor) (before after : Store) : Editor :=
  if after.path = before.path then
    { e with drafts := followStoredValues e.drafts after.values before.values }
  else { drafts := draftsOf after.values }

namespace Store

/-- The fields are on screen. -/
def Shown (s : Store) : Prop := s.loaded = true ∧ s.failure = none ∧ s.path.isSome

instance (s : Store) : Decidable s.Shown := inferInstanceAs (Decidable (_ ∧ _ ∧ _))

/-- A field of this kind is on screen. -/
def Shows (s : Store) (key : Key) (multiValue : Bool) : Prop :=
  s.Shown ∧ ∃ field ∈ s.fields, field.key = key ∧ field.multiValue = multiValue

instance (s : Store) (key : Key) (multiValue : Bool) : Decidable (s.Shows key multiValue) :=
  inferInstanceAs (Decidable (_ ∧ _))

/-- A read was answered. -/
def read (s : Store) (path : Option Path) (tags : Values) : Store :=
  { s with path, values := tags, failure := none, loaded := true }

/-- A write was answered: the value is taken among those that are held. -/
def keep (s : Store) (key : Key) (value : TagValue) : Store :=
  { s with values := Function.update s.values key (some value), saving := none }

/-- A save that waited for a read is over. -/
def settle (s : Store) (saving : Bool) : Store :=
  { s with saving := if saving then none else s.saving }

end Store

/-! ## Store, player and requests -/

structure Save where
  path : Path
  key : Key
  value : TagValue
  deriving DecidableEq

structure World where
  player : Player := {}
  store : Store := {}
  editor : Editor := {}
  flight : List (Request Ask Reply) := []
  /-- What was typed into each field, and what was saved. -/
  typed : List (Key × String) := []
  saves : List Save := []

inductive Event where
  /-- The track changes. -/
  | play (path : Path)
  /-- A file's tags change by another hand. -/
  | edit (path : Path) (tags : Values)
  | serve (i : Nat) (deed : Deed)
  | land (i : Nat)
  /-- A request times out, or the connection is lost. -/
  | fail (i : Nat) (message : String)
  | show
  | hide
  | reload
  | tagsChanged
  | trackChanged
  | type (key : Key) (text : String)
  | typeItem (key : Key) (text : String)
  | commitText (key : Key)
  | addItem (key : Key)
  | removeItem (key : Key) (item : String)

namespace World

def load (w : World) (saving : Bool := false) : World :=
  let mine := w.store.latestLoad + 1
  let ask := if w.store.fields = [] then Ask.fields mine saving else Ask.tags mine saving
  { w with store := { w.store with latestLoad := mine }, flight := send w.flight ask }

def reload (w : World) : World := { w with store := { w.store with loaded := false } }.load

def save (w : World) (key : Key) (value : TagValue) (adding : Bool := false) : World :=
  match w.store.path with
  | none => w
  | some path =>
    { w with
      store := { w.store with saving := some key, refusal := none }
      flight := send w.flight (.write path key value adding)
      saves := { path, key, value } :: w.saves }

/-- A read that failed is told, unless it is not the latest. -/
def unread (w : World) (mine : Nat) (saving : Bool) (fault : Fault) : World :=
  let store :=
    if mine = w.store.latestLoad then
      { w.store with failure := some fault.message, loaded := true }
    else w.store
  { w with store := store.settle saving }

/-- What `load` and `save` make of an answer. -/
def land (w : World) : Ask → Reply → Option World
  | .fields mine saving, .fields listed =>
    if mine = w.store.latestLoad then
      some { w with
        store := { w.store with fields := listed }, flight := send w.flight (.tags mine saving) }
    else some { w with store := w.store.settle saving }
  | .tags mine saving, .tags path tags =>
    if mine = w.store.latestLoad then
      let store := w.store.read path tags
      some { w with store := store.settle saving, editor := w.editor.watch w.store store }
    else some { w with store := w.store.settle saving }
  | .write _ key _ adding, .written value =>
    let store := w.store.keep key value
    let editor := w.editor.watch w.store store
    some { w with
      store
      editor :=
        if adding then { editor with adding := Function.update editor.adding key (some "") }
        else editor }
  | .fields mine saving, .refused fault | .tags mine saving, .refused fault =>
    some (w.unread mine saving fault)
  | .write _ key _ _, .refused fault =>
    some ({ w with store := { w.store with refusal := some { key, fault } } }.load true)
  | _, _ => none

def commitText (w : World) (key : Key) : World :=
  let text := (w.editor.drafts key).getD ""
  if TagValue.text text = (w.store.values key).getD (.text "") then w else w.save key (.text text)

def addItem (w : World) (key : Key) : World :=
  let text := trim ((w.editor.adding key).getD "")
  if w.store.saving ≠ none ∨ text = "" ∨ text ∈ items (w.store.values key) then w
  else w.save key (.items (items (w.store.values key) ++ [text])) true

def removeItem (w : World) (key : Key) (item : String) : World :=
  w.save key (.items ((items (w.store.values key)).filter (· ≠ item)))

/-- One event, `none` where it cannot happen: nothing lands that is not in flight, and a field is
edited where it is on screen and enabled. -/
def step (w : World) : Event → Option World
  | .play path => some { w with player := { w.player with playing := path } }
  | .edit path tags => some { w with player := w.player.edit path tags }
  | .serve i deed =>
    match w.flight[i]? with
    | some { asked, answer := none } =>
      (w.player.answer asked deed).map fun (player, reply) =>
        { w with player, flight := answerAt w.flight i reply }
    | _ => none
  | .land i =>
    match w.flight[i]? with
    | some { asked, answer := some reply } =>
      { w with flight := w.flight.eraseIdx i }.land asked reply
    | _ => none
  | .fail i message =>
    match w.flight[i]? with
    | some { asked, .. } =>
      { w with flight := w.flight.eraseIdx i }.land asked (.refused { message })
    | none => none
  | .show => some { w with store := { w.store with «open» := true, refusal := none } }.reload
  | .hide => some { w with store := { w.store with «open» := false } }
  | .reload => some w.reload
  | .tagsChanged => some (if w.store.open then w.load else w)
  | .trackChanged => some (if w.store.open then w.reload else w)
  | .type key text =>
    if w.store.Shows key false ∧ (w.store.saving = none ∨ w.store.saving = some key) then
      some { w with
        editor := { w.editor with drafts := Function.update w.editor.drafts key (some text) }
        typed := (key, text) :: w.typed }
    else none
  | .typeItem key text =>
    if w.store.Shows key true ∧ w.store.saving = none then
      some { w with
        editor := { w.editor with adding := Function.update w.editor.adding key (some text) }
        typed := (key, text) :: w.typed }
    else none
  | .commitText key =>
    if w.store.Shows key false ∧ (w.store.saving = none ∨ w.store.saving = some key) then
      some (w.commitText key)
    else none
  | .addItem key => if w.store.Shows key true then some (w.addItem key) else none
  | .removeItem key item =>
    if w.store.Shows key true ∧ w.store.saving = none ∧ item ∈ items (w.store.values key) then
      some (w.removeItem key item)
    else none

end World

end Mbrc.WebApp.Tags
