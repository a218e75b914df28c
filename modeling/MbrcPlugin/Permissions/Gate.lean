import MbrcPlugin.Host.Providers
import MbrcPlugin.Lib.OrderedTable
import MbrcPlugin.Lib.Text

/-!
# Party Mode permissions

What each role may do, and what a request needs: a request is classed into an action from its op
or context and its data, and a role permits the action or not.  Reads are allowed in every role.
-/

namespace Mbrc.Permissions

open Providers

/-! ## Roles -/

/-- A group of state-changing operations a role may be granted. -/
inductive Capability where
  | playback | queueAdd | queueInsert | queueReplace | queueEdit | volume | modes | libraryEdit
  | playlistEdit | output
  deriving DecidableEq

namespace Capability

def all : List Capability :=
  [playback, queueAdd, queueInsert, queueReplace, queueEdit, volume, modes, libraryEdit,
    playlistEdit, output]

/-- The name clients and the panel see. -/
def asStr : Capability → String
  | playback => "playback"
  | queueAdd => "queue_add"
  | queueInsert => "queue_insert"
  | queueReplace => "queue_replace"
  | queueEdit => "queue_edit"
  | volume => "volume"
  | modes => "modes"
  | libraryEdit => "library_edit"
  | playlistEdit => "playlist_edit"
  | output => "output"

/-- The capability that queueing at a placement needs. -/
def forQueue : QueueType → Capability
  | .last => queueAdd
  | .next => queueInsert
  | .playNow | .addAndPlay => queueReplace

end Capability

/-- A client's standing while Party Mode is on. -/
inductive Role where
  | host | dj | guest | listener
  deriving DecidableEq

/-- What a request does, as far as permissions care. -/
inductive Action where
  | read
  | change (capability : Capability)
  /-- Adds tracks to the queue; `none` tracks where the request names a scope. -/
  | queue (capability : Capability) (tracks : Option Nat)
  deriving DecidableEq

namespace Action

/-- The capability this action needs. -/
def capability : Action → Option Capability
  | read => none
  | change capability => some capability
  | queue capability _ => some capability

/-- Queueing `tracks` at a placement. -/
def queueAt (placement : QueueType) (tracks : Option Nat) : Action :=
  .queue (.forQueue placement) tracks

end Action

namespace Role

def capabilities : Role → List Capability
  | host => Capability.all
  | dj => [.playback, .queueAdd, .queueInsert, .queueReplace, .queueEdit, .volume, .modes]
  | guest => [.queueAdd]
  | listener => []

/-- How many tracks one request may queue, when the role is limited. -/
def maxTracksPerAdd : Role → Option Nat
  | guest => some 1
  | _ => none

/-- Whether this role may perform the action. -/
def permits (role : Role) : Action → Bool
  | .read => true
  | .change capability => capability ∈ role.capabilities
  | .queue capability tracks =>
    capability ∈ role.capabilities &&
      role.maxTracksPerAdd.all fun max => tracks.any fun n => n ≤ max

theorem mem_capabilities_host (c : Capability) : c ∈ host.capabilities := by
  cases c <;> decide

end Role

/-! ## The gate -/

def refusalMessage (role : Role) (op : String) (action : Option Action) : String :=
  let needs (action : Action) :=
    let name := action.capability.elim "" Capability.asStr
    "\x60" ++ op ++ "\x60 needs the \x60" ++ name ++
      "\x60 permission, which this client does not have"
  match action with
  | none => "\x60" ++ op ++ "\x60 is not available in Party Mode"
  | some (.queue capability tracks) =>
    if capability ∈ role.capabilities then
      "this client may add at most " ++ toString (role.maxTracksPerAdd.getD 0) ++
        " track per request, to the end of the queue"
    else needs (.queue capability tracks)
  | some action => needs action

/-- A refused request; `capability` is none for an op the map does not know. -/
structure Refusal where
  op : String
  capability : Option Capability
  message : String
  deriving DecidableEq

/-- `PartyMode::check`: an op the map does not know passes only for the host. -/
def check (enabled : Bool) (role : Role) (op : String) (action : Option Action) :
    Except Refusal Unit :=
  let permitted := match action with
    | some action => role.permits action
    | none => role = .host
  if !enabled || permitted then .ok ()
  else .error
    { op, capability := action.bind Action.capability, message := refusalMessage role op action }

/-! ## What a role may do to the host -/

/-- The capability a host command is behind. -/
def capabilityOf : Command → Capability
  | .play | .pause | .playPause | .stop | .next | .previous | .setPosition _ | .playListItem _
  | .searchList _ => .playback
  | .queue queueType _ _ => .forQueue queueType
  | .playAll _ | .playPlaylist _ => .queueReplace
  | .removeListItem _ | .moveListItem _ _ | .clearList => .queueEdit
  | .setVolume _ | .setMute _ => .volume
  | .setShuffle _ | .setAutoDj _ | .setRepeat _ | .setScrobble _ | .setStopAfterCurrent _ => .modes
  | .setRating _ | .setLfmRating _ | .setTag _ _ | .writeNowPlayingTag _ _ _ _ => .libraryEdit
  | .createPlaylist _ _ _ | .deletePlaylist _ | .appendToPlaylist _ _ | .setPlaylistFiles _ _ =>
    .playlistEdit
  | .switchOutput _ => .output

/-- How many tracks a command queues. -/
def tracksQueued : Command → Nat
  | .queue _ files _ => files.length
  | _ => 0

/-- What a role may do: its capabilities, and no more tracks at once than it may add. -/
structure Allowed (role : Role) (commands : List Command) : Prop where
  held : ∀ c ∈ commands, capabilityOf c ∈ role.capabilities
  tracks : ∀ max, role.maxTracksPerAdd = some max → (commands.map tracksQueued).sum ≤ max

/-- A guest appends, and nothing else. -/
theorem Allowed.guest_appends {commands : List Command} (h : Allowed .guest commands) :
    ∀ c ∈ commands, ∃ files play, c = .queue .last files play := by
  intro c hc
  have hheld : capabilityOf c = .queueAdd := List.mem_singleton.mp (h.held c hc)
  cases c with
  | queue queueType files play => cases queueType <;> simp_all [capabilityOf, Capability.forQueue]
  | _ => simp [capabilityOf] at hheld

end Mbrc.Permissions

/-!
# Roles

Who a client is, and the role the host has given it: one table of the store under the key of the
principal, and the same in memory for the check of every request.
-/

namespace Mbrc.Permissions

/-! ## Principals -/

def appStart : String := "app:"

def browserStart : String := "browser:"

def legacyStart : String := "v4:"

inductive Principal where
  /-- A V6 app whose `client_id` was verified by its `client_token`. -/
  | app (id : String)
  | browser (id : String)
  /-- An Android 1.6 client, by its unverified `client_id`. -/
  | legacyDevice (id : String)
  | anonymous
  deriving DecidableEq

namespace Principal

/-- The key its role is stored under. -/
def key : Principal → Option String
  | app id => some (appStart ++ id)
  | browser id => some (browserStart ++ id)
  | legacyDevice id => some (legacyStart ++ id)
  | anonymous => none

/-- The principal a key names. -/
def fromKey (key : String) : Option Principal :=
  let named (start : String) := (Text.after start key).filter (· ≠ "")
  match named appStart with
  | some id => some (.app id)
  | none =>
    match named browserStart with
    | some id => some (.browser id)
    | none => (named legacyStart).map .legacyDevice

end Principal

namespace Role

def asStr : Role → String
  | host => "host"
  | dj => "dj"
  | guest => "guest"
  | listener => "listener"

def parse : String → Option Role
  | "host" => some host
  | "dj" => some dj
  | "guest" => some guest
  | "listener" => some listener
  | _ => none

@[simp] theorem parse_asStr (role : Role) : parse role.asStr = some role := by
  cases role <;> rfl

end Role

/-! ## Assignments -/

structure Roles where
  assigned : Table String Role
  /-- The table of the store, by the name of the role. -/
  stored : Table String String

namespace Roles

/-- Reads back the roles of an earlier run. -/
def «open» (stored : Table String String) : Roles :=
  { assigned := stored.rows.foldl
      (fun t row => (Role.parse row.2).elim t fun role => t.insert row.1 role) Table.empty
    stored }

/-- The role assigned to it, or the default. -/
def roleOf (r : Roles) (principal : Principal) : Role :=
  (principal.key.bind r.assigned.get?).getD .guest

def assign (r : Roles) (principal : Principal) (role : Role) : Roles × Bool :=
  match principal.key with
  | some key =>
    ({ assigned := r.assigned.insert key role, stored := r.stored.insert key role.asStr }, true)
  | none => (r, false)

/-- Back to the default role. -/
def unassign (r : Roles) (principal : Principal) : Roles :=
  match principal.key with
  | some key => { assigned := r.assigned.erase key, stored := r.stored.erase key }
  | none => r

/-- The apps that hold a role: the keys from the first app's on, up to one that is none's. -/
def pinnedApps (stored : Table String String) : List String :=
  (((stored.range fun key => decide (appStart ≤ key)).map fun row =>
    Text.after appStart row.1).takeWhile Option.isSome).reduceOption

end Roles

end Mbrc.Permissions
