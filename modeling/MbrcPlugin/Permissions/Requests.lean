import MbrcPlugin.Commands.V6
import MbrcPlugin.Permissions.Gate

/-!
# What a request needs

A V4 context or a V6 op is classed into an action from its name and its data; a name the map does
not know has no action.  The session asks the gate before it dispatches a request.
-/

namespace Mbrc.Permissions

open Providers

/-! ## V4 -/

namespace V4

/-- The contexts that set a value when given one and answer it when not. -/
def getOrSet : List String :=
  ["playervolume", "playermute", "scrobbler", "playershuffle", "playerrepeat",
    "nowplayingposition", "nowplayingrating", "nowplayinglfmrating"]

/-- How many paths a `nowplayingqueue` request would queue: its string entries. -/
def queuedPaths (data : Value) : Nat :=
  (((data.get "data").bind Value.asArray).map fun items => items.countP Value.isString).getD 0

def setIf (sets : Bool) (capability : Capability) : Action :=
  if sets then .change capability else .read

def queries : List String :=
  ["playerstatus", "playeroutput", "nowplayingtrack", "nowplayingdetails", "nowplayingcover",
    "nowplayinglyrics", "nowplayingcurrentposition", "nowplayinglist", "browsegenres",
    "browseartists", "browsealbums", "browsetracks", "librarygenreartists",
    "libraryartistalbums", "libraryalbumtracks", "libraryalbumcover",
    "librarycovercachebuildstatus", "radiostations", "playlistlist", "pluginversion", "init"]

/-- The action a V4 request performs. -/
def action (context : String) (data : Value) : Option Action :=
  let text := data.asStr
  let toggles := text = some "toggle"
  match context with
  | "playerplay" | "playerpause" | "playerplaypause" | "playerstop" | "playernext"
  | "playerprevious" | "nowplayinglistplay" | "nowplayinglistsearch" => some (.change .playback)
  | "nowplayingposition" => some (setIf (asIntLenient data).isSome .playback)
  | "nowplayingqueue" =>
    let placement := WireV4.parseQueueType (((data.get "queue").bind Value.asStr).getD "next")
    some (.queueAt placement (some (queuedPaths data)))
  | "libraryplayall" | "playlistplay" => some (.change .queueReplace)
  | "nowplayinglistremove" | "nowplayinglistmove" => some (.change .queueEdit)
  | "playervolume" => some (setIf (asIntLenient data).isSome .volume)
  | "playermute" => some (setIf (toggles || (asBoolLenient data).isSome) .volume)
  | "scrobbler" => some (setIf (toggles || (asBoolLenient data).isSome) .modes)
  | "playershuffle" =>
    some (setIf (text.any (· ∈ ["toggle", "autodj", "shuffle", "off"])) .modes)
  | "playerrepeat" =>
    some (setIf (text.any fun t => t = "toggle" || (WireV4.parseRepeat t).isSome) .modes)
  | "nowplayingrating" => some (setIf (asSetString data).isSome .libraryEdit)
  | "nowplayinglfmrating" =>
    some (setIf (text.any fun t => asciiLower t = "toggle" || (WireV4.parseLfm t).isSome)
      .libraryEdit)
  | "nowplayingtagchange" => some (.change .libraryEdit)
  | "playeroutputswitch" => some (.change .output)
  | context => if context ∈ queries then some .read else none

end V4

/-! ## V6 -/

namespace V6

/-- Where a queueing request puts its tracks, with the op's own default.  A mode the handler would
reject counts as replacing the queue. -/
def placement (data : Value) (default : String) : QueueType :=
  let parse (mode : String) := (CommandsV6.parseQueueType mode).toOption.getD .playNow
  match data.get "mode" with
  | none | some .null => parse default
  | some (.string mode) => parse mode
  | some _ => .playNow

def queries : List String :=
  ["handshake", "ping", "pair", "player_status", "player_output", "system_info", "track_get",
    "cover_get", "library_genres", "library_artists", "library_albums", "library_tracks",
    "library_radio", "library_changes", "playlist_list", "playlist_tracks", "now_playing_state",
    "now_playing_details", "now_playing_position", "now_playing_lyrics", "now_playing_list",
    "podcast_subscriptions", "podcast_subscription", "podcast_episodes", "podcast_episode",
    "media_sources", "media_albums", "media_tracks", "tag_fields", "tag_values",
    "now_playing_tags"]

/-- The action a V6 request performs. -/
def action (op : String) (data : Value) : Option Action :=
  match op with
  | "player_play" | "player_pause" | "player_play_pause" | "player_stop" | "player_next"
  | "player_previous" | "now_playing_seek" | "now_playing_list_play"
  | "now_playing_list_search" => some (.change .playback)
  | "now_playing_queue" =>
    some (.queueAt (placement data "next")
      (((data.get "paths").bind Value.asArray).map List.length))
  | "library_queue" | "media_queue" => some (.queueAt (placement data "last") none)
  | "podcast_episode_play" => some (.queueAt (placement data "now") (some 1))
  | "library_play_all" | "playlist_play" => some (.change .queueReplace)
  | "now_playing_list_remove" | "now_playing_list_move" | "now_playing_list_clear" =>
    some (.change .queueEdit)
  | "player_set_volume" | "player_set_mute" => some (.change .volume)
  | "player_set_shuffle" | "player_set_repeat" | "player_set_stop_after_current"
  | "player_set_scrobbling" => some (.change .modes)
  | "now_playing_set_rating" | "now_playing_set_lfm" | "now_playing_set_tag" =>
    some (.change .libraryEdit)
  | "playlist_create" | "playlist_delete" | "playlist_add_tracks" | "playlist_remove_tracks"
  | "playlist_move_tracks" | "playlist_set_tracks" => some (.change .playlistEdit)
  | "player_set_output" => some (.change .output)
  | op => if op ∈ queries then some .read else none

end V6

/-! ## The sessions -/

/-- The switch and the role of the client, as the gate finds them when a request arrives. -/
structure Standing where
  partyMode : Bool
  role : Role

namespace Session

/-- `refusal_replies`: a get-or-set context is answered its current value. -/
def refusalReplies (ctx : Commands.Ctx) (context : String) : Handler (List Reply) := do
  let unavailable : List Reply := [("commandunavailable", .string "")]
  if context ∈ V4.getOrSet then
    match Commands.dispatch ctx context .null with
    | some query => tryCatch (return unavailable ++ (← query)) fun _ => return unavailable
    | none => return unavailable
  else return unavailable

/-- `dispatch_command` of a V4 session after its handshake; an unknown context gets no reply. -/
def dispatchCommand (standing : Standing) (ctx : Commands.Ctx) (context : String) (data : Value) :
    Handler (List Reply) :=
  match check standing.partyMode standing.role context (V4.action context data) with
  | .error _ => refusalReplies ctx context
  | .ok _ => (Commands.dispatch ctx context data).getD (pure [])

/-- `dispatch_op` of a V6 session after its handshake; `pair` is answered from the pairing. -/
def dispatchOp (standing : Standing) (listVersion : Nat) (op : String) (data : Value)
    (pair : Except V6Error Value) : HandlerV6 Value := do
  if op = "ping" then
    return data
  if op = "pair" then
    return ← Interaction.Fallible.check pair
  match check standing.partyMode standing.role op (V6.action op data) with
  | .error refusal => throw { code := .forbidden, message := refusal.message }
  | .ok _ =>
    match CommandsV6.dispatch listVersion op data with
    | some handler => handler
    | none => throw { code := .unknownOp, message := "unknown op: " ++ op }

end Session

end Mbrc.Permissions

/-!
# What an action covers

A handler is `Covered` by an action when each of its commands is behind a capability that whoever
holds the action's holds too, and it queues no more tracks than the action says.  A role that the
action is permitted to may do all that a covered handler does (`Covered.allowed`).
-/

namespace Mbrc.Permissions

open Interaction Providers

/-! ## Covered handlers -/

/-- Every role that holds the one holds the other. -/
def Implies (a b : Capability) : Prop :=
  ∀ role : Role, a ∈ role.capabilities → b ∈ role.capabilities

instance (a b : Capability) : Decidable (Implies a b) :=
  decidable_of_iff
    (∀ role ∈ [Role.host, .dj, .guest, .listener], a ∈ role.capabilities → b ∈ role.capabilities)
    ⟨fun h role => h role (by cases role <;> decide), fun h role _ => h role⟩

/-- How many tracks an action queues at most. -/
def Action.atMost : Action → Option Nat
  | read => some 0
  | change _ => some 0
  | queue _ tracks => tracks

/-- How many tracks a call queues. -/
def callTracks : Call → Nat
  | .command c => tracksQueued c
  | _ => 0

/-- A program does no more than the action says. -/
structure Covered {ε α : Type} (action : Action) (h : Fallible Answer ε α) : Prop where
  commands : h.Within (OnCommands fun c =>
    ∃ capability, action.capability = some capability ∧ Implies capability (capabilityOf c))
  tracks : ∀ n, action.atMost = some n → h.Spends callTracks n

variable {ε α σ : Type} {action : Action} {h : Fallible Answer ε α}

theorem sum_tracksQueued (calls : List Call) :
    ((calls.filterMap Call.command?).map tracksQueued).sum = (calls.map callTracks).sum := by
  induction calls with
  | nil => rfl
  | cons call calls ih =>
    cases call with
    | command c => simp [Call.command?, callTracks, ih]
    | query q =>
      have hzero : callTracks (.query q) = 0 := rfl
      rw [List.filterMap_cons_none rfl, List.map_cons, List.sum_cons, hzero, Nat.zero_add, ih]
    | reading r =>
      have hzero : callTracks (.reading r) = 0 := rfl
      rw [List.filterMap_cons_none rfl, List.map_cons, List.sum_cons, hzero, Nat.zero_add, ih]

/-- **A covered program does what its role may do**, where the role permits the action. -/
theorem Covered.allowed (hc : Covered action h) {role : Role} (hrole : role.permits action = true)
    (host : σ → (c : Call) → Answer c × σ) (s : σ) :
    Allowed role (Providers.commands host h s) where
  held c hmem := by
    obtain ⟨capability, haction, himplies⟩ := within_commands hc.commands host s c hmem
    apply himplies role
    cases action with
    | read => simp [Action.capability] at haction
    | change cap =>
      obtain rfl : cap = capability := Option.some.inj haction
      simpa [Role.permits] using hrole
    | queue cap tracks =>
      obtain rfl : cap = capability := Option.some.inj haction
      simp only [Role.permits, Bool.and_eq_true, decide_eq_true_eq] at hrole
      exact hrole.1
  tracks max hmax := by
    have hspends : ∃ n, action.atMost = some n ∧ n ≤ max := by
      cases action with
      | read => exact ⟨0, rfl, Nat.zero_le max⟩
      | change cap => exact ⟨0, rfl, Nat.zero_le max⟩
      | queue cap tracks =>
        simp only [Role.permits, Bool.and_eq_true, hmax, Option.all_some] at hrole
        cases tracks with
        | none => simp at hrole
        | some n => exact ⟨n, rfl, by simpa using hrole.2⟩
    obtain ⟨n, hn, hle⟩ := hspends
    unfold Providers.commands
    rw [sum_tracksQueued]
    exact ((hc.tracks n hn).calls host s).trans hle

theorem Covered.of_some {a b : Action} (hc : Covered b h) (ha : some b = some a) :
    Covered a h := by
  rwa [← Option.some.inj ha]

/-! ## Handlers that queue nothing -/

/-- A command that queues nothing and is behind the action's capability. -/
def Needs (action : Action) (c : Command) : Prop :=
  action.capability = some (capabilityOf c) ∧ tracksQueued c = 0

@[simp] theorem needs_change (capability : Capability) (c : Command) :
    Needs (.change capability) c ↔ capability = capabilityOf c ∧ tracksQueued c = 0 := by
  simp [Needs, Action.capability]

/-- A call that is no command is free. -/
theorem free_of_onCommands {call : Call} (h : OnCommands (fun _ => False) call) :
    callTracks call = 0 := by
  cases call with
  | command c => exact h.elim
  | query q => rfl
  | reading r => rfl

/-- A handler whose commands are behind the action's capability. -/
theorem Covered.of_needs (hn : h.Within (OnCommands (Needs action))) : Covered action h where
  commands := by
    apply hn.mono
    intro call hcall
    cases call with
    | command c => exact ⟨capabilityOf c, hcall.1, fun _ h => h⟩
    | query q => trivial
    | reading r => trivial
  tracks n _ := by
    apply Program.Within.spends
    apply hn.mono
    intro call hcall
    cases call with
    | command c => exact hcall.2
    | query q => rfl
    | reading r => rfl

theorem covered_reads (asks : List Method) : Covered .read (reads asks) :=
  Covered.of_needs ((within_reads asks).mpr trivial)

theorem covered_readsV6 (asks : List Method) : Covered .read (readsV6 asks) :=
  Covered.of_needs ((within_readsV6 asks).mpr trivial)

/-- Switching the output needs its capability on every path. -/
theorem within_switchOutputTo (err : String → ε) (device : String) :
    Fallible.Within (OnCommands (Needs (.change .output)))
      (Commands.switchOutputTo err device) := by
  unfold Commands.switchOutputTo
  rw [within_ask_bind]
  intro devices
  apply Fallible.Within.ite
  · intro _
    trivial
  · intro _
    apply (within_perform_bind (.switchOutput device) _).mpr
    exact ⟨⟨rfl, rfl⟩, (within_ask .outputDevices).mpr trivial⟩

/-! ## Handlers that queue -/

/-- Replacing the queue needs what every placement needs. -/
theorem replace_implies (t : QueueType) : Implies .queueReplace (.forQueue t) := by
  cases t <;> decide

theorem Implies.refl (a : Capability) : Implies a a := fun _ h => h

/-- One call that queues, and what follows it. -/
theorem spends_queue {err : String → ε} {t : QueueType} {files : List String} {play : String}
    {n : Nat} (hn : files.length ≤ n) {f : Unit → Fallible Answer ε α}
    (hf : ∀ m, Fallible.Spends callTracks m (f ())) :
    Fallible.Spends callTracks n (perform err (.queue t files play) >>= f) :=
  Fallible.spends_attempt_bind hn fun _ _ _ => hf _

end Mbrc.Permissions
