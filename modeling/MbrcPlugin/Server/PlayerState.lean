import MbrcPlugin.Lib.Readings
import MbrcPlugin.Lib.Transition

/-!
# The player state and those who are told it

MusicBee's player changes on its own; the core reads it whole and keeps the reading in a cache.
A notification's handling reads and stores it, clones the cache and pushes an event; the monitor
reads and stores it, compares it with what it saw last and pushes events; a client's
`player_status` is answered from the cache, which a cold cache is filled for first.  Each of these
is a row of separate steps, in any order with those of the others.  The dates of the readings,
`sentAt` and `polledAt` are history: no step of the code looks at them.
-/

namespace Mbrc.Server.Player

open Readings

inductive PlayState where
  | undefined | stopped | playing | paused
  deriving DecidableEq

inductive ShuffleMode where
  | off | shuffle | autoDj
  deriving DecidableEq

inductive RepeatMode where
  | undefined | none | all | one
  deriving DecidableEq

/-- The fields of the player state. -/
inductive Field where
  | playState | volume | mute | shuffle | repeatMode | scrobble | stopAfterCurrent
  deriving DecidableEq

namespace Field

/-- What a field holds. -/
def Val : Field → Type
  | playState => PlayState
  | volume => Int
  | mute => Bool
  | shuffle => ShuffleMode
  | repeatMode => RepeatMode
  | scrobble => Bool
  | stopAfterCurrent => Bool

instance : (f : Field) → DecidableEq f.Val
  | playState => inferInstanceAs (DecidableEq PlayState)
  | volume => inferInstanceAs (DecidableEq Int)
  | mute => inferInstanceAs (DecidableEq Bool)
  | shuffle => inferInstanceAs (DecidableEq ShuffleMode)
  | repeatMode => inferInstanceAs (DecidableEq RepeatMode)
  | scrobble => inferInstanceAs (DecidableEq Bool)
  | stopAfterCurrent => inferInstanceAs (DecidableEq Bool)

/-- The fields whose notification pushes a V6 event; the others are the monitor's. -/
def notified : Field → Bool
  | playState | volume | mute => true
  | shuffle | repeatMode | scrobble | stopAfterCurrent => false

/-- MusicBee announces a change of the field, unless it is `silent`. -/
def announces : Field → Bool → Bool
  | scrobble, _ => false
  | stopAfterCurrent, silent => !silent
  | _, _ => true

/-- The default player state. -/
def blank : (f : Field) → f.Val
  | playState => PlayState.undefined
  | volume => (0 : Int)
  | mute => false
  | shuffle => ShuffleMode.off
  | repeatMode => RepeatMode.undefined
  | scrobble => false
  | stopAfterCurrent => false

end Field

/-- A whole player state as MusicBee answered it. -/
abbrev Seen := Reading Field.Val

/-- A read of the cache: `ensure_seeded`, then the clone. -/
inductive Snap where
  | check
  | fetch
  | store (r : Seen)
  | mark
  | clone
  | got (r : Seen)

/-- The handling of a notification. -/
inductive Handling where
  | start
  | store (r : Seen)
  | snap (p : Snap)
  | push (r : Seen) (moved : Bool)
  | done

/-- A notification and how far its handling is. -/
structure Handler where
  kind : Field
  phase : Handling

/-- `poll_and_broadcast`. -/
inductive Monitor where
  | idle
  | counted
  | store (r : Seen)
  | stored (r : Seen)
  | push (r : Seen) (frames : Field → Bool)

/-- A V6 subscriber: what it was told last under each field, and the read it waits for. -/
structure Sub where
  connected : Bool
  told : (f : Field) → Option f.Val
  asking : Option Snap

structure State where
  host : Source Field.Val
  cache : Seen
  seeded : Bool
  /-- What the monitor saw last. -/
  memories : (f : Field) → Option f.Val
  playStateSent : Option PlayState
  handlers : List Handler
  monitor : Monitor
  /-- The `refresh_all` of the start. -/
  warmUp : Snap
  subs : List Sub
  /-- The date of the reading last pushed, or found to need no push, under each field. -/
  sentAt : Field → Nat
  /-- The date of the reading of the last finished poll; a poll that finds nobody reads nothing. -/
  polledAt : Nat

namespace State

/-- Networking starts while the host plays anything. -/
def initial (player : (f : Field) → f.Val) : State :=
  { host := { now := player, clock := 1, changedAt := fun _ => 1 }
    cache := { value := Field.blank, stamp := 0 }
    seeded := false
    memories := fun _ => none
    playStateSent := none
    handlers := []
    monitor := .idle
    warmUp := .fetch
    subs := []
    sentAt := fun _ => 1
    polledAt := 0 }

/-- `set_player`, and the write of a refresh. -/
def setPlayer (s : State) (r : Seen) : State := { s with cache := r }

/-- Frames for some fields, pushed to every subscriber; `about` are the fields it settles. -/
def push (s : State) (about frames : Field → Bool) (r : Seen) : State :=
  { s with
    subs := s.subs.map fun c =>
      if c.connected then
        { c with told := fun f => if frames f then some (r.value f) else c.told f }
      else c
    sentAt := fun f => if about f then r.stamp else s.sentAt f }

end State

/-- One step of a cache read. -/
def Snap.step (s : State) : Snap → State × Snap
  | .check => (s, if s.seeded then .clone else .fetch)
  | .fetch => (s, .store s.host.read)
  | .store r => (s.setPlayer r, .mark)
  | .mark => ({ s with seeded := true }, .clone)
  | .clone => (s, .got s.cache)
  | .got r => (s, .got r)

/-- `play_state_moved`. -/
def playStateMoved (s : State) (state : PlayState) : State × Bool :=
  ({ s with playStateSent := some state }, s.playStateSent ≠ some state)

/-- One step of `on_notification` and the broadcast of its frames. -/
def Handling.step (s : State) (kind : Field) : Handling → State × Handling
  | .start => (s, .store s.host.read)
  | .store r => (s.setPlayer r, .snap .check)
  | .snap (.got r) =>
    if kind = .playState then
      let (s, moved) := playStateMoved s (r.value .playState)
      (s, .push r moved)
    else (s, .push r true)
  | .snap p =>
    let (s, p) := p.step s
    (s, .snap p)
  | .push r moved =>
    if kind.notified then (s.push (· = kind) (fun f => f = kind && moved) r, .done) else (s, .done)
  | .done => (s, .done)

/-- `seed_or_changed`: the first observation changes nothing. -/
def seedOrChanged {f : Field} (cached : Option f.Val) (current : f.Val) : Bool :=
  cached.any (· ≠ current)

/-- One step of the monitor; `v4` says whether a V4 client is connected. -/
def Monitor.step (s : State) (v4 : Bool) : Monitor → State
  | .idle =>
    if !v4 && s.subs.all (!·.connected) then s else { s with monitor := .counted }
  | .counted => { s with monitor := .store s.host.read }
  | .store r => { s.setPlayer r with monitor := .stored r }
  | .stored r =>
    { s with
      memories := fun f => if f.notified then s.memories f else some (r.value f)
      monitor := .push r fun f => !f.notified && seedOrChanged (s.memories f) (r.value f) }
  | .push r frames =>
    { s.push (fun f => !f.notified) frames r with polledAt := r.stamp, monitor := .idle }

inductive Event where
  /-- The host changes one field. -/
  | change (f : Field) (v : f.Val) (silent : Bool)
  /-- The host announces a field that did not change. -/
  | announce (f : Field)
  | handler (i : Nat)
  | poll (v4 : Bool)
  | warmUp
  | register
  | leave (i : Nat)
  /-- A client asks for `player_status`. -/
  | ask (i : Nat)
  | answer (i : Nat)

namespace State

def notify (s : State) (f : Field) : State :=
  { s with handlers := s.handlers ++ [{ kind := f, phase := .start }] }

/-- One step of a client's read; its last tells the client every field. -/
def answer (s : State) (i : Nat) (c : Sub) : Snap → State
  | .got r =>
    { s with subs := s.subs.set i { c with told := fun f => some (r.value f), asking := none } }
  | p =>
    let (t, p) := p.step s
    { t with subs := s.subs.set i { c with asking := some p } }

def step (s : State) : Event → Option State
  | .change f v silent =>
    let s' := { s with host := s.host.set f v }
    some (if f.announces silent then s'.notify f else s')
  | .announce f => if f.announces false then some (s.notify f) else none
  | .handler i => do
    let h ← s.handlers[i]?
    let (t, phase) := h.phase.step s h.kind
    some { t with handlers := s.handlers.set i { h with phase } }
  | .poll v4 => some (s.monitor.step s v4)
  | .warmUp =>
    let (t, warmUp) := s.warmUp.step s
    some { t with warmUp }
  | .register =>
    some { s with
      subs := s.subs ++ [{ connected := true, told := fun _ => none, asking := none }] }
  | .leave i => do
    let c ← s.subs[i]?
    some { s with subs := s.subs.set i { c with connected := false } }
  | .ask i => do
    let c ← s.subs[i]?
    if c.connected && c.asking.isNone then
      some { s with subs := s.subs.set i { c with asking := some .check } }
    else none
  | .answer i => do
    let c ← s.subs[i]?
    let p ← c.asking
    some (s.answer i c p)

end State

/-- Runs from the start of networking. -/
def system : Transition.System State Event where
  start s := ∃ player, s = State.initial player
  next := State.step

end Mbrc.Server.Player
