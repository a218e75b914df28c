import MbrcPlugin.Lib.Transition
import MbrcPlugin.Server.Installations
import MbrcPlugin.Server.Registry

/-!
# The connections of a server

Connections open, send frames and close, and call the registry as their tasks do: an accepted one
holds a slot of its IP, the first frame that completes its handshake registers it, its task takes it
out of the registry when it ends and gives the slot back after that.  A connection that is told to
close may still be served for a while.  A browser's connection holds a slot and never registers.

`Conn.lastFrame`, `Conn.admitted`, `World.admissions` and `World.evictions` are there for the
statements: no step of the code reads them.
-/

namespace Mbrc.Connections

open Registry
open Clients (Identity)

/-! ## Sessions -/

def maxProtocol : Nat := 5

def minProtocol : Nat := 4

/-- The negotiated handshake fields. -/
structure Handshake where
  version : Nat := 0
  noBroadcast : Bool := false
  clientId : Option String := none
  deriving DecidableEq

/-- `str::parse::<u8>`. -/
def parseU8 (s : String) : Option Nat := do
  let n ← match s.toList with
    | '+' :: digits => parseDigits digits
    | digits => parseDigits digits
  guard (n < 256)
  return n

/-- The bare forms of the payload carry the version only. -/
def parseHandshake (data : Value) : Handshake :=
  match data with
  | .number _ => { version := (Installations.asU64 data).getD 0 % 256 }
  | .string s => { version := (parseU8 (Text.trim s)).getD 0 }
  | .object _ =>
    { version := ((data.get "protocol_version").bind Installations.asU64).getD 0 % 256
      noBroadcast := ((data.get "no_broadcast").bind Value.asBool).getD false
      clientId := ((data.get "client_id").bind Value.asStr).filter fun s => s ≠ "" }
  | _ => {}

/-- A V4 or V5 session, as far as its registration goes. -/
structure LegacySession where
  protocolVersion : Option Nat := none
  noBroadcast : Bool := false
  clientId : Option String := none
  deriving DecidableEq

/-- The session after a payload, and whether it closes. -/
def LegacySession.handleProtocol (s : LegacySession) (data : Value) : LegacySession × Bool :=
  let handshake := parseHandshake data
  if handshake.version < minProtocol then (s, true)
  else
    ({ s with
      protocolVersion := some handshake.version
      noBroadcast := handshake.noBroadcast
      clientId := handshake.clientId }, false)

/-- A line as the lenient parser reads it; a command before the handshake closes. -/
def LegacySession.handleFrame (s : LegacySession) : Option Value → LegacySession × Bool
  | none => (s, false)
  | some value =>
    let context := ((value.get "context").bind Value.asStr).getD ""
    if context = "protocol" then s.handleProtocol ((value.get "data").getD .null)
    else if context ∈ ["player", "ping", "pong", "verifyconnection", ""] then (s, false)
    else (s, s.protocolVersion.isNone)

/-- A V6 session, as far as its registration goes. -/
structure V6Session where
  handshaked : Bool := false
  clientId : String := ""
  noBroadcast : Bool := false
  deriving DecidableEq

/-- A line as a request, if it is one; the identity is the answer of the identity store. -/
def V6Session.handleFrame (s : V6Session) (request : Option (String × Value))
    (identity : Identity) : V6Session × Bool :=
  match request with
  | some ("handshake", data) =>
    if s.handshaked then (s, false)
    else
      match Installations.readHello data, identity with
      | .error _, _ | .ok _, .refused => (s, true)
      | .ok hello, _ =>
        ({ handshaked := true, clientId := hello.clientId, noBroadcast := hello.noBroadcast },
          false)
  | _ => (s, !s.handshaked)

/-- What a connection registers with. -/
structure RegMeta where
  clientId : Option String
  isMain : Bool
  deriving DecidableEq

inductive Proto where
  | pending
  | legacy (s : LegacySession)
  | v6 (s : V6Session)
  deriving DecidableEq

/-- Known once the handshake is complete. -/
def Proto.regMeta : Proto → Option RegMeta
  | .pending => none
  | .legacy s =>
    s.protocolVersion.map fun _ => { clientId := s.clientId, isMain := !s.noBroadcast }
  | .v6 s =>
    if s.handshaked then some { clientId := some s.clientId, isMain := !s.noBroadcast } else none

/-- The id a connection is unregistered under. -/
def Proto.clientId (p : Proto) : Option String := p.regMeta.bind RegMeta.clientId

/-- A wire line, as the two parsers read it. -/
structure Line where
  lenient : Option Value
  request : Option (String × Value)

inductive Route where
  | legacy | v6 | unknown
  deriving DecidableEq

def Line.detect (l : Line) : Route :=
  match l.lenient with
  | some (.object fields) =>
    if (((Value.object fields).get "context").bind Value.asStr).isSome then .legacy
    else if (((Value.object fields).get "kind").bind Value.asStr).isSome then .v6
    else .unknown
  | _ => .unknown

/-- The first line routes the connection, and none of either shape closes it. -/
def Proto.handle (p : Proto) (l : Line) (identity : Identity) : Proto × Bool :=
  let routed : Option Proto := match p with
    | .pending => match l.detect with
      | .legacy => some (.legacy {})
      | .v6 => some (.v6 {})
      | .unknown => none
    | p => some p
  match routed with
  | some (.legacy s) => ((s.handleFrame l.lenient).map .legacy id)
  | some (.v6 s) => ((s.handleFrame l.request identity).map .v6 id)
  | _ => (p, true)

/-! ## Connections -/

inductive Phase where
  | «open»
  /-- Its loop is left. -/
  | closing
  /-- It is out of the registry. -/
  | closed
  /-- Its slot is given back. -/
  | released
  deriving DecidableEq

/-- How a connection was admitted, and as which admission. -/
structure Admission where
  clientId : Option String
  role : Role
  number : Nat
  deriving DecidableEq

structure Conn where
  ip : IpAddr
  proto : Proto := .pending
  registered : Bool := false
  phase : Phase := .«open»
  /-- Its handle was notified. -/
  told : Bool := false
  /-- When it was last read from. -/
  lastFrame : Nat := 0
  admitted : Option Admission := none
  deriving DecidableEq

/-- An eviction, and what was known of its victim. -/
structure Eviction where
  victim : Nat
  told : Bool
  admitted : Option Admission
  silentFor : Nat
  deriving DecidableEq

structure World where
  registry : State
  conns : List Conn
  admissions : Nat
  evictions : List Eviction

namespace World

/-- A handle is notified. -/
def tell (w : World) (n : Option Nat) : World :=
  match n with
  | some n => { w with conns := w.conns.modify n fun c => { c with told := true } }
  | none => w

def evict (w : World) (victim now : Nat) : World :=
  match w.conns[victim]? with
  | some c =>
    let eviction : Eviction :=
      { victim, told := c.told, admitted := c.admitted, silentFor := now - c.lastFrame }
    World.tell { w with evictions := w.evictions ++ [eviction] } (some victim)
  | none => w

/-- `accept_loop`. -/
def accept (w : World) (ip : IpAddr) (now : Nat) : World :=
  match w.registry.admitIp ip now with
  | (.admitted, registry) => { w with registry, conns := w.conns ++ [{ ip }] }
  | (.evicted victim, registry) =>
    { (w.evict victim now) with
      registry, conns := (w.evict victim now).conns ++ [{ ip }] }
  | (.rejected, registry) => { w with registry }

/-- `register_and_subscribe`, for a connection whose handshake is complete. -/
def registerConn (w : World) (n : Nat) (c : Conn) (reg : RegMeta) (close : Bool) (now : Nat) :
    World :=
  let role := if reg.isMain then Role.subscriber else Role.auxiliary
  match w.registry.register n c.ip reg.clientId role now with
  | (.admitted, registry, superseded) =>
    World.tell { w with
      registry
      admissions := w.admissions + 1
      conns := w.conns.set n { c with
        registered := true
        phase := if close then .closing else .«open»
        admitted := some { clientId := reg.clientId, role, number := w.admissions } } } superseded
  | (.rejectedCap, registry, _) =>
    { w with
      registry, conns := w.conns.set n { c with registered := true, phase := .closing } }

end World

/-! ## Steps -/

inductive Event where
  | accept (ip : IpAddr) (now : Nat)
  /-- Something is read from a connection. -/
  | received (n now : Nat)
  | frame (n : Nat) (line : Line) (identity : Identity) (now : Nat)
  /-- The task of a connection leaves its loop, if it has not, and takes it out. -/
  | finish (n : Nat)
  | release (n : Nat)

def step (w : World) : Event → Option World
  | .accept ip now => some (w.accept ip now)
  | .received n now => do
    let c ← w.conns[n]?
    guard (c.phase = .«open» ∧ c.lastFrame ≤ now)
    return {
      w with
      registry := w.registry.touch n now
      conns := w.conns.set n { c with lastFrame := now } }
  | .frame n line identity now => do
    let c ← w.conns[n]?
    guard (c.phase = .«open» ∧ c.lastFrame ≤ now)
    let (proto, close) := c.proto.handle line identity
    let c := { c with proto }
    match if c.registered then none else proto.regMeta with
    | some reg => return w.registerConn n c reg close now
    | none =>
      return {
        w with conns := w.conns.set n { c with phase := if close then .closing else .«open» } }
  | .finish n => do
    let c ← w.conns[n]?
    guard (c.phase = .«open» ∨ c.phase = .closing)
    return {
      w with
      registry := w.registry.unregister n c.proto.clientId
      conns := w.conns.set n { c with phase := .closed } }
  | .release n => do
    let c ← w.conns[n]?
    guard (c.phase = .closed)
    return {
      w with
      registry := w.registry.releaseIp c.ip
      conns := w.conns.set n { c with phase := .released } }

def initial (maxConnsPerClient maxConnsPerIp : Nat) : World :=
  { registry := State.new maxConnsPerClient maxConnsPerIp, conns := [], admissions := 0
    evictions := [] }

def system : Transition.System World Event where
  start w := ∃ maxConnsPerClient maxConnsPerIp, w = initial maxConnsPerClient maxConnsPerIp
  next := step

/-! ## What a step does -/

section

variable {w w' : World} {n now : Nat} {c : Conn}

theorem tell_some (h : w.conns[n]? = some c) :
    w.tell (some n) = { w with conns := w.conns.set n { c with told := true } } := by
  have hconns : w.conns.modify n (fun c => { c with told := true }) =
      w.conns.set n { c with told := true } := by
    apply List.ext_getElem?
    intro m
    rw [List.getElem?_modify, List.getElem?_set]
    by_cases hm : n = m
    · subst hm
      rw [if_pos rfl, if_pos (List.getElem?_eq_some_iff.mp h).1, h]
      simp
    · simp [hm]
  exact congrArg (fun conns => { w with conns }) hconns

theorem tell_of_none (h : w.conns[n]? = none) : w.tell (some n) = w := by
  have hconns : w.conns.modify n (fun c => { c with told := true }) = w.conns := by
    apply List.ext_getElem?
    intro m
    rw [List.getElem?_modify]
    by_cases hm : n = m
    · subst hm
      simp [h]
    · simp [hm]
  exact congrArg (fun conns => { w with conns }) hconns

@[simp] theorem tell_registry (o : Option Nat) : (w.tell o).registry = w.registry := by
  unfold World.tell
  split <;> rfl

@[simp] theorem tell_evictions (o : Option Nat) : (w.tell o).evictions = w.evictions := by
  unfold World.tell
  split <;> rfl

@[simp] theorem tell_admissions (o : Option Nat) : (w.tell o).admissions = w.admissions := by
  unfold World.tell
  split <;> rfl

/-- A frame is handled, and the connection registered if that completes its handshake. -/
theorem frame_cases {line : Line} {identity : Clients.Identity}
    (h : step w (.frame n line identity now) = some w') :
    ∃ c, w.conns[n]? = some c ∧ c.phase = .«open» ∧ c.lastFrame ≤ now ∧
      ∃ proto close, c.proto.handle line identity = (proto, close) ∧
        ((∃ reg, c.registered = false ∧ proto.regMeta = some reg ∧
            w' = w.registerConn n { c with proto } reg close now) ∨
          ((c.registered = true ∨ proto.regMeta = none) ∧
            w' = { w with conns := w.conns.set n { c with
              proto, phase := if close then .closing else .«open» } })) := by
  simp only [step, Option.bind_eq_bind, Option.bind_eq_some_iff, Option.guard_eq_some'] at h
  obtain ⟨c, hc, _, ⟨hopen, hclock⟩, h⟩ := h
  refine ⟨c, hc, hopen, hclock, (c.proto.handle line identity).1,
    (c.proto.handle line identity).2, rfl, ?_⟩
  cases hregistered : c.registered with
  | true =>
    right
    simp only [hregistered, if_true] at h
    exact ⟨Or.inl rfl, (Option.some.inj h).symm⟩
  | false =>
    simp only [hregistered, Bool.false_eq_true, if_false] at h
    cases hreg : (c.proto.handle line identity).1.regMeta with
    | some reg =>
      rw [hreg] at h
      exact Or.inl ⟨reg, rfl, rfl, (Option.some.inj h).symm⟩
    | none =>
      rw [hreg] at h
      exact Or.inr ⟨Or.inr rfl, (Option.some.inj h).symm⟩

theorem received_cases (h : step w (.received n now) = some w') :
    ∃ c, w.conns[n]? = some c ∧ c.phase = .«open» ∧ c.lastFrame ≤ now ∧
      w' = { w with
        registry := w.registry.touch n now
        conns := w.conns.set n { c with lastFrame := now } } := by
  simp only [step, Option.bind_eq_bind, Option.bind_eq_some_iff, Option.guard_eq_some'] at h
  obtain ⟨c, hc, _, ⟨hopen, hclock⟩, h⟩ := h
  exact ⟨c, hc, hopen, hclock, (Option.some.inj h).symm⟩

theorem finish_cases (h : step w (.finish n) = some w') :
    ∃ c, w.conns[n]? = some c ∧ (c.phase = .«open» ∨ c.phase = .closing) ∧
      w' = { w with
        registry := w.registry.unregister n c.proto.clientId
        conns := w.conns.set n { c with phase := .closed } } := by
  simp only [step, Option.bind_eq_bind, Option.bind_eq_some_iff, Option.guard_eq_some'] at h
  obtain ⟨c, hc, _, hphase, h⟩ := h
  exact ⟨c, hc, hphase, (Option.some.inj h).symm⟩

theorem release_cases (h : step w (.release n) = some w') :
    ∃ c, w.conns[n]? = some c ∧ c.phase = .closed ∧
      w' = { w with
        registry := w.registry.releaseIp c.ip
        conns := w.conns.set n { c with phase := .released } } := by
  simp only [step, Option.bind_eq_bind, Option.bind_eq_some_iff, Option.guard_eq_some'] at h
  obtain ⟨c, hc, _, hphase, h⟩ := h
  exact ⟨c, hc, hphase, (Option.some.inj h).symm⟩

/-- A connection has one number. -/
theorem set_getElem? {m : Nat} {c' d : Conn} (h : (w.conns.set n c')[m]? = some d) :
    (m = n ∧ d = c') ∨ (m ≠ n ∧ w.conns[m]? = some d) := by
  rw [List.getElem?_set] at h
  split at h
  · rename_i heq
    split at h
    · exact Or.inl ⟨heq.symm, (Option.some.inj h).symm⟩
    · simp at h
  · rename_i hne
    exact Or.inr ⟨Ne.symm hne, h⟩

end

end Mbrc.Connections
