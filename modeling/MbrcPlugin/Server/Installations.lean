import MbrcPlugin.Lib.Transition
import MbrcPlugin.Permissions.Requests
import MbrcPlugin.Server.Clients
import MbrcPlugin.Web.Pairing

/-!
# Installations and their roles

The V6 sessions of a server over its identity store, its roles and its pairing codes: a handshake
settles the principal of a session, `pair` gives the role of a code to the app of a session, and
every other op passes the gate under the role of the principal.

`Session.token`, `World.earned` and `World.acts` are there for the statements: no step of the code
reads them.
-/

namespace Mbrc.Installations

open Permissions Clients

/-! ## Errors -/

inductive ErrorCode where
  | unsupportedVersion | missingField | invalidField | invalidToken | unauthorized | notAllowed
  | unavailable | forbidden
  deriving DecidableEq

structure SessionError where
  code : ErrorCode
  message : String
  field : Option String := none
  deriving DecidableEq

def protocolVersion : Nat := 6

/-- `reject_handshake`. -/
def rejection (code : ErrorCode) (field : String) : SessionError :=
  { code, field := some field
    message := match code with
      | .unsupportedVersion =>
        "unsupported " ++ field ++ "; this server speaks " ++ toString protocolVersion
      | .missingField => "missing required field: " ++ field
      | .invalidToken => field ++ " does not match the one issued for this client_id; " ++
        "                 generate a new client_id and handshake again"
      | _ => "invalid field: " ++ field }

/-! ## Handshakes -/

inductive ClientType where
  | android | ios | desktop | web | cli
  deriving DecidableEq

namespace ClientType

def asStr : ClientType → String
  | android => "android"
  | ios => "ios"
  | desktop => "desktop"
  | web => "web"
  | cli => "cli"

def parse : String → Option ClientType
  | "android" => some android
  | "ios" => some ios
  | "desktop" => some desktop
  | "web" => some web
  | "cli" => some cli
  | _ => none

end ClientType

/-- `Value::as_u64`. -/
def asU64 : Value → Option Nat
  | .number (.posInt n) => some n.toNat
  | _ => none

/-- The fields of a handshake that passes the checks. -/
structure Hello where
  clientId : String
  clientType : ClientType
  noBroadcast : Bool
  token : Option String
  name : Option String
  deriving DecidableEq

def checkVersion (data : Value) : Except SessionError Unit :=
  match data.get "protocol_version" with
  | none => .error (rejection .missingField "protocol_version")
  | some v =>
    match asU64 v with
    | some n =>
      if n = protocolVersion then .ok ()
      else .error (rejection .unsupportedVersion "protocol_version")
    | none => .error (rejection .invalidField "protocol_version")

def readClientId (data : Value) : Except SessionError String :=
  match data.get "client_id" with
  | none => .error (rejection .missingField "client_id")
  | some (.string s) =>
    if s ≠ "" ∧ s.utf8ByteSize ≤ maxClientIdLen then .ok s
    else .error (rejection .invalidField "client_id")
  | some _ => .error (rejection .invalidField "client_id")

def readClientType (data : Value) : Except SessionError ClientType :=
  match data.get "client_type" with
  | none => .error (rejection .missingField "client_type")
  | some (.string s) =>
    match ClientType.parse s with
    | some clientType => .ok clientType
    | none => .error (rejection .invalidField "client_type")
  | some _ => .error (rejection .invalidField "client_type")

def readHello (data : Value) : Except SessionError Hello := do
  checkVersion data
  let clientId ← readClientId data
  let clientType ← readClientType data
  return {
    clientId, clientType
    noBroadcast := ((data.get "no_broadcast").bind Value.asBool).getD false
    token := (data.get "client_token").bind Value.asStr
    name := (data.get "client_name").bind Value.asStr }

/-! ## Sessions -/

/-- What a client may do, as it is told. -/
structure Told where
  partyMode : Bool
  role : Role
  allowed : List Capability
  maxTracksPerAdd : Option Nat
  deriving DecidableEq

structure Session where
  peer : String
  handshaked : Bool := false
  clientId : String := ""
  clientType : Option ClientType := none
  noBroadcast : Bool := false
  /-- Settled at the handshake, unless the transport knew. -/
  principal : Option Principal
  told : Option Told := none
  /-- The token its handshake presented or was issued. -/
  token : Option String := none
  deriving DecidableEq

/-- A request that was judged by a role: the token of its session, and the one that earned the
role, if a `pair` did. -/
structure Act where
  token : Option String
  earned : Option String
  deriving DecidableEq

structure World where
  /-- The store is in use. -/
  active : Bool
  identities : Identities
  roles : Roles
  partyMode : Bool
  pairing : Pairing.State
  sessions : List Session
  /-- The token of the session whose `pair` gave an app the role it has. -/
  earned : String → Option String
  acts : List Act

/-- When a request is handled, and the random token there is for it. -/
structure Moment where
  ms : Int
  instant : Nat
  fresh : String
  deriving DecidableEq

inductive Reply where
  | welcome (told : Told) (clientToken : Option String)
  /-- `ping` and `pair`. -/
  | done (data : Value)
  /-- The gate lets the op through to its handler. -/
  | passed
  | failed (error : SessionError)

namespace World

/-- `PartyMode::permissions`. -/
def permissions (w : World) (principal : Principal) : Told :=
  if w.partyMode then
    let role := w.roles.roleOf principal
    { partyMode := true, role, allowed := role.capabilities
      maxTracksPerAdd := role.maxTracksPerAdd }
  else
    { partyMode := false, role := .host, allowed := Capability.all, maxTracksPerAdd := none }

/-- `unassign_role`. -/
def unassign (w : World) (principal : Principal) : World :=
  { w with
    roles := w.roles.unassign principal
    earned := fun id => if principal = .app id then none else w.earned id }

/-- `assign_role`, by a session with a token or by the panel. -/
def assign (w : World) (principal : Principal) (role : Role) (token : Option String) : World :=
  { w with
    roles := (w.roles.assign principal role).1
    earned := fun id => if principal = .app id then token else w.earned id }

/-! ## Requests -/

section

variable (hash : String → String)

def identify (w : World) (hello : Hello) (peer : String) (moment : Moment) : World × Identity :=
  if w.active then
    let about : Introduction :=
      { name := hello.name, clientType := hello.clientType.asStr, address := some peer }
    let (identity, record) :=
      Clients.identify hash (w.identities.get? hello.clientId).join hello.token about moment.ms
        moment.fresh
    (match record with
      | some record =>
        { w with identities := store w.roles.stored w.identities hello.clientId record moment.ms }
      | none => w, identity)
  else (w, .known)

/-- The session a handshake leaves, `none` where it closes the connection. -/
def handleHandshake (w : World) (s : Session) (data : Value) (moment : Moment) :
    World × Option Session × Reply :=
  match readHello data with
  | .error e => (w, none, .failed e)
  | .ok hello =>
    let welcome (w : World) (issued : Option String) : World × Option Session × Reply :=
      let w := if issued.isSome then w.unassign (.app hello.clientId) else w
      let principal :=
        s.principal.getD (if w.active then .app hello.clientId else .anonymous)
      let told := w.permissions principal
      (w, some { s with
        handshaked := true, clientId := hello.clientId, clientType := some hello.clientType
        noBroadcast := hello.noBroadcast, principal := some principal, told := some told
        token := issued.or hello.token }, .welcome told issued)
    match w.identify hash hello s.peer moment with
    | (w, .refused) => (w, none, .failed (rejection .invalidToken "client_token"))
    | (w, .issued token) => welcome w (some token)
    | (w, .known) => welcome w none

end

/-- The `pair` op. -/
def pair (w : World) (s : Session) (data : Value) (moment : Moment) : World × Reply :=
  match data.get "code" with
  | none =>
    (w, .failed
      { code := .missingField, message := "missing required field: code", field := some "code" })
  | some (.string code) =>
    match s.principal with
    | some (.app clientId) =>
      match w.pairing.takeCodeAt code s.peer moment.instant with
      | (pairing, .ok role) =>
        ({ w with pairing }.assign (.app clientId) role s.token,
          .done (.object [("role", .string role.asStr)]))
      | (pairing, .error refused) =>
        ({ w with pairing }, .failed { code := .unauthorized, message := refused.message })
    | some (.browser _) =>
      (w, .failed
        { code := .notAllowed
          message := "this browser is paired through \x60POST /api/pair\x60" })
    | _ =>
      (w, .failed
        { code := .unavailable
          message := "this server cannot verify client identities, so it cannot hold a role " ++
            "for this app" })
  | some _ =>
    (w, .failed
      { code := .invalidField, message := "code must be a string", field := some "code" })

/-- The gate before an op. -/
def dispatch (w : World) (s : Session) (op : String) (data : Value) : World × Reply :=
  let principal := s.principal.getD .anonymous
  let earned := match principal with
    | .app id => w.earned id
    | _ => none
  let w' := if w.partyMode then { w with acts := w.acts ++ [{ token := s.token, earned }] } else w
  match check w.partyMode (w.roles.roleOf principal) op (V6.action op data) with
  | .ok () => (w', .passed)
  | .error refusal => (w', .failed { code := .forbidden, message := refusal.message })

/-- `handle_request`. -/
def handleRequest (hash : String → String) (w : World) (s : Session) (op : String) (data : Value)
    (moment : Moment) : World × Option Session × Reply :=
  if op = "handshake" then
    if s.handshaked then
      (w, some s, .failed
        { code := .notAllowed, message := "handshake already completed on this connection" })
    else w.handleHandshake hash s data moment
  else if s.handshaked then
    if op = "ping" then (w, some s, .done data)
    else
      let (w, reply) := if op = "pair" then w.pair s data moment else w.dispatch s op data
      (w, some s, reply)
  else
    (w, none, .failed
      { code := .unauthorized, message := "handshake required before any other op" })

/-- `set_party_role`: the panel names a device by its key, and Guest is the default. -/
def setPartyRole (w : World) (key role : String) : World :=
  match Principal.fromKey key, Role.parse role with
  | some principal, some role =>
    if role = .guest then w.unassign principal else w.assign principal role none
  | _, _ => w

end World

/-! ## Steps -/

inductive Event where
  /-- A connection opens, over a socket or by a browser that may be paired. -/
  | connect (peer : String) (browser : Option (Option String))
  | request (n : Nat) (op : String) (data : Value) (moment : Moment)
  | close (n : Nat)
  | newCode (code : String) (role : Role) (instant : Nat)
  | setPartyRole (key role : String)
  | setPartyMode (enabled : Bool)
  | restart

/-- What the transport knows of a client. -/
def known : Option (Option String) → Option Principal
  | none => none
  | some none => some .anonymous
  | some (some id) => some (.browser id)

section

variable (hash : String → String)

def step (w : World) : Event → Option World
  | .connect peer browser =>
    some { w with sessions := w.sessions ++ [{ peer, principal := known browser }] }
  | .request n op data moment => do
    let s ← w.sessions[n]?
    match w.handleRequest hash s op data moment with
    | (w', some s', _) => some { w' with sessions := w.sessions.set n s' }
    | (w', none, _) => some { w' with sessions := w.sessions.eraseIdx n }
  | .close n => some { w with sessions := w.sessions.eraseIdx n }
  | .newCode code role instant =>
    some { w with pairing := w.pairing.newCodeFor code role instant }
  | .setPartyRole key role => some (w.setPartyRole key role)
  | .setPartyMode enabled => some { w with partyMode := enabled }
  | .restart => some { w with sessions := [], pairing := {}, roles := Roles.«open» w.roles.stored }

def World.initial (active : Bool) (identities : Identities) (roles : Table String String) : World :=
  { active, identities, roles := Roles.«open» roles, partyMode := false, pairing := {}
    sessions := [], earned := fun _ => none, acts := [] }

def system : Transition.System World Event where
  start w := ∃ active identities roles, w = World.initial active identities roles
  next := step hash

end

end Mbrc.Installations
