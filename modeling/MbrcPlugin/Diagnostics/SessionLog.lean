import MbrcPlugin.Diagnostics.Redaction
import MbrcPlugin.Lib.Transition
import MbrcPlugin.Server.Admission

/-!
# What a V6 session logs

Every frame of a session is logged on the target of the wire, in both directions, and what comes of
a handshake on the target of the session.  The levels are those in force when a frame is handled;
the stores and the gate are as the frame finds them, whatever other connections have done to them.
JSON is read by a given parser.
-/

namespace Mbrc.SessionLog

open Installations (Session Moment Reply SessionError)
open Redaction

/-! ## Lines -/

inductive Level where
  | error | warn | info | debug | trace
  deriving DecidableEq

def Level.verbosity : Level → Nat
  | error => 1
  | warn => 2
  | info => 3
  | debug => 4
  | trace => 5

inductive Target where
  | wire | session
  deriving DecidableEq

/-- How verbose each target may be, zero for off. -/
structure Filter where
  wire : Nat
  session : Nat
  deriving DecidableEq

def Filter.enabled (f : Filter) (target : Target) (level : Level) : Bool :=
  level.verbosity ≤ match target with
    | .wire => f.wire
    | .session => f.session

structure LogLine where
  level : Level
  target : Target
  fields : List (String × String)
  message : String
  deriving DecidableEq

def emit (f : Filter) (line : LogLine) : List LogLine :=
  if f.enabled line.target line.level then [line] else []

/-- `log_c2s` and `log_s2c`: the whole frame, or a sample of it. -/
def logFrame (f : Filter) (fields : List (String × String)) (text : String)
    (value : Option Value) : List LogLine :=
  let fields := fields ++ [("bytes", toString text.utf8ByteSize)]
  if f.enabled .wire .trace then
    [{ level := .trace, target := .wire, fields, message := redactFrame text value none }]
  else
    emit f
      { level := .debug, target := .wire, fields
        message := redactFrame text value (some wireListSample) }

/-! ## Requests -/

structure Request where
  id : Nat
  op : String
  data : Value

inductive RequestError where
  | malformed
  | missingField (id : Nat) (field : String)
  | invalidField (id : Nat) (field : String)
  deriving DecidableEq

namespace RequestError

def id : RequestError → Nat
  | malformed => 0
  | missingField id _ => id
  | invalidField id _ => id

def code : RequestError → String
  | malformed => "malformed_frame"
  | missingField _ _ => "missing_field"
  | invalidField _ _ => "invalid_field"

def message : RequestError → String
  | malformed => "frame is not a JSON object"
  | missingField _ field => "missing required field: " ++ field
  | invalidField _ field => "invalid field: " ++ field

def field : RequestError → Option String
  | malformed => none
  | missingField _ field => some field
  | invalidField _ field => some field

end RequestError

/-- `parse_request`, on what the text parses to. -/
def parseRequest (value : Option Value) : Except RequestError Request :=
  match value with
  | some (.object fields) =>
    let v := Value.object fields
    match v.get "id" with
    | none => .error (.missingField 0 "id")
    | some n =>
      match Installations.asU64 n with
      | none => .error (.invalidField 0 "id")
      | some id =>
        match (v.get "kind").bind Value.asStr with
        | none => .error (.missingField id "kind")
        | some kind =>
          if kind = "request" then
            match v.get "op" with
            | none => .error (.missingField id "op")
            | some (.string op) => .ok { id, op, data := (v.get "data").getD .null }
            | some _ => .error (.invalidField id "op")
          else .error (.invalidField id "kind")
  | _ => .error .malformed

/-! ## Replies -/

def codeText : Installations.ErrorCode → String
  | .unsupportedVersion => "unsupported_version"
  | .missingField => "missing_field"
  | .invalidField => "invalid_field"
  | .invalidToken => "invalid_token"
  | .unauthorized => "unauthorized"
  | .notAllowed => "not_allowed"
  | .unavailable => "unavailable"
  | .forbidden => "forbidden"

def responseOk (id : Nat) (data : Value) : Value :=
  .object [("id", .int id), ("kind", .string "response"), ("data", data)]

def errorFrame (id : Nat) (code message : String) (field : Option String) : Value :=
  .object [("id", .int id), ("kind", .string "response"),
    ("error", .object ([("code", .string code), ("message", .string message)] ++
      (field.map fun field => ("field", .string field)).toList))]

/-- What a server says of itself in every handshake reply. -/
structure Server where
  id : Option String
  name : String
  capabilities : Value

/-- `PartyMode::permissions` as it is told. -/
def permissions (told : Installations.Told) : Value :=
  .object ([("party_mode", .bool told.partyMode), ("role", .string told.role.asStr),
      ("allowed", .array (told.allowed.map fun c => .string c.asStr))] ++
    (told.maxTracksPerAdd.map fun most => ("max_tracks_per_add", .int most)).toList)

def welcome (server : Server) (told : Installations.Told) (token : Option String) : Value :=
  .object ([("server_version", .int 6)] ++
    (server.id.map fun id => ("server_id", .string id)).toList ++
    [("server_name", .string server.name), ("capabilities", server.capabilities)] ++
    (token.map fun token => ("client_token", .string token)).toList ++
    [("permissions", permissions told)])

inductive Outcome where
  | rejected (e : RequestError)
  /-- The handler of the op has answered. -/
  | answered (frame : Value)
  | replied (id : Nat) (reply : Reply)

def Outcome.frame (server : Server) : Outcome → Value
  | rejected e => errorFrame e.id e.code e.message e.field
  | answered frame => frame
  | replied id reply =>
    match reply with
    | .welcome told token => responseOk id (welcome server told token)
    | .done data => responseOk id data
    | .passed => .null
    | .failed e => errorFrame id (codeText e.code) e.message e.field

/-! ## A frame -/

/-- What the log shows of the fields of a handshake that pass the checks. -/
def shown (data : Value) : Option (String × Installations.ClientType × Bool) :=
  match Installations.readHello data with
  | .ok hello => some (hello.clientId, hello.clientType, hello.noBroadcast)
  | .error _ => none

section

variable (parse : String → Option Value)

def handshakeLines (f : Filter) (data : Value) : Reply → List LogLine
  | .welcome _ issued =>
    match shown data with
    | some (_, clientType, noBroadcast) =>
      emit f
        { level := .debug, target := .session
          fields := [("client_type", clientType.asStr), ("no_broadcast", toString noBroadcast),
            ("issued_token", toString issued.isSome)]
          message := "v6 handshake complete" }
    | none => []
  | .failed e =>
    let refused := match shown data with
      | some (clientId, _) =>
        emit f
          { level := .info, target := .session
            fields := [("client_id", redactFrame clientId (parse clientId) none)]
            message := "v6 handshake refused: client_id held by another installation" }
      | none => []
    refused ++ emit f
      { level := .info, target := .session
        fields := [("field", e.field.getD ""), ("code", codeText e.code)]
        message := "rejecting v6 handshake" }
  | _ => []

def requestLines (f : Filter) (handshaked : Bool) (r : Request) (o : Outcome) : List LogLine :=
  if handshaked then []
  else if r.op = "handshake" then
    match o with
    | .replied _ reply => handshakeLines parse f r.data reply
    | _ => []
  else
    emit f
      { level := .debug, target := .session, fields := [("op", r.op)]
        message := "v6 command before handshake; closing" }

/-- The lines of `handle_frame`. -/
def frameLines (server : Server) (f : Filter) (handshaked : Bool) (seq : Nat) (text : String)
    (o : Outcome) : List LogLine :=
  (match parseRequest (parse text) with
    | .ok r =>
      logFrame f [("dir", "c2s"), ("proto", "v6"), ("seq", toString seq), ("op", r.op)] text
        (parse text) ++ requestLines parse f handshaked r o
    | .error _ =>
      emit f
        { level := .debug, target := .wire
          fields := [("dir", "c2s"), ("proto", "v6"), ("seq", toString seq),
            ("bytes", toString text.utf8ByteSize), ("parseable", "false"),
            ("handshaken", toString handshaked)]
          message := "rejecting unparseable frame: " ++ redactFrame text (parse text) none }) ++
  logFrame f [("dir", "s2c"), ("proto", "v6"), ("reply_to", toString seq)]
    (o.frame server).render (some (o.frame server))

end

/-! ## Steps -/

structure State where
  session : Session
  framesIn : Nat := 0
  closed : Bool := false
  log : List LogLine := []

/-- A frame, and what it finds. -/
structure Given where
  filter : Filter
  text : String
  world : Installations.World
  moment : Moment
  /-- What the handler of an op answers. -/
  answer : Value

section

variable (hash : String → String) (parse : String → Option Value) (server : Server)

/-- What comes of a frame, and the session it leaves, `none` where it closes the connection. -/
def outcome (k : State) (g : Given) : Outcome × Option Session :=
  match parseRequest (parse g.text) with
  | .error e => (.rejected e, if k.session.handshaked then some k.session else none)
  | .ok r =>
    match g.world.handleRequest hash k.session r.op r.data g.moment with
    | (_, next, .passed) => (.answered g.answer, next)
    | (_, next, reply) =>
      (.replied (if r.op = "handshake" && !k.session.handshaked then 0 else r.id) reply, next)

def handleFrame (k : State) (g : Given) : State :=
  { session := (outcome hash parse k g).2.getD k.session
    framesIn := k.framesIn + 1
    closed := (outcome hash parse k g).2.isNone
    log := k.log ++ frameLines parse server g.filter k.session.handshaked k.framesIn g.text
      (outcome hash parse k g).1 }

def system : Transition.System State Given where
  start k := ∃ peer principal, k = { session := { peer, principal } }
  next k g := if k.closed then none else some (handleFrame hash parse server k g)

end

/-! ## Two runs that differ in their secrets -/

/-- The field that the secret of a request is in. -/
def secretKey (v : Value) : Option String :=
  match (v.get "op").bind Value.asStr with
  | some "handshake" => some "client_token"
  | some "pair" => some "code"
  | _ => none

/-- The values are the same but for the secret in their data. -/
def ValuesAlike (v v' : Value) : Prop :=
  ∃ key d d', secretKey v = some key ∧ (∀ k, k ≠ "data" → v.get k = v'.get k) ∧
    v.get "data" = some d ∧ v'.get "data" = some d' ∧ (∀ k, k ≠ key → d.get k = d'.get k) ∧
    (d.get key).any Value.isString = true ∧ (d'.get key).any Value.isString = true

/-- A text that is no JSON names a secret. -/
def names (text : String) : Bool :=
  ["client_token", "code"].any fun key => decide (key.toList <:+: text.toList)

inductive FramesAlike (parse : String → Option Value) : String → String → Prop where
  | same (text : String) : FramesAlike parse text text
  | values {text text' : String} {v v' : Value} (h : parse text = some v)
    (h' : parse text' = some v') (hv : ValuesAlike v v') : FramesAlike parse text text'
  /-- What follows the name differs. -/
  | cut {a b t t' : String} (h : parse (a ++ t ++ b) = none) (h' : parse (a ++ t' ++ b) = none)
    (ha : names a = true) : FramesAlike parse (a ++ t ++ b) (a ++ t' ++ b)

inductive OutcomesAlike : Outcome → Outcome → Prop where
  | same (o : Outcome) : OutcomesAlike o o
  | issued (id : Nat) (told : Installations.Told) (token token' : String) :
    OutcomesAlike (.replied id (.welcome told (some token)))
      (.replied id (.welcome told (some token')))

section

variable (hash : String → String) (parse : String → Option Value)

/-- Two frames that differ in their secrets, with the same outcome. -/
def Alike (k : State × State) (g : Given × Given) : Prop :=
  g.1.filter = g.2.filter ∧ FramesAlike parse g.1.text g.2.text ∧
    OutcomesAlike (outcome hash parse k.1 g.1).1 (outcome hash parse k.2 g.2).1

/-! ## When they log the same -/

/-- The frame carries a secret. -/
def carries (text : String) : Bool :=
  match parse text with
  | some v =>
    (secretKey v).any fun key => ((v.get "data").bind fun d => d.get key).any Value.isString
  | none => names text

/-- A token is about to be issued. -/
def firstContact (k : State) (g : Given) : Bool :=
  match parseRequest (parse g.text) with
  | .ok r =>
    r.op = "handshake" && !k.session.handshaked && g.world.active &&
      match Installations.readHello r.data with
      | .ok hello => (Admission.row g.world hello.clientId).isNone
      | .error _ => false
  | .error _ => false

/-- The wire is not logged, or the frame and its reply have no secret. -/
def Discreet (k : State) (g : Given) : Prop :=
  g.filter.enabled .wire .debug = false ∨
    (carries parse g.text = false ∧ firstContact parse k g = false)

end

variable {hash : String → String} {parse : String → Option Value} {server : Server}

/-! ## Requests -/

theorem checkVersion_congr {d d' : Value}
    (h : d.get "protocol_version" = d'.get "protocol_version") :
    Installations.checkVersion d = Installations.checkVersion d' := by
  unfold Installations.checkVersion
  rw [h]

theorem readClientId_congr {d d' : Value} (h : d.get "client_id" = d'.get "client_id") :
    Installations.readClientId d = Installations.readClientId d' := by
  unfold Installations.readClientId
  rw [h]

theorem readClientType_congr {d d' : Value} (h : d.get "client_type" = d'.get "client_type") :
    Installations.readClientType d = Installations.readClientType d' := by
  unfold Installations.readClientType
  rw [h]

/-- The log shows nothing of the token of a handshake. -/
theorem shown_congr {d d' : Value} (h : ∀ k, k ≠ "client_token" → d.get k = d'.get k) :
    shown d = shown d' := by
  unfold shown Installations.readHello
  rw [checkVersion_congr (h _ (by decide)), readClientId_congr (h _ (by decide)),
    readClientType_congr (h _ (by decide)), h "no_broadcast" (by decide),
    h "client_name" (by decide)]
  cases Installations.checkVersion d' with
  | error e => rfl
  | ok _ =>
    cases Installations.readClientId d' with
    | error e => rfl
    | ok clientId =>
      cases Installations.readClientType d' with
      | error e => rfl
      | ok clientType => rfl

theorem object_of_get {v d : Value} {key : String} (h : v.get key = some d) :
    ∃ fields, v = .object fields := by
  cases v with
  | object fields => exact ⟨fields, rfl⟩
  | _ => simp [Value.get] at h

/-- A secret of no more than `maxStr` bytes stands in what is logged of its frame. -/
theorem secret_shown {v d : Value} {key secret : String} (maxArray : Option Nat)
    (hv : secretKey v = some key) (hd : v.get "data" = some d)
    (hsecret : d.get key = some (.string secret)) (hsize : secret.utf8ByteSize ≤ maxStr) :
    ((redactValue maxArray none v).get "data").bind (fun d => d.get key) =
      some (.string secret) := by
  have hkey : isBlobKey (some key) = false := by
    unfold secretKey at hv
    split at hv
    · obtain rfl := Option.some.inj hv
      decide
    · obtain rfl := Option.some.inj hv
      decide
    · simp at hv
  obtain ⟨fields, rfl⟩ := object_of_get hd
  obtain ⟨data, rfl⟩ := object_of_get hsecret
  have hfields : fields.lookup "data" = some (.object data) := hd
  have hdata : data.lookup key = some (.string secret) := hsecret
  have hshown : redactValue maxArray (some key) (.string secret) = .string secret :=
    redactValue_shown hkey hsize
  have hobject : ∀ key fields, redactValue maxArray key (.object fields) =
      .object (redactFields maxArray fields) := fun _ _ => by rw [redactValue]
  simp only [hobject, Value.get, redactFields_lookup, hfields, Option.map_some, Option.bind_some,
    hdata, hshown]

/-- Values that are alike are the same request but for its data. -/
theorem parseRequest_alike {v v' : Value} (h : ValuesAlike v v') :
    (∃ e, parseRequest (some v) = .error e ∧ parseRequest (some v') = .error e) ∨
      ∃ r r', parseRequest (some v) = .ok r ∧ parseRequest (some v') = .ok r' ∧ r.op = r'.op ∧
        (r.op = "handshake" → shown r.data = shown r'.data) := by
  obtain ⟨key, d, d', hkey, hfields, hd, hd', hdata, -, -⟩ := h
  obtain ⟨fields, rfl⟩ := object_of_get hd
  obtain ⟨fields', rfl⟩ := object_of_get hd'
  have hid := hfields "id" (by decide)
  have hkind := hfields "kind" (by decide)
  have hop := hfields "op" (by decide)
  simp only [parseRequest, ← hid, ← hkind, ← hop]
  cases (Value.object fields).get "id" with
  | none => exact Or.inl ⟨_, rfl, rfl⟩
  | some n =>
    dsimp only
    cases Installations.asU64 n with
    | none => exact Or.inl ⟨_, rfl, rfl⟩
    | some id =>
      dsimp only
      cases ((Value.object fields).get "kind").bind Value.asStr with
      | none => exact Or.inl ⟨_, rfl, rfl⟩
      | some kind =>
        dsimp only
        split
        · cases hopv : (Value.object fields).get "op" with
          | none => exact Or.inl ⟨_, rfl, rfl⟩
          | some op =>
            cases op with
            | string op =>
              refine Or.inr ⟨_, _, rfl, rfl, rfl, fun hhand => ?_⟩
              dsimp only at hhand
              simp only [secretKey, hopv, Option.bind_some, Value.asStr, hhand] at hkey
              obtain rfl := Option.some.inj hkey
              rw [hd, hd']
              exact shown_congr hdata
            | _ => exact Or.inl ⟨_, rfl, rfl⟩
        · exact Or.inl ⟨_, rfl, rfl⟩

/-! ## Frames -/

theorem names_append {a : String} (t : String) (h : names a = true) : names (a ++ t) = true := by
  unfold names at h ⊢
  rw [List.any_eq_true] at h ⊢
  obtain ⟨key, hkey, hinfix⟩ := h
  refine ⟨key, hkey, ?_⟩
  rw [decide_eq_true_eq] at hinfix ⊢
  rw [String.toList_append]
  exact hinfix.trans (List.prefix_append _ _).isInfix

/-- A frame without a secret is like itself only. -/
theorem FramesAlike.eq {f g : String} (h : FramesAlike parse f g)
    (hf : carries parse f = false) : f = g := by
  cases h with
  | same => rfl
  | values hv hv' halike =>
    obtain ⟨key, d, d', hkey, -, hd, -, -, hsecret, -⟩ := halike
    simp [carries, hv, hkey, hd, hsecret] at hf
  | cut hnone _ hnames =>
    simp only [carries, hnone] at hf
    rw [names_append _ (names_append _ hnames)] at hf
    simp at hf

theorem OutcomesAlike.eq {o o' : Outcome} (h : OutcomesAlike o o')
    (ho : ∀ id told token, o ≠ .replied id (.welcome told (some token))) : o = o' := by
  cases h with
  | same => rfl
  | issued id told token token' => exact absurd rfl (ho id told token)

/-- A token is issued only at a first contact. -/
theorem issued_firstContact {k : State} {g : Given} {id : Nat} {told : Installations.Told}
    {token : String} (h : (outcome hash parse k g).1 = .replied id (.welcome told (some token))) :
    firstContact parse k g = true := by
  unfold outcome at h
  cases hparse : parseRequest (parse g.text) with
  | error e =>
    rw [hparse] at h
    simp at h
  | ok r =>
    rw [hparse] at h
    dsimp only at h
    have hreply : (g.world.handleRequest hash k.session r.op r.data g.moment).2.2 =
        .welcome told (some token) := by
      generalize g.world.handleRequest hash k.session r.op r.data g.moment = out at h
      obtain ⟨w, next, reply⟩ := out
      cases reply <;> simp at h
      exact congrArg₂ Reply.welcome h.2.1 h.2.2
    rcases Admission.handleRequest_cases hash g.world k.session r.op r.data g.moment with
      ⟨hop, hs, heq⟩ | ⟨-, -, -, hnot⟩
    · rw [heq] at hreply
      rcases Admission.handleHandshake_stores hash g.world k.session r.data g.moment with
        ⟨-, hnot⟩ | ⟨hello, w', s', told', issued, hread, hactive, -, hok, -, hrow⟩
      · exact absurd hreply (hnot told token)
      · rw [hok] at hreply
        obtain ⟨-, rfl⟩ := Reply.welcome.inj hreply
        simp [firstContact, hparse, hop, hs, hactive, hread, hrow rfl]
    · exact absurd hreply (hnot told (some token))

def Outcome.isWelcome : Outcome → Bool
  | .replied _ (.welcome _ _) => true
  | _ => false

/-- A welcome completes the handshake, and nothing else does. -/
theorem outcome_handshaked (k : State) (g : Given) :
    ((outcome hash parse k g).2.getD k.session).handshaked =
      (k.session.handshaked || (outcome hash parse k g).1.isWelcome) := by
  unfold outcome
  cases hparse : parseRequest (parse g.text) with
  | error e =>
    dsimp only
    split <;> simp [Outcome.isWelcome]
  | ok r =>
    dsimp only
    rcases Admission.handleRequest_cases hash g.world k.session r.op r.data g.moment with
      ⟨-, hs, heq⟩ | ⟨-, hnext, -, hnot⟩
    · rw [heq]
      rcases Admission.handleHandshake_cases hash g.world k.session r.data g.moment with
        ⟨e, herr⟩ | ⟨hello, w', s', told, issued, -, hok, hs', -, -⟩
      · rw [herr]
        simp [Outcome.isWelcome]
      · rw [hok]
        simp [Outcome.isWelcome, hs']
    · generalize g.world.handleRequest hash k.session r.op r.data g.moment = out at hnext hnot
      obtain ⟨w, next, reply⟩ := out
      obtain rfl : next = _ := hnext
      cases reply with
      | welcome told token => exact absurd rfl (hnot told token)
      | _ => cases hs : k.session.handshaked <;> simp [Outcome.isWelcome, hs]

/-! ## Lines -/

theorem requestLines_alike {f : Filter} {handshaked : Bool} {r r' : Request} {o o' : Outcome}
    (hop : r.op = r'.op) (hshown : r.op = "handshake" → shown r.data = shown r'.data)
    (ho : OutcomesAlike o o') :
    requestLines parse f handshaked r o = requestLines parse f handshaked r' o' := by
  unfold requestLines
  rw [← hop]
  split
  · rfl
  · split
    · rename_i hhand
      have hdata := hshown hhand
      cases ho with
      | same o =>
        cases o with
        | replied id reply => cases reply <;> simp only [handshakeLines, hdata]
        | _ => rfl
      | issued id told token token' => simp [handshakeLines, hdata]
    · rfl

/-- Where the wire is not logged only the request lines are left. -/
theorem frameLines_quiet {f : Filter} {handshaked : Bool} {seq : Nat} {text : String}
    {o : Outcome} (hf : f.enabled .wire .debug = false) :
    frameLines parse server f handshaked seq text o =
      match parseRequest (parse text) with
      | .ok r => requestLines parse f handshaked r o
      | .error _ => [] := by
  have htrace : f.enabled .wire .trace = false := by
    have hdebug : ¬ 4 ≤ f.wire := of_decide_eq_false hf
    exact decide_eq_false fun htrace : 5 ≤ f.wire => hdebug (by omega)
  have hframe : ∀ fields text value, logFrame f fields text value = [] := by
    intro fields text value
    simp [logFrame, htrace, emit, hf]
  unfold frameLines
  rw [hframe, List.append_nil]
  cases parseRequest (parse text) with
  | ok r => simp only [hframe, List.nil_append]
  | error e => simp [emit, hf]

theorem frameLines_of_quiet {f : Filter} {handshaked : Bool} {seq : Nat} {text text' : String}
    {o o' : Outcome} (hf : f.enabled .wire .debug = false) (hframes : FramesAlike parse text text')
    (ho : OutcomesAlike o o') :
    frameLines parse server f handshaked seq text o =
      frameLines parse server f handshaked seq text' o' := by
  rw [frameLines_quiet hf, frameLines_quiet hf]
  cases hframes with
  | same text =>
    cases parseRequest (parse text) with
    | ok r => exact requestLines_alike rfl (fun _ => rfl) ho
    | error e => rfl
  | values hv hv' hvalues =>
    rw [hv, hv']
    rcases parseRequest_alike hvalues with ⟨e, he, he'⟩ | ⟨r, r', hr, hr', hop, hshown⟩
    · rw [he, he']
    · rw [hr, hr']
      exact requestLines_alike hop hshown ho
  | cut hnone hnone' _ =>
    rw [hnone, hnone']
    rfl

/-- **One frame.**  Two frames that are alike log the same lines where the first is discreet. -/
theorem frameLines_alike {k k' : State} {g g' : Given} (hdiscreet : Discreet parse k g)
    (halike : Alike hash parse (k, k') (g, g'))
    (hhand : k.session.handshaked = k'.session.handshaked) (hseq : k.framesIn = k'.framesIn) :
    frameLines parse server g.filter k.session.handshaked k.framesIn g.text
        (outcome hash parse k g).1 =
      frameLines parse server g'.filter k'.session.handshaked k'.framesIn g'.text
        (outcome hash parse k' g').1 := by
  obtain ⟨hfilter, hframes, houtcomes⟩ := halike
  dsimp only at hfilter hframes houtcomes
  rw [← hfilter, ← hhand, ← hseq]
  rcases hdiscreet with hquiet | ⟨hcarries, hfirst⟩
  · exact frameLines_of_quiet hquiet hframes houtcomes
  · have hissued : ∀ id told token,
        (outcome hash parse k g).1 ≠ .replied id (.welcome told (some token)) := by
      intro id told token hout
      rw [issued_firstContact hout] at hfirst
      simp at hfirst
    rw [← hframes.eq hcarries, ← houtcomes.eq hissued]

/-! ## Whole runs -/

/-- What two runs share at every moment. -/
structure Twin (k k' : State) : Prop where
  handshaked : k.session.handshaked = k'.session.handshaked
  framesIn : k.framesIn = k'.framesIn
  log : k.log = k'.log

theorem isWelcome_alike {o o' : Outcome} (h : OutcomesAlike o o') :
    o.isWelcome = o'.isWelcome := by
  cases h with
  | same => rfl
  | issued => rfl

theorem handleFrame_twin {k k' : State} {g g' : Given} (h : Twin k k')
    (hdiscreet : Discreet parse k g) (halike : Alike hash parse (k, k') (g, g')) :
    Twin (handleFrame hash parse server k g) (handleFrame hash parse server k' g') where
  handshaked := by
    show ((outcome hash parse k g).2.getD k.session).handshaked =
      ((outcome hash parse k' g').2.getD k'.session).handshaked
    rw [outcome_handshaked, outcome_handshaked, h.handshaked, isWelcome_alike halike.2.2]
  framesIn := congrArg (· + 1) h.framesIn
  log := by
    show k.log ++ _ = k'.log ++ _
    rw [h.log, frameLines_alike hdiscreet halike h.handshaked h.framesIn]

/-- **Secrets stay out of the log.**  Two sessions whose frames differ in their secrets, with the
same outcomes, log the same lines. -/
theorem secrets_unlogged {k₁ k₂ k₁' k₂' : State} {gs₁ gs₂ : List Given}
    (hstart₁ : (system hash parse server).start k₁) (hstart₂ : (system hash parse server).start k₂)
    (hlength : gs₁.length = gs₂.length)
    (hdiscreet : (system hash parse server).Along (Discreet parse) k₁ gs₁)
    (halike : (system hash parse server).twice.Along (Alike hash parse) (k₁, k₂) (gs₁.zip gs₂))
    (hrun₁ : (system hash parse server).exec k₁ gs₁ = some k₁')
    (hrun₂ : (system hash parse server).exec k₂ gs₂ = some k₂') : k₁'.log = k₂'.log := by
  have htwin : Twin k₁ k₂ := by
    obtain ⟨peer, principal, rfl⟩ := hstart₁
    obtain ⟨peer', principal', rfl⟩ := hstart₂
    exact ⟨rfl, rfl, rfl⟩
  have hboth := (system hash parse server).along_twice_left hdiscreet halike
  refine ((system hash parse server).related ?_ hlength htwin hboth hrun₁ hrun₂).log
  intro k k' g g' l l' htwin hgiven hl hl'
  simp only [system] at hl hl'
  split at hl
  · simp at hl
  · split at hl'
    · simp at hl'
    · obtain rfl := Option.some.inj hl
      obtain rfl := Option.some.inj hl'
      exact handleFrame_twin htwin hgiven.1 hgiven.2

/-! ## A capture -/

/-- The handshake of a phone with its token. -/
def greeting (token : String) : Value :=
  .object [("id", .int 0), ("kind", .string "request"), ("op", .string "handshake"),
    ("data", Installations.hello "phone" (some token))]

/-- The parser, on the frames of the runs below. -/
def parseGreeting (text : String) : Option Value :=
  [Installations.phoneToken, Installations.tabletToken].findSome? fun token =>
    if (greeting token).render = text then some (greeting token) else none

/-- The store knows the phone by its token. -/
def knowing (token : String) : Installations.World :=
  .initial true
    (Table.empty.insert "phone" (some
      { tokenHash := Installations.sha1 token, firstSeenMs := 0, lastSeenMs := 0, name := ""
        clientType := "android", address := "" })) Table.empty

def greets (wire : Nat) (token : String) : Given where
  filter := { wire, session := 3 }
  text := (greeting token).render
  world := knowing token
  moment := Installations.stamp 1 ""
  answer := .null

def desktop : Server := { id := none, name := "DESKTOP", capabilities := .null }

def opened : State := { session := { peer := "192.168.1.20", principal := none } }

theorem greeting_alike (token token' : String) :
    ValuesAlike (greeting token) (greeting token') := by
  refine ⟨"client_token", _, _, rfl, fun k hk => ?_, rfl, rfl, fun k hk => ?_, rfl, rfl⟩
  · simp [greeting, Value.get, List.lookup_cons, beq_false_of_ne hk]
  · simp [Installations.hello, Value.get, List.lookup_cons, beq_false_of_ne hk]

/-- What a welcome says. -/
def Outcome.welcomed : Outcome → Option (Nat × Installations.Told × Option String)
  | .replied id (.welcome told token) => some (id, told, token)
  | _ => none

theorem Outcome.eq_of_welcomed {o o' : Outcome} (h : o.welcomed = o'.welcomed)
    (hsome : o.welcomed.isSome = true) : o = o' := by
  have hshape : ∀ o : Outcome, ∀ what, o.welcomed = some what →
      o = .replied what.1 (.welcome what.2.1 what.2.2) := by
    intro o what hwhat
    cases o with
    | replied id reply =>
      cases reply with
      | welcome told token =>
        obtain rfl := Option.some.inj hwhat
        rfl
      | _ => simp [Outcome.welcomed] at hwhat
    | _ => simp [Outcome.welcomed] at hwhat
  obtain ⟨what, hwhat⟩ := Option.isSome_iff_exists.mp hsome
  rw [hshape o what hwhat, hshape o' what (h ▸ hwhat)]

theorem greets_alike (wire : Nat) :
    Alike Installations.sha1 parseGreeting (opened, opened)
      (greets wire Installations.phoneToken, greets wire Installations.tabletToken) := by
  have hne : (greeting Installations.phoneToken).render ≠
      (greeting Installations.tabletToken).render := by decide +kernel
  have hphone : parseGreeting (greeting Installations.phoneToken).render =
      some (greeting Installations.phoneToken) := by simp [parseGreeting]
  have htablet : parseGreeting (greeting Installations.tabletToken).render =
      some (greeting Installations.tabletToken) := by simp [parseGreeting, hne]
  have hwelcomed : (outcome Installations.sha1 parseGreeting opened
      (greets 4 Installations.phoneToken)).1.welcomed =
        (outcome Installations.sha1 parseGreeting opened
          (greets 4 Installations.tabletToken)).1.welcomed ∧
      (outcome Installations.sha1 parseGreeting opened
        (greets 4 Installations.phoneToken)).1.welcomed.isSome = true := by decide +kernel
  have hfilter : ∀ token, outcome Installations.sha1 parseGreeting opened (greets wire token) =
      outcome Installations.sha1 parseGreeting opened (greets 4 token) := by
    intro token
    simp only [outcome, greets]
  refine ⟨rfl, .values hphone htablet (greeting_alike _ _), ?_⟩
  dsimp only
  rw [hfilter, hfilter, Outcome.eq_of_welcomed hwelcomed.1 hwelcomed.2]
  exact .same _

theorem exec_frame (hash : String → String) (parse : String → Option Value) (server : Server)
    {k : State} (g : Given) (h : k.closed = false) :
    (system hash parse server).exec k [g] = some (handleFrame hash parse server k g) := by
  simp [Transition.System.exec_cons, system, h]

theorem opened_start : (system hash parse server).start opened := ⟨_, _, rfl⟩

/-- While nothing captures the wire, a handshake with either token logs what the other does. -/
theorem secrets_unlogged_uncaptured :
    ∃ k k', (system Installations.sha1 parseGreeting desktop).exec opened
        [greets 3 Installations.phoneToken] = some k ∧
      (system Installations.sha1 parseGreeting desktop).exec opened
        [greets 3 Installations.tabletToken] = some k' ∧ k.log = k'.log := by
  have hrun := fun token => exec_frame Installations.sha1 parseGreeting desktop
    (greets 3 token) (rfl : opened.closed = false)
  have hdiscreet : (system Installations.sha1 parseGreeting desktop).Along (Discreet parseGreeting)
      opened [greets 3 Installations.phoneToken] :=
    Transition.System.along_single _ (Or.inl rfl)
  have halike : (system Installations.sha1 parseGreeting desktop).twice.Along
      (Alike Installations.sha1 parseGreeting) (opened, opened)
      ([greets 3 Installations.phoneToken].zip [greets 3 Installations.tabletToken]) :=
    Transition.System.along_single _ (greets_alike 3)
  have hlog := secrets_unlogged opened_start opened_start (by simp) hdiscreet halike
    (hrun Installations.phoneToken) (hrun Installations.tabletToken)
  exact ⟨_, _, hrun _, hrun _, hlog⟩

/-- **The token is in the log.**  A capture raises the level of the wire, and the frame is logged
with its token. -/
theorem token_logged :
    ¬ ∀ (hash : String → String) (parse : String → Option Value) (server : Server)
      (k₁ k₂ k₁' k₂' : State) (gs₁ gs₂ : List Given), (system hash parse server).start k₁ →
      (system hash parse server).start k₂ → gs₁.length = gs₂.length →
      (system hash parse server).twice.Along (Alike hash parse) (k₁, k₂) (gs₁.zip gs₂) →
      (system hash parse server).exec k₁ gs₁ = some k₁' →
      (system hash parse server).exec k₂ gs₂ = some k₂' → k₁'.log = k₂'.log := by
  intro hall
  have hrun := fun token => exec_frame Installations.sha1 parseGreeting desktop
    (greets 4 token) (rfl : opened.closed = false)
  have hdiffer : (handleFrame Installations.sha1 parseGreeting desktop opened
      (greets 4 Installations.phoneToken)).log ≠
        (handleFrame Installations.sha1 parseGreeting desktop opened
          (greets 4 Installations.tabletToken)).log := by decide +kernel
  have halike : (system Installations.sha1 parseGreeting desktop).twice.Along
      (Alike Installations.sha1 parseGreeting) (opened, opened)
      ([greets 4 Installations.phoneToken].zip [greets 4 Installations.tabletToken]) :=
    Transition.System.along_single _ (greets_alike 4)
  have hlog := hall _ _ _ _ _ _ _ _ _ opened_start opened_start (by simp) halike
    (hrun Installations.phoneToken) (hrun Installations.tabletToken)
  exact hdiffer hlog

end Mbrc.SessionLog
