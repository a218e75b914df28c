import MbrcPlugin.Lib.Environment
import MbrcPlugin.Permissions.Sound
import MbrcPlugin.Permissions.Gate
import MbrcPlugin.Server.Connections

/-!
# A V4 session

The transport feeds the session line after line until an outcome asks to close.  A line may find
other permissions than the one before it, and a client may negotiate again at any time.  Whatever
the lines are and whatever is answered to its calls, MusicBee is reached only on a line that comes
after an accepted `protocol`, for the client that its last one names (`lines_safe`).
-/

namespace Mbrc.SessionV4

open Interaction Permissions Providers
open Connections (LegacySession Handshake parseHandshake minProtocol maxProtocol)
open Commands (Platform ProtocolVersion)

/-! ## The session -/

/-- Per-connection state, built up during and after the handshake. -/
structure Session extends LegacySession where
  /-- The platform of the `player` frame. -/
  platform : Option String := none
  framesIn : Nat := 0
  /-- Commands dropped because the handshake was not complete. -/
  droppedPreHandshake : Nat := 0

/-- What the transport should do with a line. -/
structure Outcome where
  replies : List Reply := []
  close : Bool := false

inductive Call where
  /-- The next line of the client. -/
  | receive
  | standing (p : Principal)
  | host (c : Providers.Call)
  | send (frame : Reply)
  | close

/-- A line is none at the end of the stream; one that does not parse has no value. -/
def Call.Answer : Call → Type
  | receive => Option (Option Value)
  | standing _ => Standing
  | host c => Providers.Answer c
  | send _ | close => Unit

abbrev Run (α : Type) := Program Call.Answer α

/-- Who a handshake is of, for Party Mode. -/
def principalOf (clientId : Option String) : Principal :=
  match clientId with
  | some id => .legacyDevice id
  | none => .anonymous

/-- `ProtocolVersion::from_negotiated`. -/
def fromNegotiated : Nat → Option ProtocolVersion
  | 4 => some .v4
  | 5 => some .v5
  | _ => none

/-- `Platform::from_name`. -/
def platformFromName (name : Option String) : Platform :=
  match name.map fun s => String.ofList (s.toList.map Char.toLower) with
  | some "android" => .android
  | some "ios" => .ios
  | _ => .unknown

def playerName : String := "MusicBee"

def contextOf (value : Value) : String := ((value.get "context").bind Value.asStr).getD ""

def dataOf (value : Value) : Value := (value.get "data").getD .null

namespace Session

variable (s : Session)

def handleProtocol (data : Value) : Session × Outcome :=
  let (legacy, refused) := s.toLegacySession.handleProtocol data
  let version := (parseHandshake data).version
  ({ s with toLegacySession := legacy },
    if refused then
      { replies := [("notallowed", .string ("Protocol version " ++ toString version ++
          " is not supported. Minimum: " ++ toString minProtocol ++
          ". Please update your MBRC client."))]
        close := true }
    else { replies := [("protocol", .int (min version maxProtocol))] })

/-- A handler that fails is not answered. -/
def dispatchCommand (context : String) (data : Value) : Run (Session × Outcome) :=
  match s.protocolVersion with
  | none =>
    .done ({ s with droppedPreHandshake := s.droppedPreHandshake + 1 }, { close := true })
  | some negotiated =>
    let ctx : Commands.Ctx :=
      { version := (fromNegotiated (min negotiated maxProtocol)).getD .v4
        platform := platformFromName s.platform }
    .call (.standing (principalOf s.clientId)) fun standing =>
      (Program.through Call.host
        (Permissions.Session.dispatchCommand standing ctx context data).run).bind fun result =>
          match result with
          | .ok replies => .done (s, { replies })
          | .error _ => .done (s, {})

/-- One line, as the lenient parser reads it. -/
def handleFrame (line : Option Value) : Run (Session × Outcome) :=
  let s := { s with framesIn := s.framesIn + 1 }
  match line with
  | none => .done (s, {})
  | some value =>
    let data := dataOf value
    match contextOf value with
    | "player" =>
      let s := match data.asStr with
        | some platform => { s with platform := some platform }
        | none => s
      .done (s, { replies := [("player", .string playerName)] })
    | "protocol" => .done (s.handleProtocol data)
    | "ping" => .done (s, { replies := [("pong", .string "")] })
    | "pong" => .done (s, {})
    | "verifyconnection" => .done (s, { replies := [("verifyconnection", .string "")] })
    | "" => .done (s, {})
    | context => s.dispatchCommand context data

end Session

/-- Every frame goes out on its own. -/
def sendAll : List Reply → Run Unit
  | [] => .done ()
  | frame :: frames => .call (.send frame) fun _ => sendAll frames

/-- The transport: it feeds up to `n` lines, until the client is gone or an outcome closes. -/
def feed : Nat → Session → Run Unit
  | 0, _ => .done ()
  | n + 1, s => .call .receive fun line =>
    match line with
    | none => .done ()
    | some line => (s.handleFrame line).bind fun (s, outcome) =>
      (sendAll outcome.replies).bind fun _ =>
        if outcome.close then .call .close fun _ => .done () else feed n s

/-! ## What the lines say -/

/-- The contexts that need no handshake. -/
def openContexts : List String := ["player", "protocol", "ping", "pong", "verifyconnection", ""]

/-- The contexts a client is answered before its handshake. -/
def greetings : List String := ["player", "protocol", "notallowed", "pong", "verifyconnection"]

/-- The handshake of a line that is an accepted one. -/
def accepted (value : Value) : Option Handshake :=
  if contextOf value = "protocol" ∧ minProtocol ≤ (parseHandshake (dataOf value)).version then
    some (parseHandshake (dataOf value))
  else none

/-- What is known from the lines and the answers so far. -/
structure Watch where
  /-- The last handshake that was accepted. -/
  settled : Option Handshake := none
  /-- The line under way is the last one: a refused handshake, or a command before any. -/
  fatal : Bool := false
  /-- Who the gate was asked about on this line, and what it found. -/
  standing : Option (Principal × Standing) := none
  /-- The tracks queued on this line. -/
  queued : Nat := 0
  closed : Bool := false

/-- A line that closes, where this handshake is the last. -/
def isFatal (settled : Option Handshake) (value : Value) : Bool :=
  if contextOf value = "protocol" then (accepted value).isNone
  else decide (contextOf value ∉ openContexts) && settled.isNone

namespace Watch

/-- A line begins. -/
def line (w : Watch) : Option (Option Value) → Watch
  | some (some value) =>
    { settled := (accepted value).or w.settled, fatal := isFatal w.settled value
      closed := w.closed }
  | _ => { settled := w.settled, closed := w.closed }

/-- What is known after a call and its answer. -/
def after (w : Watch) : Sigma Call.Answer → Watch
  | ⟨.receive, line⟩ => w.line line
  | ⟨.standing p, standing⟩ => { w with standing := some (p, standing) }
  | ⟨.host c, _⟩ => { w with queued := w.queued + callTracks c }
  | ⟨.send _, _⟩ => w
  | ⟨.close, _⟩ => { w with closed := true }

/-- **What a session may call.**  Before a handshake is accepted it greets and nothing more; then
the gate is asked about the client of the last handshake, on every line anew, and MusicBee is told
what that grants. -/
def May (w : Watch) : Call → Prop
  | .receive => w.fatal = false
  | .standing p => w.settled.map (principalOf ·.clientId) = some p
  | .host c => ∃ handshake st, w.settled = some handshake ∧
      w.standing = some (principalOf handshake.clientId, st) ∧ OnCommands st.Holds c ∧
      ∀ max, st.limit = some max → w.queued + callTracks c ≤ max
  | .send frame => w.settled = none → frame.1 ∈ greetings
  | .close => w.fatal = true

end Watch

/-- What the calls so far have left known. -/
def watch (h : List (Sigma Call.Answer)) : Watch := h.foldl Watch.after {}

/-! ## A session beside what is known -/

/-- The session holds the last handshake. -/
structure Agrees (s : LegacySession) (w : Watch) : Prop where
  version : s.protocolVersion = w.settled.map (·.version)
  noBroadcast : s.noBroadcast = (w.settled.map (·.noBroadcast)).getD false
  clientId : s.clientId = w.settled.bind (·.clientId)

variable {s : Session} {w : Watch}

abbrev Watched (Q : α → Watch → Prop) (p : Run α) (w : Watch) : Prop :=
  p.Obeys (Program.watched Watch.after) Watch.May Q w

/-- A call, and what is known after it. -/
theorem watched_call {Q : α → Watch → Prop} {c : Call} {next : Call.Answer c → Run α}
    (hc : w.May c) (hnext : ∀ r, Watched Q (next r) (w.after ⟨c, r⟩)) :
    Watched Q (.call c next) w := by
  refine Program.obeys_call.mpr ⟨hc, fun r t ht => ?_⟩
  obtain rfl := ht
  exact hnext r

theorem watched_done {Q : α → Watch → Prop} {a : α} (hQ : Q a w) : Watched Q (.done a) w :=
  Program.obeys_done.mpr hQ

theorem watched_sendAll {frames : List Reply}
    (hsend : w.settled = none → ∀ frame ∈ frames, frame.1 ∈ greetings) :
    Watched (fun _ t => t = w) (sendAll frames) w := by
  induction frames with
  | nil => exact watched_done rfl
  | cons frame frames ih =>
    refine watched_call (fun hnone => hsend hnone frame List.mem_cons_self) fun _ => ?_
    exact ih fun hnone f hf => hsend hnone f (List.mem_cons_of_mem frame hf)

/-- Nothing is known otherwise of the handshake and the end. -/
structure Same (w t : Watch) : Prop where
  settled : t.settled = w.settled
  fatal : t.fatal = w.fatal
  closed : t.closed = w.closed

theorem Agrees.same {s : LegacySession} {t : Watch} (ha : Agrees s w) (hsame : Same w t) :
    Agrees s t where
  version := by rw [hsame.settled, ha.version]
  noBroadcast := by rw [hsame.settled, ha.noBroadcast]
  clientId := by rw [hsame.settled, ha.clientId]

/-- The calls of a handler that is granted them. -/
theorem watched_through {x : Program Providers.Answer α} {handshake : Handshake} {st : Standing}
    (hsettled : w.settled = some handshake)
    (hstanding : w.standing = some (principalOf handshake.clientId, st))
    (hcommands : x.Within (OnCommands st.Holds))
    (htracks : ∀ max, st.limit = some max → ∃ n, x.Spends callTracks n ∧ w.queued + n ≤ max) :
    Watched (fun _ t => Same w t) (x.through Call.host) w := by
  induction x generalizing w with
  | done a => exact watched_done ⟨rfl, rfl, rfl⟩
  | call c next ih =>
    refine watched_call ⟨handshake, st, hsettled, hstanding, hcommands.1, fun max hmax => ?_⟩
      fun r => ?_
    · obtain ⟨n, hn, hle⟩ := htracks max hmax
      have hcost := hn.1
      omega
    · have hrest := ih r (w := w.after ⟨.host c, r⟩) hsettled hstanding (hcommands.2 r) ?_
      · exact hrest.mono fun a t ht => ⟨ht.settled, ht.fatal, ht.closed⟩
      intro max hmax
      obtain ⟨n, hn, hle⟩ := htracks max hmax
      have hcost := hn.1
      refine ⟨n - callTracks c, hn.2 r, ?_⟩
      show w.queued + callTracks c + (n - callTracks c) ≤ max
      omega

/-- What a line leaves: the session agrees, and closes where the line is fatal. -/
structure Answered (w : Watch) (s : Session) (outcome : Outcome) : Prop where
  agrees : Agrees s.toLegacySession w
  closes : w.fatal = outcome.close
  still : w.closed = false
  replies : w.settled = none → ∀ frame ∈ outcome.replies, frame.1 ∈ greetings

theorem watched_dispatchCommand (ha : Agrees s.toLegacySession w) (hstill : w.closed = false)
    {context : String} {data : Value} (hfatal : w.fatal = w.settled.isNone)
    (hqueued : w.queued = 0) :
    Watched (fun r t => Answered t r.1 r.2) (s.dispatchCommand context data) w := by
  unfold Session.dispatchCommand
  have hversion := ha.version
  cases hs : w.settled with
  | none =>
    rw [hs] at hversion hfatal
    rw [hversion]
    exact watched_done ⟨ha, hfatal, hstill, fun _ frame hframe => absurd hframe List.not_mem_nil⟩
  | some handshake =>
    have hprincipal : principalOf s.clientId = principalOf handshake.clientId := by
      rw [ha.clientId, hs]
      rfl
    rw [hs] at hversion hfatal
    rw [hversion, hprincipal]
    refine watched_call ?_ fun st => Program.Obeys.bind ?_
    · show w.settled.map _ = some _
      rw [hs]
      rfl
    have hgrants : ∀ ctx context data,
        Grants st (Permissions.Session.dispatchCommand st ctx context data) :=
      grants_dispatchCommand
    refine (watched_through (w := w.after ⟨.standing (principalOf handshake.clientId), st⟩) hs rfl
      (hgrants _ _ _).commands
      fun max hmax => ⟨max, (hgrants _ _ _).tracks max hmax, ?_⟩).mono fun r t hsame => ?_
    · show w.queued + max ≤ max
      omega
    · have hanswered (replies : List Reply) : Answered t s { replies } := by
        refine ⟨ha.same ⟨hsame.settled, hsame.fatal, hsame.closed⟩, ?_, ?_, fun hnone => ?_⟩
        · rw [hsame.fatal]
          exact hfatal
        · rw [hsame.closed]
          exact hstill
        · rw [hsame.settled] at hnone
          exact absurd (hs.symm.trans hnone) (by simp)
      cases r with
      | ok replies => exact watched_done (hanswered replies)
      | error e => exact watched_done (hanswered [])

/-! ## One line -/

theorem accepted_of_ne {value : Value} (h : contextOf value ≠ "protocol") :
    accepted value = none := if_neg fun hacc => h hacc.1

/-- A line that is no handshake leaves the handshake as it is. -/
theorem settled_line {value : Value} (h : contextOf value ≠ "protocol") :
    (w.line (some (some value))).settled = w.settled := by
  simp [Watch.line, accepted_of_ne h]

theorem fatal_line {value : Value} (h : contextOf value ≠ "protocol") :
    (w.line (some (some value))).fatal =
      (decide (contextOf value ∉ openContexts) && w.settled.isNone) := if_neg h

theorem Agrees.line {s : LegacySession} (ha : Agrees s w) {value : Value}
    (h : contextOf value ≠ "protocol") : Agrees s (w.line (some (some value))) where
  version := by rw [settled_line h, ha.version]
  noBroadcast := by rw [settled_line h, ha.noBroadcast]
  clientId := by rw [settled_line h, ha.clientId]

theorem watched_handleProtocol (ha : Agrees s.toLegacySession w) (hstill : w.closed = false)
    {value : Value} (hcontext : contextOf value = "protocol") :
    Watched (fun r t => Answered t r.1 r.2) (.done (s.handleProtocol (dataOf value)))
      (w.line (some (some value))) := by
  refine watched_done ?_
  by_cases hold : (parseHandshake (dataOf value)).version < minProtocol
  · have haccepted : accepted value = none := if_neg fun hacc => absurd hacc.2 (by omega)
    have hsettled : (w.line (some (some value))).settled = w.settled := by
      simp [Watch.line, haccepted]
    have hfatal : (w.line (some (some value))).fatal = true := by
      simp [Watch.line, isFatal, hcontext, haccepted]
    have hlegacy : s.toLegacySession.handleProtocol (dataOf value) =
        (s.toLegacySession, true) := if_pos hold
    refine ⟨?_, ?_, hstill, fun _ => ?_⟩
    · simp only [Session.handleProtocol, hlegacy]
      exact ⟨by rw [hsettled, ha.version], by rw [hsettled, ha.noBroadcast],
        by rw [hsettled, ha.clientId]⟩
    · simp only [Session.handleProtocol, hlegacy, hfatal, if_true]
    · simp [Session.handleProtocol, hlegacy, greetings]
  · have haccepted : accepted value = some (parseHandshake (dataOf value)) :=
      if_pos ⟨hcontext, Nat.le_of_not_lt hold⟩
    have hsettled : (w.line (some (some value))).settled =
        some (parseHandshake (dataOf value)) := by
      simp [Watch.line, haccepted]
    have hfatal : (w.line (some (some value))).fatal = false := by
      simp [Watch.line, isFatal, hcontext, haccepted]
    refine ⟨?_, ?_, hstill, fun hnone => absurd (hsettled.symm.trans hnone) (by simp)⟩
    · simp only [Session.handleProtocol, LegacySession.handleProtocol, if_neg hold]
      exact ⟨by rw [hsettled]; rfl, by rw [hsettled]; rfl, by rw [hsettled]; rfl⟩
    · simp [Session.handleProtocol, LegacySession.handleProtocol, hold, hfatal]

theorem watched_handleFrame (ha : Agrees s.toLegacySession w) (hstill : w.closed = false)
    (line : Option Value) :
    Watched (fun r t => Answered t r.1 r.2) (s.handleFrame line) (w.line (some line)) := by
  cases line with
  | none =>
    exact watched_done ⟨⟨ha.version, ha.noBroadcast, ha.clientId⟩, rfl, hstill,
      fun _ frame hframe => absurd hframe List.not_mem_nil⟩
  | some value =>
    have hgreet {s' : Session} {replies : List Reply} {context : String}
        (hlegacy : s'.toLegacySession = s.toLegacySession) (hc : contextOf value = context)
        (hne : context ≠ "protocol") (hin : context ∈ openContexts)
        (hreplies : ∀ frame ∈ replies, frame.1 ∈ greetings) :
        Watched (fun r t => Answered t r.1 r.2) (.done (s', { replies }))
          (w.line (some (some value))) := by
      subst hc
      refine watched_done ⟨?_, ?_, hstill, fun _ => hreplies⟩
      · rw [hlegacy]
        exact ha.line hne
      · simp [fatal_line hne, hin]
    unfold Session.handleFrame
    dsimp only
    split
    next hc =>
      refine hgreet ?_ hc (by decide) (by decide) (by simp [greetings])
      split <;> rfl
    next hc =>
      exact watched_handleProtocol (s := { s with framesIn := s.framesIn + 1 }) ha hstill hc
    next hc => exact hgreet rfl hc (by decide) (by decide) (by simp [greetings])
    next hc => exact hgreet rfl hc (by decide) (by decide) (by simp)
    next hc => exact hgreet rfl hc (by decide) (by decide) (by simp [greetings])
    next hc => exact hgreet rfl hc (by decide) (by decide) (by simp)
    next hplayer hprotocol hping hpong hverify hempty =>
      refine watched_dispatchCommand (s := { s with framesIn := s.framesIn + 1 })
        (ha.line hprotocol) hstill ?_ rfl
      have hout : contextOf value ∉ openContexts := by
        simp only [openContexts, List.mem_cons, List.not_mem_nil, or_false]
        rintro (h | h | h | h | h | h)
        exacts [hplayer h, hprotocol h, hping h, hpong h, hverify h, hempty h]
      simp [fatal_line hprotocol, settled_line hprotocol, hout]

/-! ## Every line -/

theorem watched_feed (n : Nat) (ha : Agrees s.toLegacySession w) (hstill : w.closed = false)
    (hfatal : w.fatal = false) :
    Watched (fun _ t => t.closed = t.fatal) (feed n s) w := by
  induction n generalizing s w with
  | zero => exact watched_done (hstill.trans hfatal.symm)
  | succ n ih =>
    refine watched_call hfatal fun line => ?_
    cases line with
    | none => exact watched_done hstill
    | some line =>
      refine Program.Obeys.bind ((watched_handleFrame ha hstill line).mono fun r t hr => ?_)
      refine Program.Obeys.bind ((watched_sendAll hr.replies).mono fun _ u hu => ?_)
      obtain rfl := hu
      split
      next hclose =>
        have hf : u.fatal = true := hr.closes.trans hclose
        exact watched_call hf fun _ => watched_done hf.symm
      next hopen =>
        exact ih hr.agrees hr.still (hr.closes.trans (Bool.eq_false_of_not_eq_true hopen))

/-- **Every line is safe.**  In every run of a session, however many lines it is fed and whatever
they are, whatever its calls are answered, it calls what it may; and it has closed exactly when the
last line was fatal. -/
theorem lines_safe (n : Nat) {calls : List (List (Sigma Call.Answer) × Call)} {u : Unit}
    {h : List (Sigma Call.Answer)} (hrun : (feed n {}).Runs recorded [] calls u h) :
    (∀ c ∈ calls, (watch c.1).May c.2) ∧ (watch h).closed = (watch h).fatal :=
  (watched_feed (w := {}) n ⟨rfl, rfl, rfl⟩ rfl rfl).watched hrun

/-! ## A phone that plays -/

def phoneLines : List (Option Value) :=
  [some (.object [("context", .string "player"), ("data", .string "Android")]),
    none,
    some (.object [("context", .string "protocol"), ("data", .object
      [("protocol_version", .int 4), ("client_id", .string "phone")])]),
    some (.object [("context", .string "playerplay"), ("data", .string "")])]

/-- The phone is a DJ, and a host fails every call. -/
def phoneReply (read : Nat) : (c : Call) → Call.Answer c
  | .receive => phoneLines[read]?
  | .standing _ => ⟨true, .dj⟩
  | .host c => silent c
  | .send _ | .close => ()

/-- The lines read so far. -/
def linesRead (h : List (Sigma Call.Answer)) : Nat :=
  h.countP fun e => match e.1 with
    | .receive => true
    | _ => false

def phoneAnswer (h : List (Sigma Call.Answer)) (c : Call) :
    Call.Answer c × List (Sigma Call.Answer) :=
  (phoneReply (linesRead h) c, h ++ [⟨c, phoneReply (linesRead h) c⟩])

theorem lines_safe_phone : ∃ h, (watch h).May (.host (.command .play)) := by
  have hall : ∀ h c, recorded h c (phoneAnswer h c).1 (phoneAnswer h c).2 := fun _ _ => rfl
  have hrun := Program.runs_trace hall (feed 9 {}) []
  have hcall : ((feed 9 {}).trace phoneAnswer []).any (fun call => match call.2 with
      | .host c => c.command?.any fun c => match c with
        | .play => true
        | _ => false
      | _ => false) = true := by
    decide +kernel
  obtain ⟨⟨h, call⟩, hmem, hplay⟩ := List.any_eq_true.mp hcall
  have hmay := (lines_safe 9 hrun).1 _ hmem
  cases call with
  | host c =>
    cases c with
    | command c =>
      cases c with
      | play => exact ⟨h, hmay⟩
      | _ => cases hplay
    | query q => cases hplay
    | reading q => cases hplay
  | _ => cases hplay

end Mbrc.SessionV4
