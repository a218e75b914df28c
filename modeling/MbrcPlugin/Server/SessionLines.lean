import MbrcPlugin.Diagnostics.SessionLog
import MbrcPlugin.Permissions.Requests
import MbrcPlugin.Protocol.WireV6

/-!
# The lines of a V6 session

A transport feeds a session the lines of its client, one after the other, until an outcome asks to
close.  Each line finds the stores, the gate and the queue as other connections have left them, and
an op that the gate lets through reaches MusicBee through its handler's calls, which a host of any
kind answers.  JSON is read by a given parser.

`session_safe` is about every line of every such sequence: what it is answered, what it calls, and
what it leaves of the session.
-/

namespace Mbrc.SessionLines

open Permissions
open Installations (Session Moment Reply)
open Providers (Call Answer silent)
open SessionLog (Request RequestError Server parseRequest responseOk errorFrame)

/-! ## Lines -/

/-- A line, and what it finds. -/
structure Line where
  text : String
  world : Installations.World
  moment : Moment
  /-- The version of the queue, as a handler reads it. -/
  listVersion : Nat

/-- What a line came to. -/
structure Entry where
  line : Line
  found : Session
  left : Session
  world : Installations.World
  replies : List Value
  close : Bool
  calls : List Call

/-- `ErrorCode::as_str`. -/
def codeText : Providers.ErrorCode → String
  | .unknownOp => "unknown_op"
  | .missingField => "missing_field"
  | .invalidField => "invalid_field"
  | .forbidden => "forbidden"
  | .staleList => "stale_list"
  | .staleTrack => "stale_track"
  | .internal => "internal_error"
  | .notFound => "not_found"
  | .unavailable => "unavailable"

section

variable {σ : Type} (hash : String → String) (parse : String → Option Value) (server : Server)
  (host : σ → (c : Call) → Answer c × σ)

/-- `reject`: fatal before the handshake only. -/
def reject (s : Session) (g : Line) (e : RequestError) : Entry :=
  { line := g, found := s, left := s, world := g.world
    replies := [errorFrame e.id e.code e.message e.field], close := !s.handshaked, calls := [] }

/-- The handler of an op that passed the gate. -/
def dispatch (r : Request) (listVersion : Nat) (h : σ) : List Call × Value × σ :=
  match CommandsV6.dispatch listVersion r.op r.data with
  | some handler =>
    let (calls, result, h) := handler.run.run host h
    match result with
    | .ok data => (calls, responseOk r.id data, h)
    | .error e => (calls, errorFrame r.id (codeText e.code) e.message e.field, h)
  | none => ([], errorFrame r.id (codeText .unknownOp) ("unknown op: " ++ r.op) none, h)

/-- The replies to a first handshake carry the id zero, whatever the request's is. -/
def replyId (s : Session) (r : Request) : Nat :=
  if r.op = "handshake" ∧ s.handshaked = false then 0 else r.id

/-- The calls and the reply of a request that came to a reply of the session, or to its handler. -/
def serve (s : Session) (g : Line) (r : Request) (h : σ) : Reply → List Call × Value × σ
  | .passed => dispatch host r g.listVersion h
  | reply => ([], (SessionLog.Outcome.replied (replyId s r) reply).frame server, h)

def handleRequest (s : Session) (g : Line) (r : Request) (h : σ) : Entry × σ :=
  let (world, next, reply) := g.world.handleRequest hash s r.op r.data g.moment
  let (calls, frame, h) := serve server host s g r h reply
  ({ line := g, found := s, left := next.getD s, world, replies := [frame], close := next.isNone
     calls }, h)

def handleFrame (s : Session) (g : Line) (h : σ) : Entry × σ :=
  match parseRequest (parse g.text) with
  | .ok r => handleRequest hash server host s g r h
  | .error e => (reject s g e, h)

/-- The transport: it feeds line after line until it is to close. -/
def feed (s : Session) (h : σ) : List Line → List Entry
  | [] => []
  | g :: lines =>
    let (e, h) := handleFrame hash parse server host s g h
    e :: if e.close then [] else feed e.left h lines

end

/-! ## What is asked of every line -/

/-- The handshake succeeded with this line. -/
def Entry.welcomes (e : Entry) : Bool := !e.found.handshaked && e.left.handshaked

/-- **What a line may do.** `id` is the id that the reply to a request is to carry. -/
structure Lawful (parse : String → Option Value) (id : Session → Request → Nat)
    (before : List Entry) (e : Entry) (after : List Entry) : Prop where
  /-- One reply, and it carries the id. -/
  reply : ∃ v, e.replies = [v] ∧ v.get "kind" = some (.string "response") ∧
    ∀ r, parseRequest (parse e.line.text) = .ok r →
      (v.get "id").bind Installations.asU64 = some (id e.found r)
  /-- Until a handshake has succeeded nothing is called, and what is not one is the last line. -/
  unwelcomed : (∀ f ∈ before, f.welcomes = false) →
    e.calls = [] ∧ (e.welcomes = false → e.close = true ∧ after = [])
  /-- Once it has, the session stays as it left it, and another one does nothing. -/
  welcomed : ∀ f ∈ before, f.welcomes = true →
    e.close = false ∧ e.found = f.left ∧ e.left = f.left ∧
      ∀ r, parseRequest (parse e.line.text) = .ok r → r.op = "handshake" →
        e.calls = [] ∧ e.world = e.line.world ∧
          e.replies = [errorFrame (id e.found r) "not_allowed"
            "handshake already completed on this connection" none]

/-! ## Frames -/

/-- A response with an id. -/
def IsResponse (v : Value) (id : Nat) : Prop :=
  v.get "kind" = some (.string "response") ∧ (v.get "id").bind Installations.asU64 = some id

theorem isResponse_ok {id : Nat} (h : id < 2 ^ 64) (data : Value) :
    IsResponse (responseOk id data) id := by
  constructor
  · rfl
  · rw [← WireV6.asU64_int h]
    rfl

theorem isResponse_error {id : Nat} (h : id < 2 ^ 64) (code message : String)
    (field : Option String) : IsResponse (errorFrame id code message field) id := by
  constructor
  · rfl
  · rw [← WireV6.asU64_int h]
    rfl

theorem isResponse_replied {id : Nat} (h : id < 2 ^ 64) (server : Server) {reply : Reply}
    (hreply : reply ≠ .passed) :
    IsResponse ((SessionLog.Outcome.replied id reply).frame server) id := by
  cases reply with
  | welcome told token => exact isResponse_ok h _
  | done data => exact isResponse_ok h data
  | passed => exact absurd rfl hreply
  | failed e => exact isResponse_error h _ _ _

theorem id_lt_of_asU64 {v : Value} {id : Nat} (h : Installations.asU64 v = some id) :
    id < 2 ^ 64 := by
  unfold Installations.asU64 at h
  split at h
  · rename_i n
    rw [← Option.some.inj h]
    exact n.toNat_lt
  · cases h

/-- The id a line is answered under. -/
def idOf : Except RequestError Request → Nat
  | .ok r => r.id
  | .error e => e.id

theorem idOf_lt (v : Option Value) : idOf (parseRequest v) < 2 ^ 64 := by
  have hzero : 0 < 2 ^ 64 := by omega
  unfold parseRequest
  split
  · dsimp only
    split
    · exact hzero
    · split
      · exact hzero
      · rename_i hid
        have hlt := id_lt_of_asU64 hid
        split
        · exact hlt
        · split
          · split <;> exact hlt
          · exact hlt
  · exact hzero

/-! ## Requests -/

section

variable (hash : String → String) (w : Installations.World) {s : Session} (op : String)
  (data : Value) (moment : Moment)

/-- After the handshake a request leaves the session as it is. -/
theorem handleRequest_handshaked (h : s.handshaked = true) :
    (w.handleRequest hash s op data moment).2.1 = some s := by
  unfold Installations.World.handleRequest
  rw [h]
  split
  · rfl
  · rw [if_pos rfl]
    split <;> rfl

theorem handleRequest_again (h : s.handshaked = true) :
    w.handleRequest hash s "handshake" data moment = (w, some s, .failed
      { code := .notAllowed, message := "handshake already completed on this connection" }) := by
  unfold Installations.World.handleRequest
  rw [if_pos rfl, if_pos h]

/-- A first handshake succeeds or closes the connection. -/
theorem handleHandshake_cases (s : Session) :
    (w.handleHandshake hash s data moment).2.2 ≠ .passed ∧
      ((w.handleHandshake hash s data moment).2.1 = none ∨
        ∃ s', (w.handleHandshake hash s data moment).2.1 = some s' ∧ s'.handshaked = true) := by
  unfold Installations.World.handleHandshake
  split
  · exact ⟨(fun h => nomatch h), Or.inl rfl⟩
  · dsimp only
    split
    · exact ⟨(fun h => nomatch h), Or.inl rfl⟩
    · exact ⟨(fun h => nomatch h), Or.inr ⟨_, rfl, rfl⟩⟩
    · exact ⟨(fun h => nomatch h), Or.inr ⟨_, rfl, rfl⟩⟩

/-- Before it every request is answered at once, and a handshake that succeeds is the only one
that does not close the connection. -/
theorem handleRequest_first (h : s.handshaked = false) :
    (w.handleRequest hash s op data moment).2.2 ≠ .passed ∧
      ((w.handleRequest hash s op data moment).2.1 = none ∨
        ∃ s', (w.handleRequest hash s op data moment).2.1 = some s' ∧ s'.handshaked = true) := by
  unfold Installations.World.handleRequest
  rw [h]
  split
  · exact handleHandshake_cases hash w data moment s
  · exact ⟨(fun h => nomatch h), Or.inl rfl⟩

end

/-! ## One line -/

section

variable {σ : Type} {hash : String → String} {parse : String → Option Value} {server : Server}
  {host : σ → (c : Call) → Answer c × σ} {s : Session} {g : Line} {h : σ}

theorem isResponse_dispatch {r : Request} (hid : r.id < 2 ^ 64) (listVersion : Nat) :
    IsResponse (dispatch host r listVersion h).2.1 r.id := by
  unfold dispatch
  split
  · dsimp only
    split
    · exact isResponse_ok hid _
    · exact isResponse_error hid _ _ _
  · exact isResponse_error hid _ _ _

theorem replyId_lt {r : Request} (hid : r.id < 2 ^ 64) : replyId s r < 2 ^ 64 := by
  unfold replyId
  split
  · omega
  · exact hid

/-- What `handle_frame` says of one line, in a session that has had its handshake or not. -/
structure Line.Answered (parse : String → Option Value) (s : Session) (e : Entry) : Prop where
  found : e.found = s
  reply : ∃ v, e.replies = [v] ∧ v.get "kind" = some (.string "response") ∧
    ∀ r, parseRequest (parse e.line.text) = .ok r →
      (v.get "id").bind Installations.asU64 = some (replyId s r)
  first : s.handshaked = false → e.calls = [] ∧ (e.close = true ∨ e.left.handshaked = true)
  later : s.handshaked = true → e.close = false ∧ e.left = s ∧
    ∀ r, parseRequest (parse e.line.text) = .ok r → r.op = "handshake" →
      e.calls = [] ∧ e.world = e.line.world ∧
        e.replies = [errorFrame (replyId s r) "not_allowed"
          "handshake already completed on this connection" none]

theorem handleFrame_line : (handleFrame hash parse server host s g h).1.line = g := by
  unfold handleFrame
  split <;> rfl

theorem reject_answered {e : RequestError} (hparse : parseRequest (parse g.text) = .error e) :
    Line.Answered parse s (reject s g e) := by
  have hid : e.id < 2 ^ 64 := by
    have hlt := idOf_lt (parse g.text)
    rwa [hparse] at hlt
  have hnone : ∀ r, parseRequest (parse (reject s g e).line.text) ≠ .ok r := by
    intro r hr
    rw [show (reject s g e).line.text = g.text from rfl, hparse] at hr
    cases hr
  constructor
  · rfl
  · exact ⟨_, rfl, (isResponse_error hid _ _ _).1, fun r hr => absurd hr (hnone r)⟩
  · intro hs
    exact ⟨rfl, Or.inl (by rw [reject, hs]; rfl)⟩
  · intro hs
    exact ⟨by rw [reject, hs]; rfl, rfl, fun r hr => absurd hr (hnone r)⟩

theorem serve_calls {r : Request} {reply : Reply} (hreply : reply ≠ .passed) :
    serve server host s g r h reply =
      ([], (SessionLog.Outcome.replied (replyId s r) reply).frame server, h) := by
  cases reply with
  | passed => exact absurd rfl hreply
  | welcome => rfl
  | done => rfl
  | failed => rfl

theorem isResponse_serve {r : Request} (hid : r.id < 2 ^ 64) {reply : Reply}
    (hpassed : reply = .passed → s.handshaked = true) :
    IsResponse (serve server host s g r h reply).2.1 (replyId s r) := by
  by_cases hreply : reply = .passed
  · have hsame : replyId s r = r.id := by
      rw [replyId, if_neg]
      rw [hpassed hreply]
      simp
    rw [hreply, hsame]
    exact isResponse_dispatch hid _
  · rw [serve_calls hreply]
    exact isResponse_replied (replyId_lt hid) server hreply

theorem handleRequest_answered {r : Request} (hparse : parseRequest (parse g.text) = .ok r) :
    Line.Answered parse s (handleRequest hash server host s g r h).1 := by
  have hid : r.id < 2 ^ 64 := by
    have hlt := idOf_lt (parse g.text)
    rwa [hparse] at hlt
  have hsame : ∀ r', parseRequest (parse g.text) = .ok r' → r' = r := by
    intro r' hr'
    rw [hparse] at hr'
    exact (Except.ok.inj hr').symm
  constructor
  · rfl
  · have hresponse : IsResponse (serve server host s g r h
        (g.world.handleRequest hash s r.op r.data g.moment).2.2).2.1 (replyId s r) := by
      refine isResponse_serve hid fun hpassed => ?_
      by_contra hs
      exact (handleRequest_first hash _ _ _ _ (Bool.not_eq_true _ ▸ hs)).1 hpassed
    exact ⟨_, rfl, hresponse.1, fun r' hr' => by rw [hsame r' hr']; exact hresponse.2⟩
  · intro hs
    obtain ⟨hreply, hnext⟩ := handleRequest_first hash g.world r.op r.data g.moment hs
    refine ⟨congrArg Prod.fst (serve_calls hreply), ?_⟩
    rcases hnext with hnone | ⟨s', hsome, hs'⟩
    · exact Or.inl (congrArg Option.isNone hnone)
    · right
      have hleft : (handleRequest hash server host s g r h).1.left = s' :=
        congrArg (Option.getD · s) hsome
      rw [hleft, hs']
  · intro hs
    have hnext := handleRequest_handshaked hash g.world r.op r.data g.moment hs
    refine ⟨congrArg Option.isNone hnext, congrArg (Option.getD · s) hnext, fun r' hr' hop => ?_⟩
    obtain rfl := hsame r' hr'
    have hagain : g.world.handleRequest hash s r'.op r'.data g.moment =
        (g.world, some s, .failed
          { code := .notAllowed
            message := "handshake already completed on this connection" }) := by
      rw [hop]
      exact handleRequest_again hash g.world r'.data g.moment hs
    unfold handleRequest
    rw [hagain]
    exact ⟨rfl, rfl, rfl⟩

theorem handleFrame_answered :
    Line.Answered parse s (handleFrame hash parse server host s g h).1 := by
  unfold handleFrame
  split
  · rename_i hparse
    exact handleRequest_answered hparse
  · rename_i hparse
    exact reject_answered hparse

/-! ## Every line -/

/-- The lines after the handshake. -/
theorem feed_handshaked (hs : s.handshaked = true) {lines : List Line} {e : Entry}
    (he : e ∈ feed hash parse server host s h lines) :
    Line.Answered parse s e ∧ e.left = s := by
  induction lines generalizing h with
  | nil => cases he
  | cons g lines ih =>
    have hanswered : Line.Answered parse s (handleFrame hash parse server host s g h).1 :=
      handleFrame_answered
    obtain ⟨hclose, hleft, -⟩ := hanswered.later hs
    rw [feed] at he
    dsimp only at he
    rw [hclose, if_neg Bool.false_ne_true, hleft] at he
    rcases List.mem_cons.mp he with rfl | he
    · exact ⟨hanswered, hleft⟩
    · exact ih he

theorem lawful_handshaked (hs : s.handshaked = true) {e : Entry} (he : Line.Answered parse s e)
    {before : List Entry} (hleft : ∀ f ∈ before, f.welcomes = true → f.left = s)
    (hwelcomed : ∃ f ∈ before, f.welcomes = true) (after : List Entry) :
    Lawful parse replyId before e after := by
  have hfound := he.found
  obtain ⟨hclose, hstays, hagain⟩ := he.later hs
  refine ⟨?_, ?_, ?_⟩
  · rw [hfound]
    exact he.reply
  · intro hnone
    obtain ⟨f, hf, hwelcomes⟩ := hwelcomed
    rw [hnone f hf] at hwelcomes
    cases hwelcomes
  · intro f hf hwelcomes
    rw [hleft f hf hwelcomes, hfound]
    exact ⟨hclose, rfl, hstays, hagain⟩

/-- **A V6 session is safe.** -/
theorem session_safe (hash : String → String) (parse : String → Option Value) (server : Server)
    (host : σ → (c : Call) → Answer c × σ) (peer : String) (principal : Option Principal) (h : σ)
    (lines : List Line) (before after : List Entry) (e : Entry)
    (hfed : feed hash parse server host { peer, principal } h lines = before ++ e :: after) :
    Lawful parse replyId before e after := by
  obtain ⟨s, hs, hfirst⟩ : ∃ s : Session, s.handshaked = false ∧
      feed hash parse server host s h lines = before ++ e :: after := ⟨_, rfl, hfed⟩
  cases lines with
  | nil => simp [feed] at hfirst
  | cons g lines =>
    have hanswered : Line.Answered parse s (handleFrame hash parse server host s g h).1 :=
      handleFrame_answered
    rw [feed] at hfirst
    dsimp only at hfirst
    generalize handleFrame hash parse server host s g h = served at hanswered hfirst
    obtain ⟨hcalls, hends⟩ := hanswered.first hs
    -- the first line is a handshake that succeeds, or it is the last
    have hwelcomes : served.1.close = false → served.1.welcomes = true := by
      intro hclose
      rw [hclose] at hends
      rw [Entry.welcomes, hanswered.found, hs, hends.resolve_left Bool.false_ne_true]
      rfl
    cases before with
    | nil =>
      obtain ⟨rfl, hafter⟩ := List.cons.inj hfirst
      refine ⟨?_, fun _ => ⟨hcalls, fun hno => ?_⟩, fun f hf => nomatch hf⟩
      · rw [hanswered.found]
        exact hanswered.reply
      · have hclose : served.1.close = true := by
          by_contra hopen
          rw [hwelcomes (Bool.not_eq_true _ ▸ hopen)] at hno
          cases hno
        rw [hclose, if_pos rfl] at hafter
        exact ⟨hclose, hafter.symm⟩
    | cons f before =>
      rw [List.cons_append] at hfirst
      obtain ⟨rfl, hrest⟩ := List.cons.inj hfirst
      have hclose : served.1.close = false := by
        by_contra hclose
        rw [Bool.not_eq_false] at hclose
        rw [hclose, if_pos rfl] at hrest
        simp at hrest
      rw [hclose, if_neg Bool.false_ne_true] at hrest
      rw [hclose] at hends
      have hleft := hends.resolve_left Bool.false_ne_true
      have hlater : ∀ f ∈ before ++ e :: after,
          Line.Answered parse served.1.left f ∧ f.left = served.1.left := by
        intro f hf
        rw [← hrest] at hf
        exact feed_handshaked hleft hf
      refine lawful_handshaked hleft (hlater e (by simp)).1 ?_
        ⟨served.1, by simp, hwelcomes hclose⟩ after
      intro f hf _
      rcases List.mem_cons.mp hf with rfl | hf
      · rfl
      · exact (hlater f (List.mem_append_left _ hf)).2

end

/-! ## A handshake with an id of its own -/

def hello (id : Nat) : Value :=
  .object [("id", .int id), ("kind", .string "request"), ("op", .string "handshake"),
    ("data", .object [("protocol_version", .int 6), ("client_id", .string "install-1"),
      ("client_type", .string "android")])]

def status : Value :=
  .object [("id", .int 8), ("kind", .string "request"), ("op", .string "player_status")]

/-- Reads two texts back, and no other. -/
def readBack (text : String) : Option Value :=
  if text = (hello 7).render then some (hello 7)
  else if text = status.render then some status
  else none

def told (v : Value) : Line :=
  { text := v.render, world := .initial false Table.empty Table.empty
    moment := { ms := 0, instant := 0, fresh := "" }, listVersion := 0 }

def served (lines : List Line) : List Entry :=
  feed id readBack { id := none, name := "music", capabilities := .null }
    (fun _ c => (silent c, ())) { peer := "192.168.1.20", principal := none } () lines

/-- A handshake with the id 7 is answered under the id 0. -/
theorem handshake_under_zero : ∃ e, served [told (hello 7)] = [e] ∧
    ¬ Lawful readBack (fun _ r => r.id) [] e [] := by
  have hread : parseRequest (readBack (told (hello 7)).text) = .ok
      { id := 7, op := "handshake"
        data := .object [("protocol_version", .int 6), ("client_id", .string "install-1"),
          ("client_type", .string "android")] } := by
    rfl
  refine ⟨_, rfl, fun hlawful => ?_⟩
  obtain ⟨v, hv, -, hid⟩ := hlawful.reply
  have hseven := hid _ hread
  have hzero : ((v.get "id").bind Installations.asU64) = some 0 := by
    rw [← (List.cons.inj hv).1]
    rfl
  rw [hzero] at hseven
  cases hseven

/-- A handshake, a read of the player, and another handshake. -/
theorem session_safe_twice : ∃ before e,
    served [told (hello 7), told status, told (hello 7)] = before ++ e :: [] ∧
      before.length = 2 ∧ Lawful readBack replyId before e [] := by
  obtain ⟨e₀, e₁, e₂, hserved⟩ : ∃ e₀ e₁ e₂,
      served [told (hello 7), told status, told (hello 7)] = [e₀, e₁, e₂] := ⟨_, _, _, rfl⟩
  exact ⟨[e₀, e₁], e₂, hserved, rfl,
    session_safe id readBack _ _ _ none () _ [e₀, e₁] [] e₂ hserved⟩

end Mbrc.SessionLines
