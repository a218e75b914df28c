import MbrcPlugin.Server.Connections
import MbrcPlugin.Server.RoleOwners

/-!
# The admission of a connection

One TCP connection and the frames it sends.  The session answers a frame first, and settles at a
handshake who the client is; the registry decides after that whether the connection is admitted, and
a refusal is sent in place of what the session answered.  What other connections do to the store and
to the registry may come before a frame, and before the registry is asked.

`Link.attempts` is there for the statements: no step of the code reads it.
-/

namespace Mbrc.Admission

open Registry (IpAddr)
open Connections (LegacySession Line)
open Installations (Session Moment Reply)
open Clients (Identities)

/-! ## Sessions -/

/-- What is put on the queue of the writer. -/
inductive Out where
  | legacy (frame : String)
  | v6 (reply : Reply)
  /-- The error for a line that is no request. -/
  | unparseable
  /-- The client holds the maximum number of connections. -/
  | capRefusal

structure Outcome where
  replies : List Out
  close : Bool

/-- The protocol a connection speaks. -/
inductive Proto where
  | pending
  | legacy (s : LegacySession)
  | v6 (s : Session)

namespace Proto

/-- What the registration of a connection sees of its session. -/
def seen : Proto → Connections.Proto
  | pending => .pending
  | legacy s => .legacy s
  | v6 s =>
    .v6 { handshaked := s.handshaked, clientId := s.clientId, noBroadcast := s.noBroadcast }

def regMeta (p : Proto) : Option Connections.RegMeta := p.seen.regMeta

def capRefusal : Proto → Option Out
  | v6 _ => some .capRefusal
  | _ => none

/-- The first line routes the connection; `none` closes it. -/
def route (p : Proto) (peer : String) (l : Line) : Option Proto :=
  match p with
  | pending =>
    match l.detect with
    | .legacy => some (legacy {})
    | .v6 => some (v6 { peer, principal := none })
    | .unknown => none
  | _ => some p

section

variable (hash : String → String) (answers : LegacySession → Line → List String)

/-- `Proto::handle`; what a legacy session answers is given. -/
def handle (w : Installations.World) (p : Proto) (l : Line) (moment : Moment) :
    Installations.World × Proto × Outcome :=
  match p with
  | pending => (w, p, { replies := [], close := false })
  | legacy s =>
    (w, legacy (s.handleFrame l.lenient).1,
      { replies := (answers s l).map .legacy, close := (s.handleFrame l.lenient).2 })
  | v6 s =>
    match l.request with
    | none => (w, p, { replies := [.unparseable], close := !s.handshaked })
    | some (op, data) =>
      match w.handleRequest hash s op data moment with
      | (w, next, reply) =>
        (w, v6 (next.getD s), { replies := [.v6 reply], close := next.isNone })

end

end Proto

/-! ## Frames -/

/-- A V6 handshake that was answered. -/
structure Attempt where
  /-- The token that was stored for its id. -/
  issued : Option String
  /-- By the session or by the registry. -/
  refused : Bool
  before : Identities
  after : Identities

def Out.issued : Out → Option String
  | .v6 (.welcome _ token) => token
  | _ => none

def Out.isError : Out → Bool
  | .v6 (.failed _) => true
  | _ => false

/-- The request is a handshake. -/
def greets (l : Line) : Bool := l.request.any fun request => request.1 = "handshake"

structure Link where
  number : Nat
  ip : IpAddr
  peer : String
  world : Installations.World
  proto : Proto := .pending
  registered : Bool := false
  closed : Bool := false
  /-- All that was put on the queue. -/
  queue : List Out := []
  attempts : List Attempt := []

/-- What the transport finds when the session has answered a frame. -/
structure Found where
  registry : Registry.State
  now : Nat
  /-- The writer task still takes frames. -/
  writing : Bool

namespace Link

/-- `register_and_subscribe` turns the connection away. -/
def turnedAway (k : Link) (reg : Connections.RegMeta) (found : Found) : Bool :=
  (found.registry.register k.number k.ip reg.clientId
    (if reg.isMain then .subscriber else .auxiliary) found.now).1 = .rejectedCap

/-- The part of `drain_frames` after the session has answered. -/
def afterAnswer (k : Link) (outcome : Outcome) (found : Found) : Link × Bool :=
  let admission := if k.registered then none else k.proto.regMeta
  let refused := admission.any fun reg => k.turnedAway reg found
  let replies := match if refused then k.proto.capRefusal else none with
    | some frame => [frame]
    | none => outcome.replies
  ({ k with
      registered := k.registered || admission.isSome
      queue := if found.writing then k.queue ++ replies else k.queue
      closed := refused || outcome.close || (!found.writing && !replies.isEmpty) }, refused)

section

variable (hash : String → String) (answers : LegacySession → Line → List String)

/-- A line of `drain_frames`. -/
def drain (k : Link) (l : Line) (moment : Moment) (found : Found) : Link :=
  match k.proto.route k.peer l with
  | none => { k with closed := true }
  | some proto =>
    match proto.handle hash answers k.world l moment with
    | (world, next, outcome) =>
      match { k with world, proto := next }.afterAnswer outcome found with
      | (k', refused) =>
        match proto with
        | .v6 _ =>
          if greets l then
            { k' with
              attempts := k.attempts ++
                [{ issued := outcome.replies.findSome? Out.issued
                   refused := refused || outcome.replies.any Out.isError
                   before := k.world.identities
                   after := world.identities }] }
          else k'
        | _ => k'

end

end Link

/-! ## Steps -/

inductive Event where
  | line (l : Line) (moment : Moment) (found : Found)
  /-- Other connections and the panel. -/
  | others (world : Installations.World)

section

variable (hash : String → String) (answers : LegacySession → Line → List String)

def step (k : Link) : Event → Option Link
  | .line l moment found =>
    if k.closed then none else some (k.drain hash answers l moment found)
  | .others world => some { k with world }

def system : Transition.System Link Event where
  start k := ∃ number ip peer world, k = { number, ip, peer, world }
  next := step hash answers

end

/-! ## The session a registration sees -/

section

variable {hash : String → String} {answers : LegacySession → Line → List String}

/-- A handshake leaves the session as it was, or completes it. -/
theorem handleHandshake_cases (hash : String → String) (w : Installations.World) (s : Session)
    (data : Value) (moment : Moment) :
    (∃ e, w.handleHandshake hash s data moment = (w, none, .failed e)) ∨
      ∃ hello w' s' told issued, Installations.readHello data = .ok hello ∧
        w.handleHandshake hash s data moment = (w', some s', .welcome told issued) ∧
        s'.handshaked = true ∧ s'.clientId = hello.clientId ∧
        s'.noBroadcast = hello.noBroadcast := by
  unfold Installations.World.handleHandshake
  cases hread : Installations.readHello data with
  | error e => exact Or.inl ⟨e, rfl⟩
  | ok hello =>
    have hident := Installations.identify_identified hash w moment hello s.peer
    dsimp only
    generalize w.identify hash hello s.peer moment = out at hident
    cases hident with
    | refused => exact Or.inl ⟨_, rfl⟩
    | unused => exact Or.inr ⟨hello, _, _, _, _, rfl, rfl, rfl, rfl, rfl⟩
    | known => exact Or.inr ⟨hello, _, _, _, _, rfl, rfl, rfl, rfl, rfl⟩
    | issued => exact Or.inr ⟨hello, _, _, _, _, rfl, rfl, rfl, rfl, rfl⟩

theorem pair_keeps (w : Installations.World) (s : Session) (data : Value) (moment : Moment) :
    (w.pair s data moment).1.identities = w.identities ∧
      ∀ told token, (w.pair s data moment).2 ≠ .welcome told token := by
  unfold Installations.World.pair
  split
  · simp
  · split
    · split
      · exact ⟨rfl, by simp⟩
      · simp
    · simp
    · simp
  · simp

theorem dispatch_keeps (w : Installations.World) (s : Session) (op : String) (data : Value) :
    (w.dispatch s op data).1.identities = w.identities ∧
      ∀ told token, (w.dispatch s op data).2 ≠ .welcome told token := by
  unfold Installations.World.dispatch
  dsimp only
  split <;> split <;> simp

/-- Only a first handshake changes the session, and the identities. -/
theorem handleRequest_cases (hash : String → String) (w : Installations.World) (s : Session)
    (op : String) (data : Value) (moment : Moment) :
    (op = "handshake" ∧ s.handshaked = false ∧
      w.handleRequest hash s op data moment = w.handleHandshake hash s data moment) ∨
      ((op ≠ "handshake" ∨ s.handshaked = true) ∧
        (w.handleRequest hash s op data moment).2.1 = (if s.handshaked then some s else none) ∧
        (w.handleRequest hash s op data moment).1.identities = w.identities ∧
        ∀ told token, (w.handleRequest hash s op data moment).2.2 ≠ .welcome told token) := by
  unfold Installations.World.handleRequest
  by_cases hop : op = "handshake"
  · by_cases hs : s.handshaked = true
    · refine Or.inr ⟨Or.inr hs, ?_⟩
      simp [hop, hs]
    · exact Or.inl ⟨hop, by simpa using hs, by simp [hop, hs]⟩
  · refine Or.inr ⟨Or.inl hop, ?_⟩
    by_cases hs : s.handshaked = true
    · by_cases hping : op = "ping"
      · simp [hs, hping]
      · simp only [if_neg hop, if_pos hs, if_neg hping, true_and]
        split
        · exact pair_keeps w s data moment
        · exact dispatch_keeps w s op data
    · simp [hop, hs]

theorem seen_handle_v6 (hash : String → String) (answers : LegacySession → Line → List String)
    (w : Installations.World) (s : Session) (l : Line) (moment : Moment) :
    ∃ identity, (Proto.v6 s).seen.handle l identity =
      (((Proto.v6 s).handle hash answers w l moment).2.1.seen,
        ((Proto.v6 s).handle hash answers w l moment).2.2.close) := by
  unfold Proto.handle
  dsimp only
  cases hreq : l.request with
  | none => exact ⟨.known, by simp [Proto.seen, Connections.Proto.handle,
      Connections.V6Session.handleFrame, hreq]⟩
  | some request =>
    obtain ⟨op, data⟩ := request
    dsimp only
    rcases handleRequest_cases hash w s op data moment with
      ⟨rfl, hs, heq⟩ | ⟨hnot, hnext, -⟩
    · rw [heq]
      rcases handleHandshake_cases hash w s data moment with
        ⟨e, herr⟩ | ⟨hello, w', s', told, issued, hread, hok, hs', hid, hno⟩
      · refine ⟨.refused, ?_⟩
        rw [herr]
        simp only [Proto.seen, Connections.Proto.handle, Connections.V6Session.handleFrame, hreq,
          hs]
        cases Installations.readHello data <;> simp [hs]
      · refine ⟨.known, ?_⟩
        rw [hok]
        simp [Proto.seen, Connections.Proto.handle, Connections.V6Session.handleFrame, hreq, hs,
          hread, hs', hid, hno]
    · refine ⟨.known, ?_⟩
      simp only [hnext, Proto.seen, Connections.Proto.handle, Connections.V6Session.handleFrame,
        hreq]
      by_cases hop : op = "handshake"
      · have hs : s.handshaked = true := hnot.resolve_left (fun hne => hne hop)
        simp [hop, hs]
      · by_cases hs : s.handshaked = true <;> simp [hop, hs]

/-- The registry's view of a session moves as the session does. -/
theorem handle_seen {p proto : Proto} {peer : String} {l : Line} (w : Installations.World)
    (moment : Moment) (hroute : p.route peer l = some proto) :
    ∃ identity, p.seen.handle l identity =
      ((proto.handle hash answers w l moment).2.1.seen,
        (proto.handle hash answers w l moment).2.2.close) := by
  cases p with
  | pending =>
    unfold Proto.route at hroute
    cases hdetect : l.detect with
    | legacy =>
      rw [hdetect] at hroute
      obtain rfl := Option.some.inj hroute
      refine ⟨.known, ?_⟩
      simp only [Proto.seen, Proto.handle, Connections.Proto.handle, hdetect]
      rfl
    | v6 =>
      rw [hdetect] at hroute
      obtain rfl := Option.some.inj hroute
      obtain ⟨identity, h⟩ := seen_handle_v6 hash answers w
        { peer, principal := none } l moment
      refine ⟨identity, ?_⟩
      rw [← h]
      simp [Proto.seen, Connections.Proto.handle, hdetect]
    | unknown =>
      rw [hdetect] at hroute
      simp at hroute
  | legacy s =>
    obtain rfl := Option.some.inj hroute
    exact ⟨.known, rfl⟩
  | v6 s =>
    obtain rfl := Option.some.inj hroute
    exact seen_handle_v6 hash answers w s l moment

end

/-! ## What is promised -/

/-- A stored token is on the queue, and a refusal has stored nothing. -/
def Attempt.Answered (queue : List Out) (a : Attempt) : Prop :=
  (∀ token, a.issued = some token → ∃ told, Out.v6 (.welcome told (some token)) ∈ queue) ∧
    (a.refused = true → a.after = a.before)

def Answered (k : Link) : Prop := ∀ a ∈ k.attempts, a.Answered k.queue

/-! ## When it holds -/

section

variable (hash : String → String) (answers : LegacySession → Line → List String)

/-- The readable row of a `client_id`. -/
def row (w : Installations.World) (clientId : String) : Option Clients.Record :=
  (w.identities.get? clientId).join

/-- The identity check lets a handshake through. -/
def proven (w : Installations.World) (hello : Installations.Hello) : Bool :=
  (row w hello.clientId).all fun record =>
    hello.token.any fun token => hash token = record.tokenHash

/-- The cap of a client has room for one more. -/
def room (ip : IpAddr) (registry : Registry.State) (clientId : String) : Bool :=
  ip.isLoopback || (registry.entry clientId).conns.card < registry.maxConnsPerClient

/-- A handshake that writes its row finds room in the registry, and a first one finds the writer. -/
def Admits (k : Link) : Event → Prop
  | .line l _ found => ∀ s data hello, k.proto.route k.peer l = some (.v6 s) →
      s.handshaked = false → l.request = some ("handshake", data) →
        Installations.readHello data = .ok hello → k.world.active = true →
          proven hash k.world hello = true →
            room k.ip found.registry hello.clientId = true ∧
              (row k.world hello.clientId = none → found.writing = true)
  | .others _ => True

end

variable {hash : String → String} {answers : LegacySession → Line → List String} {k k' : Link}

/-! ## Admissions -/

theorem turnedAway_room {reg : Connections.RegMeta} {found : Found} {id : String}
    (hid : reg.clientId = some id) (hroom : room k.ip found.registry id = true) :
    k.turnedAway reg found = false := by
  unfold Link.turnedAway
  rcases Registry.State.register_cases found.registry k.number k.ip reg.clientId
    (if reg.isMain then .subscriber else .auxiliary) found.now with
    ⟨id', hid', hloop, hcap, heq⟩ | ⟨byClient, superseded, heq, -⟩
  · rw [hid] at hid'
    obtain rfl := Option.some.inj hid'
    simp only [room, hloop, Bool.false_or, decide_eq_true_eq] at hroom
    omega
  · rw [heq]
    simp

/-- Nothing leaves the queue. -/
theorem afterAnswer_queue (k : Link) (outcome : Outcome) (found : Found) :
    k.queue ⊆ (k.afterAnswer outcome found).1.queue := by
  unfold Link.afterAnswer
  dsimp only
  split
  · exact List.subset_append_left _ _
  · exact List.Subset.refl _

theorem afterAnswer_attempts (k : Link) (outcome : Outcome) (found : Found) :
    (k.afterAnswer outcome found).1.attempts = k.attempts := rfl

/-- A connection that is not turned away has its answer sent. -/
theorem afterAnswer_admitted {outcome : Outcome} {found : Found}
    (h : ∀ reg, k.proto.regMeta = some reg → k.turnedAway reg found = false) :
    (k.afterAnswer outcome found).2 = false ∧
      (found.writing = true → outcome.replies ⊆ (k.afterAnswer outcome found).1.queue) := by
  have hrefused : ((if k.registered then none else k.proto.regMeta).any
      fun reg => k.turnedAway reg found) = false := by
    rw [Option.any_eq_false]
    intro reg hreg
    split at hreg
    · simp at hreg
    · simpa using h reg hreg
  unfold Link.afterAnswer
  dsimp only
  rw [hrefused]
  refine ⟨rfl, fun hwriting => ?_⟩
  simp [hwriting]

/-! ## Handshakes -/

/-- What an identity check that was passed leaves. -/
theorem identify_cases (hash : String → String) (w : Installations.World)
    (hello : Installations.Hello) (peer : String) (moment : Moment) :
    w.identify hash hello peer moment = (w, .known) ∨
      w.identify hash hello peer moment = (w, .refused) ∨
      (w.active = true ∧ proven hash w hello = true ∧ ∃ identities,
        w.identify hash hello peer moment = ({ w with identities }, .known) ∨
          (row w hello.clientId = none ∧ ∃ token,
            w.identify hash hello peer moment = ({ w with identities }, .issued token))) := by
  unfold Installations.World.identify
  split
  · rename_i hactive
    unfold Clients.identify
    cases hrow : (w.identities.get? hello.clientId).join with
    | none =>
      refine Or.inr (Or.inr ⟨hactive, ?_, _, Or.inr ⟨hrow, _, rfl⟩⟩)
      simp [proven, row, hrow]
    | some record =>
      dsimp only
      by_cases hmatch : (hello.token.any fun token => hash token = record.tokenHash) = true
      · rw [if_pos hmatch]
        refine Or.inr (Or.inr ⟨hactive, ?_, _, Or.inl rfl⟩)
        simpa [proven, row, hrow] using hmatch
      · rw [if_neg hmatch]
        exact Or.inr (Or.inl rfl)
  · exact Or.inl rfl

/-- A handshake stores nothing, or it passes the identity check and completes the session. -/
theorem handleHandshake_stores (hash : String → String) (w : Installations.World) (s : Session)
    (data : Value) (moment : Moment) :
    ((w.handleHandshake hash s data moment).1.identities = w.identities ∧
      ∀ told token, (w.handleHandshake hash s data moment).2.2 ≠ .welcome told (some token)) ∨
      ∃ hello w' s' told issued, Installations.readHello data = .ok hello ∧
        w.active = true ∧ proven hash w hello = true ∧
        w.handleHandshake hash s data moment = (w', some s', .welcome told issued) ∧
        (Proto.v6 s').regMeta =
          some { clientId := some hello.clientId, isMain := !hello.noBroadcast } ∧
        (issued.isSome = true → row w hello.clientId = none) := by
  unfold Installations.World.handleHandshake
  cases hread : Installations.readHello data with
  | error e => exact Or.inl ⟨rfl, by simp⟩
  | ok hello =>
    dsimp only
    rcases identify_cases hash w hello s.peer moment with
      heq | heq | ⟨hactive, hproven, identities, heq | ⟨hrow, token, heq⟩⟩
    · rw [heq]
      exact Or.inl ⟨rfl, by simp⟩
    · rw [heq]
      exact Or.inl ⟨rfl, by simp⟩
    · rw [heq]
      exact Or.inr ⟨hello, _, _, _, _, rfl, hactive, hproven, rfl, rfl, by simp⟩
    · rw [heq]
      exact Or.inr ⟨hello, _, _, _, _, rfl, hactive, hproven, rfl, rfl, fun _ => hrow⟩

/-! ## One step -/

theorem Answered.mono (h : Answered k) (hqueue : k.queue ⊆ k'.queue)
    (hattempts : k'.attempts = k.attempts) : Answered k' := by
  intro a ha
  rw [hattempts] at ha
  refine ⟨fun token htoken => ?_, (h a ha).2⟩
  obtain ⟨told, hmem⟩ := (h a ha).1 token htoken
  exact ⟨told, hqueue hmem⟩

theorem Answered.push {a : Attempt} (h : Answered k) (hqueue : k.queue ⊆ k'.queue)
    (hattempts : k'.attempts = k.attempts ++ [a]) (ha : a.Answered k'.queue) : Answered k' := by
  intro b hb
  rw [hattempts] at hb
  rcases List.mem_append.mp hb with hold | hnew
  · refine ⟨fun token htoken => ?_, (h b hold).2⟩
    obtain ⟨told, hmem⟩ := (h b hold).1 token htoken
    exact ⟨told, hqueue hmem⟩
  · rw [List.mem_singleton.mp hnew]
    exact ha

/-- What is remembered of a handshake whose reply is known. -/
theorem Attempt.answered_of_same {queue : List Out} {world : Identities} {reply : Reply}
    {refused : Bool} (hreply : ∀ told token, reply ≠ .welcome told (some token)) :
    Attempt.Answered queue
      { issued := [Out.v6 reply].findSome? Out.issued
        refused
        before := world
        after := world } := by
  refine ⟨fun token htoken => ?_, fun _ => rfl⟩
  cases reply with
  | welcome told issued =>
    cases issued with
    | none => simp [Out.issued] at htoken
    | some token => exact absurd rfl (hreply told token)
  | _ => simp [Out.issued] at htoken

/-- A handshake of a session is answered. -/
theorem attempt_answered {s : Session} {l : Line} {data : Value} {moment : Moment} {found : Found}
    {world : Installations.World} {next : Proto} {outcome : Outcome} {refused : Bool}
    (ho : Admits hash k (.line l moment found)) (hroute : k.proto.route k.peer l = some (.v6 s))
    (hreq : l.request = some ("handshake", data))
    (hh : (Proto.v6 s).handle hash answers k.world l moment = (world, next, outcome))
    (ha : { k with world, proto := next }.afterAnswer outcome found = (k', refused)) :
    Attempt.Answered k'.queue
      { issued := outcome.replies.findSome? Out.issued
        refused := refused || outcome.replies.any Out.isError
        before := k.world.identities
        after := world.identities } := by
  unfold Proto.handle at hh
  simp only [hreq] at hh
  obtain ⟨rfl, hrest⟩ := Prod.mk.inj hh
  obtain ⟨rfl, rfl⟩ := Prod.mk.inj hrest
  rcases handleRequest_cases hash k.world s "handshake" data moment with
    ⟨-, hs, heq⟩ | ⟨-, -, hsame, hreply⟩
  · rw [heq] at ha ⊢
    rcases handleHandshake_stores hash k.world s data moment with
      ⟨hsame, hreply⟩ | ⟨hello, w', s', told, issued, hread, hactive, hproven, hok, hreg, hrow⟩
    · rw [hsame]
      exact Attempt.answered_of_same hreply
    · obtain ⟨hroom, hwriting⟩ := ho s data hello hroute hs hreq hread hactive hproven
      rw [hok] at ha ⊢
      have hadmitted : ∀ reg, (Proto.v6 s').regMeta = some reg →
          ({ k with world := w', proto := .v6 s' } : Link).turnedAway reg found = false := by
        intro reg hreg'
        rw [hreg] at hreg'
        obtain rfl := Option.some.inj hreg'
        exact turnedAway_room rfl hroom
      obtain ⟨hkept, hsent⟩ :=
        afterAnswer_admitted (k := { k with world := w', proto := .v6 s' }) hadmitted
      dsimp only [Option.getD_some, Option.isNone_some] at ha
      rw [ha] at hkept hsent
      obtain rfl : refused = false := hkept
      refine ⟨fun token htoken => ?_, fun hrefused => by simp [Out.isError] at hrefused⟩
      obtain rfl : issued = some token := by simpa [Out.issued] using htoken
      exact ⟨told, hsent (hwriting (hrow rfl)) (List.mem_singleton.mpr rfl)⟩
  · rw [hsame]
    exact Attempt.answered_of_same fun told token => hreply told (some token)

theorem drain_answered {l : Line} {moment : Moment} {found : Found} (h : Answered k)
    (ho : Admits hash k (.line l moment found)) :
    Answered (k.drain hash answers l moment found) := by
  unfold Link.drain
  cases hroute : k.proto.route k.peer l with
  | none => exact h
  | some proto =>
    dsimp only
    rcases hh : proto.handle hash answers k.world l moment with ⟨world, next, outcome⟩
    dsimp only
    rcases ha : ({ k with world, proto := next } : Link).afterAnswer outcome found with
      ⟨k', refused⟩
    have hqueue : k.queue ⊆ k'.queue := by
      have hsub := afterAnswer_queue { k with world, proto := next } outcome found
      rwa [ha] at hsub
    have hattempts : k'.attempts = k.attempts := by
      have heq := afterAnswer_attempts { k with world, proto := next } outcome found
      rwa [ha] at heq
    dsimp only
    cases proto with
    | pending => exact h.mono hqueue hattempts
    | legacy s => exact h.mono hqueue hattempts
    | v6 s =>
      dsimp only
      split
      · rename_i hgreets
        obtain ⟨⟨op, data⟩, hreq, hop⟩ := (Option.any_eq_true _ _).mp hgreets
        obtain rfl : op = "handshake" := of_decide_eq_true hop
        have hanswered := attempt_answered ho hroute hreq hh ha
        exact h.push hqueue rfl hanswered
      · exact h.mono hqueue hattempts

theorem step_answered {event : Event} (h : Answered k) (ho : Admits hash k event)
    (hstep : step hash answers k event = some k') : Answered k' := by
  cases event with
  | line l moment found =>
    simp only [step] at hstep
    split at hstep
    · simp at hstep
    · obtain rfl := Option.some.inj hstep
      exact drain_answered h ho
  | others world =>
    obtain rfl := Option.some.inj hstep
    exact h

/-! ## Whole runs -/

/-- **Every token that is stored is on the queue.**  And what is refused has stored nothing. -/
theorem handshakes_answered {k₀ : Link} {events : List Event}
    (hstart : (system hash answers).start k₀)
    (ho : (system hash answers).Along (Admits hash) k₀ events)
    (hrun : (system hash answers).exec k₀ events = some k) : Answered k := by
  have hfresh : Answered k₀ := by
    obtain ⟨number, ip, peer, world, rfl⟩ := hstart
    intro a ha
    simp at ha
  exact (system hash answers).exec_induction
    (fun _ _ _ hk hadmits hstep => step_answered hk hadmits hstep) hfresh ho hrun

/-! ## Runs -/

/-- A phone, 192.168.1.20. -/
def phone : IpAddr := .v4 0xC0A80114

def accepted : Link where
  number := 7
  ip := phone
  peer := "192.168.1.20"
  world := Installations.World.initial true Table.empty Table.empty

/-- The registry when it holds these V4 connections of the phone, of three it may have. -/
def holding (numbers : List Nat) : Found where
  registry := numbers.foldl
    (fun r n => (r.register n phone (some "phone") .auxiliary 0).2.1) (Registry.State.new 3 40)
  now := 0
  writing := true

/-- The V6 request of a phone. -/
def handshake (token : Option String) : Line where
  lenient := some (.object [("id", .int 0), ("kind", .string "request"),
    ("op", .string "handshake"), ("data", Installations.hello "phone" token)])
  request := some ("handshake", Installations.hello "phone" token)

/-- A step at which the client has room, and the writer is there. -/
def admits (k : Link) : Event → Bool
  | .line l _ found =>
    match l.request with
    | some (_, data) =>
      match Installations.readHello data with
      | .ok hello => room k.ip found.registry hello.clientId && found.writing
      | .error _ => true
    | none => true
  | .others _ => true

theorem admits_of_check (k : Link) (event : Event) (h : admits k event = true) :
    Admits Installations.sha1 k event := by
  cases event with
  | line l moment found =>
    intro s data hello _ _ hreq hread _ _
    simp only [admits, hreq, hread, Bool.and_eq_true] at h
    exact ⟨h.1, fun _ => h.2⟩
  | others world => trivial

/-- A phone with a V4 connection greets twice. -/
def greetsTwice : List Event :=
  [.line (handshake none) (Installations.stamp 0 Installations.phoneToken) (holding [1]),
    .line (handshake (some Installations.phoneToken)) (Installations.stamp 1 "") (holding [1, 7])]

theorem handshakes_answered_greetsTwice :
    ∃ k, (system Installations.sha1 fun _ _ => []).exec accepted greetsTwice = some k ∧
      k.attempts.map Attempt.issued = [some Installations.phoneToken, none] ∧ Answered k := by
  have hrun : ((system Installations.sha1 fun _ _ => []).exec accepted greetsTwice).any (fun k =>
        k.attempts.map Attempt.issued = [some Installations.phoneToken, none]) = true := by
    decide +kernel
  have hcheck : (system Installations.sha1 fun _ _ => []).checked admits
      accepted greetsTwice = true := by decide +kernel
  obtain ⟨k, hexec, hissued⟩ := (Option.any_eq_true _ _).mp hrun
  exact ⟨k, hexec, of_decide_eq_true hissued,
    handshakes_answered ⟨_, _, _, _, rfl⟩
      ((system Installations.sha1 fun _ _ => []).along_of_checked admits_of_check hcheck) hexec⟩

/-! ## A first handshake without room -/

/-- Three V4 connections have the places of the client, and it greets. -/
def greetsLate : List Event :=
  [.line (handshake none) (Installations.stamp 0 Installations.phoneToken) (holding [1, 2, 3])]

/-- The row of the client is there, and its token was never sent. -/
theorem token_lost :
    ¬ ∀ (hash : String → String) (answers : LegacySession → Line → List String)
      (k₀ k : Link) (events : List Event), (system hash answers).start k₀ →
        (system hash answers).exec k₀ events = some k → Answered k := by
  intro hall
  have hrun : ((system Installations.sha1 fun _ _ => []).exec accepted greetsLate).any (fun k =>
        k.attempts.any (fun a => a.issued = some Installations.phoneToken && a.refused &&
            (a.after.get? "phone").join.isSome) &&
          k.queue.all (fun out => out.issued.isNone) && k.closed) = true := by
    decide +kernel
  obtain ⟨k, hexec, hfacts⟩ := (Option.any_eq_true _ _).mp hrun
  simp only [Bool.and_eq_true, List.any_eq_true, List.all_eq_true, decide_eq_true_eq] at hfacts
  obtain ⟨⟨⟨a, ha, ⟨hissued, -⟩, -⟩, hqueue⟩, -⟩ := hfacts
  obtain ⟨told, hmem⟩ := (hall Installations.sha1 (fun _ _ => []) _ k greetsLate
    ⟨_, _, _, _, rfl⟩ hexec a ha).1 _ hissued
  exact absurd (hqueue _ hmem) (by simp [Out.issued])

end Mbrc.Admission
