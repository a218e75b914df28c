import MbrcPlugin.Server.Delivery
import MbrcPlugin.Server.WebSocketFrames

/-!
# The handshake and the events after it

Both transports together.  Every broadcast that starts while a client's second line is being
handled or later reaches it, over both; the reply to the handshake is the first frame over a
WebSocket in every run, and over TCP in the runs in which nothing is pushed between the
registration and the queueing of that reply.
-/

namespace Mbrc.Server

open Transition

/-! ## What is sent is written -/

namespace Conn

variable {P E : Type} [DecidableEq P]

/-- A writer whose writes succeed writes what the channel holds, in its order. -/
theorem writes_queue {c : Conn P E} (hw : c.writing = true) :
    (system P E).exec c (List.replicate c.queue.length (.write true)) =
      some { c with queue := [], written := c.sent } := by
  obtain ⟨q, hq⟩ : ∃ q, c.queue = q := ⟨_, rfl⟩
  induction q generalizing c with
  | nil =>
    cases c
    simp_all [sent]
  | cons f q ih =>
    have hstep : (system P E).next c (.write true) =
        some { c with queue := q, written := c.written ++ [f] } := by
      simp [system, step, write, hw, hq]
    rw [hq, List.length_cons, List.replicate_succ, System.exec_cons, hstep, Option.bind_some]
    have := ih (c := { c with queue := q, written := c.written ++ [f] }) hw rfl
    simpa [sent, hq] using this

/-- The client is watched, and a watch with nothing left to look at has told it the permissions
it has. -/
def Informed (c : Conn P E) : Prop :=
  (c.watch.isRunning = true ∨ c.AboutToWatch) ∧
    ∀ told, c.watch = .waiting told c.changes → c.lastTold = some c.permissions

omit [DecidableEq P] in
theorem Subscribes.informed {c : Conn P E} (h : Subscribes c) (ht : c.TakesEvents) :
    Informed c := by
  refine ⟨h.watched ht, fun told hw => ?_⟩
  rw [h.last ht.2.2.2 told c.changes (Or.inr hw), h.settled told c.changes hw rfl]

end Conn

namespace Ws

variable {P E : Type} [DecidableEq P]

/-- A socket whose writes succeed is written what the channel holds, in its order. -/
theorem writes_queue {w : Ws P E} (hd : w.doing = .selecting) (hf : w.failed = false) :
    (system P E).exec w (List.replicate w.queue.length (.outbound true)) =
      some { w with queue := [], written := w.sent } := by
  obtain ⟨q, hq⟩ : ∃ q, w.queue = q := ⟨_, rfl⟩
  induction q generalizing w with
  | nil =>
    cases w
    simp_all [sent]
  | cons f q ih =>
    have hstep : (system P E).next w (.outbound true) =
        some { w with queue := q, written := w.written ++ [f] } := by
      simp [system, step, outbound, hd, hf, hq]
    rw [hq, List.length_cons, List.replicate_succ, System.exec_cons, hstep, Option.bind_some]
    have := ih (w := { w with queue := q, written := w.written ++ [f] }) hd hf rfl
    simpa [sent, hq] using this

/-- The client is watched, and a watch with nothing left to look at has told it the permissions
it has. -/
def Informed (w : Ws P E) : Prop :=
  w.watch.isRunning = true ∧
    ∀ told, w.watch = .waiting told w.changes → w.lastTold = some w.permissions

omit [DecidableEq P] in
theorem Serves.informed {w : Ws P E} (h : Serves w) (h2 : 2 ≤ w.session.framesIn)
    (hmain : w.session.isMain = true) (ho : w.doing ≠ .over) (hf : w.failed = false) :
    Informed w := by
  refine ⟨?_, fun told hw => ?_⟩
  · refine (h.watched (h.subscribed hmain (Or.inl h2) ho) ho).resolve_right fun hab => ?_
    have := (h.about hab).1
    omega
  · rw [h.last hf ho told w.changes (Or.inr hw), h.settled told w.changes hw rfl]

/-- A main past its second message stays one. -/
theorem exec_main {w w' : Ws P E} {events : List (Event P E)} (h : Serves w)
    (h2 : 2 ≤ w.session.framesIn) (hmain : w.session.isMain = true)
    (hexec : (system P E).exec w events = some w') (ho : w'.doing ≠ .over)
    (hf : w'.failed = false) : 2 ≤ w'.session.framesIn ∧ w'.session.isMain = true := by
  induction events generalizing w with
  | nil =>
    obtain rfl : w = w' := by simpa using hexec
    exact ⟨h2, hmain⟩
  | cons event events ih =>
    rw [System.exec_cons] at hexec
    cases hn : (system P E).next w event with
    | none => simp [hn] at hexec
    | some d =>
      rw [hn] at hexec
      have hserves := step_serves w event d h hn
      obtain ⟨ho', hf'⟩ := exec_live hserves hexec ho hf
      obtain ⟨h2', hmain', -⟩ := (step_delivers h hn ho' hf').2.2 h2 hmain
      exact ih hserves h2' hmain' hexec

end Ws

namespace Conn

variable {P E : Type} [DecidableEq P]

/-- An admitted main stays one. -/
theorem exec_main {c c' : Conn P E} {events : List (Event P E)} (h : Subscribes c)
    (hadm : c.admitted = true) (hmain : c.session.isMain = true)
    (hexec : (system P E).exec c events = some c') (hended : c'.doing.hasEnded = false)
    (hw : c'.writing = true) : c'.admitted = true ∧ c'.session.isMain = true := by
  induction events generalizing c with
  | nil =>
    obtain rfl : c = c' := by simpa using hexec
    exact ⟨hadm, hmain⟩
  | cons event events ih =>
    rw [System.exec_cons] at hexec
    cases hn : (system P E).next c event with
    | none => simp [hn] at hexec
    | some d =>
      rw [hn] at hexec
      have hsub := step_subscribes c event d h hn
      obtain ⟨hended', hw'⟩ := exec_live hsub hexec hended hw
      obtain ⟨hadm', hmain', -⟩ := (step_delivers h hn hended' hw').2.2 hadm hmain
      exact ih hsub hadm' hmain' hexec

end Conn

/-! ## Both transports -/

/-- **The handshake reply comes first and no event is missed after it.** Over TCP the first half
asks that nothing is pushed ahead of the reply; the second half holds from the admission on, so
from the next line on as well, and what is sent is written, in its order, as far as the writer
gets. -/
theorem reply_first_then_every_event (P E : Type) [DecidableEq P] :
    (∀ (permissions : P) (changes : Nat) (events : List (Conn.Event P E)) (c : Conn P E),
      (Conn.system P E).Along Conn.Quiet (Conn.opened permissions changes) events →
      (Conn.system P E).exec (Conn.opened permissions changes) events = some c →
      c.admitted = true → FirstIsReply c.written) ∧
    (∀ (c : Conn P E) (events : List (Conn.Event P E)) (c' : Conn P E),
      (Conn.system P E).Reachable c → c.admitted = true → c.session.isMain = true →
      (Conn.system P E).exec c events = some c' →
      c'.doing.hasEnded = false → c'.writing = true →
      eventsOf c'.sent = eventsOf c.sent ++ events.flatMap Conn.Event.broadcasts ∧
      c'.Informed ∧
      (Conn.system P E).exec c' (List.replicate c'.queue.length (.write true)) =
        some { c' with queue := [], written := c'.sent }) ∧
    (∀ w : Ws P E, (Ws.system P E).Reachable w → FirstIsReply w.written) ∧
    (∀ (w : Ws P E) (events : List (Ws.Event P E)) (w' : Ws P E),
      (Ws.system P E).Reachable w → 2 ≤ w.session.framesIn → w.session.isMain = true →
      (Ws.system P E).exec w events = some w' → w'.doing ≠ .over → w'.failed = false →
      eventsOf w'.sent = eventsOf w.sent ++ events.flatMap Ws.Event.broadcasts ∧
      w'.Informed ∧
      (w'.doing = .selecting →
        (Ws.system P E).exec w' (List.replicate w'.queue.length (.outbound true)) =
          some { w' with queue := [], written := w'.sent })) := by
  refine ⟨fun _ _ _ _ => Conn.firstIsReply_of_quiet, fun c events c' hr ha hm hexec he hw => ?_,
    fun w hr => (Ws.reachable_serves hr).first, fun w events w' hr h2 hm hexec ho hf => ?_⟩
  · have h := Conn.reachable_subscribes hr
    obtain ⟨ha', hm'⟩ := Conn.exec_main h ha hm hexec he hw
    have h' := (Conn.system P E).exec_induction
      (fun c event c' h _ hs => Conn.step_subscribes c event c' h hs) h
      ((Conn.system P E).along_true c events) hexec
    exact ⟨Conn.run_delivers_all h ha hm hexec he hw, h'.informed ⟨ha', hm', he, hw⟩,
      Conn.writes_queue hw⟩
  · have h := Ws.reachable_serves hr
    obtain ⟨h2', hm'⟩ := Ws.exec_main h h2 hm hexec ho hf
    have h' := (Ws.system P E).exec_induction
      (fun w event w' h _ hs => Ws.step_serves w event w' h hs) h
      ((Ws.system P E).along_true w events) hexec
    exact ⟨Ws.run_delivers_all h h2 hm hexec ho hf, h'.informed h2' hm' ho hf,
      fun hd => Ws.writes_queue hd hf⟩

/-- A broadcast between the registration and the queueing of the reply is written first. -/
theorem event_before_reply : ¬ ∀ c : Conn Nat Nat, (Conn.system Nat Nat).Reachable c →
    c.admitted = true → FirstIsReply c.written := by
  intro hall
  obtain ⟨c, hc, hadm, hw⟩ : ∃ c, (Conn.system Nat Nat).exec (Conn.opened 0 0)
      [.input ⟨[.handshake true false], false⟩, .run true, .run true, .broadcast [7], .run true,
        .run true, .write true] = some c ∧ c.admitted = true ∧ c.written = [.event 7] :=
    ⟨_, rfl, rfl, rfl⟩
  have := hall c ⟨_, _, ⟨0, 0, rfl⟩, hc⟩ hadm (.event 7) (by rw [hw]; rfl)
  simp at this

/-- A client over TCP and one over a WebSocket shake hands, are told of events and are written
them. -/
theorem reply_first_then_every_event_twoClients :
    (∃ c, (Conn.system Nat Nat).exec (Conn.opened 0 0)
        [.input ⟨[.handshake true false], false⟩, .run true, .run true, .run true, .run true,
          .write true] = some c ∧ FirstIsReply c.written ∧
      ∃ c', (Conn.system Nat Nat).exec c [.broadcast [7], .write true] = some c' ∧
        eventsOf c'.sent = eventsOf c.sent ++ [7]) ∧
    ∃ w, (Ws.system Nat Nat).exec (Ws.opened 0 0)
        [.inbound (.handshake true false), .run true, .run true, .run true, .run true,
          .inbound .op] = some w ∧ FirstIsReply w.written ∧
      ∃ w', (Ws.system Nat Nat).exec w [.broadcast [7], .broadcast [8]] = some w' ∧
        eventsOf w'.sent = eventsOf w.sent ++ [7, 8] := by
  obtain ⟨hfirst, hall, hfirst', hall'⟩ := reply_first_then_every_event Nat Nat
  refine ⟨?_, ?_⟩
  · obtain ⟨c, c', hc, hc', hadm, hmain, hended, hw⟩ : ∃ c c',
        (Conn.system Nat Nat).exec (Conn.opened 0 0) [.input ⟨[.handshake true false], false⟩,
          .run true, .run true, .run true, .run true, .write true] = some c ∧
        (Conn.system Nat Nat).exec c [.broadcast [7], .write true] = some c' ∧
        c.admitted = true ∧ c.session.isMain = true ∧ c'.doing.hasEnded = false ∧
        c'.writing = true := ⟨_, _, rfl, rfl, rfl, rfl, rfl, rfl⟩
    refine ⟨c, hc, hfirst 0 0 _ c ?_ hc hadm, c', hc', ?_⟩
    · simp [System.Along, Conn.Quiet]
    · exact (hall c _ c' ⟨_, _, ⟨0, 0, rfl⟩, hc⟩ hadm hmain hc' hended hw).1
  · obtain ⟨w, w', hw, hw', h2, hmain, ho, hf⟩ : ∃ w w',
        (Ws.system Nat Nat).exec (Ws.opened 0 0) [.inbound (.handshake true false), .run true,
          .run true, .run true, .run true, .inbound .op] = some w ∧
        (Ws.system Nat Nat).exec w [.broadcast [7], .broadcast [8]] = some w' ∧
        2 ≤ w.session.framesIn ∧ w.session.isMain = true ∧ w'.doing = .replying [.reply 1] false ∧
        w'.failed = false := ⟨_, _, rfl, rfl, Nat.le_refl 2, rfl, rfl, rfl⟩
    have hreach : (Ws.system Nat Nat).Reachable w := ⟨_, _, ⟨0, 0, rfl⟩, hw⟩
    exact ⟨w, hw, hfirst' w hreach, w', hw',
      (hall' w _ w' hreach h2 hmain hw' (by simp [ho]) hf).1⟩

end Mbrc.Server
