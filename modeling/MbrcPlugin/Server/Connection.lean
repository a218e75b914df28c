import MbrcPlugin.Lib.Transition
import MbrcPlugin.Server.SessionV6

/-!
# One V6 connection over TCP

Three tasks share a connection: its read loop (`run`), the task that drains the outbound
channel to the socket (`writer_loop`), and, for a connection that takes events, the permission
watch.  They meet in the channel: the read loop, the broadcaster and the watch hold senders,
the writer holds the receiver.  Each step of the model is one step of one of them, or of the
environment: bytes from the peer, a broadcast, a change of Party Mode.

The channel is tokio's: a receiver's `recv` ends once every sender is dropped, a send fails and
a sender's `closed` resolves once the receiver is gone.
-/

namespace Mbrc.Server

/-- What one read leaves to do: the whole lines not handled yet, and whether the bytes after
them overflow the buffer. -/
structure Chunk where
  lines : List Request
  overflowed : Bool

/-- Where the read loop stands. -/
inductive Doing (P E : Type) where
  /-- In the select of `run`. -/
  | reading
  /-- At the head of the loop of `drain_frames`. -/
  | draining (chunk : Chunk)
  /-- A line was handled; admission comes next. -/
  | admitting (outcome : Outcome P E) (chunk : Chunk)
  /-- Admitted and subscribed; the watch is started next. -/
  | watching (outcome : Outcome P E) (chunk : Chunk)
  /-- Refused by the registry. -/
  | refusing
  /-- Queueing the replies. -/
  | replying (replies : List (Frame P E)) (close : Bool) (chunk : Chunk)
  /-- The loop is left: out of the broadcaster and the registry. -/
  | unregistering
  /-- `drop(conn)`. -/
  | dropping
  /-- `writer_task.await`. -/
  | awaiting
  /-- `run` has returned; the guard of the slot is dropped next. -/
  | returned
  | over

/-- The read loop has ended. -/
def Doing.hasEnded {P E : Type} : Doing P E → Bool
  | .unregistering | .dropping | .awaiting | .returned | .over => true
  | _ => false

/-- A connection: its three tasks, the channel between them, and what of Party Mode reaches
it. -/
structure Conn (P E : Type) where
  doing : Doing P E
  /-- The first line was routed to V6. -/
  routed : Bool
  session : V6Session P
  /-- Admission was decided. -/
  registered : Bool
  /-- The registry admitted it. -/
  admitted : Bool
  /-- The V6 broadcaster holds its sender. -/
  subscribed : Bool
  /-- `run` holds its sender. -/
  held : Bool
  /-- Frames sent and not written yet. -/
  queue : List (Frame P E)
  /-- The writer task has not ended. -/
  writing : Bool
  /-- What the peer was written. -/
  written : List (Frame P E)
  watch : Watch P
  /-- What Party Mode lets this client do. -/
  permissions : P
  /-- The counter every change of Party Mode bumps. -/
  changes : Nat
  /-- Its per-IP slot is taken. -/
  slot : Bool

namespace Conn

variable {P E : Type}

/-- An accepted socket: slot reserved, writer spawned, nothing read. -/
def opened (permissions : P) (changes : Nat) : Conn P E where
  doing := .reading
  routed := false
  session := V6Session.initial
  registered := false
  admitted := false
  subscribed := false
  held := true
  queue := []
  writing := true
  written := []
  watch := .notStarted
  permissions := permissions
  changes := changes
  slot := true

/-- The frame goes on the channel, or is lost with its receiver. -/
def send (c : Conn P E) (f : Frame P E) : Conn P E :=
  { c with queue := if c.writing then c.queue ++ [f] else c.queue }

/-- Some sender of the channel is left. -/
def hasSender (c : Conn P E) : Bool := c.held || c.subscribed || c.watch.isRunning

/-! ## The steps of the three tasks -/

/-- One step of `run`, `admits` being the registry's answer where it is asked. -/
def run (c : Conn P E) (admits : Bool) : Option (Conn P E) :=
  match c.doing with
  | .reading => none
  | .draining { lines := [], overflowed } =>
    some { c with doing := if overflowed then .unregistering else .reading }
  | .draining { lines := r :: lines, overflowed } =>
    if !c.routed && r = .unroutable then some { c with doing := .unregistering }
    else
      let (session, outcome) := c.session.handleFrame c.permissions r
      some { c with routed := true, session, doing := .admitting outcome ⟨lines, overflowed⟩ }
  | .admitting outcome chunk =>
    if !c.registered && c.session.handshaked then
      if !admits then some { c with registered := true, doing := .refusing }
      else if c.session.isMain then
        some { c with
          registered := true, admitted := true, subscribed := true,
          doing := .watching outcome chunk }
      else
        some { c with
          registered := true, admitted := true,
          doing := .replying outcome.replies outcome.close chunk }
    else some { c with doing := .replying outcome.replies outcome.close chunk }
  | .watching outcome chunk =>
    some { c with
      watch := match c.session.told with
        | some told => .checking told c.changes
        | none => c.watch
      doing := .replying outcome.replies outcome.close chunk }
  | .refusing => some { c.send .refusal with doing := .unregistering }
  | .replying (f :: replies) close chunk =>
    if c.writing then some { c.send f with doing := .replying replies close chunk }
    else some { c with doing := .unregistering }
  | .replying [] close chunk =>
    some { c with doing := if close then .unregistering else .draining chunk }
  | .unregistering => some { c with subscribed := false, doing := .dropping }
  | .dropping => some { c with held := false, doing := .awaiting }
  | .awaiting => if c.writing then none else some { c with doing := .returned }
  | .returned => some { c with slot := false, doing := .over }
  | .over => none

/-- One step of the writer, `ok` being how a write goes: the next frame is written, or the
task ends because a write failed or because no sender is left. -/
def write (c : Conn P E) (ok : Bool) : Option (Conn P E) :=
  if !c.writing then none
  else match c.queue with
    | f :: queue =>
      if ok then some { c with queue, written := c.written ++ [f] }
      else some { c with queue := [], writing := false }
    | [] => if c.hasSender then none else some { c with writing := false }

variable [DecidableEq P]

/-- One step of the watch, what it tells going on the channel. -/
def watchStep (c : Conn P E) (closes : Bool) : Option (Conn P E) :=
  (c.watch.step c.permissions c.changes c.writing closes).map fun (watch, told) =>
    { c with watch, queue := c.queue ++ told.map .permissionsChanged }

/-- What happens next. -/
inductive Event (P E : Type) where
  /-- The peer's bytes arrive. -/
  | input (chunk : Chunk)
  /-- The peer closes, a read fails, a newer connection supersedes this one, or a tick retires
  it. -/
  | hangUp
  | run (admits : Bool)
  | write (ok : Bool)
  | watch (closes : Bool)
  | broadcast (frames : List E)
  /-- Party Mode changes, for this client or for another. -/
  | change (permissions : P)

/-- One event of the connection. -/
def step (c : Conn P E) : Event P E → Option (Conn P E)
  | .input chunk => match c.doing with
    | .reading => some { c with doing := .draining chunk }
    | _ => none
  | .hangUp => match c.doing with
    | .reading => some { c with doing := .unregistering }
    | _ => none
  | .run admits => c.run admits
  | .write ok => c.write ok
  | .watch closes => c.watchStep closes
  | .broadcast frames =>
    if !c.subscribed then some c
    else if c.writing then some { c with queue := c.queue ++ frames.map .event }
    -- a closed channel is pruned at the first frame
    else some { c with subscribed := frames.isEmpty }
  | .change permissions => some { c with permissions, changes := c.changes + 1 }

/-- A connection from the moment its socket is accepted. -/
def system (P E : Type) [DecidableEq P] : Transition.System (Conn P E) (Event P E) where
  start c := ∃ permissions changes, c = opened permissions changes
  next := step

/-! ## What the three tasks can do -/

/-- What one step of `run` leads to, by where it stands. -/
inductive RunStep (c : Conn P E) : Conn P E → Prop where
  | drained (overflowed : Bool) (h : c.doing = .draining ⟨[], overflowed⟩) :
    RunStep c { c with doing := if overflowed then .unregistering else .reading }
  | unroutable (chunk : Chunk) (h : c.doing = .draining chunk) :
    RunStep c { c with doing := .unregistering }
  | handled (r : Request) (lines : List Request) (overflowed : Bool)
      (h : c.doing = .draining ⟨r :: lines, overflowed⟩) :
    RunStep c { c with
      routed := true
      session := (c.session.handleFrame c.permissions r : _ × Outcome P E).1
      doing := .admitting (c.session.handleFrame c.permissions r).2 ⟨lines, overflowed⟩ }
  | refused (outcome : Outcome P E) (chunk : Chunk) (h : c.doing = .admitting outcome chunk)
      (hr : c.registered = false) (hh : c.session.handshaked = true) :
    RunStep c { c with registered := true, doing := .refusing }
  | subscribed (outcome : Outcome P E) (chunk : Chunk) (h : c.doing = .admitting outcome chunk)
      (hr : c.registered = false) (hm : c.session.isMain = true) :
    RunStep c { c with
      registered := true, admitted := true, subscribed := true, doing := .watching outcome chunk }
  | auxiliary (outcome : Outcome P E) (chunk : Chunk) (h : c.doing = .admitting outcome chunk)
      (hr : c.registered = false) (hh : c.session.handshaked = true)
      (hm : c.session.isMain = false) :
    RunStep c { c with
      registered := true, admitted := true,
      doing := .replying outcome.replies outcome.close chunk }
  | known (outcome : Outcome P E) (chunk : Chunk) (h : c.doing = .admitting outcome chunk)
      (hr : c.registered = true ∨ c.session.handshaked = false) :
    RunStep c { c with doing := .replying outcome.replies outcome.close chunk }
  | watched (outcome : Outcome P E) (chunk : Chunk) (h : c.doing = .watching outcome chunk) :
    RunStep c { c with
      watch := match c.session.told with
        | some told => .checking told c.changes
        | none => c.watch
      doing := .replying outcome.replies outcome.close chunk }
  | refuse (h : c.doing = .refusing) :
    RunStep c { c.send .refusal with doing := .unregistering }
  | queued (f : Frame P E) (replies : List (Frame P E)) (close : Bool) (chunk : Chunk)
      (h : c.doing = .replying (f :: replies) close chunk) (hw : c.writing = true) :
    RunStep c { c with queue := c.queue ++ [f], doing := .replying replies close chunk }
  | lost (f : Frame P E) (replies : List (Frame P E)) (close : Bool) (chunk : Chunk)
      (h : c.doing = .replying (f :: replies) close chunk) (hw : c.writing = false) :
    RunStep c { c with doing := .unregistering }
  | replied (close : Bool) (chunk : Chunk) (h : c.doing = .replying [] close chunk) :
    RunStep c { c with doing := if close then .unregistering else .draining chunk }
  | unregister (h : c.doing = .unregistering) :
    RunStep c { c with subscribed := false, doing := .dropping }
  | drop (h : c.doing = .dropping) : RunStep c { c with held := false, doing := .awaiting }
  | await (h : c.doing = .awaiting) (hw : c.writing = false) :
    RunStep c { c with doing := .returned }
  | release (h : c.doing = .returned) : RunStep c { c with slot := false, doing := .over }

omit [DecidableEq P] in
/-- **Every step of `run`.** -/
theorem run_cases {c c' : Conn P E} {admits : Bool} (hs : c.run admits = some c') :
    RunStep c c' := by
  unfold run at hs
  split at hs
  case h_1 | h_13 => simp at hs
  case h_2 overflowed h =>
    obtain rfl := Option.some.inj hs
    exact .drained overflowed h
  case h_3 r lines overflowed h =>
    split at hs
    · obtain rfl := Option.some.inj hs
      exact .unroutable _ h
    · obtain rfl := Option.some.inj hs
      exact .handled r lines overflowed h
  case h_4 outcome chunk h =>
    split at hs
    · rename_i hreg
      obtain ⟨hr, hh⟩ : c.registered = false ∧ c.session.handshaked = true := by
        simpa using hreg
      split at hs
      · obtain rfl := Option.some.inj hs
        exact .refused outcome chunk h hr hh
      · split at hs
        · rename_i hm
          obtain rfl := Option.some.inj hs
          exact .subscribed outcome chunk h hr hm
        · rename_i hm
          obtain rfl := Option.some.inj hs
          exact .auxiliary outcome chunk h hr hh (by simpa using hm)
    · rename_i hreg
      obtain rfl := Option.some.inj hs
      refine .known outcome chunk h ?_
      by_cases hr : c.registered = true
      · exact Or.inl hr
      · exact Or.inr (by simpa [hr] using hreg)
  case h_5 outcome chunk h =>
    obtain rfl := Option.some.inj hs
    exact .watched outcome chunk h
  case h_6 h =>
    obtain rfl := Option.some.inj hs
    exact .refuse h
  case h_7 f replies close chunk h =>
    split at hs
    · rename_i hw
      obtain rfl := Option.some.inj hs
      simpa [send, hw] using RunStep.queued f replies close chunk h hw
    · rename_i hw
      obtain rfl := Option.some.inj hs
      exact .lost f replies close chunk h (by simpa using hw)
  case h_8 close chunk h =>
    obtain rfl := Option.some.inj hs
    exact .replied close chunk h
  case h_9 h =>
    obtain rfl := Option.some.inj hs
    exact .unregister h
  case h_10 h =>
    obtain rfl := Option.some.inj hs
    exact .drop h
  case h_11 h =>
    split at hs
    · simp at hs
    · rename_i hw
      obtain rfl := Option.some.inj hs
      exact .await h (by simpa using hw)
  case h_12 h =>
    obtain rfl := Option.some.inj hs
    exact .release h

omit [DecidableEq P] in
/-- The writer writes the next frame, or ends: a write failed, or no sender is left. -/
theorem write_cases {c c' : Conn P E} {ok : Bool} (hs : c.write ok = some c') :
    c.writing = true ∧
    ((∃ f queue, c.queue = f :: queue ∧
        c' = { c with queue, written := c.written ++ [f] }) ∨
      (c' = { c with queue := [], writing := false } ∧
        (c.queue ≠ [] ∧ ok = false ∨ c.queue = [] ∧ c.hasSender = false))) := by
  unfold write at hs
  by_cases hw : c.writing = true
  · refine ⟨hw, ?_⟩
    rw [if_neg (by simp [hw])] at hs
    cases hq : c.queue with
    | nil =>
      simp only [hq] at hs
      by_cases hsend : c.hasSender = true
      · simp [hsend] at hs
      · rw [if_neg hsend] at hs
        obtain rfl := Option.some.inj hs
        exact Or.inr ⟨by rw [← hq], Or.inr ⟨rfl, by simpa using hsend⟩⟩
    | cons f queue =>
      simp only [hq] at hs
      cases ok with
      | true => exact Or.inl ⟨f, queue, rfl, (Option.some.inj hs).symm⟩
      | false => exact Or.inr ⟨(Option.some.inj hs).symm, Or.inl ⟨by simp, rfl⟩⟩
  · simp [hw] at hs

/-- The watch finds what it told, tells what it finds, ends with the channel, or wakes. -/
theorem watchStep_cases {c c' : Conn P E} {closes : Bool} (hs : c.watchStep closes = some c') :
    (∃ told seen, c.watch = .checking told seen ∧ c.permissions = told ∧
      c' = { c with watch := .waiting told seen }) ∨
    (∃ told seen, c.watch = .checking told seen ∧ c.permissions ≠ told ∧ c.writing = true ∧
      c' = { c with queue := c.queue ++ [.permissionsChanged c.permissions],
                    watch := .waiting c.permissions seen }) ∨
    (c.watch.isRunning = true ∧ c.writing = false ∧ c' = { c with watch := .ended }) ∨
    (∃ told seen, c.watch = .waiting told seen ∧ seen ≠ c.changes ∧
      c' = { c with watch := .checking told c.changes }) := by
  obtain ⟨⟨watch, told⟩, hw, rfl⟩ := Option.map_eq_some_iff.mp hs
  rcases Watch.step_cases hw with ⟨t, seen, h, hsame, heq⟩ | ⟨t, seen, h, hne, hopen, heq⟩ |
    ⟨h, hopen, heq⟩ | ⟨t, seen, h, hseen, heq⟩ <;> obtain ⟨rfl, rfl⟩ := Prod.mk.inj heq
  · exact Or.inl ⟨t, seen, h, hsame, by simp⟩
  · exact Or.inr (Or.inl ⟨t, seen, h, hne, hopen, rfl⟩)
  · exact Or.inr (Or.inr (Or.inl ⟨h, hopen, by simp⟩))
  · exact Or.inr (Or.inr (Or.inr ⟨t, seen, h, hseen, by simp⟩))

end Conn

end Mbrc.Server
