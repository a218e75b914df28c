import MbrcPlugin.Server.Connection

/-!
# The first frame over TCP

The first frame an admitted client is written is the reply to its handshake in every run in
which nothing is pushed on its channel between its registration and the queueing of that reply
(`Quiet`): the connection is registered with the broadcaster and its watch is started first.
The invariant `Greets` follows the first line from the moment it is handled to the moment its
reply is queued.
-/

namespace Mbrc.Server

namespace Conn

open Transition

variable {P E : Type}

/-- What was put on the channel and not lost with it. -/
def sent (c : Conn P E) : List (Frame P E) := c.written ++ c.queue

/-- The first line is handled and its reply not queued yet. -/
def pending (c : Conn P E) : Bool :=
  c.session.framesIn = 1 && match c.doing with
    | .admitting _ _ | .watching _ _ | .refusing | .replying (_ :: _) _ _ => true
    | _ => false

/-- The step pushes nothing ahead of the reply: while that reply is not queued, nothing is
broadcast to a connection already registered and its watch finds nothing changed. -/
def Quiet [DecidableEq P] (c : Conn P E) : Event P E → Prop
  | .broadcast frames => c.pending = true → c.subscribed = true → frames = []
  | .watch _ => c.pending = true → ∀ told seen, c.watch = .checking told seen →
      c.permissions = told
  | _ => True

/-- No line was handled yet, or the loop is left. -/
def Idle : Doing P E → Prop
  | .reading | .draining _ => True
  | d => d.hasEnded = true

/-- Where the first frame comes from. -/
structure Greets (c : Conn P E) : Prop where
  fresh : c.session.framesIn = 0 → c.sent = [] ∧ c.subscribed = false ∧
    c.watch = .notStarted ∧ Idle c.doing
  outcome : ∀ o chunk, c.doing = .admitting o chunk ∨ c.doing = .watching o chunk →
    o.replies = [.reply (c.session.framesIn - 1)]
  replies : ∀ rs close chunk, c.doing = .replying rs close chunk →
    rs = [] ∨ rs = [.reply (c.session.framesIn - 1)]
  registered : c.admitted = true → c.registered = true
  refusing : c.doing = .refusing → c.admitted = false
  kept : c.writing = true → 1 ≤ c.session.framesIn → c.pending = false → c.sent ≠ []
  ahead : c.pending = true → c.sent = []
  first : ∀ f, c.sent.head? = some f →
    f = .reply 0 ∨ (f = .refusal ∧ c.admitted = false ∧ c.doing.hasEnded = true)

theorem opened_greets (permissions : P) (changes : Nat) :
    Greets (opened permissions changes : Conn P E) := by
  constructor <;>
    simp [opened, V6Session.initial, sent, pending, Idle]

/-- A step that leaves the line in hand, the channel and the registration alone. -/
theorem Greets.congr {c c' : Conn P E} (h : Greets c) (hs : c'.session = c.session)
    (hsent : c'.sent = c.sent) (hw : c'.writing = true → c.writing = true)
    (ha : c'.admitted = c.admitted) (hr : c'.registered = c.registered)
    (hsub : c'.subscribed = true → c.subscribed = true)
    (hwatch : c.watch = .notStarted → c'.watch = .notStarted)
    (hp : c.pending = false) (hidle : Idle c'.doing)
    (hended : c.doing.hasEnded = true → c'.doing.hasEnded = true) : Greets c' := by
  have hnot : c'.pending = false := by
    unfold pending
    cases hd : c'.doing <;> simp_all [Idle, Doing.hasEnded]
  refine ⟨fun h0 => ?_, ?_, ?_, ?_, ?_, fun hw' h1 _ => ?_, by simp [hnot], fun f hf => ?_⟩
  · obtain ⟨h1, h2, h3, -⟩ := h.fresh (hs ▸ h0)
    refine ⟨hsent ▸ h1, ?_, hwatch h3, hidle⟩
    cases hsub' : c'.subscribed with
    | false => rfl
    | true => simp [hsub hsub'] at h2
  · intro o chunk hd
    rcases hd with hd | hd <;> simp [hd, Idle, Doing.hasEnded] at hidle
  · intro rs close chunk hd
    simp [hd, Idle, Doing.hasEnded] at hidle
  · rw [ha, hr]
    exact h.registered
  · intro hd
    simp [hd, Idle, Doing.hasEnded] at hidle
  · rw [hsent]
    exact h.kept (hw hw') (hs ▸ h1) hp
  · rw [hsent] at hf
    rcases h.first f hf with hf | ⟨hf, hadm, hend⟩
    · exact Or.inl hf
    · exact Or.inr ⟨hf, ha.trans hadm, hended hend⟩

/-- The step of `run` that queues a reply. -/
theorem queued_greets {c : Conn P E} (h : Greets c) {f : Frame P E} {replies : List (Frame P E)}
    {close : Bool} {chunk : Chunk} (hd : c.doing = .replying (f :: replies) close chunk)
    (hw : c.writing = true) :
    Greets { c with queue := c.queue ++ [f], doing := .replying replies close chunk } := by
  obtain ⟨rfl, rfl⟩ : f = .reply (c.session.framesIn - 1) ∧ replies = [] := by
    simpa using h.replies _ _ _ hd
  have hpos : 1 ≤ c.session.framesIn := by
    by_contra h0
    have := (h.fresh (by omega)).2.2.2
    simp [hd, Idle, Doing.hasEnded] at this
  have hsent : Conn.sent { c with
      queue := c.queue ++ [.reply (c.session.framesIn - 1)]
      doing := .replying [] close chunk } = c.sent ++ [.reply (c.session.framesIn - 1)] := by
    simp [sent]
  refine ⟨fun h0 => absurd h0 (by simp; omega), by simp, by simp, h.registered, by simp,
    fun _ _ _ => by simp [hsent], by simp [pending], fun f hf => ?_⟩
  rw [hsent] at hf
  by_cases hne : c.sent = []
  · -- only the reply to the first line can find nothing sent before it
    have hone : c.session.framesIn = 1 := by
      by_contra hmore
      exact h.kept hw hpos (by simp [pending, hmore]) hne
    left
    simpa [hne, hone, eq_comm] using hf
  · rw [List.head?_append_of_ne_nil _ hne] at hf
    rcases h.first f hf with hf | ⟨-, -, hend⟩
    · exact Or.inl hf
    · simp [hd, Doing.hasEnded] at hend

/-- The step of `run` that queues the refusal. -/
theorem refuse_greets {c : Conn P E} (h : Greets c) (hd : c.doing = .refusing) :
    Greets { c.send .refusal with doing := .unregistering } := by
  have hsent : Conn.sent { c.send .refusal with doing := .unregistering } =
      if c.writing then c.sent ++ [.refusal] else c.sent := by
    simp only [sent, send]
    split <;> simp
  have hpos : c.session.framesIn ≠ 0 := by
    intro h0
    have := (h.fresh h0).2.2.2
    simp [hd, Idle, Doing.hasEnded] at this
  refine ⟨fun h0 => absurd h0 hpos, by simp, by simp, h.registered, by simp,
    fun hw _ _ => ?_, by simp [pending], fun f hf => ?_⟩
  · rw [hsent, if_pos (show c.writing = true from hw)]
    simp
  · rw [hsent] at hf
    have hold : ∀ f, c.sent.head? = some f → f = .reply 0 := by
      intro f hf
      rcases h.first f hf with hf | ⟨-, -, hend⟩
      · exact hf
      · simp [hd, Doing.hasEnded] at hend
    split at hf
    · by_cases hne : c.sent = []
      · obtain rfl : Frame.refusal = f := by simpa [hne] using hf
        exact Or.inr ⟨rfl, h.refusing hd, rfl⟩
      · rw [List.head?_append_of_ne_nil _ hne] at hf
        exact Or.inl (hold f hf)
    · exact Or.inl (hold f hf)

/-- A step of `run` between the handling of a line and the queueing of its reply. -/
theorem midway_greets {c c' : Conn P E} (h : Greets c) {o : Outcome P E} {chunk : Chunk}
    (hd : c.doing = .admitting o chunk ∨ c.doing = .watching o chunk)
    (hs : c'.session = c.session) (hsent : c'.sent = c.sent) (hw : c'.writing = c.writing)
    (hr : c'.admitted = true → c'.registered = true)
    (hd' : (c'.doing = .refusing ∧ c'.admitted = false) ∨
      c'.doing = .watching o chunk ∨ c'.doing = .replying o.replies o.close chunk) :
    Greets c' := by
  have hrep := h.outcome o chunk hd
  have hpos : c.session.framesIn ≠ 0 := by
    intro h0
    have := (h.fresh h0).2.2.2
    rcases hd with hd | hd <;> simp [hd, Idle, Doing.hasEnded] at this
  have hpend : c'.pending = c.pending := by
    rcases hd with hd | hd <;> rcases hd' with ⟨hd', -⟩ | hd' | hd' <;>
      simp [pending, hs, hd, hd', hrep]
  have hnotEnded : c.doing.hasEnded = false := by
    rcases hd with hd | hd <;> simp [hd, Doing.hasEnded]
  refine ⟨fun h0 => absurd (hs ▸ h0) hpos, fun o' chunk' ho => ?_, fun rs close chunk' ho => ?_,
    hr, fun ho => ?_, fun hw' h1 hp => ?_, fun hp => ?_, fun f hf => ?_⟩
  · rcases hd' with ⟨hd', -⟩ | hd' | hd' <;> rcases ho with ho | ho <;>
      simp only [hd', reduceCtorEq, Doing.watching.injEq] at ho
    rw [← ho.1, hs]
    exact hrep
  · rcases hd' with ⟨hd', -⟩ | hd' | hd' <;>
      simp only [hd', reduceCtorEq, Doing.replying.injEq] at ho
    rw [← ho.1, hs]
    exact Or.inr hrep
  · rcases hd' with ⟨-, hadm⟩ | hd' | hd'
    · exact hadm
    · simp [hd'] at ho
    · simp [hd'] at ho
  · rw [hsent]
    exact h.kept (hw ▸ hw') (hs ▸ h1) (hpend ▸ hp)
  · rw [hsent]
    exact h.ahead (hpend ▸ hp)
  · rw [hsent] at hf
    rcases h.first f hf with hf | ⟨-, -, hend⟩
    · exact Or.inl hf
    · simp [hnotEnded] at hend

/-- The step of `run` that handles a line. -/
theorem handled_greets {c : Conn P E} (h : Greets c) {r : Request} {lines : List Request}
    {overflowed : Bool} (hd : c.doing = .draining ⟨r :: lines, overflowed⟩) :
    Greets { c with
      routed := true
      session := (c.session.handleFrame c.permissions r : _ × Outcome P E).1
      doing := .admitting (c.session.handleFrame c.permissions r).2 ⟨lines, overflowed⟩ } := by
  have hframes := V6Session.handleFrame_framesIn (E := E) c.session c.permissions r
  have hreplies := V6Session.handleFrame_replies (E := E) c.session c.permissions r
  have hpend : c.pending = false := by simp [pending, hd]
  refine ⟨fun h0 => by simp [hframes] at h0, fun o chunk ho => ?_, by simp, h.registered, by simp,
    fun hw _ hp => ?_, fun hp => ?_, fun f hf => ?_⟩
  · rcases ho with ho | ho <;> simp only [reduceCtorEq, Doing.admitting.injEq] at ho
    rw [← ho.1, hreplies]
    simp [hframes]
  · have hmore : 1 ≤ c.session.framesIn := by
      by_contra h0
      simp [pending, hframes] at hp
      omega
    exact h.kept hw hmore hpend
  · have h0 : c.session.framesIn = 0 := by
      simp [pending, hframes] at hp
      omega
    exact (h.fresh h0).1
  · rcases h.first f hf with hf | ⟨-, -, hend⟩
    · exact Or.inl hf
    · simp [hd, Doing.hasEnded] at hend

theorem run_greets {c c' : Conn P E} {admits : Bool} (h : Greets c)
    (hs : c.run admits = some c') : Greets c' := by
  cases run_cases hs with
  | drained overflowed hd =>
    exact h.congr rfl rfl id rfl rfl id id (by simp [pending, hd])
      (by cases overflowed <;> simp [Idle, Doing.hasEnded]) (by simp [hd, Doing.hasEnded])
  | unroutable chunk hd =>
    exact h.congr rfl rfl id rfl rfl id id (by simp [pending, hd])
      (by simp [Idle, Doing.hasEnded]) (fun _ => rfl)
  | handled r lines overflowed hd => exact handled_greets h hd
  | refused o chunk hd hr hh =>
    refine midway_greets h (Or.inl hd) rfl rfl rfl (fun _ => rfl) (Or.inl ⟨rfl, ?_⟩)
    cases hadm : c.admitted with
    | false => rfl
    | true => simp [h.registered hadm] at hr
  | subscribed o chunk hd hr hm =>
    exact midway_greets h (Or.inl hd) rfl rfl rfl (fun _ => rfl) (Or.inr (Or.inl rfl))
  | auxiliary o chunk hd hr hh hm =>
    exact midway_greets h (Or.inl hd) rfl rfl rfl (fun _ => rfl) (Or.inr (Or.inr rfl))
  | known o chunk hd hr =>
    exact midway_greets h (Or.inl hd) rfl rfl rfl h.registered (Or.inr (Or.inr rfl))
  | watched o chunk hd =>
    exact midway_greets h (Or.inr hd) rfl rfl rfl h.registered (Or.inr (Or.inr rfl))
  | refuse hd => exact refuse_greets h hd
  | queued f replies close chunk hd hw => exact queued_greets h hd hw
  | lost f replies close chunk hd hw =>
    have hpos : c.session.framesIn ≠ 0 := by
      intro h0
      have := (h.fresh h0).2.2.2
      simp [hd, Idle, Doing.hasEnded] at this
    refine ⟨fun h0 => absurd h0 hpos, by simp, by simp, h.registered, by simp,
      fun hw' _ _ => by simp [hw] at hw', by simp [pending], fun f hf => ?_⟩
    rcases h.first f hf with hf | ⟨-, -, hend⟩
    · exact Or.inl hf
    · simp [hd, Doing.hasEnded] at hend
  | replied close chunk hd =>
    exact h.congr rfl rfl id rfl rfl id id (by simp [pending, hd])
      (by cases close <;> simp [Idle, Doing.hasEnded]) (by simp [hd, Doing.hasEnded])
  | unregister hd =>
    exact h.congr rfl rfl id rfl rfl (by simp) id (by simp [pending, hd])
      (by simp [Idle, Doing.hasEnded]) (fun _ => rfl)
  | drop hd | await hd _ | release hd =>
    exact h.congr rfl rfl id rfl rfl id id (by simp [pending, hd])
      (by simp [Idle, Doing.hasEnded]) (fun _ => rfl)

/-- Frames put on the channel behind the reply to the first line. -/
theorem Greets.push {c c' : Conn P E} (h : Greets c) (more : List (Frame P E))
    (hs : c'.session = c.session) (hd : c'.doing = c.doing) (hsent : c'.sent = c.sent ++ more)
    (ha : c'.admitted = c.admitted)
    (hr : c'.registered = c.registered) (hpos : 1 ≤ c.session.framesIn)
    (hp : c.pending = true → more = []) (hopen : c.writing = true) : Greets c' := by
  have hpend : c'.pending = c.pending := by simp [pending, hs, hd]
  refine ⟨fun h0 => absurd (hs ▸ h0) (by omega), ?_, ?_, ?_, ?_, fun hw' h1 hp' => ?_,
    fun hp' => ?_, fun f hf => ?_⟩
  · rw [hd, hs]
    exact h.outcome
  · rw [hd, hs]
    exact h.replies
  · rw [ha, hr]
    exact h.registered
  · rw [hd, ha]
    exact h.refusing
  · rw [hsent]
    exact fun hnil => h.kept hopen hpos (hpend ▸ hp') (List.append_eq_nil_iff.mp hnil).1
  · rw [hsent, hp (hpend ▸ hp'), h.ahead (hpend ▸ hp'), List.append_nil]
  · rw [hsent] at hf
    rw [hd, ha]
    refine h.first f ?_
    by_cases hpe : c.pending = true
    · rwa [hp hpe, List.append_nil] at hf
    · rwa [List.head?_append_of_ne_nil _
        (h.kept hopen hpos (by simpa using hpe))] at hf

theorem write_greets {c c' : Conn P E} {ok : Bool} (h : Greets c) (hs : c.write ok = some c') :
    Greets c' := by
  rcases write_cases hs with ⟨hw, ⟨f, queue, hq, rfl⟩ | ⟨rfl, -⟩⟩
  · have hsent : Conn.sent { c with queue, written := c.written ++ [f] } = c.sent := by
      simp [sent, hq]
    refine ⟨?_, h.outcome, h.replies, h.registered, h.refusing, ?_, ?_, ?_⟩
    · rw [hsent]
      exact h.fresh
    · rw [hsent]
      exact h.kept
    · rw [hsent]
      exact h.ahead
    · rw [hsent]
      exact h.first
  · -- what was not written yet is lost, so what was sent is a part of what it was
    refine ⟨fun h0 => ?_, h.outcome, h.replies, h.registered, h.refusing, by simp,
      fun hp => ?_, fun f hf => h.first f ?_⟩
    · obtain ⟨h1, h2⟩ := h.fresh h0
      exact ⟨by simp [sent, (List.append_eq_nil_iff.mp h1).1], h2⟩
    · simp [sent, (List.append_eq_nil_iff.mp (h.ahead hp)).1]
    · have hf' : c.written.head? = some f := by simpa [sent] using hf
      have hne : c.written ≠ [] := by
        intro hnil
        simp [hnil] at hf'
      rw [sent, List.head?_append_of_ne_nil _ hne]
      exact hf'

variable [DecidableEq P]

/-- Every quiet step keeps the reply to the handshake first. -/
theorem step_greets (c : Conn P E) (event : Event P E) (c' : Conn P E) (h : Greets c)
    (hq : Quiet c event) (hs : step c event = some c') : Greets c' := by
  cases event with
  | input chunk =>
    unfold step at hs
    cases hd : c.doing <;> simp only [hd, reduceCtorEq] at hs
    obtain rfl := Option.some.inj hs
    exact h.congr rfl rfl id rfl rfl id id (by simp [pending, hd]) trivial
      (by simp [hd, Doing.hasEnded])
  | hangUp =>
    unfold step at hs
    cases hd : c.doing <;> simp only [hd, reduceCtorEq] at hs
    obtain rfl := Option.some.inj hs
    exact h.congr rfl rfl id rfl rfl id id (by simp [pending, hd]) rfl (fun _ => rfl)
  | run admits => exact run_greets h hs
  | write ok => exact write_greets h hs
  | watch closes =>
    have hstarted : c.watch ≠ .notStarted → 1 ≤ c.session.framesIn := by
      intro hw
      by_contra h0
      exact hw (h.fresh (by omega)).2.2.1
    rcases watchStep_cases hs with ⟨told, seen, hw, -, rfl⟩ | ⟨told, seen, hw, hne, hopen, rfl⟩ |
      ⟨hrunning, -, rfl⟩ | ⟨told, seen, hw, -, rfl⟩
    · have hpos := hstarted (by simp [hw])
      exact ⟨fun h0 => absurd h0 (by simp; omega), h.outcome, h.replies, h.registered, h.refusing,
        h.kept, h.ahead, h.first⟩
    · exact h.push [.permissionsChanged c.permissions] rfl rfl (by simp [sent]) rfl rfl
        (hstarted (by simp [hw])) (fun hp => absurd (hq hp told seen hw) hne) hopen
    · have hpos := hstarted (by intro hn; simp [hn, Watch.isRunning] at hrunning)
      exact ⟨fun h0 => absurd h0 (by simp; omega), h.outcome, h.replies, h.registered, h.refusing,
        h.kept, h.ahead, h.first⟩
    · have hpos := hstarted (by simp [hw])
      exact ⟨fun h0 => absurd h0 (by simp; omega), h.outcome, h.replies, h.registered, h.refusing,
        h.kept, h.ahead, h.first⟩
  | broadcast frames =>
    simp only [step] at hs
    split at hs
    · obtain rfl := Option.some.inj hs
      exact h
    · rename_i hsub
      have hsub' : c.subscribed = true := by simpa using hsub
      have hpos : 1 ≤ c.session.framesIn := by
        by_contra h0
        simp [(h.fresh (by omega)).2.1] at hsub'
      split at hs
      · rename_i hopen
        obtain rfl := Option.some.inj hs
        exact h.push (frames.map .event) rfl rfl (by simp [sent]) rfl rfl hpos
          (fun hp => by simp [hq hp hsub']) hopen
      · obtain rfl := Option.some.inj hs
        exact ⟨fun h0 => absurd h0 (by simp; omega), h.outcome, h.replies, h.registered,
          h.refusing, h.kept, h.ahead, h.first⟩
  | change permissions =>
    obtain rfl := Option.some.inj hs
    exact ⟨h.fresh, h.outcome, h.replies, h.registered, h.refusing, h.kept, h.ahead, h.first⟩

/-- **Over TCP, when nothing overtakes.** In a run whose steps are all quiet the first frame an
admitted client is written is the reply to its handshake. -/
theorem firstIsReply_of_quiet {permissions : P} {changes : Nat} {events : List (Event P E)}
    {c : Conn P E} (hq : (system P E).Along Quiet (opened permissions changes) events)
    (hexec : (system P E).exec (opened permissions changes) events = some c)
    (hadm : c.admitted = true) : FirstIsReply c.written := by
  have h := (system P E).exec_induction step_greets (opened_greets permissions changes) hq hexec
  intro f hf
  have hne : c.written ≠ [] := by
    intro hnil
    simp [hnil] at hf
  rcases h.first f (by rw [sent, List.head?_append_of_ne_nil _ hne]; exact hf) with hf | ⟨-, hno, -⟩
  · exact hf
  · simp [hadm] at hno

end Conn

end Mbrc.Server
