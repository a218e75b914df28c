import MbrcPlugin.Server.WebSocket

/-!
# What a WebSocket client is sent

The same two facts as over TCP, with nothing asked of the run: the task writes the replies to
the handshake itself before it registers with the broadcaster and starts the watch, so no frame
of the channel can come first, and from its second message on a main is registered and watched
until its loop is left or its socket has failed.
-/

namespace Mbrc.Server.Ws

open Transition

variable {P E : Type}

/-- What was written, and what the channel holds. -/
def sent (w : Ws P E) : List (Frame P E) := w.written ++ w.queue

/-- The replies of the message in hand that are not written yet. -/
def repliesLeft (w : Ws P E) : List (Frame P E) :=
  match w.doing with
  | .replying replies _ => replies
  | _ => []

/-- The loop is left, or will be at the end of its turn. -/
def isClosing (w : Ws P E) : Bool :=
  match w.doing with
  | .selecting => false
  | .replying _ close | .subscribing close | .watching close => close
  | .unregistering | .over => true

/-- The watch is started next. -/
def AboutToWatch (w : Ws P E) : Prop := ∃ close, w.doing = .watching close

/-- What the client was told last. -/
def lastTold (w : Ws P E) : Option P := Server.lastTold w.session.told w.sent

/-- The invariant of a WebSocket. -/
structure Serves (w : Ws P E) : Prop where
  first : FirstIsReply w.written
  fresh : w.session.framesIn = 0 → w.sent = [] ∧ w.subscribed = false ∧ w.watch = .notStarted ∧
    w.session.handshaked = false
  replies : ∀ f ∈ w.repliesLeft, f = .reply (w.session.framesIn - 1)
  counted : w.repliesLeft ≠ [] → 1 ≤ w.session.framesIn
  kept : w.failed = false → 1 ≤ w.session.framesIn →
    w.repliesLeft = [] ∨ 2 ≤ w.session.framesIn → w.written ≠ []
  closing : 1 ≤ w.session.framesIn → w.session.handshaked = true ∨ w.isClosing = true
  told : w.session.handshaked = true → w.session.told.isSome = true
  subscribed : w.session.isMain = true →
    2 ≤ w.session.framesIn ∨ w.doing = .selecting ∨ w.AboutToWatch → w.doing ≠ .over →
    w.subscribed = true
  watched : w.subscribed = true → w.doing ≠ .over → w.watch.isRunning = true ∨ w.AboutToWatch
  about : w.AboutToWatch → w.session.framesIn = 1 ∧ w.session.isMain = true
  unwatched : (w.subscribed = false ∧ w.doing ≠ .over) ∨ w.AboutToWatch → w.watch = .notStarted
  untold : w.watch = .notStarted → w.sent.filterMap Frame.told? = []
  settled : ∀ told seen, w.watch = .waiting told seen → seen = w.changes → told = w.permissions
  last : w.failed = false → w.doing ≠ .over → ∀ told seen, w.watch = .checking told seen ∨
    w.watch = .waiting told seen → w.lastTold = some told
  seen_le : ∀ told seen, w.watch = .checking told seen ∨ w.watch = .waiting told seen →
    seen ≤ w.changes

theorem opened_serves (permissions : P) (changes : Nat) :
    Serves (opened permissions changes : Ws P E) := by
  constructor <;>
    simp [opened, V6Session.initial, FirstIsReply, sent, repliesLeft, AboutToWatch,
      V6Session.isMain]

theorem isMain_handshaked {s : V6Session P} (h : s.isMain = true) : s.handshaked = true := by
  simp only [V6Session.isMain, Bool.and_eq_true] at h
  exact h.1

/-- The client's next message is handled. -/
theorem inbound_serves {w : Ws P E} (h : Serves w) (hd : w.doing = .selecting) (r : Request) :
    Serves { w with
      session := (w.session.handleFrame w.permissions r : _ × Outcome P E).1
      doing := .replying (w.session.handleFrame w.permissions r : _ × Outcome P E).2.replies
        (w.session.handleFrame w.permissions r : _ × Outcome P E).2.close } := by
  have hframes := V6Session.handleFrame_framesIn (E := E) w.session w.permissions r
  have hreplies := V6Session.handleFrame_replies (E := E) w.session w.permissions r
  have hcl := V6Session.handleFrame_handshaked_or_close (E := E) w.session w.permissions r
  have hleft : w.repliesLeft = [] := by simp [repliesLeft, hd]
  have hnotAbout : ¬ w.AboutToWatch := fun ⟨c, hc⟩ => by simp [hd] at hc
  have hwatch : w.watch.isRunning = true ∨ w.watch = .notStarted := by
    by_cases hs : w.subscribed = true
    · exact Or.inl ((h.watched hs (by simp [hd])).resolve_right hnotAbout)
    · exact Or.inr (h.unwatched (Or.inl ⟨by simpa using hs, by simp [hd]⟩))
  -- a session past its first message has shaken hands, and a main is then subscribed
  have hsession : w.session.framesIn = 0 ∨ w.session.handshaked = true := by
    rcases Nat.eq_zero_or_pos w.session.framesIn with h0 | hpos
    · exact Or.inl h0
    · exact Or.inr ((h.closing hpos).resolve_right (by simp [isClosing, hd]))
  have hlastTold : w.watch ≠ .notStarted →
      (w.session.handleFrame w.permissions r : _ × Outcome P E).1.told = w.session.told := by
    intro hn
    rcases hsession with h0 | hh
    · exact absurd (h.fresh h0).2.2.1 hn
    · rw [V6Session.handleFrame_of_handshaked hh]
  refine ⟨h.first, by simp [hframes], ?_, by simp [hframes], fun hf h1 h2 => ?_,
    fun _ => hcl.imp id (by simpa [isClosing] using ·), V6Session.handleFrame_told h.told _ _,
    fun hm hwhen _ => ?_, fun hs _ => ?_, fun ⟨c, hc⟩ => by simp at hc, fun hu => ?_, h.untold,
    h.settled, fun hf _ t s hws => ?_, h.seen_le⟩
  · simp [repliesLeft, hreplies, hframes]
  · have hpos : 1 ≤ w.session.framesIn := by
      simp only [repliesLeft, hreplies, List.cons_ne_self, false_or, hframes] at h2
      omega
    exact h.kept hf hpos (Or.inl hleft)
  · have htwo : 2 ≤ w.session.framesIn + 1 := by
      rcases hwhen with h2 | h2 | ⟨c, hc⟩
      · simpa [hframes] using h2
      · simp at h2
      · simp at hc
    have hh := hsession.resolve_left (by omega)
    rw [V6Session.handleFrame_of_handshaked hh] at hm
    exact h.subscribed hm (Or.inr (Or.inl hd)) (by simp [hd])
  · exact Or.inl ((h.watched hs (by simp [hd])).resolve_right hnotAbout)
  · rcases hu with ⟨hs, -⟩ | ⟨c, hc⟩
    · exact h.unwatched (Or.inl ⟨hs, by simp [hd]⟩)
    · simp at hc
  · change w.watch = _ ∨ w.watch = _ at hws
    have := h.last hf (by simp [hd]) t s hws
    rw [lastTold] at this ⊢
    rw [← this]
    refine congrArg (fun told => Server.lastTold told w.sent) (hlastTold ?_)
    rcases hws with hws | hws <;> simp [hws]

/-- A step that leaves the session, the watch, the registration and the frames alone. -/
theorem Serves.goto {w : Ws P E} (h : Serves w) {doing : WsDoing P E} (failed : Bool)
    (hf : failed = false → w.failed = false)
    (hleft : failed = false → repliesLeft { w with doing } = w.repliesLeft)
    (hno : failed = true → repliesLeft { w with doing } = [])
    (hover' : w.doing ≠ .over)
    (habout : ∀ close, doing ≠ .watching close) (habout' : ¬ w.AboutToWatch)
    (hclosing : w.isClosing = true → isClosing { w with doing } = true)
    (hsel : doing = .selecting → w.session.isMain = true → w.subscribed = true) :
    Serves { w with failed, doing } := by
  have hnot : ¬ AboutToWatch { w with failed, doing } := fun ⟨c, hc⟩ => habout c hc
  have hleft' : repliesLeft { w with failed, doing } = repliesLeft { w with doing } := rfl
  have hsub : ∀ f ∈ repliesLeft { w with failed, doing }, f ∈ w.repliesLeft := by
    cases failed with
    | true => simp [hleft', hno rfl]
    | false => simp [hleft', hleft rfl]
  refine ⟨h.first, h.fresh, fun f hm => h.replies f (hsub f hm), fun hne => ?_,
    fun hf' h1 h2 => ?_, fun h1 => (h.closing h1).imp id hclosing, h.told, fun hm hwhen _ => ?_,
    fun hs _ => Or.inl ((h.watched hs hover').resolve_right habout'), fun hab => absurd hab hnot,
    fun hu => hu.elim (fun ⟨hs, _⟩ => h.unwatched (Or.inl ⟨hs, hover'⟩)) (absurd · hnot),
    h.untold, h.settled, fun hf' _ => h.last (hf hf') hover', h.seen_le⟩
  · obtain ⟨f, hmem⟩ := List.exists_mem_of_ne_nil _ hne
    exact h.counted (List.ne_nil_of_mem (hsub f hmem))
  · obtain rfl : failed = false := hf'
    rw [hleft', hleft rfl] at h2
    exact h.kept (hf rfl) h1 h2
  · rcases hwhen with h2 | h2 | hab
    · exact h.subscribed hm (Or.inl h2) hover'
    · exact hsel h2 hm
    · exact absurd hab hnot

theorem afterMessage_ne (close : Bool) : (afterMessage close : WsDoing P E) ≠ .over ∧
    ∀ c, (afterMessage close : WsDoing P E) ≠ .watching c := by
  cases close <;> simp [afterMessage]

theorem run_serves {w w' : Ws P E} {ok : Bool} (h : Serves w) (hs : w.run ok = some w') :
    Serves w' := by
  cases run_cases hs with
  | wrote f replies close hd hf =>
    have hmem : f ∈ w.repliesLeft := by simp [repliesLeft, hd]
    have hpos := h.counted (List.ne_nil_of_mem hmem)
    have hreply := h.replies f hmem
    have hnot : ¬ w.AboutToWatch := by
      rintro ⟨c, hc⟩
      simp [hd] at hc
    refine ⟨fun g hg => ?_, fun h0 => absurd h0 (by simp; omega),
      fun g hg => h.replies g (by simp_all [repliesLeft]), fun _ => hpos, by simp,
      fun h1 => (h.closing h1).imp id (by simp [isClosing, hd]), h.told, fun hm hwhen _ => ?_,
      fun hs _ => Or.inl ((h.watched hs (by simp [hd])).resolve_right hnot),
      by rintro ⟨c, hc⟩; simp at hc, fun hu => ?_, fun hn => ?_, h.settled,
      fun _ _ t s hws => ?_, h.seen_le⟩
    · by_cases hne : w.written = []
      · -- only the reply to the first message can find nothing written before it
        have hone : w.session.framesIn = 1 := by
          by_contra hmore
          exact h.kept hf hpos (Or.inr (by omega)) hne
        simpa [hne, hreply, hone, eq_comm] using hg
      · rw [List.head?_append_of_ne_nil _ hne] at hg
        exact h.first g hg
    · rcases hwhen with h2 | h2 | ⟨c, hc⟩
      · exact h.subscribed hm (Or.inl h2) (by simp [hd])
      · simp at h2
      · simp at hc
    · rcases hu with ⟨hs, -⟩ | ⟨c, hc⟩
      · exact h.unwatched (Or.inl ⟨hs, by simp [hd]⟩)
      · simp at hc
    · have := h.untold hn
      rw [sent, List.filterMap_append] at this
      simp only [sent, List.filterMap_append, (List.append_eq_nil_iff.mp this).1,
        (List.append_eq_nil_iff.mp this).2]
      simp [hreply, Frame.told?]
    · have := h.last hf (by simp [hd]) t s hws
      simpa [lastTold, Server.lastTold, sent, hreply, Frame.told?] using this
  | lost f replies close hd =>
    exact h.goto true (by simp) (by simp) (by simp [repliesLeft]) (by simp [hd])
      (by simp) (by rintro ⟨c, hc⟩; simp [hd] at hc) (by simp [isClosing, hd]) (by simp)
  | replied close hd =>
    exact h.goto w.failed id (by simp [repliesLeft, hd]) (by simp [repliesLeft])
      (by simp [hd]) (by simp) (by rintro ⟨c, hc⟩; simp [hd] at hc) (by simp [isClosing, hd])
      (by simp)
  | subscribe close hd hsub hm =>
    have hnone := h.unwatched (Or.inl ⟨hsub, by simp [hd]⟩)
    have hone : w.session.framesIn = 1 := by
      by_contra hne
      rcases Nat.lt_or_ge w.session.framesIn 1 with h0 | hpos
      · have := (h.fresh (by omega)).2.2.2
        simp [isMain_handshaked hm] at this
      · have := h.subscribed hm (Or.inl (by omega)) (by simp [hd])
        simp [hsub] at this
    exact ⟨h.first, fun h0 => absurd h0 (by simp [hone]), by simp [repliesLeft],
      by simp [repliesLeft],
      fun hf h1 _ => h.kept hf h1 (Or.inl (by simp [repliesLeft, hd])),
      fun h1 => (h.closing h1).imp id (by simp [isClosing, hd]), h.told, fun _ _ _ => rfl,
      fun _ _ => Or.inr ⟨close, rfl⟩, fun _ => ⟨hone, hm⟩, fun _ => hnone, h.untold, h.settled,
      fun hf _ => h.last hf (by simp [hd]), h.seen_le⟩
  | passed close hd hsub =>
    exact h.goto w.failed id (by cases close <;> simp [repliesLeft, hd, afterMessage])
      (by cases close <;> simp [repliesLeft, afterMessage]) (by simp [hd])
      (afterMessage_ne close).2 (by rintro ⟨c, hc⟩; simp [hd] at hc)
      (by cases close <;> simp [isClosing, hd, afterMessage]) (fun _ => hsub)
  | watched close hd =>
    have hab : w.AboutToWatch := ⟨close, hd⟩
    obtain ⟨hone, hm⟩ := h.about hab
    obtain ⟨told, htold⟩ := Option.isSome_iff_exists.mp (h.told (isMain_handshaked hm))
    have hnone := h.unwatched (Or.inr hab)
    have hsub := h.subscribed hm (Or.inr (Or.inr hab)) (by simp [hd])
    simp only [htold]
    refine ⟨h.first, fun h0 => absurd h0 (by simp [hone]), ?_, ?_,
      fun hf h1 _ => h.kept hf h1 (Or.inl (by simp [repliesLeft, hd])),
      fun h1 => Or.inl (isMain_handshaked hm), h.told, fun _ _ _ => hsub, fun _ _ => Or.inl rfl,
      by rintro ⟨c, hc⟩; exact absurd hc ((afterMessage_ne close).2 c), ?_, by simp, by simp,
      fun hf _ t s hws => ?_, fun t s hws => ?_⟩
    · cases close <;> simp [repliesLeft, afterMessage]
    · cases close <;> simp [repliesLeft, afterMessage]
    · rintro (⟨hs, -⟩ | ⟨c, hc⟩)
      · simp [hsub] at hs
      · exact absurd hc ((afterMessage_ne close).2 c)
    · obtain ⟨rfl, -⟩ : told = t ∧ w.changes = s := by simpa using hws
      have := h.untold hnone
      rw [sent] at this
      simp [lastTold, Server.lastTold, sent, htold, this]
    · obtain ⟨-, rfl⟩ : told = t ∧ w.changes = s := by simpa using hws
      exact Nat.le_refl _
  | unregister hd =>
    refine ⟨h.first, fun h0 => ?_, by simp [repliesLeft], by simp [repliesLeft],
      fun hf h1 _ => h.kept hf h1 (Or.inl (by simp [repliesLeft, hd])), fun _ => Or.inr rfl, h.told,
      by simp, by simp, by rintro ⟨c, hc⟩; simp at hc, ?_, fun hn => ?_, h.settled, by simp,
      h.seen_le⟩
    · obtain ⟨h1, h2, h3, h4⟩ := h.fresh h0
      exact ⟨by simp [sent, (List.append_eq_nil_iff.mp h1).1], rfl, h3, h4⟩
    · rintro (⟨-, hne⟩ | ⟨c, hc⟩)
      · simp at hne
      · simp at hc
    · have := h.untold hn
      rw [sent, List.filterMap_append] at this
      simp [sent, (List.append_eq_nil_iff.mp this).1]

/-- Nothing is on the channel before the first message is handled. -/
theorem Serves.pos {w : Ws P E} (h : Serves w) (hne : w.sent ≠ [] ∨ w.watch ≠ .notStarted) :
    1 ≤ w.session.framesIn := by
  by_contra h0
  obtain ⟨hsent, -, hwatch, -⟩ := h.fresh (by omega)
  exact hne.elim (absurd hsent) (absurd hwatch)

/-- The task is left: nothing it writes or registers matters any more. -/
theorem Serves.leave {w : Ws P E} (h : Serves w) (failed : Bool) (queue : List (Frame P E))
    (hd : w.doing = .selecting) (hf : failed = false → w.failed = false ∧ queue = w.queue)
    (hsub : queue.Sublist w.queue) :
    Serves { w with queue, failed, doing := .unregistering } := by
  have hab : ¬ w.AboutToWatch := fun ⟨c, hc⟩ => by simp [hd] at hc
  refine ⟨h.first, fun h0 => ?_, by simp [repliesLeft], by simp [repliesLeft],
    fun hf' h1 _ => h.kept (hf hf').1 h1 (Or.inl (by simp [repliesLeft, hd])),
    fun _ => Or.inr rfl, h.told, fun hm _ _ => h.subscribed hm (Or.inr (Or.inl hd)) (by simp [hd]),
    fun hs _ => Or.inl ((h.watched hs (by simp [hd])).resolve_right hab),
    fun ⟨c, hc⟩ => by simp at hc, fun hu => ?_, fun hn => ?_, h.settled, fun hf' _ t s hws => ?_,
    h.seen_le⟩
  · obtain ⟨h1, h2, h3, h4⟩ := h.fresh h0
    obtain ⟨hw, hq⟩ := List.append_eq_nil_iff.mp h1
    exact ⟨by simp [sent, hw, List.sublist_nil.mp (hq ▸ hsub)], h2, h3, h4⟩
  · rcases hu with ⟨hs, -⟩ | ⟨c, hc⟩
    · exact h.unwatched (Or.inl ⟨hs, by simp [hd]⟩)
    · simp at hc
  · have hnil := h.untold hn
    have := ((List.Sublist.refl w.written).append hsub).filterMap Frame.told?
    exact List.sublist_nil.mp (hnil ▸ this)
  · obtain ⟨halive, rfl⟩ := hf hf'
    exact h.last halive (by simp [hd]) t s hws

/-- Frames that tell no permissions go on the channel of a registered socket. -/
theorem Serves.push {w : Ws P E} (h : Serves w) (more : List (Frame P E))
    (hs : w.subscribed = true) (hmore : ∀ f ∈ more, f.told? = none) :
    Serves { w with queue := w.queue ++ more } := by
  have hsent : sent { w with queue := w.queue ++ more } = w.sent ++ more := by simp [sent]
  refine ⟨h.first, fun h0 => ?_, h.replies, h.counted, h.kept, h.closing, h.told, h.subscribed,
    h.watched, h.about, h.unwatched, fun hn => ?_, h.settled, fun hf ho => ?_, h.seen_le⟩
  · have := (h.fresh h0).2.1
    simp [hs] at this
  · rw [hsent, List.filterMap_append, h.untold hn, List.nil_append, List.filterMap_eq_nil_iff]
    exact hmore
  · have := h.last hf ho
    rw [lastTold] at this ⊢
    rw [hsent, lastTold_append _ _ hmore]
    exact this

theorem outbound_serves {w w' : Ws P E} {ok : Bool} (h : Serves w) (hs : w.outbound ok = some w') :
    Serves w' := by
  obtain ⟨f, queue, hd, hq, ⟨hf, rfl⟩ | rfl⟩ := outbound_cases hs
  · have hpos := h.pos (Or.inl (by simp [sent, hq]))
    have hne := h.kept hf hpos (Or.inl (by simp [repliesLeft, hd]))
    have hsent : sent { w with queue, written := w.written ++ [f] } = w.sent := by
      simp [sent, hq]
    refine ⟨fun g hg => ?_, fun h0 => absurd h0 (by simp; omega), h.replies, h.counted, by simp,
      h.closing, h.told, h.subscribed, h.watched, h.about, h.unwatched, fun hn => ?_, h.settled,
      fun _ ho => ?_, h.seen_le⟩
    · -- the reply to the handshake is written before the select looks at the channel again
      rw [List.head?_append_of_ne_nil _ hne] at hg
      exact h.first g hg
    · rw [hsent]
      exact h.untold hn
    · have := h.last hf ho
      rw [lastTold] at this ⊢
      rw [hsent]
      exact this
  · exact h.leave true queue hd (by simp) (by simp [hq])

variable [DecidableEq P]

theorem watch_serves {w w' : Ws P E} {closes : Bool} (h : Serves w)
    (hs : step w (.watch closes) = some w') : Serves w' := by
  obtain ⟨⟨watch, tells⟩, hstep, rfl⟩ := Option.map_eq_some_iff.mp hs
  have hstarted : w.watch ≠ .notStarted → ¬ w.AboutToWatch ∧
      ¬ ((w.subscribed = false ∧ w.doing ≠ .over) ∨ w.AboutToWatch) := fun hn =>
    ⟨fun hab => hn (h.unwatched (Or.inr hab)), fun hu => hn (h.unwatched hu)⟩
  rcases Watch.step_cases hstep with ⟨told, seen, hw, hsame, heq⟩ |
    ⟨told, seen, hw, hne, hopen, heq⟩ | ⟨hrunning, hclosed, heq⟩ | ⟨told, seen, hw, hseen, heq⟩
  · obtain ⟨rfl, rfl⟩ := Prod.mk.inj heq
    have hn : w.watch ≠ .notStarted := by simp [hw]
    have hpos := h.pos (Or.inr hn)
    simp only [List.map_nil, List.append_nil]
    refine ⟨h.first, fun h0 => absurd h0 (by simp; omega), h.replies, h.counted, h.kept,
      h.closing, h.told, h.subscribed, fun _ _ => Or.inl rfl, h.about,
      fun hu => absurd hu (hstarted hn).2, by simp, fun t s hws _ => ?_, fun hf ho t s hws => ?_,
      fun t s hws => ?_⟩ <;>
      obtain ⟨rfl, rfl⟩ : told = t ∧ seen = s := by simpa using hws
    · exact hsame.symm
    · exact h.last hf ho told seen (Or.inl hw)
    · exact h.seen_le told seen (Or.inl hw)
  · obtain ⟨rfl, rfl⟩ := Prod.mk.inj heq
    have hn : w.watch ≠ .notStarted := by simp [hw]
    have hpos := h.pos (Or.inr hn)
    refine ⟨h.first, fun h0 => absurd h0 (by simp; omega), h.replies, h.counted, h.kept,
      h.closing, h.told, h.subscribed, fun _ _ => Or.inl rfl, h.about,
      fun hu => absurd hu (hstarted hn).2, by simp, fun t s hws _ => ?_, fun hf ho t s hws => ?_,
      fun t s hws => ?_⟩ <;>
      obtain ⟨rfl, rfl⟩ : w.permissions = t ∧ seen = s := by simpa using hws
    · rfl
    · have := lastTold_append_told w.sent w.session.told w.permissions
      simpa [lastTold, sent] using this
    · exact h.seen_le told seen (Or.inl hw)
  · obtain ⟨rfl, rfl⟩ := Prod.mk.inj heq
    have hn : w.watch ≠ .notStarted := by
      intro hn
      simp [hn, Watch.isRunning] at hrunning
    have hpos := h.pos (Or.inr hn)
    have hover : w.doing = .over := by
      unfold isOpen at hclosed
      split at hclosed <;> simp_all
    simp only [List.map_nil, List.append_nil]
    exact ⟨h.first, fun h0 => absurd h0 (by simp; omega), h.replies, h.counted, h.kept,
      h.closing, h.told, h.subscribed, fun _ ho => absurd hover ho, h.about,
      fun hu => absurd hu (hstarted hn).2, by simp, by simp, fun _ ho => absurd hover ho, by simp⟩
  · obtain ⟨rfl, rfl⟩ := Prod.mk.inj heq
    have hn : w.watch ≠ .notStarted := by simp [hw]
    have hpos := h.pos (Or.inr hn)
    simp only [List.map_nil, List.append_nil]
    refine ⟨h.first, fun h0 => absurd h0 (by simp; omega), h.replies, h.counted, h.kept,
      h.closing, h.told, h.subscribed, fun _ _ => Or.inl rfl, h.about,
      fun hu => absurd hu (hstarted hn).2, by simp, by simp, fun hf ho t s hws => ?_,
      fun t s hws => ?_⟩ <;>
      obtain ⟨rfl, rfl⟩ : told = t ∧ w.changes = s := by simpa using hws
    · exact h.last hf ho told seen (Or.inr hw)
    · exact Nat.le_refl _

/-- Every step keeps the invariant. -/
theorem step_serves (w : Ws P E) (event : Event P E) (w' : Ws P E) (h : Serves w)
    (hs : step w event = some w') : Serves w' := by
  cases event with
  | inbound request =>
    unfold step at hs
    cases hd : w.doing <;> simp only [hd, reduceCtorEq] at hs
    obtain rfl := Option.some.inj hs
    exact inbound_serves h hd request
  | hangUp =>
    unfold step at hs
    cases hd : w.doing <;> simp only [hd, reduceCtorEq] at hs
    obtain rfl := Option.some.inj hs
    exact h.leave w.failed w.queue hd (fun hf => ⟨hf, rfl⟩) (List.Sublist.refl _)
  | run ok => exact run_serves h hs
  | outbound ok => exact outbound_serves h hs
  | watch closes => exact watch_serves h hs
  | broadcast frames =>
    simp only [step] at hs
    split at hs
    · rename_i hsub
      obtain rfl := Option.some.inj hs
      exact h.push _ hsub (by simp [Frame.told?])
    · obtain rfl := Option.some.inj hs
      exact h
  | change permissions =>
    obtain rfl := Option.some.inj hs
    refine ⟨h.first, h.fresh, h.replies, h.counted, h.kept, h.closing, h.told, h.subscribed,
      h.watched, h.about, h.unwatched, h.untold, fun t s hws hseen => ?_, h.last,
      fun t s hws => Nat.le_succ_of_le (h.seen_le t s hws)⟩
    have hle := h.seen_le t s (Or.inr hws)
    have hnew : s = w.changes + 1 := hseen
    omega

theorem reachable_serves {w : Ws P E} (hr : (system P E).Reachable w) : Serves w := by
  refine (system P E).reachable_induction (fun w hw => ?_) step_serves hr
  obtain ⟨permissions, changes, rfl⟩ := hw
  exact opened_serves permissions changes

/-! ## Delivery -/

/-- The frames an event broadcasts. -/
def Event.broadcasts : Event P E → List E
  | .broadcast frames => frames
  | _ => []

/-- What one step leaves of a socket that is still served after it: from the second message of
a main on, its broadcasts are sent and no others. -/
def Delivers (w w' : Ws P E) (es : List E) : Prop :=
  w.doing ≠ .over ∧ w.failed = false ∧
    (2 ≤ w.session.framesIn → w.session.isMain = true →
      2 ≤ w'.session.framesIn ∧ w'.session.isMain = true ∧
      eventsOf w'.sent = eventsOf w.sent ++ es)

omit [DecidableEq P] in
/-- A step that sends nothing but replies and permissions. -/
theorem delivers_nothing {w w' : Ws P E} (ho : w.doing ≠ .over) (hf : w.failed = false)
    (hs : w'.session = w.session) (hsent : eventsOf w'.sent = eventsOf w.sent) :
    Delivers w w' [] := by
  refine ⟨ho, hf, fun h2 hm => ⟨hs ▸ h2, hs ▸ hm, ?_⟩⟩
  rw [hsent, List.append_nil]

omit [DecidableEq P] in
theorem run_delivers {w w' : Ws P E} {ok : Bool} (h : Serves w) (hs : w.run ok = some w')
    (ho : w'.doing ≠ .over) (hf : w'.failed = false) : Delivers w w' [] := by
  cases run_cases hs with
  | wrote f replies close hd hf' =>
    have hreply := h.replies f (by simp [repliesLeft, hd])
    have hevent : f.event? = none := by simp [hreply, Frame.event?]
    exact delivers_nothing (by simp [hd]) hf' rfl
      (by simp [sent, eventsOf, hevent])
  | lost => simp at hf
  | replied close hd => exact delivers_nothing (by simp [hd]) hf rfl rfl
  | subscribe close hd => exact delivers_nothing (by simp [hd]) hf rfl rfl
  | passed close hd => exact delivers_nothing (by simp [hd]) hf rfl rfl
  | watched close hd => exact delivers_nothing (by simp [hd]) hf rfl rfl
  | unregister => simp at ho

/-- **A broadcast goes to a main from its second message on.** -/
theorem step_delivers {w w' : Ws P E} {event : Event P E} (h : Serves w)
    (hs : step w event = some w') (ho : w'.doing ≠ .over) (hf : w'.failed = false) :
    Delivers w w' event.broadcasts := by
  cases event with
  | inbound request =>
    unfold step at hs
    cases hd : w.doing <;> simp only [hd, reduceCtorEq] at hs
    obtain rfl := Option.some.inj hs
    refine ⟨by simp [hd], hf, fun h2 hm => ?_⟩
    have hsession := V6Session.handleFrame_of_handshaked (E := E) (isMain_handshaked hm)
      w.permissions request
    exact ⟨by simp only [hsession]; omega, by simpa [hsession, V6Session.isMain] using hm,
      (List.append_nil _).symm⟩
  | hangUp =>
    unfold step at hs
    cases hd : w.doing <;> simp only [hd, reduceCtorEq] at hs
    obtain rfl := Option.some.inj hs
    exact delivers_nothing (by simp [hd]) hf rfl rfl
  | run ok => exact run_delivers h hs ho hf
  | outbound ok =>
    obtain ⟨f, queue, hd, hq, ⟨hf', rfl⟩ | rfl⟩ := outbound_cases hs
    · exact delivers_nothing (by simp [hd]) hf' rfl (by simp [sent, hq])
    · simp at hf
  | watch closes =>
    obtain ⟨⟨watch, tells⟩, -, rfl⟩ := Option.map_eq_some_iff.mp hs
    refine delivers_nothing ho hf rfl ?_
    simp [sent, eventsOf, Frame.event?]
  | broadcast frames =>
    simp only [step] at hs
    split at hs
    · obtain rfl := Option.some.inj hs
      refine ⟨ho, hf, fun h2 hm => ⟨h2, hm, ?_⟩⟩
      rw [show sent { w with queue := w.queue ++ frames.map .event } =
        w.sent ++ frames.map .event by simp [sent], eventsOf_append, eventsOf_map_event]
      rfl
    · rename_i hsub
      obtain rfl := Option.some.inj hs
      exact ⟨ho, hf, fun h2 hm => absurd (h.subscribed hm (Or.inl h2) ho) hsub⟩
  | change permissions =>
    obtain rfl := Option.some.inj hs
    exact delivers_nothing ho hf rfl rfl

/-- A task that is over stays over, and a socket that failed stays failed. -/
theorem exec_live {w w' : Ws P E} {events : List (Event P E)} (h : Serves w)
    (hexec : (system P E).exec w events = some w') (ho : w'.doing ≠ .over)
    (hf : w'.failed = false) : w.doing ≠ .over ∧ w.failed = false := by
  induction events generalizing w with
  | nil =>
    obtain rfl : w = w' := by simpa using hexec
    exact ⟨ho, hf⟩
  | cons event events ih =>
    rw [System.exec_cons] at hexec
    cases hn : (system P E).next w event with
    | none => simp [hn] at hexec
    | some d =>
      rw [hn] at hexec
      obtain ⟨h1, h2⟩ := ih (step_serves w event d h hn) hexec
      exact ⟨(step_delivers h hn h1 h2).1, (step_delivers h hn h1 h2).2.1⟩

/-- **No event is missed over a WebSocket.** From any state in which a main's second message is
being handled on, until the task is over or the socket has failed, the broadcasts of a run are
what was sent more at its end, each once and in their order. -/
theorem run_delivers_all {w w' : Ws P E} {events : List (Event P E)} (h : Serves w)
    (h2 : 2 ≤ w.session.framesIn) (hmain : w.session.isMain = true)
    (hexec : (system P E).exec w events = some w') (ho : w'.doing ≠ .over)
    (hf : w'.failed = false) :
    eventsOf w'.sent = eventsOf w.sent ++ events.flatMap Event.broadcasts := by
  induction events generalizing w with
  | nil =>
    obtain rfl : w = w' := by simpa using hexec
    simp
  | cons event events ih =>
    rw [System.exec_cons] at hexec
    cases hn : (system P E).next w event with
    | none => simp [hn] at hexec
    | some d =>
      rw [hn] at hexec
      have hsub := step_serves w event d h hn
      have hback := exec_live hsub hexec ho hf
      obtain ⟨h2', hmain', hsent⟩ := (step_delivers h hn hback.1 hback.2).2.2 h2 hmain
      rw [ih hsub h2' hmain' hexec, hsent, List.flatMap_cons, List.append_assoc]

end Mbrc.Server.Ws
