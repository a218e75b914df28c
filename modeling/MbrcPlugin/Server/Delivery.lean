import MbrcPlugin.Server.FirstFrame

/-!
# What a subscriber over TCP is sent

From its admission on, a subscriber is registered with the broadcaster and has its permission
watch, until its connection ends or its writer is gone (`Subscribes`).  So every broadcast goes
on its channel once, in the order of the broadcasts, and the permissions it was told last are
those it has whenever its watch has nothing left to look at.
-/

namespace Mbrc.Server.Conn

open Transition

variable {P E : Type}

/-- The connection takes events: an admitted main, its loop going on and its writer there. -/
def TakesEvents (c : Conn P E) : Prop :=
  c.admitted = true ∧ c.session.isMain = true ∧ c.doing.hasEnded = false ∧ c.writing = true

/-- The watch is started next. -/
def AboutToWatch (c : Conn P E) : Prop := ∃ o chunk, c.doing = .watching o chunk

/-- The replies of the line in hand that are not queued yet. -/
def repliesLeft (c : Conn P E) : List (Frame P E) :=
  match c.doing with
  | .admitting o _ | .watching o _ => o.replies
  | .replying replies _ _ => replies
  | _ => []

/-- What the client was told last. -/
def lastTold (c : Conn P E) : Option P := Server.lastTold c.session.told c.sent

/-- How a subscriber stays subscribed and watched. -/
structure Subscribes (c : Conn P E) : Prop where
  registered : c.admitted = true → c.registered = true
  handshaked : c.registered = true → c.session.handshaked = true
  told : c.session.handshaked = true → c.session.told.isSome = true
  subscribed : c.TakesEvents → c.subscribed = true
  watched : c.TakesEvents → c.watch.isRunning = true ∨ c.AboutToWatch
  about : c.AboutToWatch → c.registered = true
  unwatched : c.registered = false ∨ c.AboutToWatch → c.watch = .notStarted
  untold : c.watch = .notStarted → c.sent.filterMap Frame.told? = []
  settled : ∀ told seen, c.watch = .waiting told seen → seen = c.changes → told = c.permissions
  last : c.writing = true → ∀ told seen, c.watch = .checking told seen ∨
    c.watch = .waiting told seen → c.lastTold = some told
  plain : ∀ f ∈ c.repliesLeft, f.told? = none ∧ f.event? = none
  seen_le : ∀ told seen, c.watch = .checking told seen ∨ c.watch = .waiting told seen →
    seen ≤ c.changes

theorem opened_subscribes (permissions : P) (changes : Nat) :
    Subscribes (opened permissions changes : Conn P E) := by
  constructor <;>
    simp [opened, V6Session.initial, TakesEvents, AboutToWatch, V6Session.isMain, sent,
      repliesLeft]

/-- A step that leaves the session, the watch and the registration alone and tells nothing. -/
theorem Subscribes.congr {c c' : Conn P E} (h : Subscribes c) (more : List (Frame P E))
    (hs : c'.session = c.session) (hwatch : c'.watch = c.watch)
    (hperm : c'.permissions = c.permissions) (hchanges : c'.changes = c.changes)
    (ha : c'.admitted = c.admitted) (hr : c'.registered = c.registered)
    (hsent : c'.sent = c.sent ++ more) (htold : ∀ f ∈ more, f.told? = none)
    (hw : c'.writing = true → c.writing = true)
    (hended : c'.doing.hasEnded = false → c.doing.hasEnded = false)
    (hsub : c'.doing.hasEnded = false → c'.writing = true → c.subscribed = true →
      c'.subscribed = true)
    (habout : c'.AboutToWatch → c.AboutToWatch)
    (habout' : c.AboutToWatch → c'.doing.hasEnded = false → c'.AboutToWatch)
    (hleft : ∀ f ∈ c'.repliesLeft, f ∈ c.repliesLeft) : Subscribes c' := by
  have htakes : c'.TakesEvents → c.TakesEvents := fun ⟨h1, h2, h3, h4⟩ =>
    ⟨ha ▸ h1, hs ▸ h2, hended h3, hw h4⟩
  have hlast : c'.lastTold = c.lastTold := by
    rw [lastTold, lastTold, hs, hsent, lastTold_append _ _ htold]
  refine ⟨?_, ?_, ?_, fun ht => hsub ht.2.2.1 ht.2.2.2 (h.subscribed (htakes ht)), fun ht => ?_,
    fun hab => ?_, fun hu => ?_, fun hn => ?_, ?_, fun hw' => ?_,
    fun f hf => h.plain f (hleft f hf), ?_⟩
  · rw [ha, hr]
    exact h.registered
  · rw [hr, hs]
    exact h.handshaked
  · rw [hs]
    exact h.told
  · rw [hwatch]
    exact (h.watched (htakes ht)).imp id fun hab => habout' hab ht.2.2.1
  · rw [hr]
    exact h.about (habout hab)
  · rw [hwatch]
    exact h.unwatched (by rw [hr] at hu; exact hu.imp id habout)
  · rw [hsent, List.filterMap_append, h.untold (hwatch ▸ hn), List.nil_append,
      List.filterMap_eq_nil_iff]
    exact htold
  · rw [hwatch, hperm, hchanges]
    exact h.settled
  · rw [hwatch, hlast]
    exact h.last (hw hw')
  · rw [hwatch, hchanges]
    exact h.seen_le

/-- A step of the loop that sends nothing and starts nothing. -/
theorem Subscribes.goto {c : Conn P E} (h : Subscribes c) {doing : Doing P E}
    (hended : doing.hasEnded = false → c.doing.hasEnded = false)
    (habout : ∀ o chunk, doing ≠ .watching o chunk) (hab : ¬ c.AboutToWatch)
    (hleft : ∀ f ∈ repliesLeft { c with doing }, f ∈ c.repliesLeft) :
    Subscribes { c with doing } :=
  h.congr [] rfl rfl rfl rfl rfl rfl (List.append_nil _).symm (by simp) id hended
    (fun _ _ => id) (fun ⟨o, chunk, hd⟩ => absurd hd (habout o chunk)) (fun hc => absurd hc hab)
    hleft

theorem handled_subscribes {c : Conn P E} (h : Subscribes c) {r : Request}
    {lines : List Request} {overflowed : Bool}
    (hd : c.doing = .draining ⟨r :: lines, overflowed⟩) :
    Subscribes { c with
      routed := true
      session := (c.session.handleFrame c.permissions r : _ × Outcome P E).1
      doing := .admitting (c.session.handleFrame c.permissions r).2 ⟨lines, overflowed⟩ } := by
  have hplain : ∀ f ∈ (c.session.handleFrame c.permissions r : _ × Outcome P E).2.replies,
      f.told? = none ∧ f.event? = none := by
    rw [V6Session.handleFrame_replies]
    simp [Frame.told?, Frame.event?]
  by_cases hh : c.session.handshaked = true
  · have hsession := V6Session.handleFrame_of_handshaked (E := E) hh c.permissions r
    have hmain : (c.session.handleFrame c.permissions r : _ × Outcome P E).1.isMain =
        c.session.isMain := by simp [hsession, V6Session.isMain]
    have htakes : c.admitted = true →
        (c.session.handleFrame c.permissions r : _ × Outcome P E).1.isMain = true →
        c.writing = true → c.TakesEvents :=
      fun h1 h2 h3 => ⟨h1, hmain ▸ h2, by simp [hd, Doing.hasEnded], h3⟩
    refine ⟨h.registered, fun _ => by simp [hsession, hh], fun _ => by simp [hsession, h.told hh],
      fun ht => h.subscribed (htakes ht.1 ht.2.1 ht.2.2.2), fun ht => ?_, ?_, fun hu => ?_,
      h.untold, h.settled, fun hw told seen hws => ?_, hplain, h.seen_le⟩
    · rcases h.watched (htakes ht.1 ht.2.1 ht.2.2.2) with hrun | ⟨o, chunk, hab⟩
      · exact Or.inl hrun
      · simp [hd] at hab
    · rintro ⟨o, chunk, hab⟩
      simp at hab
    · rcases hu with hr | ⟨o, chunk, hab⟩
      · exact h.unwatched (Or.inl hr)
      · simp at hab
    · have := h.last hw told seen hws
      simpa [lastTold, hsession, sent] using this
  · -- nothing is admitted, watched or told before the handshake
    have hreg : c.registered = false := by
      cases hr : c.registered with
      | false => rfl
      | true => exact absurd (h.handshaked hr) hh
    have hadm : c.admitted = false := by
      cases ha : c.admitted with
      | false => rfl
      | true => simp [h.registered ha] at hreg
    have hnone := h.unwatched (Or.inl hreg)
    refine ⟨h.registered, by simp [hreg], V6Session.handleFrame_told h.told _ _,
      fun ht => ?_, fun ht => ?_, ?_,
      fun _ => hnone, h.untold, by simp [hnone], by simp [hnone], hplain, by simp [hnone]⟩
    · exact absurd ht.1 (by simp [hadm])
    · exact absurd ht.1 (by simp [hadm])
    · rintro ⟨o, chunk, hab⟩
      simp at hab

theorem watched_subscribes {c : Conn P E} (h : Subscribes c) {o : Outcome P E} {chunk : Chunk}
    (hd : c.doing = .watching o chunk) :
    Subscribes { c with
      watch := match c.session.told with
        | some told => .checking told c.changes
        | none => c.watch
      doing := .replying o.replies o.close chunk } := by
  have hab : c.AboutToWatch := ⟨o, chunk, hd⟩
  have hreg := h.about hab
  obtain ⟨told, htold⟩ := Option.isSome_iff_exists.mp (h.told (h.handshaked hreg))
  have hnone := h.unwatched (Or.inr hab)
  simp only [htold]
  refine ⟨h.registered, h.handshaked, h.told, fun ht => ?_, fun _ => Or.inl rfl, ?_, ?_, by simp,
    by simp, fun _ told' seen hws => ?_,
    fun f hf => h.plain f (by simpa [repliesLeft, hd] using hf), fun t s hws => ?_⟩
  · exact h.subscribed ⟨ht.1, ht.2.1, by simp [hd, Doing.hasEnded], ht.2.2.2⟩
  · rintro ⟨o', chunk', hab'⟩
    simp at hab'
  · rintro (hr | ⟨o', chunk', hab'⟩)
    · simp [hreg] at hr
    · simp at hab'
  · obtain ⟨rfl, -⟩ : told = told' ∧ c.changes = seen := by simpa using hws
    simp only [lastTold, Server.lastTold, sent, htold]
    have := h.untold hnone
    rw [sent] at this
    simp [this]
  · obtain ⟨-, rfl⟩ : told = t ∧ c.changes = s := by simpa using hws
    exact Nat.le_refl _

theorem run_subscribes {c c' : Conn P E} {admits : Bool} (h : Subscribes c)
    (hs : c.run admits = some c') : Subscribes c' := by
  have hno : ∀ d, c.doing = d → (∀ o chunk, d ≠ .watching o chunk) → ¬ c.AboutToWatch := by
    rintro d hd hne ⟨o, chunk, hab⟩
    exact hne o chunk (hd.symm.trans hab)
  cases run_cases hs with
  | drained overflowed hd =>
    refine h.goto (fun _ => by simp [hd, Doing.hasEnded]) ?_ (hno _ hd (by simp)) ?_ <;>
      cases overflowed <;> simp [repliesLeft]
  | unroutable chunk hd =>
    exact h.goto (by simp [Doing.hasEnded]) (by simp) (hno _ hd (by simp)) (by simp [repliesLeft])
  | handled r lines overflowed hd => exact handled_subscribes h hd
  | refused o chunk hd hr hh =>
    have hnone := h.unwatched (Or.inl hr)
    have hadm : c.admitted = false := by
      cases ha : c.admitted with
      | false => rfl
      | true => simp [h.registered ha] at hr
    exact ⟨fun _ => rfl, fun _ => hh, h.told, fun ht => by simp [TakesEvents, hadm] at ht,
      fun ht => by simp [TakesEvents, hadm] at ht, fun _ => rfl, fun _ => hnone, h.untold,
      h.settled, h.last, by simp [repliesLeft], h.seen_le⟩
  | subscribed o chunk hd hr hm =>
    have hnone := h.unwatched (Or.inl hr)
    have hh : c.session.handshaked = true := by
      simp only [V6Session.isMain, Bool.and_eq_true] at hm
      exact hm.1
    exact ⟨fun _ => rfl, fun _ => hh, h.told, fun _ => rfl, fun _ => Or.inr ⟨o, chunk, rfl⟩,
      fun _ => rfl, fun _ => hnone, h.untold, h.settled, h.last,
      fun f hf => h.plain f (by simpa [repliesLeft, hd] using hf), h.seen_le⟩
  | auxiliary o chunk hd hr hh hm =>
    have hnone := h.unwatched (Or.inl hr)
    exact ⟨fun _ => rfl, fun _ => hh, h.told, fun ht => by simp [TakesEvents, hm] at ht,
      fun ht => by simp [TakesEvents, hm] at ht, fun _ => rfl, fun _ => hnone, h.untold,
      h.settled, h.last, fun f hf => h.plain f (by simpa [repliesLeft, hd] using hf), h.seen_le⟩
  | known o chunk hd hr =>
    exact h.goto (fun _ => by simp [hd, Doing.hasEnded]) (by simp) (hno _ hd (by simp))
      (by simp [repliesLeft, hd])
  | watched o chunk hd => exact watched_subscribes h hd
  | refuse hd =>
    refine h.congr (if c.writing then [.refusal] else []) rfl rfl rfl rfl rfl rfl ?_ ?_ id
      (by simp [Doing.hasEnded]) (by simp [Doing.hasEnded]) (by rintro ⟨_, _, hd'⟩; simp at hd')
      (fun hc => absurd hc (hno _ hd (by simp))) (by simp [repliesLeft])
    · simp only [sent, send]
      split <;> simp
    · split <;> simp [Frame.told?]
  | queued f replies close chunk hd hw =>
    exact h.congr [f] rfl rfl rfl rfl rfl rfl (by simp [sent])
      (by simpa using (h.plain f (by simp [repliesLeft, hd])).1) id
      (fun _ => by simp [hd, Doing.hasEnded]) (fun _ _ => id) (by rintro ⟨_, _, hd'⟩; simp at hd')
      (fun hc => absurd hc (hno _ hd (by simp))) (fun g hg => by simp_all [repliesLeft])
  | lost f replies close chunk hd hw =>
    exact h.goto (by simp [Doing.hasEnded]) (by simp) (hno _ hd (by simp)) (by simp [repliesLeft])
  | replied close chunk hd =>
    refine h.goto (fun _ => by simp [hd, Doing.hasEnded]) ?_ (hno _ hd (by simp)) ?_ <;>
      cases close <;> simp [repliesLeft]
  | unregister hd | drop hd | release hd | await hd _ =>
    exact h.congr [] rfl rfl rfl rfl rfl rfl (List.append_nil _).symm (by simp) id
      (by simp [Doing.hasEnded]) (by simp [Doing.hasEnded]) (by rintro ⟨_, _, hd'⟩; simp at hd')
      (fun hc => absurd hc (hno _ hd (by simp))) (by simp [repliesLeft])

variable [DecidableEq P]

theorem watch_subscribes {c c' : Conn P E} {closes : Bool} (h : Subscribes c)
    (hs : c.watchStep closes = some c') : Subscribes c' := by
  have hstarted : c.watch ≠ .notStarted → c.registered = true ∧ ¬ c.AboutToWatch := by
    intro hw
    refine ⟨?_, fun hab => hw (h.unwatched (Or.inr hab))⟩
    cases hr : c.registered with
    | true => rfl
    | false => exact absurd (h.unwatched (Or.inl hr)) hw
  rcases watchStep_cases hs with ⟨told, seen, hw, hsame, rfl⟩ | ⟨told, seen, hw, hne, hopen, rfl⟩ |
    ⟨hrunning, hclosed, rfl⟩ | ⟨told, seen, hw, hseen, rfl⟩
  · obtain ⟨hreg, hab⟩ := hstarted (by simp [hw])
    refine ⟨h.registered, h.handshaked, h.told, h.subscribed, fun _ => Or.inl rfl, h.about,
      fun hu => hu.elim (by simp [hreg]) (absurd · hab), by simp, fun t s hws _ => ?_,
      fun hwr t s hws => ?_, h.plain, fun t s hws => ?_⟩
    · obtain ⟨rfl, -⟩ : told = t ∧ seen = s := by simpa using hws
      exact hsame.symm
    · obtain ⟨rfl, rfl⟩ : told = t ∧ seen = s := by simpa using hws
      exact h.last hwr told seen (Or.inl hw)
    · obtain ⟨rfl, rfl⟩ : told = t ∧ seen = s := by simpa using hws
      exact h.seen_le told seen (Or.inl hw)
  · obtain ⟨hreg, hab⟩ := hstarted (by simp [hw])
    refine ⟨h.registered, h.handshaked, h.told, h.subscribed, fun _ => Or.inl rfl, h.about,
      fun hu => hu.elim (by simp [hreg]) (absurd · hab), by simp, fun t s hws _ => ?_,
      fun hwr t s hws => ?_, h.plain, fun t s hws => ?_⟩
    · obtain ⟨rfl, -⟩ : c.permissions = t ∧ seen = s := by simpa using hws
      rfl
    · obtain ⟨rfl, -⟩ : c.permissions = t ∧ seen = s := by simpa using hws
      have := lastTold_append_told c.sent c.session.told c.permissions
      simpa [lastTold, sent] using this
    · obtain ⟨-, rfl⟩ : c.permissions = t ∧ seen = s := by simpa using hws
      exact h.seen_le told seen (Or.inl hw)
  · obtain ⟨hreg, hab⟩ := hstarted (by intro hn; simp [hn, Watch.isRunning] at hrunning)
    exact ⟨h.registered, h.handshaked, h.told, h.subscribed,
      fun ht => by simp [TakesEvents, hclosed] at ht, h.about,
      fun hu => hu.elim (by simp [hreg]) (absurd · hab), by simp, by simp,
      by simp [hclosed], h.plain, by simp⟩
  · obtain ⟨hreg, hab⟩ := hstarted (by simp [hw])
    refine ⟨h.registered, h.handshaked, h.told, h.subscribed, fun _ => Or.inl rfl, h.about,
      fun hu => hu.elim (by simp [hreg]) (absurd · hab), by simp, by simp,
      fun hwr t s hws => ?_, h.plain, fun t s hws => ?_⟩
    · obtain ⟨rfl, -⟩ : told = t ∧ c.changes = s := by simpa using hws
      exact h.last hwr told seen (Or.inr hw)
    · obtain ⟨-, rfl⟩ : told = t ∧ c.changes = s := by simpa using hws
      exact Nat.le_refl _

/-- Every step keeps a subscriber subscribed and watched. -/
theorem step_subscribes (c : Conn P E) (event : Event P E) (c' : Conn P E) (h : Subscribes c)
    (hs : step c event = some c') : Subscribes c' := by
  cases event with
  | input chunk =>
    unfold step at hs
    cases hd : c.doing <;> simp only [hd, reduceCtorEq] at hs
    obtain rfl := Option.some.inj hs
    exact h.goto (by simp [hd, Doing.hasEnded]) (by simp) (fun ⟨_, _, hab⟩ => by simp [hd] at hab)
      (by simp [repliesLeft])
  | hangUp =>
    unfold step at hs
    cases hd : c.doing <;> simp only [hd, reduceCtorEq] at hs
    obtain rfl := Option.some.inj hs
    exact h.goto (by simp [Doing.hasEnded]) (by simp) (fun ⟨_, _, hab⟩ => by simp [hd] at hab)
      (by simp [repliesLeft])
  | run admits => exact run_subscribes h hs
  | write ok =>
    rcases write_cases hs with ⟨hw, ⟨f, queue, hq, rfl⟩ | ⟨rfl, -⟩⟩
    · exact h.congr [] rfl rfl rfl rfl rfl rfl (by simp [sent, hq]) (by simp) id id
        (fun _ _ => id) id (fun hab _ => hab) (fun _ => id)
    · -- the writer is gone, and with it what was not written yet
      refine ⟨h.registered, h.handshaked, h.told, by simp [TakesEvents], by simp [TakesEvents],
        h.about, h.unwatched, fun hn => ?_, h.settled, by simp, h.plain, h.seen_le⟩
      have := h.untold hn
      rw [sent, List.filterMap_append] at this
      simp [sent, (List.append_eq_nil_iff.mp this).1]
  | watch closes => exact watch_subscribes h hs
  | broadcast frames =>
    simp only [step] at hs
    split at hs
    · obtain rfl := Option.some.inj hs
      exact h
    · split at hs
      · obtain rfl := Option.some.inj hs
        refine h.congr (frames.map .event) rfl rfl rfl rfl rfl rfl (by simp [sent]) ?_ id id
          (fun _ _ => id) id (fun hab _ => hab) (fun _ => id)
        simp [Frame.told?]
      · rename_i hclosed
        obtain rfl := Option.some.inj hs
        exact h.congr [] rfl rfl rfl rfl rfl rfl (List.append_nil _).symm (by simp) id id
          (fun _ hw => absurd hw hclosed) id (fun hab _ => hab) (fun _ => id)
  | change permissions =>
    obtain rfl := Option.some.inj hs
    refine ⟨h.registered, h.handshaked, h.told, h.subscribed, h.watched, h.about, h.unwatched,
      h.untold, fun t s hws hseen => ?_, h.last, h.plain,
      fun t s hws => Nat.le_succ_of_le (h.seen_le t s hws)⟩
    have hle := h.seen_le t s (Or.inr hws)
    have hnew : s = c.changes + 1 := hseen
    omega

theorem reachable_subscribes {c : Conn P E} (hr : (system P E).Reachable c) : Subscribes c := by
  refine (system P E).reachable_induction (fun c hc => ?_) step_subscribes hr
  obtain ⟨permissions, changes, rfl⟩ := hc
  exact opened_subscribes permissions changes

/-! ## Delivery -/

/-- The frames an event broadcasts. -/
def Event.broadcasts : Event P E → List E
  | .broadcast frames => frames
  | _ => []

/-- What one step leaves of a connection that still takes events after it, its broadcasts on
the channel and no others. -/
def Delivers (c c' : Conn P E) (es : List E) : Prop :=
  c.doing.hasEnded = false ∧ c.writing = true ∧
    (c.admitted = true → c.session.isMain = true →
      c'.admitted = true ∧ c'.session.isMain = true ∧
      eventsOf c'.sent = eventsOf c.sent ++ es)

omit [DecidableEq P] in
/-- A step that puts nothing on the channel but replies and permissions. -/
theorem delivers_nothing {c c' : Conn P E} (more : List (Frame P E))
    (hended : c.doing.hasEnded = false) (hw : c.writing = true) (ha : c'.admitted = c.admitted)
    (hs : c'.session = c.session) (hsent : c'.sent = c.sent ++ more)
    (hmore : ∀ f ∈ more, f.event? = none) : Delivers c c' [] := by
  refine ⟨hended, hw, fun hadm hmain => ⟨ha.trans hadm, by rw [hs]; exact hmain, ?_⟩⟩
  rw [hsent, eventsOf_append, eventsOf, eventsOf, List.filterMap_eq_nil_iff.mpr hmore]

omit [DecidableEq P] in
theorem run_delivers {c c' : Conn P E} {admits : Bool} (h : Subscribes c)
    (hs : c.run admits = some c') (hended : c'.doing.hasEnded = false)
    (hw : c'.writing = true) : Delivers c c' [] := by
  cases run_cases hs with
  | drained overflowed hd =>
    exact delivers_nothing [] (by simp [hd, Doing.hasEnded]) hw rfl rfl (by simp [sent]) (by simp)
  | handled r lines overflowed hd =>
    refine ⟨by simp [hd, Doing.hasEnded], hw, fun hadm hmain => ⟨hadm, ?_, by simp [sent]⟩⟩
    have hh := h.handshaked (h.registered hadm)
    simpa [V6Session.handleFrame_of_handshaked (E := E) hh, V6Session.isMain] using hmain
  | refused o chunk hd hr hh =>
    exact delivers_nothing [] (by simp [hd, Doing.hasEnded]) hw rfl rfl (by simp [sent]) (by simp)
  | subscribed o chunk hd hr hm | auxiliary o chunk hd hr _ hm =>
    refine ⟨by simp [hd, Doing.hasEnded], hw, fun hadm => ?_⟩
    simp [h.registered hadm] at hr
  | known o chunk hd hr =>
    exact delivers_nothing [] (by simp [hd, Doing.hasEnded]) hw rfl rfl (by simp [sent]) (by simp)
  | watched o chunk hd =>
    exact delivers_nothing [] (by simp [hd, Doing.hasEnded]) hw rfl rfl (by simp [sent]) (by simp)
  | queued f replies close chunk hd hw' =>
    refine delivers_nothing [f] (by simp [hd, Doing.hasEnded]) hw' rfl rfl (by simp [sent]) ?_
    simpa using (h.plain f (by simp [repliesLeft, hd])).2
  | replied close chunk hd =>
    exact delivers_nothing [] (by simp [hd, Doing.hasEnded]) hw rfl rfl (by simp [sent]) (by simp)
  | unroutable | refuse | lost | unregister | drop | await | release =>
    simp [Doing.hasEnded] at hended

/-- **A broadcast goes on the channel.** -/
theorem step_delivers {c c' : Conn P E} {event : Event P E} (h : Subscribes c)
    (hs : step c event = some c') (hended : c'.doing.hasEnded = false)
    (hw : c'.writing = true) : Delivers c c' event.broadcasts := by
  cases event with
  | input chunk =>
    unfold step at hs
    cases hd : c.doing <;> simp only [hd, reduceCtorEq] at hs
    obtain rfl := Option.some.inj hs
    exact delivers_nothing [] (by simp [hd, Doing.hasEnded]) hw rfl rfl (by simp [sent]) (by simp)
  | hangUp =>
    unfold step at hs
    cases hd : c.doing <;> simp only [hd, reduceCtorEq] at hs
    obtain rfl := Option.some.inj hs
    simp [Doing.hasEnded] at hended
  | run admits => exact run_delivers h hs hended hw
  | write ok =>
    rcases write_cases hs with ⟨hw', ⟨f, queue, hq, rfl⟩ | ⟨rfl, -⟩⟩
    · exact delivers_nothing [] hended hw' rfl rfl (by simp [sent, hq]) (by simp)
    · simp at hw
  | watch closes =>
    rcases watchStep_cases hs with ⟨_, _, -, -, rfl⟩ | ⟨_, _, -, -, hopen, rfl⟩ | ⟨-, -, rfl⟩ |
      ⟨_, _, -, -, rfl⟩
    · exact delivers_nothing [] hended hw rfl rfl (by simp [sent]) (by simp)
    · exact delivers_nothing [.permissionsChanged c.permissions] hended hopen rfl rfl
        (by simp [sent]) (by simp [Frame.event?])
    · exact delivers_nothing [] hended hw rfl rfl (by simp [sent]) (by simp)
    · exact delivers_nothing [] hended hw rfl rfl (by simp [sent]) (by simp)
  | broadcast frames =>
    simp only [step] at hs
    split at hs
    · rename_i hsub
      obtain rfl := Option.some.inj hs
      refine ⟨hended, hw, fun hadm hmain => ?_⟩
      simp [h.subscribed ⟨hadm, hmain, hended, hw⟩] at hsub
    · split at hs
      · rename_i hopen
        obtain rfl := Option.some.inj hs
        refine ⟨hended, hopen, fun hadm hmain => ⟨hadm, hmain, ?_⟩⟩
        rw [show Conn.sent { c with queue := c.queue ++ frames.map .event } =
          c.sent ++ frames.map .event by simp [sent], eventsOf_append, eventsOf_map_event]
        rfl
      · rename_i hclosed
        obtain rfl := Option.some.inj hs
        exact absurd hw hclosed
  | change permissions =>
    obtain rfl := Option.some.inj hs
    exact delivers_nothing [] hended hw rfl rfl (by simp [sent]) (by simp)

/-- An ended loop stays ended, and an ended writer stays ended. -/
theorem exec_live {c c' : Conn P E} {events : List (Event P E)} (h : Subscribes c)
    (hexec : (system P E).exec c events = some c') (hended : c'.doing.hasEnded = false)
    (hw : c'.writing = true) : c.doing.hasEnded = false ∧ c.writing = true := by
  induction events generalizing c with
  | nil =>
    obtain rfl : c = c' := by simpa using hexec
    exact ⟨hended, hw⟩
  | cons event events ih =>
    rw [System.exec_cons] at hexec
    cases hn : (system P E).next c event with
    | none => simp [hn] at hexec
    | some d =>
      rw [hn] at hexec
      obtain ⟨h1, h2⟩ := ih (step_subscribes c event d h hn) hexec
      exact ⟨(step_delivers h hn h1 h2).1, (step_delivers h hn h1 h2).2.1⟩

/-- **No event is missed over TCP.** From any state in which a subscriber is admitted on, while
its loop goes on and its writer is there, the broadcasts of a run are what its channel holds
more at the end, each once and in their order. -/
theorem run_delivers_all {c c' : Conn P E} {events : List (Event P E)} (h : Subscribes c)
    (hadm : c.admitted = true) (hmain : c.session.isMain = true)
    (hexec : (system P E).exec c events = some c') (hended : c'.doing.hasEnded = false)
    (hw : c'.writing = true) :
    eventsOf c'.sent = eventsOf c.sent ++ events.flatMap Event.broadcasts := by
  induction events generalizing c with
  | nil =>
    obtain rfl : c = c' := by simpa using hexec
    simp
  | cons event events ih =>
    rw [System.exec_cons] at hexec
    cases hn : (system P E).next c event with
    | none => simp [hn] at hexec
    | some d =>
      rw [hn] at hexec
      have hsub := step_subscribes c event d h hn
      have hback := exec_live hsub hexec hended hw
      obtain ⟨hadm', hmain', hsent⟩ :=
        (step_delivers h hn hback.1 hback.2).2.2 hadm hmain
      rw [ih hsub hadm' hmain' hexec, hsent, List.flatMap_cons, List.append_assoc]

end Mbrc.Server.Conn
