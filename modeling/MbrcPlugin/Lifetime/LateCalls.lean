import MbrcPlugin.Lifetime.Jobs

/-!
# Host calls after a shutdown

`shutdown` joins the networking thread only.  A thread of its own that is still at work for the
core when `shutdown` returns makes its next host call into a host that is gone, unless the next
thing it does is to ask whether it may go on.
-/

namespace Mbrc.Lifetime

open Interaction Transition

/-! ## Quiet threads -/

def Call.IsHost : Call → Prop
  | .host _ => True
  | _ => False

/-- What a thread of a gone core is answered: it is stopping, and whether a core is initialized
is answered as `initialized` says, or not at all. -/
def Answers (initialized : Option Bool) : (c : Call) → Answer c → Prop
  | .isStopping, r => r = true
  | .isInitialized, r => initialized = some r
  | _, _ => True

/-- The thread has ended, or its next checks turn it away before it calls the host. -/
def Quiet (initialized : Option Bool) (job : Job Unit) : Prop :=
  job.WithinIf (Answers initialized) fun c => ¬c.IsHost

/-- What `is_initialized` answers; nothing while the lock is held. -/
def State.initialized (s : State) : Option Bool :=
  if s.holder = none then some s.current.isSome else none

theorem Quiet.of_none {initialized : Option Bool} {job : Job Unit} (h : Quiet initialized job) :
    Quiet none job := by
  apply Program.WithinIf.anti _ h
  intro c r hr
  cases c with
  | isInitialized => simp [Answers] at hr
  | _ => exact hr

/-- The next state of a thread and what it was answered. -/
def Answered (s : State) (core : Nat) : (c : Call) → Answer c → Prop
  | .isStopping, r => r = s.stopping core
  | .isInitialized, r => s.initialized = some r
  | _, _ => True

/-- **A step of a thread** is its next call, answered from the state. -/
theorem stepThread_cases {s s' : State} {i : Nat} {t : Thread} {reply : Reply}
    (h : stepThread s i t reply = some s') :
    ∃ c next r, t.rest = .call c next ∧ Answered s t.core c r ∧
      s'.threads = s.threads.set i { t with rest := next r } ∧ s'.current = s.current ∧
      s'.created = s.created ∧ s'.holder = s.holder ∧ s'.stopping = s.stopping ∧
      (s'.late = s.late ∨ c.IsHost ∧ s.Gone t.core) := by
  unfold stepThread at h
  split at h
  · simp at h
  case h_2 c next hrest =>
    obtain rfl := Option.some.inj h
    refine ⟨.host c, next, reply.ok, hrest, trivial, rfl, rfl, rfl, rfl, rfl, ?_⟩
    by_cases hgone : s.Gone t.core
    · exact .inr ⟨trivial, hgone⟩
    · exact .inl (if_neg hgone)
  case h_3 l next hrest =>
    obtain rfl := Option.some.inj h
    exact ⟨.lookup l, next, reply.ok, hrest, trivial, rfl, rfl, rfl, rfl, rfl, .inl rfl⟩
  case h_4 next hrest =>
    obtain rfl := Option.some.inj h
    exact ⟨.missingCovers, next, reply.paths, hrest, trivial, rfl, rfl, rfl, rfl, rfl, .inl rfl⟩
  case h_5 next hrest =>
    obtain rfl := Option.some.inj h
    exact ⟨.fallback, next, reply.paths, hrest, trivial, rfl, rfl, rfl, rfl, rfl, .inl rfl⟩
  case h_6 next hrest =>
    obtain rfl := Option.some.inj h
    exact ⟨.isStopping, next, s.stopping t.core, hrest, rfl, rfl, rfl, rfl, rfl, rfl, .inl rfl⟩
  case h_7 next hrest =>
    split at h
    · rename_i hholder
      obtain rfl := Option.some.inj h
      exact ⟨.isInitialized, next, s.current.isSome, hrest, if_pos hholder, rfl, rfl, rfl, rfl,
        rfl, .inl rfl⟩
    · simp at h
  case h_8 next hrest =>
    obtain rfl := Option.some.inj h
    exact ⟨.beginReconcile, next, !s.reconciling t.core, hrest, trivial, rfl, rfl, rfl, rfl, rfl,
      .inl rfl⟩
  case h_9 next hrest =>
    obtain rfl := Option.some.inj h
    exact ⟨.endReconcile, next, (), hrest, trivial, rfl, rfl, rfl, rfl, rfl, .inl rfl⟩
  case h_10 next hrest =>
    obtain rfl := Option.some.inj h
    exact ⟨.claimJob, next, !s.busy, hrest, trivial, rfl, rfl, rfl, rfl, rfl, .inl rfl⟩
  case h_11 next hrest =>
    obtain rfl := Option.some.inj h
    exact ⟨.releaseJob, next, (), hrest, trivial, rfl, rfl, rfl, rfl, rfl, .inl rfl⟩

/-! ## Orderly ends -/

/-- Where a shutdown returns, no thread of a core that is gone is before a host call; where a core
is initialized, no thread of an earlier one would take it for its own. -/
def Orderly (s : State) : Event → Prop
  | .returns => ∀ t ∈ s.threads, s.current ≠ some t.core → Quiet (some s.current.isSome) t.rest
  | .init => ∀ t ∈ s.threads, Quiet (some true) t.rest
  | _ => True

/-- Nothing was called late, and every thread of a gone core is quiet. -/
structure Inv (s : State) : Prop where
  late : s.late = []
  current : ∀ c, s.current = some c → c < s.created
  created : ∀ t ∈ s.threads, t.core < s.created
  stopped : ∀ c, s.holder = some (.stopNetworking c) → s.current = some c
  left : ∀ c joins, s.holder = some (.shutdown c joins) → s.current = none ∧ s.stopping c = true ∧
    c < s.created
  stopping : ∀ t ∈ s.threads, s.Gone t.core → s.stopping t.core = true
  quiet : ∀ t ∈ s.threads, s.Gone t.core → Quiet s.initialized t.rest

theorem inv_init : Inv State.init where
  late := rfl
  current c hc := by simp [State.init] at hc
  created t ht := by simp [State.init] at ht
  stopped c hc := by simp [State.init] at hc
  left c joins hc := by simp [State.init] at hc
  stopping t ht := by simp [State.init] at ht
  quiet t ht := by simp [State.init] at ht

/-- A networking task is of a core that is not gone. -/
theorem netCore_not_gone {s : State} (hi : Inv s) {c : Nat} (hc : s.netCore = some c) :
    ¬s.Gone c ∧ c < s.created := by
  unfold State.netCore at hc
  split at hc
  · exact ⟨fun hgone => hgone.1 hc, hi.current c hc⟩
  · split at hc
    · rename_i core hholder
      obtain rfl := Option.some.inj hc
      have hcurrent := hi.stopped core hholder
      exact ⟨fun hgone => hgone.1 hcurrent, hi.current core hcurrent⟩
    · rename_i core hholder
      obtain rfl := Option.some.inj hc
      exact ⟨fun hgone => hgone.2 true hholder, (hi.left core true hholder).2.2⟩
    · simp at hc

/-- A new thread of a core that is not gone. -/
theorem Inv.spawn {s : State} (hi : Inv s) {t : Thread} (hgone : ¬s.Gone t.core)
    (hcreated : t.core < s.created) : Inv { s with threads := t :: s.threads } where
  late := hi.late
  current := hi.current
  created := by
    intro u hu
    rcases List.mem_cons.mp hu with rfl | hu
    · exact hcreated
    · exact hi.created u hu
  stopped := hi.stopped
  left := hi.left
  stopping := by
    intro u hu hug
    rcases List.mem_cons.mp hu with rfl | hu
    · exact absurd hug hgone
    · exact hi.stopping u hu hug
  quiet := by
    intro u hu hug
    rcases List.mem_cons.mp hu with rfl | hu
    · exact absurd hug hgone
    · exact hi.quiet u hu hug

/-- Threads that are fewer. -/
theorem Inv.fewer {s : State} (hi : Inv s) {threads : List Thread}
    (hsub : ∀ t ∈ threads, t ∈ s.threads) : Inv { s with threads } where
  late := hi.late
  current := hi.current
  created t ht := hi.created t (hsub t ht)
  stopped := hi.stopped
  left := hi.left
  stopping t ht := hi.stopping t (hsub t ht)
  quiet t ht := hi.quiet t (hsub t ht)

/-- A flag of the initialized core, which no thread of a gone core reads. -/
theorem Inv.ofStopping {s : State} (hi : Inv s) {c : Nat} (hcurrent : s.current = some c)
    (hholder : s.holder = none) (net value : Bool) :
    Inv { s with net, stopping := Function.update s.stopping c value } where
  late := hi.late
  current := hi.current
  created := hi.created
  stopped := hi.stopped
  left core joins h := by simp [hholder] at h
  stopping t ht hgone := by
    have hne : t.core ≠ c := fun h => hgone.1 (h ▸ hcurrent)
    exact (Function.update_of_ne hne _ _).trans (hi.stopping t ht hgone)
  quiet := hi.quiet

/-- Networking is stopped: the lock is held, and nobody is told whether a core is initialized. -/
theorem Inv.stopped_networking {s : State} (hi : Inv s) {c : Nat} (hcurrent : s.current = some c)
    (hholder : s.holder = none) :
    Inv { s with
      net := false, holder := some (.stopNetworking c)
      stopping := Function.update s.stopping c true } where
  late := hi.late
  current := hi.current
  created := hi.created
  stopped core h := by
    obtain rfl : c = core := by simpa using h
    exact hcurrent
  left core joins h := by simp at h
  stopping t ht hgone := by
    have hne : t.core ≠ c := fun h => hgone.1 (h ▸ hcurrent)
    have hgone' : s.Gone t.core := ⟨hgone.1, by simp [hholder]⟩
    exact (Function.update_of_ne hne _ _).trans (hi.stopping t ht hgone')
  quiet t ht hgone := (hi.quiet t ht ⟨hgone.1, by simp [hholder]⟩).of_none

/-- The core is taken out. -/
theorem Inv.shut_down {s : State} (hi : Inv s) {c : Nat} (hcurrent : s.current = some c)
    (hholder : s.holder = none) :
    Inv { s with
      current := none, net := false, holder := some (.shutdown c s.net)
      stopping := Function.update s.stopping c true } := by
  have hne : ∀ t : Thread, State.Gone { s with
      current := none, net := false, holder := some (.shutdown c s.net)
      stopping := Function.update s.stopping c true } t.core → t.core ≠ c := by
    rintro t hgone rfl
    exact hgone.2 s.net rfl
  have hbefore : ∀ t : Thread, t.core ≠ c → s.Gone t.core := by
    intro t ht
    refine ⟨?_, by simp [hholder]⟩
    rw [hcurrent]
    exact fun h => ht (Option.some.inj h).symm
  refine ⟨hi.late, ?_, hi.created, ?_, ?_, ?_, ?_⟩
  · intro core h
    simp at h
  · intro core h
    simp at h
  · intro core joins h
    obtain ⟨rfl, -⟩ : c = core ∧ s.net = joins := by simpa using h
    exact ⟨rfl, Function.update_self .., hi.current c hcurrent⟩
  · intro t ht hgone
    have hc := hne t hgone
    exact (Function.update_of_ne hc _ _).trans (hi.stopping t ht (hbefore t hc))
  · intro t ht hgone
    exact (hi.quiet t ht (hbefore t (hne t hgone))).of_none

/-- The lock is given back: from here on the core that was taken out is gone. -/
theorem Inv.returned {s : State} (hi : Inv s) (ho : Orderly s .returns) :
    Inv { s with holder := none } where
  late := hi.late
  current := hi.current
  created := hi.created
  stopped core h := by simp at h
  left core joins h := by simp at h
  stopping t ht hgone := by
    by_cases hleft : ∃ joins, s.holder = some (.shutdown t.core joins)
    · obtain ⟨joins, hleft⟩ := hleft
      exact (hi.left t.core joins hleft).2.1
    · exact hi.stopping t ht ⟨hgone.1, fun joins h => hleft ⟨joins, h⟩⟩
  quiet t ht hgone := ho t ht hgone.1

/-- A step of one thread. -/
theorem inv_stepThread {s s' : State} {i : Nat} {t : Thread} {reply : Reply} (hi : Inv s)
    (ht : t ∈ s.threads) (h : stepThread s i t reply = some s') : Inv s' := by
  obtain ⟨c, next, r, hrest, hr, hthreads, hcurrent, hcreated, hholder, hstopping, hlate⟩ :=
    stepThread_cases h
  have hgone : ∀ core, s'.Gone core ↔ s.Gone core := by
    intro core
    simp only [State.Gone, hcurrent, hholder]
  have hinitialized : s'.initialized = s.initialized := by
    simp only [State.initialized, hcurrent, hholder]
  -- a quiet thread makes no host call, and stays quiet
  have hquiet : s.Gone t.core → ¬c.IsHost ∧ Quiet s.initialized (next r) := by
    intro hg
    have hq := hi.quiet t ht hg
    rw [hrest] at hq
    refine ⟨hq.1, hq.2 r ?_⟩
    cases c with
    | isStopping => exact (show r = s.stopping t.core from hr).trans (hi.stopping t ht hg)
    | isInitialized => exact hr
    | _ => trivial
  have hmem : ∀ u ∈ s'.threads, u ∈ s.threads ∨ u = { t with rest := next r } := by
    intro u hu
    rw [hthreads] at hu
    exact List.mem_or_eq_of_mem_set hu
  constructor
  · rcases hlate with hlate | ⟨hhost, hg⟩
    · rw [hlate, hi.late]
    · exact absurd hhost (hquiet hg).1
  · intro core hcore
    rw [hcurrent] at hcore
    rw [hcreated]
    exact hi.current core hcore
  · intro u hu
    rw [hcreated]
    rcases hmem u hu with hu | rfl
    · exact hi.created u hu
    · exact hi.created t ht
  · intro core hcore
    rw [hholder] at hcore
    rw [hcurrent]
    exact hi.stopped core hcore
  · intro core joins hcore
    rw [hholder] at hcore
    rw [hcurrent, hstopping, hcreated]
    exact hi.left core joins hcore
  · intro u hu hug
    rw [hgone] at hug
    rw [hstopping]
    rcases hmem u hu with hu | rfl
    · exact hi.stopping u hu hug
    · exact hi.stopping t ht hug
  · intro u hu hug
    rw [hgone] at hug
    rw [hinitialized]
    rcases hmem u hu with hu | rfl
    · exact hi.quiet u hu hug
    · exact (hquiet hug).2

/-- **One step.** -/
theorem inv_next {s s' : State} {e : Event} (hi : Inv s) (ho : Orderly s e)
    (hn : next s e = some s') : Inv s' := by
  cases e with
  | init =>
    simp only [next] at hn
    split at hn
    · rename_i h
      obtain rfl := Option.some.inj hn
      have hgone : ∀ t ∈ s.threads, s.Gone t.core := fun t _ => by simp [State.Gone, h]
      refine ⟨hi.late, ?_, ?_, ?_, ?_, ?_, ?_⟩
      · intro c hc
        obtain rfl := Option.some.inj hc
        exact Nat.lt_succ_self s.created
      · intro t ht
        exact (hi.created t ht).trans (Nat.lt_succ_self s.created)
      · intro c hc
        simp [h.1] at hc
      · intro c joins hc
        simp [h.1] at hc
      · intro t ht _
        have hne : t.core ≠ s.created := (hi.created t ht).ne
        exact (Function.update_of_ne hne _ _).trans (hi.stopping t ht (hgone t ht))
      · intro t ht _
        simpa [State.initialized, h.1] using ho t ht
    · simp at hn
  | startNetworking =>
    simp only [next] at hn
    split at hn
    · rename_i c hholder hcurrent
      split at hn
      · simp at hn
      · obtain rfl := Option.some.inj hn
        exact hi.ofStopping hcurrent hholder true false
    · simp at hn
  | beginStopping =>
    simp only [next] at hn
    split at hn
    · rename_i c hholder hcurrent
      obtain rfl := Option.some.inj hn
      exact hi.ofStopping hcurrent hholder s.net true
    · simp at hn
  | stopNetworking =>
    simp only [next] at hn
    split at hn
    · rename_i c hholder hcurrent
      split at hn
      · obtain rfl := Option.some.inj hn
        exact hi.stopped_networking hcurrent hholder
      · simp at hn
    · simp at hn
  | shutdown =>
    simp only [next] at hn
    split at hn
    · rename_i c hholder hcurrent
      obtain rfl := Option.some.inj hn
      exact hi.shut_down hcurrent hholder
    · simp at hn
  | returns =>
    simp only [next] at hn
    split at hn
    · split at hn
      · obtain rfl := Option.some.inj hn
        exact hi.returned ho
      · simp at hn
    · simp at hn
  | ffi storagePath call =>
    simp only [next] at hn
    split at hn
    · rename_i c hholder hcurrent
      obtain rfl := Option.some.inj hn
      exact hi.spawn (fun hgone => hgone.1 hcurrent) (hi.current c hcurrent)
    · simp at hn
  | task job =>
    obtain ⟨c, hc, rfl⟩ := Option.map_eq_some_iff.mp hn
    exact hi.spawn (netCore_not_gone hi hc).1 (netCore_not_gone hi hc).2
  | startupCheck =>
    obtain ⟨c, hc, rfl⟩ := Option.map_eq_some_iff.mp hn
    exact hi.spawn (netCore_not_gone hi hc).1 (netCore_not_gone hi hc).2
  | step i reply =>
    simp only [next] at hn
    split at hn
    · rename_i t ht
      exact inv_stepThread hi (List.mem_of_getElem? ht) hn
    · simp at hn
  | drop i =>
    simp only [next] at hn
    split at hn
    · rename_i t ht
      split at hn
      · obtain rfl := Option.some.inj hn
        exact hi.fewer fun u hu => List.mem_of_mem_eraseIdx hu
      · simp at hn
    · simp at hn

/-! ## The results -/

/-- A check for updates that the panel asked for, and a shutdown before its thread was scheduled:
it asks first, and ends. -/
def checkThenShutdown : List Event :=
  let reply : Reply := ⟨true, []⟩
  [.init, .ffi "mb_remote" .checkForUpdate, .step 0 reply, .step 0 reply, .step 0 reply,
    .shutdown, .returns, .step 0 reply, .step 0 reply]

/-- The thread of the check, before its first question. -/
theorem quiet_spawnPublishing (work : Job Unit) : Quiet (some false) (spawnPublishing work) := by
  refine ⟨id, fun r hr => ?_⟩
  obtain rfl : false = r := Option.some.inj hr
  exact ⟨id, fun _ _ => trivial⟩

/-- **A cover build is never quiet.** It stops between two albums when it is told to, and then
reports the end of the pass to the host. -/
theorem coverBuild_not_quiet (initialized : Option Bool) (paths : List String) :
    ¬Quiet initialized (do
      locateEach paths
      fallBack (← .call .fallback .done)
      tell .setBackgroundTaskMessage
      endReconcile
      notifyReconcile) := by
  intro h
  cases paths with
  | nil => exact (h.2 [] trivial).1 trivial
  | cons path paths => exact ((h.2 true rfl).2 [] trivial).1 trivial

/-- A library switch, and a shutdown while the pass is before the album scan. -/
def switchThenShutdown : List Event :=
  let reply : Reply := ⟨true, []⟩
  [.init, .ffi "mb_remote" (.notification .librarySwitched), .step 0 reply, .step 0 reply,
    .step 0 reply, .shutdown, .returns, .step 0 reply]

end Mbrc.Lifetime
