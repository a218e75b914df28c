import MbrcPlugin.Server.Networking

/-!
# A stop ends the networking

`Sound` ties the networking thread to the call that holds the state lock, in every reachable
state: networking that is stored as running is up, and a thread that is being stopped either
has seen the signal or still stands where it can lose it.  A stop that signals once the
thread's wait exists is always followed by a way to its end (`stop_ends`), and one that signals
before is lost for good (`Lost`).
-/

namespace Mbrc.Server.Networking

open Transition

/-- How far the bind is, for a start that waits for it. -/
def Binding (thread : NetThread) : Option Bool → Prop
  | none => thread = .building ∨ thread = .binding ∨ thread = .reporting
  | some true => thread.isUp = true
  | some false => thread = .dropping ∨ thread = .ended

/-- What the thread does while the call does what it does. -/
def Sound (s : Networking) : Prop :=
  match s.caller with
  | .idle => if s.net then s.thread.isUp = true else s.thread = .ended
  | .starting => s.net = false ∧ Binding s.thread s.ready
  | .failing => s.net = false ∧ (s.thread = .dropping ∨ s.thread = .ended)
  | .stopping => s.net = false ∧ s.thread.isUp = true
  | .joining => s.net = false ∧ (s.thread.sawStop = true ∨ s.thread.isUp = true)

theorem enter_sound {s s' : Networking} {call : HostCall} {spawns : Bool} (h : Sound s)
    (hs : s.enter call spawns = some s') : Sound s' := by
  unfold enter at hs
  split at hs
  · simp at hs
  · rename_i hidle
    have hcaller : s.caller = .idle := by simpa using hidle
    simp only [Sound, hcaller] at h
    cases call with
    | initCore =>
      obtain rfl := Option.some.inj hs
      simpa [Sound, hcaller] using h
    | startNetworking =>
      simp only at hs
      split at hs
      · obtain rfl := Option.some.inj hs
        simpa [Sound, hcaller] using h
      · rename_i hgo
        obtain rfl := Option.some.inj hs
        have hnet : s.net = false := by
          cases hn : s.net with
          | false => rfl
          | true => simp [hn] at hgo
        exact ⟨hnet, Or.inl rfl⟩
    | stopNetworking =>
      simp only at hs
      split at hs <;> obtain rfl := Option.some.inj hs
      · rename_i hrun
        have hnet : s.net = true := by simp_all
        rw [if_pos hnet] at h
        exact ⟨rfl, h⟩
      · simpa [Sound, hcaller] using h
    | shutdown =>
      simp only at hs
      split at hs <;> obtain rfl := Option.some.inj hs
      · rename_i hrun
        have hnet : s.net = true := by simp_all
        rw [if_pos hnet] at h
        exact ⟨rfl, h⟩
      · simpa [Sound, hcaller] using h

theorem notified_sawStop_or_isUp {t : NetThread} (h : t.isUp = true) :
    t.notified.sawStop = true ∨ t.notified.isUp = true := by
  cases t <;> simp_all [NetThread.isUp, NetThread.notified, NetThread.sawStop]

theorem proceed_sound {s s' : Networking} (h : Sound s) (hs : s.proceed = some s') :
    Sound s' := by
  unfold proceed at hs
  cases hcaller : s.caller with
  | idle => simp [hcaller] at hs
  | starting =>
    simp only [Sound, hcaller] at h
    obtain ⟨hnet, hbind⟩ := h
    cases hready : s.ready with
    | none =>
      simp only [hcaller, hready] at hs hbind
      split at hs
      · rename_i hended
        simp [hended, Binding] at hbind
      · simp at hs
    | some bound =>
      cases bound <;> simp only [hcaller, hready, Option.some.injEq] at hs hbind <;> subst hs
      · exact ⟨hnet, hbind⟩
      · show if true then s.thread.isUp = true else s.thread = .ended
        rw [if_pos rfl]
        exact hbind
  | stopping =>
    simp only [Sound, hcaller] at h
    simp only [hcaller, Option.some.injEq] at hs
    subst hs
    exact ⟨h.1, notified_sawStop_or_isUp h.2⟩
  | failing | joining =>
    simp only [Sound, hcaller] at h
    simp only [hcaller] at hs
    split at hs
    · rename_i hended
      obtain rfl := Option.some.inj hs
      simp [Sound, h.1, hended]
    · simp at hs

/-- A step of the thread that leaves the ready channel alone. -/
theorem Sound.goto {s : Networking} (h : Sound s) {t : NetThread} (m : MdnsTask) (b : Nat)
    (hup : s.thread.isUp = true → t.isUp = true)
    (hsaw : s.thread.sawStop = true → t.sawStop = true)
    (hdrop : s.thread = .dropping ∨ s.thread = .ended → t = .dropping ∨ t = .ended)
    (hbind : Binding s.thread none → Binding t none) (hne : s.thread ≠ .ended) :
    Sound { s with thread := t, mdns := m, busy := b } := by
  unfold Sound at h ⊢
  cases hcaller : s.caller <;> simp only [hcaller] at h ⊢
  · cases hnet : s.net
    · rw [hnet, if_neg (by decide)] at h
      exact absurd h hne
    · rw [hnet, if_pos rfl] at h
      rw [if_pos rfl]
      exact hup h
  · refine ⟨h.1, ?_⟩
    cases hready : s.ready with
    | none => exact hbind (hready ▸ h.2)
    | some bound =>
      rw [hready] at h
      cases bound with
      | true => exact hup h.2
      | false => exact hdrop h.2
  · exact ⟨h.1, hdrop h.2⟩
  · exact ⟨h.1, hup h.2⟩
  · exact ⟨h.1, h.2.imp hsaw hup⟩

/-- A thread that has not reported yet is waited for by its start. -/
theorem Sound.starting {s : Networking} (h : Sound s) (hup : s.thread.isUp = false)
    (hsaw : s.thread.sawStop = false) :
    s.caller = .starting ∧ s.net = false ∧ s.ready = none := by
  have hlate : s.thread ≠ .dropping ∧ s.thread ≠ .ended := by
    constructor <;> intro ht <;> simp [ht, NetThread.sawStop] at hsaw
  unfold Sound at h
  cases hcaller : s.caller <;> simp only [hcaller] at h
  · split at h
    · simp [h] at hup
    · exact absurd h hlate.2
  · refine ⟨rfl, h.1, ?_⟩
    cases hready : s.ready with
    | none => rfl
    | some bound =>
      rw [hready] at h
      exfalso
      cases bound with
      | true =>
        have hbound : s.thread.isUp = true := h.2
        simp [hbound] at hup
      | false => exact absurd h.2 (not_or.mpr hlate)
  · exact absurd h.2 (not_or.mpr hlate)
  · simp [h.2] at hup
  · simp [hup, hsaw] at h

theorem runThread_sound {s s' : Networking} {ok : Bool} {jobs : Nat} (h : Sound s)
    (hs : s.runThread ok jobs = some s') : Sound s' := by
  unfold runThread at hs
  cases ht : s.thread with
  | building | binding =>
    obtain ⟨hcaller, hnet, hready⟩ := h.starting (by rw [ht]; rfl) (by rw [ht]; rfl)
    simp only [ht] at hs
    split at hs <;> obtain rfl := Option.some.inj hs <;>
      simp [Sound, hcaller, hnet, hready, Binding]
  | reporting =>
    obtain ⟨hcaller, hnet, hready⟩ := h.starting (by rw [ht]; rfl) (by rw [ht]; rfl)
    simp only [ht, Option.some.injEq] at hs
    subst hs
    simp [Sound, hcaller, hnet, Binding, NetThread.isUp]
  | advertising | spawning | selecting | aborting =>
    simp only [ht, Option.some.injEq] at hs
    subst hs
    apply h.goto <;> simp [ht, NetThread.isUp, NetThread.sawStop, Binding]
  | waiting woken =>
    simp only [ht] at hs
    split at hs
    · rename_i hwoken
      obtain rfl := Option.some.inj hs
      apply h.goto <;> simp [ht, hwoken, NetThread.isUp, NetThread.sawStop, Binding]
    · simp at hs
  | withdrawing | dropping =>
    simp only [ht] at hs
    split at hs
    · obtain rfl := Option.some.inj hs
      apply h.goto <;> simp [ht, NetThread.isUp, NetThread.sawStop, Binding]
    · simp at hs
  | ended => simp [ht] at hs

/-- How much of its way the mDNS task has before it. -/
def mdnsLeft : MdnsTask → Nat
  | .starting => 4
  | .registered => 3
  | .waiting _ => 2
  | .withdrawing => 1
  | .absent | .ended => 0

theorem runMdns_cases {s s' : Networking} {ok : Bool} (hs : s.runMdns ok = some s') :
    ∃ m, mdnsLeft m < mdnsLeft s.mdns ∧ s' = { s with mdns := m } := by
  unfold runMdns at hs
  split at hs
  case h_1 hm =>
    refine ⟨_, ?_, (Option.some.inj hs).symm⟩
    cases ok <;> simp [hm, mdnsLeft]
  case h_2 hm | h_3 hm | h_4 hm =>
    exact ⟨_, by simp [hm, mdnsLeft], (Option.some.inj hs).symm⟩
  all_goals simp at hs

/-- A step that leaves the call, the handle and the ready channel alone, and the thread where it
stands. -/
theorem Sound.aside {s : Networking} (h : Sound s) (m : MdnsTask) (b : Nat) :
    Sound { s with mdns := m, busy := b } := h

theorem step_sound (s : Networking) (event : Event) (s' : Networking) (h : Sound s)
    (hs : step s event = some s') : Sound s' := by
  cases event with
  | enter call spawns => exact enter_sound h hs
  | proceed => exact proceed_sound h hs
  | thread ok jobs => exact runThread_sound h hs
  | mdns ok =>
    obtain ⟨m, -, rfl⟩ := runMdns_cases hs
    exact h.aside m s.busy
  | timeout =>
    simp only [step] at hs
    split at hs
    · rename_i ht
      obtain rfl := Option.some.inj hs
      apply h.goto <;> simp [ht, NetThread.isUp, NetThread.sawStop, Binding]
    · simp at hs
  | workStarts =>
    simp only [step] at hs
    split at hs
    · obtain rfl := Option.some.inj hs
      exact h.aside s.mdns _
    · simp at hs
  | workReturns =>
    simp only [step] at hs
    split at hs
    · simp at hs
    · obtain rfl := Option.some.inj hs
      exact h.aside s.mdns _

theorem reachable_sound {s : Networking} (hr : system.Reachable s) : Sound s := by
  refine system.reachable_induction (fun s hs => ?_) step_sound hr
  subst hs
  rfl

/-! ## The way to the end -/

/-- The steps that are left once nobody calls and no new work comes: of the thread, of the mDNS
task, of the call that waits, of the clock, and host calls that return. -/
def own : Event → Prop
  | .enter _ _ | .workStarts => False
  | _ => True

/-- A stop gives its signal once the thread's wait exists. -/
def InTime (s : Networking) : Event → Prop
  | .proceed => s.caller = .stopping → s.thread.hasWait = true
  | _ => True

/-- A stop was asked for, and its signal is yet to come or was seen. -/
def Stopping (s : Networking) : Prop :=
  (s.caller = .stopping ∧ s.thread.isUp = true) ∨
    (s.caller = .joining ∧ s.thread.sawStop = true)

/-- The join has returned. -/
def Stopped (s : Networking) : Prop := s.caller = .idle ∧ s.thread = .ended

/-- There is a way to the end. -/
def StopEnds (s : Networking) : Prop :=
  ∃ events t, (∀ event ∈ events, own event) ∧ system.exec s events = some t ∧ Stopped t

/-- How much of its way the thread has before it. -/
def threadLeft : NetThread → Nat
  | .building => 9
  | .binding => 8
  | .reporting => 7
  | .advertising => 7
  | .spawning => 6
  | .selecting => 5
  | .waiting _ => 4
  | .withdrawing => 3
  | .aborting => 2
  | .dropping => 1
  | .ended => 0

def callerLeft : Caller → Nat
  | .stopping => 2
  | .joining => 1
  | _ => 0

/-- What is left to do until the join returns. -/
def distance (s : Networking) : Nat :=
  threadLeft s.thread + mdnsLeft s.mdns + s.busy + callerLeft s.caller

theorem mdnsLeft_notified (m : MdnsTask) : mdnsLeft m.notified = mdnsLeft m := by
  cases m <;> rfl

/-- While a stop is under way some step leads on. -/
theorem closer {s : Networking} (h : Stopping s) :
    ∃ event s', own event ∧ step s event = some s' ∧ (Stopping s' ∨ Stopped s') ∧
      distance s' < distance s := by
  rcases h with ⟨hcaller, hup⟩ | ⟨hcaller, hsaw⟩
  · cases ht : s.thread with
    | advertising =>
      refine ⟨.thread false 0, { s with thread := .spawning, mdns := .absent }, trivial,
        by simp [step, runThread, ht], Or.inl (Or.inl ⟨hcaller, rfl⟩), ?_⟩
      simp only [distance, threadLeft, mdnsLeft, ht]
      omega
    | spawning =>
      refine ⟨.thread true 0, { s with thread := .selecting }, trivial,
        by simp [step, runThread, ht], Or.inl (Or.inl ⟨hcaller, rfl⟩), ?_⟩
      simp only [distance, threadLeft, ht]
      omega
    | selecting =>
      refine ⟨.thread true 0, { s with thread := .waiting false }, trivial,
        by simp [step, runThread, ht], Or.inl (Or.inl ⟨hcaller, rfl⟩), ?_⟩
      simp only [distance, threadLeft, ht]
      omega
    | waiting woken =>
      refine ⟨.proceed, { s with
          caller := .joining, thread := .waiting true, mdns := s.mdns.notified }, trivial,
        by simp [step, proceed, hcaller, ht, NetThread.notified],
        Or.inl (Or.inr ⟨rfl, rfl⟩), ?_⟩
      simp only [distance, threadLeft, mdnsLeft_notified, callerLeft, ht, hcaller]
      omega
    | building | binding | reporting | withdrawing | aborting | dropping | ended =>
      simp [ht, NetThread.isUp] at hup
  · cases ht : s.thread with
    | waiting woken =>
      obtain rfl : woken = true := by simpa [ht, NetThread.sawStop] using hsaw
      refine ⟨.thread true 0, { s with thread := .withdrawing }, trivial,
        by simp [step, runThread, ht], Or.inl (Or.inr ⟨hcaller, rfl⟩), ?_⟩
      simp only [distance, threadLeft, ht]
      omega
    | withdrawing =>
      -- the grace ends the wait for the advertisement, whatever its task does
      refine ⟨.timeout, { s with thread := .aborting }, trivial, by simp [step, ht],
        Or.inl (Or.inr ⟨hcaller, rfl⟩), ?_⟩
      simp only [distance, threadLeft, ht]
      omega
    | aborting =>
      refine ⟨.thread true 0, { s with thread := .dropping }, trivial,
        by simp [step, runThread, ht], Or.inl (Or.inr ⟨hcaller, rfl⟩), ?_⟩
      simp only [distance, threadLeft, ht]
      omega
    | dropping =>
      by_cases hbusy : s.busy = 0
      · refine ⟨.thread true 0, { s with thread := .ended, mdns := .ended }, trivial,
          by simp [step, runThread, ht, hbusy], Or.inl (Or.inr ⟨hcaller, rfl⟩), ?_⟩
        simp only [distance, threadLeft, mdnsLeft, ht]
        omega
      · refine ⟨.workReturns, { s with busy := s.busy - 1 }, trivial, by simp [step, hbusy],
          Or.inl (Or.inr ⟨hcaller, hsaw⟩), ?_⟩
        simp only [distance]
        omega
    | ended =>
      refine ⟨.proceed, { s with caller := .idle }, trivial, by simp [step, proceed, hcaller, ht],
        Or.inr ⟨rfl, ht⟩, ?_⟩
      simp only [distance, callerLeft, hcaller]
      omega
    | building | binding | reporting | advertising | spawning | selecting =>
      simp [ht, NetThread.sawStop] at hsaw

theorem Stopping.ends {s : Networking} (h : Stopping s) : StopEnds s := by
  have hprog : ∀ s, (Stopping s ∨ Stopped s) → ¬ Stopped s → ∃ event s', own event ∧
      system.next s event = some s' ∧ (Stopping s' ∨ Stopped s') ∧ distance s' < distance s :=
    fun s hs hnot => closer (hs.resolve_right hnot)
  obtain ⟨events, t, hown, hexec, -, hstopped⟩ := system.progress distance hprog (Or.inl h)
  exact ⟨events, t, hown, hexec, hstopped⟩

/-- A thread that has seen the signal goes on having seen it until the join returns. -/
theorem step_sawStop {s s' : Networking} {event : Event} (hcaller : s.caller = .joining)
    (hsaw : s.thread.sawStop = true) (hs : step s event = some s') :
    s'.thread.sawStop = true ∧ (event ≠ .proceed → s'.caller = .joining) := by
  cases event with
  | enter call spawns => simp [step, enter, hcaller] at hs
  | proceed =>
    simp only [step, proceed, hcaller] at hs
    split at hs
    · obtain rfl := Option.some.inj hs
      exact ⟨hsaw, fun hne => absurd rfl hne⟩
    · simp at hs
  | thread ok jobs =>
    simp only [step, runThread] at hs
    cases ht : s.thread <;> simp only [ht, NetThread.sawStop, Bool.false_eq_true] at hs hsaw
    · simp only [hsaw, if_true, Option.some.injEq] at hs
      subst hs
      exact ⟨rfl, fun _ => hcaller⟩
    · split at hs
      · obtain rfl := Option.some.inj hs
        exact ⟨rfl, fun _ => hcaller⟩
      · simp at hs
    · obtain rfl := Option.some.inj hs
      exact ⟨rfl, fun _ => hcaller⟩
    · split at hs
      · obtain rfl := Option.some.inj hs
        exact ⟨rfl, fun _ => hcaller⟩
      · simp at hs
    · simp at hs
  | mdns ok =>
    obtain ⟨m, -, rfl⟩ := runMdns_cases hs
    exact ⟨hsaw, fun _ => hcaller⟩
  | timeout =>
    simp only [step] at hs
    split at hs
    · obtain rfl := Option.some.inj hs
      exact ⟨rfl, fun _ => hcaller⟩
    · simp at hs
  | workStarts =>
    simp only [step] at hs
    split at hs
    · obtain rfl := Option.some.inj hs
      exact ⟨hsaw, fun _ => hcaller⟩
    · simp at hs
  | workReturns =>
    simp only [step] at hs
    split at hs
    · simp at hs
    · obtain rfl := Option.some.inj hs
      exact ⟨hsaw, fun _ => hcaller⟩

/-- A join comes from the signal just given, or goes on. -/
theorem joining_of_step {s s' : Networking} {event : Event} (hs : step s event = some s')
    (hcaller : s'.caller = .joining) :
    s.caller = .joining ∨
      (event = .proceed ∧ s.caller = .stopping ∧ s'.thread = s.thread.notified) := by
  cases event with
  | enter call spawns =>
    exfalso
    simp only [step, enter] at hs
    split at hs
    · simp at hs
    · cases call <;> simp only at hs <;> try split at hs
      all_goals
        obtain rfl := Option.some.inj hs
        simp_all
  | proceed =>
    simp only [step, proceed] at hs
    cases hc : s.caller <;> simp only [hc] at hs
    · simp at hs
    · split at hs
      · obtain rfl := Option.some.inj hs
        simp at hcaller
      · obtain rfl := Option.some.inj hs
        simp at hcaller
      · split at hs
        · obtain rfl := Option.some.inj hs
          simp at hcaller
        · simp at hs
    · split at hs
      · obtain rfl := Option.some.inj hs
        simp at hcaller
      · simp at hs
    · obtain rfl := Option.some.inj hs
      exact Or.inr ⟨rfl, rfl, rfl⟩
    · exact Or.inl rfl
  | thread ok jobs =>
    left
    simp only [step, runThread] at hs
    split at hs <;> try split at hs
    all_goals first | (obtain rfl := Option.some.inj hs; exact hcaller) | simp at hs
  | mdns ok =>
    obtain ⟨m, -, rfl⟩ := runMdns_cases hs
    exact Or.inl hcaller
  | timeout | workStarts | workReturns =>
    left
    simp only [step] at hs
    split at hs
    all_goals first | (obtain rfl := Option.some.inj hs; exact hcaller) | simp at hs

/-- In a run whose stops are in time a join goes with a thread that has seen the signal. -/
theorem along_sawStop {s : Networking} {events : List Event}
    (hC : system.Along InTime initial events) (hexec : system.exec initial events = some s) :
    Sound s ∧ (s.caller = .joining → s.thread.sawStop = true) := by
  have hstep : ∀ (s : Networking) event s',
      (Sound s ∧ (s.caller = .joining → s.thread.sawStop = true)) → InTime s event →
      system.next s event = some s' →
      Sound s' ∧ (s'.caller = .joining → s'.thread.sawStop = true) := by
    intro s event s' ⟨h, hjoin⟩ hin hs
    refine ⟨step_sound s event s' h hs, fun hcaller => ?_⟩
    rcases joining_of_step hs hcaller with hc | ⟨rfl, hc, hthread⟩
    · exact (step_sawStop hc (hjoin hc) hs).1
    · have hup : s.thread.isUp = true := by
        simp only [Sound, hc] at h
        exact h.2
      have hwait := hin hc
      rw [hthread]
      cases ht : s.thread <;>
        simp_all [NetThread.isUp, NetThread.hasWait, NetThread.notified, NetThread.sawStop]
  have hstart : Sound initial ∧ (initial.caller = .joining → initial.thread.sawStop = true) :=
    ⟨rfl, by simp [initial]⟩
  exact system.exec_induction hstep hstart hC hexec

/-! ## The lost signal -/

/-- The join waits for a thread that was not woken. -/
def Lost (s : Networking) : Prop := s.caller = .joining ∧ s.thread.isUp = true

/-- A lost signal stays lost: the thread goes to its wait and stays there. -/
theorem step_lost (s : Networking) (event : Event) (s' : Networking) (h : Lost s)
    (hs : step s event = some s') : Lost s' := by
  obtain ⟨hcaller, hup⟩ := h
  cases event with
  | enter call spawns => simp [step, enter, hcaller] at hs
  | proceed =>
    have hnot : s.thread ≠ .ended := by
      intro ht
      simp [ht, NetThread.isUp] at hup
    simp [step, proceed, hcaller, hnot] at hs
  | thread ok jobs =>
    simp only [step, runThread] at hs
    cases ht : s.thread <;> simp only [ht, NetThread.isUp, Bool.false_eq_true] at hs hup
    · obtain rfl := Option.some.inj hs
      exact ⟨hcaller, rfl⟩
    · obtain rfl := Option.some.inj hs
      exact ⟨hcaller, rfl⟩
    · obtain rfl := Option.some.inj hs
      exact ⟨hcaller, rfl⟩
    · rename_i woken
      cases woken <;> simp at hs hup
  | mdns ok =>
    obtain ⟨m, -, rfl⟩ := runMdns_cases hs
    exact ⟨hcaller, hup⟩
  | timeout =>
    simp only [step] at hs
    split at hs
    · rename_i ht
      simp [ht, NetThread.isUp] at hup
    · simp at hs
  | workStarts =>
    simp only [step] at hs
    split at hs
    · obtain rfl := Option.some.inj hs
      exact ⟨hcaller, hup⟩
    · simp at hs
  | workReturns =>
    simp only [step] at hs
    split at hs
    · simp at hs
    · obtain rfl := Option.some.inj hs
      exact ⟨hcaller, hup⟩

theorem Lost.not_ends {s : Networking} (h : Lost s) : ¬ StopEnds s := by
  rintro ⟨events, t, -, hexec, hstopped⟩
  have hlost := system.exec_induction (C := fun _ _ => True)
    (fun s event s' h _ => step_lost s event s' h) h (system.along_true s events) hexec
  have hjoining := hlost.1
  simp [hstopped.1] at hjoining

/-- **When a stop ends.** In a run whose stops give their signal once the thread's wait exists,
a stop that was asked for has a way to its end in every state.  And it is only so: whatever is
done after the signal of a stop leaves such a way, exactly when the wait existed at the signal. -/
theorem stop_ends (run : List Event) (s : Networking) (hexec : system.exec initial run = some s) :
    (system.Along InTime initial run → s.caller = .stopping ∨ s.caller = .joining →
      StopEnds s) ∧
    (∀ s', s.caller = .stopping → step s .proceed = some s' →
      ((∀ events t, (∀ event ∈ events, event ≠ .proceed) → system.exec s' events = some t →
        StopEnds t) ↔ s.thread.hasWait = true)) := by
  constructor
  · intro hC hcaller
    obtain ⟨h, hjoin⟩ := along_sawStop hC hexec
    apply Stopping.ends
    rcases hcaller with hc | hc
    · simp only [Sound, hc] at h
      exact Or.inl ⟨hc, h.2⟩
    · exact Or.inr ⟨hc, hjoin hc⟩
  · intro s' hcaller hs
    have h := reachable_sound ⟨_, _, rfl, hexec⟩
    simp only [Sound, hcaller] at h
    simp only [step, proceed, hcaller, Option.some.injEq] at hs
    subst hs
    constructor
    · intro hends
      by_contra hno
      refine Lost.not_ends ⟨rfl, ?_⟩ (hends [] _ (by simp) rfl)
      obtain ⟨-, hup⟩ := h
      show s.thread.notified.isUp = true
      cases ht : s.thread <;>
        simp_all [NetThread.isUp, NetThread.hasWait, NetThread.notified]
    · intro hwait events t hevents hexec
      have hsaw : s.thread.notified.sawStop = true := by
        obtain ⟨-, hup⟩ := h
        cases ht : s.thread <;>
          simp_all [NetThread.isUp, NetThread.hasWait, NetThread.notified, NetThread.sawStop]
      have hstep : ∀ (s : Networking) event s',
          (s.caller = .joining ∧ s.thread.sawStop = true) → event ≠ .proceed →
          system.next s event = some s' → s'.caller = .joining ∧ s'.thread.sawStop = true :=
        fun s event s' hj hne hs =>
          ⟨(step_sawStop hj.1 hj.2 hs).2 hne, (step_sawStop hj.1 hj.2 hs).1⟩
      have := system.exec_induction hstep ⟨rfl, hsaw⟩ (system.along_of_forall _ hevents) hexec
      exact Stopping.ends (Or.inr this)

/-- A start that answers as soon as its thread has bound. -/
def boundOnly : List Event :=
  [.enter .initCore true, .enter .startNetworking true, .thread true 0, .thread true 0,
    .thread true 0, .proceed]

/-- A stop right after the start's answer finds no wait to wake. -/
theorem early_stop_is_lost : ¬ ∀ s, system.Reachable s → s.caller = .joining → StopEnds s := by
  intro hall
  obtain ⟨s, hs, hcaller, hup⟩ : ∃ s, system.exec initial
      (boundOnly ++ [.enter .stopNetworking true, .proceed]) = some s ∧ s.caller = .joining ∧
      s.thread.isUp = true := ⟨_, rfl, rfl, rfl⟩
  exact Lost.not_ends ⟨hcaller, hup⟩ (hall s ⟨_, _, rfl, hs⟩ hcaller)

/-- A stop of networking that is up comes to its end. -/
theorem stop_ends_whenUp : ∃ s, system.exec initial (boundOnly ++ [.thread true 0, .thread true 1,
      .thread true 0, .enter .stopNetworking true, .proceed]) = some s ∧ StopEnds s := by
  obtain ⟨s, hs, hcaller⟩ : ∃ s, system.exec initial (boundOnly ++ [.thread true 0,
      .thread true 1, .thread true 0, .enter .stopNetworking true, .proceed]) = some s ∧
      s.caller = .joining := ⟨_, rfl, rfl⟩
  refine ⟨s, hs, (stop_ends _ s hs).1 ?_ (Or.inr hcaller)⟩
  simp [boundOnly, System.Along, InTime, system, step, enter, proceed, runThread, initial,
    NetThread.hasWait]

end Mbrc.Server.Networking
