import MbrcPlugin.Lib.Transition
import MbrcPlugin.Host.MusicBee

/-!
# FFI calls among each other

Any number of threads of the core call the host at once.  A call is a run of API calls; the kinds
of `SerialHostCalls` make theirs behind one lock, the others at any time.  Each query that walks
answers what it answers when it is run alone at one moment of its call, in every run in which no
call outside the lock changes the list, the play position or the play order under a walk that
reads them (`Undisturbed`).
-/

namespace Mbrc.Host

open Interference Transition

/-- An FFI call: its kind, and what its handler does with the payload it got. -/
structure HostCall (Out : Type) where
  kind : HostCallKind
  prog : Program ApiCall Answer Out
  conforms : ∀ as c, prog as = .inl c → c.function ∈ kind.functions

/-- A call under way. -/
structure Running (V Out : Type) where
  call : HostCall Out
  answers : List Answer
  /-- The states of MusicBee since it began. -/
  during : List (Part → V)

/-- The host: MusicBee, and the calls of the core's threads. -/
structure HostCalls (V Out : Type) where
  state : Part → V
  running : Nat → Option (Running V Out)
  /-- The thread that holds the serial lock. -/
  holder : Option Nat
  /-- The calls that came to their end, and what they answered. -/
  answered : List (Running V Out × Out)

variable {V Out : Type}

/-- MusicBee has changed while the call was under way. -/
def Running.saw (r : Running V Out) (state : Part → V) : Running V Out :=
  { r with during := state :: r.during }

namespace HostCalls

/-- Nobody calls. -/
def idle (state : Part → V) : HostCalls V Out where
  state := state
  running := fun _ => none
  holder := none
  answered := []

/-- What a thread does next. -/
inductive Event (Out : Type) where
  | begin (thread : Nat) (call : HostCall Out)
  | acquire (thread : Nat)
  /-- The call makes its next API call. -/
  | perform (thread : Nat)
  | finish (thread : Nat)

/-- The call of the thread may go on: it needs no lock, or holds it. -/
def mayGoOn (s : HostCalls V Out) (thread : Nat) (r : Running V Out) : Bool :=
  !r.call.kind.serial || s.holder = some thread

variable (M : MusicBee V)

/-- One step of a thread. -/
def step (s : HostCalls V Out) : Event Out → Option (HostCalls V Out)
  | .begin t call =>
    match s.running t with
    | some _ => none
    | none => some { s with
        running := Function.update s.running t (some ⟨call, [], [s.state]⟩) }
  | .acquire t =>
    match s.running t with
    | some r =>
      if r.call.kind.serial && s.holder = none then some { s with holder := some t } else none
    | none => none
  | .perform t =>
    match s.running t with
    | some r =>
      if !s.mayGoOn t r then none
      else match r.call.prog r.answers with
        | .inl c =>
          let (answer, state) := M.perform c s.state
          let running := Function.update s.running t
            (some { r with answers := r.answers ++ [answer] })
          some { s with state, running := fun u => (running u).map (·.saw state) }
        | .inr _ => none
    | none => none
  | .finish t =>
    match s.running t with
    | some r =>
      if !s.mayGoOn t r then none
      else match r.call.prog r.answers with
        | .inl _ => none
        | .inr out => some { s with
            running := Function.update s.running t none
            holder := if r.call.kind.serial then none else s.holder
            answered := (r, out) :: s.answered }
    | none => none

/-- The host, from a moment at which nobody calls. -/
def system (Out : Type) : System (HostCalls V Out) (Event Out) where
  start s := ∃ state, s = idle state
  next := step M

/-- The parts a call outside the lock can change and a walk can read. -/
def playing : List Part := [.nowPlayingList, .playPosition, .playOrder]

variable (Q : QueryType → Prop)

/-- A call outside the lock leaves alone what a walk under way, of a kind in `Q`, reads of the
list, the play position and the play order. -/
def Undisturbed (s : HostCalls V Out) : Event Out → Prop
  | .perform t => ∀ r c, s.running t = some r → r.call.kind.serial = false →
      r.call.prog r.answers = .inl c →
      ∀ u walk q, s.holder = some u → s.running u = some walk → walk.call.kind = .query q →
        q.walks = true → Q q → ∀ p ∈ q.sees, p ∈ playing → (M.perform c s.state).2 p = s.state p
  | _ => True

/-- What a query answered it answers when it is run alone at some moment of its call. -/
def OneState (r : Running V Out) (out : Out) : Prop :=
  ∀ q, r.call.kind = .query q → q.walks = true → Q q →
    ∃ w ∈ r.during, M.Alone r.call.prog w out

/-- The invariant of the host. -/
structure Walks (s : HostCalls V Out) : Prop where
  now : ∀ t r, s.running t = some r → s.state ∈ r.during
  holding : ∀ t, s.holder = some t → ∃ r, s.running t = some r ∧ r.call.kind.serial = true
  waiting : ∀ t r, s.running t = some r → r.call.kind.serial = true → s.holder ≠ some t →
    r.answers = []
  follows : ∀ t r q, s.running t = some r → s.holder = some t → r.call.kind = .query q →
    q.walks = true → Q q →
    ∃ w ∈ r.during, M.Follows r.call.prog {p | p ∈ q.sees} w r.answers s.state
  answered : ∀ r out, (r, out) ∈ s.answered → OneState M Q r out

theorem idle_walks (state : Part → V) : Walks M Q (idle state : HostCalls V Out) := by
  constructor <;> simp [idle]

variable {M} {Q}

theorem begin_walks {s : HostCalls V Out} {t : Nat} {call : HostCall Out} (h : Walks M Q s)
    (hfree : s.running t = none) :
    Walks M Q { s with running := Function.update s.running t (some ⟨call, [], [s.state]⟩) } := by
  have hholder : s.holder ≠ some t := by
    intro hh
    obtain ⟨r, hr, -⟩ := h.holding t hh
    simp [hfree] at hr
  constructor
  · intro u r hr
    by_cases hu : u = t
    · subst hu
      obtain rfl : _ = r := by simpa using hr
      exact List.mem_singleton_self _
    · exact h.now u r (by simpa [hu] using hr)
  · intro u hu
    have hne : u ≠ t := fun hut => hholder (hut ▸ hu)
    simpa [hne] using h.holding u hu
  · intro u r hr hserial hu
    by_cases hut : u = t
    · subst hut
      obtain rfl : _ = r := by simpa using hr
      rfl
    · exact h.waiting u r (by simpa [hut] using hr) hserial hu
  · intro u r q hr hu hq hwalk hQ
    have hne : u ≠ t := fun hut => hholder (hut ▸ hu)
    exact h.follows u r q (by simpa [hne] using hr) hu hq hwalk hQ
  · exact h.answered

theorem acquire_walks {s : HostCalls V Out} {t : Nat} {r : Running V Out} (h : Walks M Q s)
    (hr : s.running t = some r) (hserial : r.call.kind.serial = true) (hfree : s.holder = none) :
    Walks M Q { s with holder := some t } := by
  constructor
  · exact h.now
  · intro u hu
    obtain rfl : t = u := by simpa using hu
    exact ⟨r, hr, hserial⟩
  · intro u r' hr' hserial' _
    exact h.waiting u r' hr' hserial' (by simp [hfree])
  · -- a walk that gets the lock has made no call yet
    intro u r' q hr' hu hq hwalk hQ
    obtain rfl : t = u := by simpa using hu
    obtain rfl : r = r' := Option.some.inj (hr.symm.trans hr')
    have hnil := h.waiting t r hr hserial (by simp [hfree])
    refine ⟨s.state, h.now t r hr, ?_⟩
    rw [hnil]
    exact M.follows_start _ _
  · exact h.answered

/-- The functions of a walk see only what the walk sees. -/
theorem reads_sees {q : QueryType} {f : ApiFunction} (hf : f ∈ q.functions) :
    ∀ p ∈ f.reads, p ∈ ({p | p ∈ q.sees} : Set Part) := by
  intro p hp
  exact List.mem_flatMap.mpr ⟨f, hf, List.mem_append_left _ hp⟩

theorem perform_walks {s : HostCalls V Out} {t : Nat} {r : Running V Out} {c : ApiCall}
    (h : Walks M Q s) (hquiet : Undisturbed M Q s (.perform t)) (hr : s.running t = some r)
    (hgo : s.mayGoOn t r = true) (hc : r.call.prog r.answers = .inl c) :
    Walks M Q { s with
      state := (M.perform c s.state).2
      running := fun u => (Function.update s.running t
        (some { r with answers := r.answers ++ [(M.perform c s.state).1] }) u).map
          (·.saw (M.perform c s.state).2) } := by
  -- what runs after the step is what ran before it, seen on, the caller's answers longer by one
  have hafter : ∀ u r', ((Function.update s.running t
      (some { r with answers := r.answers ++ [(M.perform c s.state).1] }) u).map
        (·.saw (M.perform c s.state).2)) = some r' →
      ∃ before, s.running u = some before ∧ r'.call = before.call ∧
        r'.during = (M.perform c s.state).2 :: before.during ∧
        r'.answers = if u = t then before.answers ++ [(M.perform c s.state).1]
          else before.answers := by
    intro u r' hr'
    obtain ⟨mid, hmid, rfl⟩ := Option.map_eq_some_iff.mp hr'
    by_cases hu : u = t
    · subst hu
      obtain rfl : _ = mid := by simpa using hmid
      exact ⟨r, hr, rfl, rfl, by simp [Running.saw]⟩
    · exact ⟨mid, by simpa [hu] using hmid, rfl, rfl, by simp [Running.saw, hu]⟩
  constructor
  · intro u r' hr'
    obtain ⟨before, -, -, hduring, -⟩ := hafter u r' hr'
    rw [hduring]
    exact List.mem_cons_self
  · intro u hu
    obtain ⟨before, hbefore, hserial⟩ := h.holding u hu
    by_cases hut : u = t
    · subst hut
      obtain rfl : r = before := Option.some.inj (hr.symm.trans hbefore)
      refine ⟨({ r with answers := r.answers ++ [(M.perform c s.state).1] } :
        Running V Out).saw (M.perform c s.state).2, ?_, hserial⟩
      simp
    · refine ⟨before.saw (M.perform c s.state).2, ?_, hserial⟩
      simp [hut, hbefore]
  · intro u r' hr' hserial hu
    obtain ⟨before, hbefore, hcall, -, hanswers⟩ := hafter u r' hr'
    rw [hcall] at hserial
    have hut : u ≠ t := by
      intro hut
      subst hut
      obtain rfl : r = before := Option.some.inj (hr.symm.trans hbefore)
      have hholds : s.holder = some u := by simpa [mayGoOn, hserial] using hgo
      exact hu hholds
    rw [hanswers, if_neg hut]
    exact h.waiting u before hbefore hserial hu
  · intro u r' q hr' hu hq hwalk hQ
    obtain ⟨before, hbefore, hcall, hduring, hanswers⟩ := hafter u r' hr'
    rw [hcall] at hq
    obtain ⟨w, hw, hfollows⟩ := h.follows u before q hbefore hu hq hwalk hQ
    refine ⟨w, by rw [hduring]; exact List.mem_cons_of_mem _ hw, ?_⟩
    rw [hcall, hanswers]
    by_cases hut : u = t
    · subst hut
      obtain rfl : r = before := Option.some.inj (hr.symm.trans hbefore)
      rw [if_pos rfl]
      have hf : c.function ∈ q.functions := by
        have := r.call.conforms r.answers c hc
        rwa [hq] at this
      exact hfollows.own hc (reads_sees hf)
    · -- the lock is held by another thread, so this call is not serial
      rw [if_neg hut]
      have hserial : r.call.kind.serial = false := by
        cases hs : r.call.kind.serial with
        | false => rfl
        | true =>
          have hholds : s.holder = some t := by simpa [mayGoOn, hs] using hgo
          exact absurd (Option.some.inj (hu.symm.trans hholds)) hut
      refine hfollows.other fun p hp => ?_
      by_cases hwrites : p ∈ c.function.writes
      · have hmay := writes_of_not_serial hserial (r.call.conforms r.answers c hc) hwrites
        have hnot := walks_sees hwalk hp
        have hplaying : p ∈ playing := by
          simp only [List.mem_cons, List.not_mem_nil, or_false] at hmay
          rcases hmay with rfl | rfl | rfl | rfl | rfl
          · decide
          · decide
          · decide
          · exact absurd rfl hnot.1
          · exact absurd rfl hnot.2
        exact (hquiet r c hr hserial hc u before q hu hbefore hq hwalk hQ p hp hplaying).symm
      · exact (M.frame c s.state p hwrites).symm
  · exact h.answered

theorem finish_walks {s : HostCalls V Out} {t : Nat} {r : Running V Out} {out : Out}
    (h : Walks M Q s) (hr : s.running t = some r) (hgo : s.mayGoOn t r = true)
    (hout : r.call.prog r.answers = .inr out) :
    Walks M Q { s with
      running := Function.update s.running t none
      holder := if r.call.kind.serial then none else s.holder
      answered := (r, out) :: s.answered } := by
  have hother : ∀ u r', Function.update s.running t none u = some r' →
      u ≠ t ∧ s.running u = some r' := by
    intro u r' hr'
    by_cases hu : u = t
    · simp [hu] at hr'
    · exact ⟨hu, by simpa [hu] using hr'⟩
  have hheld : ∀ u, (if r.call.kind.serial then none else s.holder) = some u →
      r.call.kind.serial = false ∧ s.holder = some u := by
    intro u hu
    cases hs : r.call.kind.serial with
    | false => exact ⟨rfl, by simpa [hs] using hu⟩
    | true => simp [hs] at hu
  constructor
  · intro u r' hr'
    exact h.now u r' (hother u r' hr').2
  · intro u hu
    obtain ⟨hs, hu'⟩ := hheld u hu
    obtain ⟨before, hbefore, hserial⟩ := h.holding u hu'
    have hut : u ≠ t := by
      intro hut
      subst hut
      obtain rfl : r = before := Option.some.inj (hr.symm.trans hbefore)
      simp [hs] at hserial
    exact ⟨before, by simpa [hut] using hbefore, hserial⟩
  · intro u r' hr' hserial hu
    obtain ⟨hut, hbefore⟩ := hother u r' hr'
    refine h.waiting u r' hbefore hserial fun hu' => ?_
    cases hs : r.call.kind.serial with
    | false => exact hu (by simpa [hs] using hu')
    | true =>
      have hholds : s.holder = some t := by simpa [mayGoOn, hs] using hgo
      exact hut (Option.some.inj (hu'.symm.trans hholds))
  · intro u r' q hr' hu hq hwalk hQ
    exact h.follows u r' q (hother u r' hr').2 (hheld u hu).2 hq hwalk hQ
  · intro r' out' hmem
    rcases List.mem_cons.mp hmem with heq | hmem
    · obtain ⟨rfl, rfl⟩ := Prod.mk.inj heq
      intro q hq hwalk hQ
      have hserial : r'.call.kind.serial = true := by
        rw [hq]
        exact walks_serial hwalk
      have hholds : s.holder = some t := by simpa [mayGoOn, hserial] using hgo
      obtain ⟨w, hw, hfollows⟩ := h.follows t r' q hr hholds hq hwalk hQ
      exact ⟨w, hw, hfollows.result hout⟩
    · exact h.answered r' out' hmem

/-- Every step that leaves the walk under way alone keeps the invariant. -/
theorem step_walks (s : HostCalls V Out) (event : Event Out) (s' : HostCalls V Out)
    (h : Walks M Q s) (hquiet : Undisturbed M Q s event) (hs : step M s event = some s') :
    Walks M Q s' := by
  cases event with
  | begin t call =>
    simp only [step] at hs
    cases hr : s.running t with
    | some r => simp [hr] at hs
    | none =>
      rw [hr] at hs
      obtain rfl := Option.some.inj hs
      exact begin_walks h hr
  | acquire t =>
    simp only [step] at hs
    cases hr : s.running t with
    | none => simp [hr] at hs
    | some r =>
      simp only [hr] at hs
      split at hs
      · rename_i hmay
        obtain ⟨hserial, hfree⟩ : r.call.kind.serial = true ∧ s.holder = none := by
          simpa using hmay
        obtain rfl := Option.some.inj hs
        exact acquire_walks h hr hserial hfree
      · simp at hs
  | perform t =>
    simp only [step] at hs
    cases hr : s.running t with
    | none => simp [hr] at hs
    | some r =>
      simp only [hr] at hs
      split at hs
      · simp at hs
      · rename_i hmay
        cases hc : r.call.prog r.answers with
        | inr out => simp [hc] at hs
        | inl c =>
          simp only [hc] at hs
          obtain rfl := Option.some.inj hs
          exact perform_walks h hquiet hr (by simpa using hmay) hc
  | finish t =>
    simp only [step] at hs
    cases hr : s.running t with
    | none => simp [hr] at hs
    | some r =>
      simp only [hr] at hs
      split at hs
      · simp at hs
      · rename_i hmay
        cases hc : r.call.prog r.answers with
        | inl c => simp [hc] at hs
        | inr out =>
          simp only [hc] at hs
          obtain rfl := Option.some.inj hs
          exact finish_walks h hr (by simpa using hmay) hc

end HostCalls

end Mbrc.Host
