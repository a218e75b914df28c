import MbrcPlugin.Server.PlayerState

/-!
# Clients end up with the host's player state

A step is orderly when it is not overtaken: no store replaces a newer reading in the cache, no
event or answer shows a reading older than what was pushed for its field, and the two branches
that push nothing (a play state already sent, a value the monitor has seen or sees first) find
every subscriber told that value.  In a run of orderly steps, once everything is settled the cache
and every subscriber have the host's values (`settled_consistent`).
-/

namespace Mbrc.Server.Player

open Readings

/-! ## What is promised -/

/-- Every notification is handled, and a poll that read the host after its last change is over. -/
def Settled (s : State) : Prop :=
  (∀ h ∈ s.handlers, h.phase = .done) ∧ s.polledAt = s.host.clock

/-- The cache and every connected subscriber have the host's values. -/
def Consistent (s : State) : Prop :=
  (∀ f, s.cache.value f = s.host.now f) ∧
    ∀ c ∈ s.subs, c.connected = true → ∀ f v, c.told f = some v → v = s.host.now f

/-! ## When it holds -/

/-- Whoever was told the field at all was told this value last. -/
def AllTold (s : State) (f : Field) (v : f.Val) : Prop :=
  ∀ c ∈ s.subs, c.connected = true → ∀ w, c.told f = some w → w = v

/-- A store does not replace a newer reading. -/
def Snap.Orderly (s : State) : Snap → Prop
  | .store r => s.cache.stamp ≤ r.stamp
  | _ => True

/-- Neither a store nor an event is overtaken, and a play state is only held back from those who
have it. -/
def Handling.Orderly (s : State) (kind : Field) : Handling → Prop
  | .store r => s.cache.stamp ≤ r.stamp
  | .snap p => p.Orderly s
  | .push r moved =>
    kind.notified = true → s.sentAt kind ≤ r.stamp ∧ (moved = false → AllTold s kind (r.value kind))
  | _ => True

/-- A poll's store is not overtaken, and a value it stays silent about is known to every
subscriber. -/
def Monitor.Orderly (s : State) : Monitor → Prop
  | .store r => s.cache.stamp ≤ r.stamp
  | .push r frames => ∀ f, f.notified = false → frames f = false → AllTold s f (r.value f)
  | _ => True

/-- No event of a field overtook the answer to a read. -/
def Answer.Orderly (s : State) : Snap → Prop
  | .got r => ∀ f, s.sentAt f ≤ r.stamp
  | p => p.Orderly s

def Orderly (s : State) : Event → Prop
  | .handler i => ∀ h : Handler, s.handlers[i]? = some h → h.phase.Orderly s h.kind
  | .poll _ => s.monitor.Orderly s
  | .warmUp => s.warmUp.Orderly s
  | .answer i =>
    ∀ (c : Sub) (p : Snap), s.subs[i]? = some c → c.asking = some p → Answer.Orderly s p
  | _ => True

theorem orderly_handler {s : State} {i : Nat} {h : Handler} (hh : s.handlers[i]? = some h)
    (ho : h.phase.Orderly s h.kind) : Orderly s (.handler i) := by
  intro g hg
  rw [← Option.some.inj (hh.symm.trans hg)]
  exact ho

/-! ## The invariant -/

/-- The reading a cache read holds is one of the host's. -/
def Snap.Sound (host : Source Field.Val) : Snap → Prop
  | .store r | .got r => host.Valid r
  | _ => True

def Handling.Sound (host : Source Field.Val) : Handling → Prop
  | .store r | .push r _ => host.Valid r
  | .snap p => p.Sound host
  | _ => True

/-- Once the monitor has stored its reading, the cache is at least as new. -/
def Monitor.Sound (host : Source Field.Val) (cache : Seen) : Monitor → Prop
  | .store r => host.Valid r
  | .stored r => host.Valid r ∧ r.stamp ≤ cache.stamp
  | .push r frames =>
    host.Valid r ∧ r.stamp ≤ cache.stamp ∧ ∀ f, frames f = true → f.notified = false
  | _ => True

/-- The handling is going to push a reading of date `n` or later. -/
def Handling.Carries (cache : Seen) (n : Nat) : Handling → Prop
  | .start => True
  | .store r | .push r _ | .snap (.got r) => n ≤ r.stamp
  | .snap _ => n ≤ cache.stamp
  | .done => False

/-- An event for the field with its present value is on its way. -/
def Coming (s : State) (f : Field) : Prop :=
  ∃ (i : Nat) (h : Handler), s.handlers[i]? = some h ∧ h.kind = f ∧
    h.phase.Carries s.cache (s.host.changedAt f)

structure Inv (s : State) : Prop where
  timed : s.host.Timed
  started : ∀ f, 1 ≤ s.host.changedAt f
  cache : s.host.Valid s.cache
  handlers : ∀ (i : Nat) (h : Handler), s.handlers[i]? = some h → h.phase.Sound s.host
  warmUp : s.warmUp.Sound s.host
  monitor : s.monitor.Sound s.host s.cache
  asking : ∀ c ∈ s.subs, ∀ p, c.asking = some p → p.Sound s.host
  sent : ∀ f, s.sentAt f ≤ s.host.clock
  told : ∀ c ∈ s.subs, c.connected = true → ∀ f v, c.told f = some v →
    v = s.host.now f ∨ s.sentAt f < s.host.changedAt f
  coming : ∀ f, f.notified = true → s.host.changedAt f ≤ s.sentAt f ∨ Coming s f
  polled : ∀ f, f.notified = false → s.polledAt ≤ s.sentAt f
  polledCache : s.polledAt ≤ s.cache.stamp

theorem Inv.initial (player : (f : Field) → f.Val) : Inv (.initial player) where
  timed _ := Nat.le_refl _
  started _ := Nat.le_refl _
  cache := ⟨Nat.zero_le _, fun _ h => absurd h (Nat.not_succ_le_zero 0)⟩
  handlers i h hi := by simp [State.initial] at hi
  warmUp := trivial
  monitor := trivial
  asking c hc := by simp [State.initial] at hc
  sent _ := Nat.le_refl _
  told c hc := by simp [State.initial] at hc
  coming _ _ := Or.inl (Nat.le_refl _)
  polled _ _ := Nat.zero_le _
  polledCache := Nat.le_refl _

/-- When all is settled, the invariant leaves nothing out of date. -/
theorem Inv.consistent {s : State} (hi : Inv s) (hs : Settled s) : Consistent s := by
  obtain ⟨hdone, hpolled⟩ := hs
  have hdate : ∀ f, s.host.changedAt f ≤ s.polledAt := fun f => hpolled ▸ hi.timed f
  refine ⟨fun f => hi.cache.value_eq f (Nat.le_trans (hdate f) hi.polledCache), ?_⟩
  intro c hc hcon f v hv
  refine (hi.told c hc hcon f v hv).resolve_right (Nat.not_lt.mpr ?_)
  cases hf : f.notified with
  | false => exact Nat.le_trans (hdate f) (hi.polled f hf)
  | true =>
    refine (hi.coming f hf).resolve_right ?_
    rintro ⟨i, h, hh, -, hcarries⟩
    rw [hdone h (List.mem_of_getElem? hh)] at hcarries
    exact hcarries

/-! ## The host changes -/

theorem Snap.Sound.set {host : Source Field.Val} {p : Snap} (h : p.Sound host) (f : Field)
    (v : f.Val) : p.Sound (host.set f v) := by
  cases p with
  | store r => exact Source.Valid.set h f v
  | got r => exact Source.Valid.set h f v
  | check => trivial
  | fetch => trivial
  | mark => trivial
  | clone => trivial

theorem Handling.Sound.set {host : Source Field.Val} {p : Handling} (h : p.Sound host) (f : Field)
    (v : f.Val) : p.Sound (host.set f v) := by
  cases p with
  | store r => exact Source.Valid.set h f v
  | push r moved => exact Source.Valid.set h f v
  | snap p => exact Snap.Sound.set h f v
  | start => trivial
  | done => trivial

theorem Monitor.Sound.set {host : Source Field.Val} {cache : Seen} {p : Monitor}
    (h : p.Sound host cache) (f : Field) (v : f.Val) : p.Sound (host.set f v) cache := by
  cases p with
  | store r => exact Source.Valid.set h f v
  | stored r => exact ⟨h.1.set f v, h.2⟩
  | push r frames => exact ⟨h.1.set f v, h.2⟩
  | idle => trivial
  | counted => trivial

/-- A notification is one more handling to come. -/
theorem Inv.notify {s : State} (hi : Inv s) (f : Field) : Inv (s.notify f) := by
  have hold : ∀ (i : Nat) (h : Handler), s.handlers[i]? = some h →
      (s.notify f).handlers[i]? = some h := by
    intro i h hh
    obtain ⟨hlt, -⟩ := List.getElem?_eq_some_iff.mp hh
    simp only [State.notify, List.getElem?_append_left hlt, hh]
  refine { hi with handlers := ?_, coming := ?_ }
  · intro i h hh
    simp only [State.notify] at hh
    rcases List.mem_append.mp (List.mem_of_getElem? hh) with hm | hm
    · obtain ⟨j, hj⟩ := List.getElem?_of_mem hm
      exact hi.handlers j h hj
    · rw [List.mem_singleton.mp hm]
      trivial
  · intro g hg
    rcases hi.coming g hg with h | ⟨i, h, hh, hk, hc⟩
    · exact Or.inl h
    · exact Or.inr ⟨i, h, hold i h hh, hk, hc⟩

theorem coming_notify (s : State) (f : Field) : Coming (s.notify f) f := by
  refine ⟨s.handlers.length, { kind := f, phase := .start }, ?_, rfl, trivial⟩
  simp [State.notify]

/-- A change, once its announcement is on its way. -/
theorem Inv.change {s : State} (hi : Inv s) (f : Field) (v : f.Val)
    (hstart : f.notified = true → ∃ i : Nat, s.handlers[i]? = some { kind := f, phase := .start }) :
    Inv { s with host := s.host.set f v } where
  timed := hi.timed.set f v
  started g := Nat.le_trans (hi.started g) (Source.changedAt_le_set hi.timed f g v)
  cache := hi.cache.set f v
  handlers i h hh := (hi.handlers i h hh).set f v
  warmUp := hi.warmUp.set f v
  monitor := hi.monitor.set f v
  asking c hc p hp := (hi.asking c hc p hp).set f v
  sent g := Nat.le_succ_of_le (hi.sent g)
  told c hc hcon g w hw := by
    by_cases hg : g = f
    · subst hg
      right
      show s.sentAt g < (s.host.set g v).changedAt g
      rw [Source.set_changedAt_self]
      exact Nat.lt_succ_of_le (hi.sent g)
    · show w = (s.host.set f v).now g ∨ s.sentAt g < (s.host.set f v).changedAt g
      rw [Source.set_now_of_ne _ hg, Source.set_changedAt_of_ne _ hg]
      exact hi.told c hc hcon g w hw
  coming g hg := by
    by_cases hgf : g = f
    · subst hgf
      obtain ⟨i, hstart⟩ := hstart hg
      exact Or.inr ⟨i, _, hstart, rfl, trivial⟩
    · have heq : (s.host.set f v).changedAt g = s.host.changedAt g :=
        Source.set_changedAt_of_ne s.host hgf v
      rcases hi.coming g hg with h | ⟨i, h, hh, hk, hc⟩
      · exact Or.inl (heq ▸ h)
      · exact Or.inr ⟨i, h, hh, hk, heq ▸ hc⟩
  polled := hi.polled
  polledCache := hi.polledCache

theorem announces_of_notified {f : Field} (h : f.notified = true) (silent : Bool) :
    f.announces silent = true := by
  cases f <;> simp_all [Field.notified, Field.announces]

theorem inv_change {s : State} (hi : Inv s) (f : Field) (v : f.Val) (silent : Bool) :
    Inv (if f.announces silent then { s with host := s.host.set f v : State }.notify f
      else { s with host := s.host.set f v }) := by
  split
  · refine (hi.notify f).change f v fun _ => ⟨s.handlers.length, ?_⟩
    simp [State.notify]
  · rename_i h
    exact hi.change f v fun hf => absurd (announces_of_notified hf silent) h

/-! ## Stores -/

theorem Handling.Carries.mono {cache cache' : Seen} (hle : cache.stamp ≤ cache'.stamp) {n : Nat}
    {p : Handling} (h : p.Carries cache n) : p.Carries cache' n := by
  cases p with
  | start => trivial
  | store r => exact h
  | push r moved => exact h
  | done => exact h
  | snap p =>
    cases p with
    | got r => exact h
    | check => exact Nat.le_trans h hle
    | fetch => exact Nat.le_trans h hle
    | store r => exact Nat.le_trans h hle
    | mark => exact Nat.le_trans h hle
    | clone => exact Nat.le_trans h hle

/-- A store that is not overtaken. -/
theorem Inv.setPlayer {s : State} (hi : Inv s) {r : Seen} (hr : s.host.Valid r)
    (hle : s.cache.stamp ≤ r.stamp) : Inv (s.setPlayer r) := by
  refine { hi with cache := hr, monitor := ?_, coming := ?_, polledCache := ?_ }
  · show s.monitor.Sound s.host r
    have := hi.monitor
    cases hm : s.monitor with
    | idle => trivial
    | counted => trivial
    | store q =>
      rw [hm] at this
      exact this
    | stored q =>
      rw [hm] at this
      exact ⟨this.1, Nat.le_trans this.2 hle⟩
    | push q frames =>
      rw [hm] at this
      exact ⟨this.1, Nat.le_trans this.2.1 hle, this.2.2⟩
  · intro f hf
    rcases hi.coming f hf with h | ⟨i, h, hh, hk, hc⟩
    · exact Or.inl h
    · exact Or.inr ⟨i, h, hh, hk, hc.mono hle⟩
  · exact Nat.le_trans hi.polledCache hle

/-- What one step of a cache read leaves as it was. -/
theorem Snap.step_frame (s : State) (p : Snap) :
    (p.step s).1.host = s.host ∧ (p.step s).1.handlers = s.handlers ∧
      (p.step s).1.subs = s.subs ∧ (p.step s).1.sentAt = s.sentAt := by
  cases p <;> exact ⟨rfl, rfl, rfl, rfl⟩

theorem Snap.step_inv {s : State} (hi : Inv s) {p : Snap} (hp : p.Sound s.host)
    (ho : p.Orderly s) : Inv (p.step s).1 ∧ (p.step s).2.Sound s.host := by
  cases p with
  | check =>
    refine ⟨hi, ?_⟩
    show Snap.Sound s.host (if s.seeded then .clone else .fetch)
    split <;> trivial
  | fetch => exact ⟨hi, s.host.valid_read⟩
  | store r => exact ⟨hi.setPlayer hp ho, trivial⟩
  | mark => exact ⟨{ hi with }, trivial⟩
  | clone => exact ⟨hi, hi.cache⟩
  | got r => exact ⟨hi, hp⟩

/-! ## Events and answers -/

/-- What is pushed under a field is up to date, or its date says that it is not. -/
theorem told_push {s : State} (hi : Inv s) {about frames : Field → Bool} {r : Seen}
    (hr : s.host.Valid r) (hframes : ∀ f, frames f = true → about f = true)
    (hsilent : ∀ f, about f = true → frames f = false → AllTold s f (r.value f)) :
    ∀ c ∈ (s.push about frames r).subs, c.connected = true → ∀ f v, c.told f = some v →
      v = s.host.now f ∨ (s.push about frames r).sentAt f < s.host.changedAt f := by
  have hvalue : ∀ f, r.value f = s.host.now f ∨ r.stamp < s.host.changedAt f := by
    intro f
    rcases Nat.lt_or_ge r.stamp (s.host.changedAt f) with h | h
    · exact Or.inr h
    · exact Or.inl (hr.value_eq f h)
  intro c' hc' hcon f v hv
  obtain ⟨c, hc, rfl⟩ := List.mem_map.mp hc'
  by_cases hcc : c.connected = true
  · rw [if_pos hcc] at hv
    show v = s.host.now f ∨ (if about f then r.stamp else s.sentAt f) < s.host.changedAt f
    cases hf : frames f with
    | true =>
      rw [if_pos (hframes f hf)]
      simp only [hf, if_true] at hv
      rw [← Option.some.inj hv]
      exact hvalue f
    | false =>
      simp only [hf, Bool.false_eq_true, if_false] at hv
      cases ha : about f with
      | true =>
        rw [hsilent f ha hf c hc hcc v hv]
        exact hvalue f
      | false => exact hi.told c hc hcc f v hv
  · rw [if_neg hcc] at hcon
    exact absurd hcon hcc

/-- A push, with what it settles about the fields. -/
theorem Inv.push {s : State} (hi : Inv s) {about frames : Field → Bool} {r : Seen}
    (hr : s.host.Valid r) (hframes : ∀ f, frames f = true → about f = true)
    (hsilent : ∀ f, about f = true → frames f = false → AllTold s f (r.value f))
    (hcoming : ∀ f, f.notified = true →
      s.host.changedAt f ≤ (s.push about frames r).sentAt f ∨ Coming s f)
    (hpolled : ∀ f, f.notified = false → s.polledAt ≤ (s.push about frames r).sentAt f) :
    Inv (s.push about frames r) := by
  refine { hi with
    asking := ?_, sent := ?_, told := told_push hi hr hframes hsilent, coming := hcoming
    polled := hpolled }
  · intro c' hc' p hp
    obtain ⟨c, hc, rfl⟩ := List.mem_map.mp hc'
    refine hi.asking c hc p ?_
    split at hp <;> exact hp
  · intro f
    show (if about f then r.stamp else s.sentAt f) ≤ s.host.clock
    split
    · exact hr.stamp_le
    · exact hi.sent f

/-! ## The handling of a notification -/

/-- A handling goes on: what it carried it still carries, or it has been pushed. -/
theorem Inv.setHandler {s : State} (hi : Inv s) {i : Nat} {h : Handler} {phase : Handling}
    (hh : s.handlers[i]? = some h) (hsound : phase.Sound s.host)
    (hcarries : h.phase.Carries s.cache (s.host.changedAt h.kind) → h.kind.notified = true →
      s.host.changedAt h.kind ≤ s.sentAt h.kind ∨
        phase.Carries s.cache (s.host.changedAt h.kind)) :
    Inv { s with handlers := s.handlers.set i { h with phase } } := by
  obtain ⟨hlt, -⟩ := List.getElem?_eq_some_iff.mp hh
  have hself : (s.handlers.set i { h with phase })[i]? = some { h with phase } :=
    List.getElem?_set_self hlt
  refine { hi with handlers := ?_, coming := ?_ }
  · intro j g hg
    by_cases hij : i = j
    · subst hij
      rw [hself] at hg
      rw [← Option.some.inj hg]
      exact hsound
    · rw [List.getElem?_set_ne hij] at hg
      exact hi.handlers j g hg
  · intro f hf
    rcases hi.coming f hf with hle | ⟨j, g, hg, hk, hc⟩
    · exact Or.inl hle
    · by_cases hij : i = j
      · subst hij
        obtain rfl : h = g := Option.some.inj (hh.symm.trans hg)
        subst hk
        rcases hcarries hc hf with hle | hc
        · exact Or.inl hle
        · exact Or.inr ⟨i, _, hself, rfl, hc⟩
      · exact Or.inr ⟨j, g, (List.getElem?_set_ne hij).trans hg, hk, hc⟩

/-- A step of a cache read keeps what its handling carries. -/
theorem Snap.step_carries {s : State} {p : Snap} (hp : ∀ r, p ≠ .got r) {n : Nat}
    (h : (Handling.snap p).Carries (p.step s).1.cache n) :
    (Handling.snap (p.step s).2).Carries (p.step s).1.cache n := by
  cases p with
  | check =>
    show (Handling.snap (if s.seeded then .clone else .fetch)).Carries s.cache n
    split <;> exact h
  | fetch => exact h
  | store r => exact h
  | mark => exact h
  | clone => exact h
  | got r => exact absurd rfl (hp r)

/-- The event of a notification. -/
theorem Inv.pushEvent {s : State} (hi : Inv s) {kind : Field} {r : Seen} {moved : Bool}
    (hkind : kind.notified = true) (hr : s.host.Valid r) (hsent : s.sentAt kind ≤ r.stamp)
    (hheld : moved = false → AllTold s kind (r.value kind)) :
    Inv (s.push (· = kind) (fun f => f = kind && moved) r) := by
  have hother : ∀ f, f ≠ kind → (s.push (· = kind) (fun f => f = kind && moved) r).sentAt f =
      s.sentAt f := by
    intro f hf
    simp [State.push, hf]
  refine hi.push hr ?_ ?_ ?_ ?_
  · intro f hf
    simp only [Bool.and_eq_true] at hf
    exact hf.1
  · intro f hf hframe
    obtain rfl : f = kind := of_decide_eq_true hf
    simp only [decide_true, Bool.true_and] at hframe
    exact hheld hframe
  · intro f hf
    by_cases hfk : f = kind
    · subst hfk
      rcases hi.coming f hf with hle | hc
      · left
        simp only [State.push, decide_true, if_true]
        exact Nat.le_trans hle hsent
      · exact Or.inr hc
    · rw [hother f hfk]
      exact hi.coming f hf
  · intro f hf
    have hfk : f ≠ kind := by
      rintro rfl
      simp [hkind] at hf
    rw [hother f hfk]
    exact hi.polled f hf

theorem inv_handler {s : State} (hi : Inv s) {i : Nat} {h : Handler}
    (hh : s.handlers[i]? = some h) (ho : h.phase.Orderly s h.kind) :
    Inv { (h.phase.step s h.kind).1 with
      handlers := s.handlers.set i { h with phase := (h.phase.step s h.kind).2 } } := by
  have hsound := hi.handlers i h hh
  cases hp : h.phase with
  | start =>
    refine hi.setHandler hh s.host.valid_read fun _ _ => Or.inr ?_
    exact hi.timed h.kind
  | store r =>
    rw [hp] at hsound ho
    refine (hi.setPlayer hsound ho).setHandler hh trivial fun hc _ => Or.inr ?_
    rw [hp] at hc
    exact hc
  | snap p =>
    rw [hp] at hsound ho
    have hgot : ∀ (r : Seen) (moved : Bool) (sent : Option PlayState), p = .got r →
        Inv { s with
          playStateSent := sent
          handlers := s.handlers.set i { h with phase := .push r moved } } := by
      rintro r moved sent rfl
      have ht : Inv { s with playStateSent := sent } := { hi with }
      refine ht.setHandler hh hsound fun hc _ => Or.inr ?_
      rw [hp] at hc
      exact hc
    have hstep : (∀ r, p ≠ .got r) → Inv { (p.step s).1 with
        handlers := s.handlers.set i { h with phase := .snap (p.step s).2 } } := by
      intro hne
      obtain ⟨hinv, hsnd⟩ := p.step_inv hi hsound ho
      obtain ⟨hhost, hhandlers, -, -⟩ := p.step_frame s
      rw [← hhandlers]
      refine hinv.setHandler (hhandlers ▸ hh) (hhost ▸ hsnd) fun hc _ => Or.inr ?_
      rw [hp] at hc
      exact p.step_carries hne hc
    cases p with
    | got r =>
      simp only [Handling.step]
      split
      · exact hgot r _ _ rfl
      · exact hgot r true s.playStateSent rfl
    | check => exact hstep (by simp)
    | fetch => exact hstep (by simp)
    | store r => exact hstep (by simp)
    | mark => exact hstep (by simp)
    | clone => exact hstep (by simp)
  | push r moved =>
    rw [hp] at hsound ho
    simp only [Handling.step]
    split
    · rename_i hkind
      obtain ⟨hsent, hheld⟩ := ho hkind
      refine (hi.pushEvent hkind hsound hsent hheld).setHandler hh trivial fun hc _ => Or.inl ?_
      rw [hp] at hc
      simp only [State.push, decide_true, if_true]
      exact hc
    · rename_i hkind
      exact hi.setHandler hh trivial fun _ h => absurd h hkind
  | done =>
    refine hi.setHandler hh trivial fun hc _ => ?_
    rw [hp] at hc
    exact hc.elim

/-! ## The monitor -/

theorem inv_poll {s : State} (hi : Inv s) {v4 : Bool} (ho : s.monitor.Orderly s) :
    Inv (s.monitor.step s v4) := by
  have hsound := hi.monitor
  cases hm : s.monitor with
  | idle =>
    simp only [Monitor.step]
    split
    · exact hi
    · exact { hi with monitor := trivial }
  | counted => exact { hi with monitor := s.host.valid_read }
  | store r =>
    rw [hm] at ho hsound
    exact { hi.setPlayer hsound ho with monitor := ⟨hsound, Nat.le_refl _⟩ }
  | stored r =>
    rw [hm] at hsound
    refine { hi with monitor := ⟨hsound.1, hsound.2, ?_⟩ }
    intro f hf
    simp only [Bool.and_eq_true, Bool.not_eq_true'] at hf
    exact hf.1
  | push r frames =>
    rw [hm] at ho hsound
    obtain ⟨hr, hcache, hframes⟩ := hsound
    have hzero : Inv { s with polledAt := 0 } :=
      { hi with polled := fun _ _ => Nat.zero_le _, polledCache := Nat.zero_le _ }
    have hpush := @Inv.push _ hzero (fun f => !f.notified) frames _ hr
      (fun f hf => by simp [hframes f hf])
      (fun f hf hframe => ho f (by simpa using hf) hframe)
      (fun f hf => by
        show s.host.changedAt f ≤ (if !f.notified then r.stamp else s.sentAt f) ∨ Coming s f
        rw [if_neg (by simp [hf])]
        exact hi.coming f hf)
      (fun _ _ => Nat.zero_le _)
    refine { hpush with monitor := trivial, polled := ?_, polledCache := hcache }
    intro f hf
    show r.stamp ≤ (if !f.notified then r.stamp else s.sentAt f)
    simp [hf]

/-! ## The subscribers -/

theorem Inv.setSub {s : State} (hi : Inv s) {i : Nat} {c : Sub}
    (hask : ∀ p, c.asking = some p → p.Sound s.host)
    (htold : c.connected = true → ∀ f v, c.told f = some v →
      v = s.host.now f ∨ s.sentAt f < s.host.changedAt f) :
    Inv { s with subs := s.subs.set i c } := by
  refine { hi with asking := ?_, told := ?_ }
  · intro d hd
    rcases List.mem_or_eq_of_mem_set hd with hd | rfl
    · exact hi.asking d hd
    · exact hask
  · intro d hd
    rcases List.mem_or_eq_of_mem_set hd with hd | rfl
    · exact hi.told d hd
    · exact htold

theorem inv_answer {s : State} (hi : Inv s) {i : Nat} {c : Sub} {p : Snap}
    (hc : s.subs[i]? = some c) (hp : c.asking = some p) (ho : Answer.Orderly s p) :
    Inv (s.answer i c p) := by
  have hmem := List.mem_of_getElem? hc
  have hsound := hi.asking c hmem p hp
  have hstep : p.Orderly s → Inv { (p.step s).1 with
      subs := s.subs.set i { c with asking := some (p.step s).2 } } := by
    intro ho
    obtain ⟨hinv, hsnd⟩ := p.step_inv hi hsound ho
    obtain ⟨hhost, -, hsubs, -⟩ := p.step_frame s
    have htold := hinv.told
    rw [hsubs] at htold
    rw [← hsubs]
    refine hinv.setSub (fun q hq => ?_) (htold c hmem)
    rw [← Option.some.inj hq, hhost]
    exact hsnd
  cases p with
  | got r =>
    refine hi.setSub (fun q hq => by simp at hq) fun _ f v hv => ?_
    rw [← Option.some.inj hv]
    rcases Nat.lt_or_ge r.stamp (s.host.changedAt f) with h | h
    · exact Or.inr (Nat.lt_of_le_of_lt (ho f) h)
    · exact Or.inl (hsound.value_eq f h)
  | check => exact hstep ho
  | fetch => exact hstep ho
  | store r => exact hstep ho
  | mark => exact hstep ho
  | clone => exact hstep ho

/-! ## Whole runs -/

/-- **One step** that is orderly keeps the invariant. -/
theorem inv_step {s s' : State} {event : Event} (hi : Inv s) (ho : Orderly s event)
    (hs : s.step event = some s') : Inv s' := by
  cases event with
  | change f v silent =>
    obtain rfl := Option.some.inj hs
    exact inv_change hi f v silent
  | announce f =>
    simp only [State.step] at hs
    split at hs
    · obtain rfl := Option.some.inj hs
      exact hi.notify f
    · simp at hs
  | handler i =>
    simp only [State.step, Option.bind_eq_bind, Option.bind_eq_some_iff] at hs
    obtain ⟨h, hh, hs⟩ := hs
    obtain rfl := Option.some.inj hs
    exact inv_handler hi hh (ho h hh)
  | poll v4 =>
    obtain rfl := Option.some.inj hs
    exact inv_poll hi ho
  | warmUp =>
    obtain rfl := Option.some.inj hs
    obtain ⟨hinv, hsnd⟩ := s.warmUp.step_inv hi hi.warmUp ho
    obtain ⟨hhost, -, -, -⟩ := s.warmUp.step_frame s
    rw [← hhost] at hsnd
    exact { hinv with warmUp := hsnd }
  | register =>
    obtain rfl := Option.some.inj hs
    refine { hi with asking := ?_, told := ?_ }
    · intro c hc p hp
      rcases List.mem_append.mp hc with hc | hc
      · exact hi.asking c hc p hp
      · simp [List.mem_singleton.mp hc] at hp
    · intro c hc hcon f v hv
      rcases List.mem_append.mp hc with hc | hc
      · exact hi.told c hc hcon f v hv
      · simp [List.mem_singleton.mp hc] at hv
  | leave i =>
    simp only [State.step, Option.bind_eq_bind, Option.bind_eq_some_iff] at hs
    obtain ⟨c, hc, hs⟩ := hs
    obtain rfl := Option.some.inj hs
    exact hi.setSub (hi.asking c (List.mem_of_getElem? hc)) fun h => by simp at h
  | ask i =>
    simp only [State.step, Option.bind_eq_bind, Option.bind_eq_some_iff] at hs
    obtain ⟨c, hc, hs⟩ := hs
    split at hs
    · obtain rfl := Option.some.inj hs
      refine hi.setSub (fun p hp => ?_) (hi.told c (List.mem_of_getElem? hc))
      rw [← Option.some.inj hp]
      trivial
    · simp at hs
  | answer i =>
    simp only [State.step, Option.bind_eq_bind, Option.bind_eq_some_iff] at hs
    obtain ⟨c, hc, p, hp, hs⟩ := hs
    obtain rfl := Option.some.inj hs
    exact inv_answer hi hc hp (ho c p hc hp)

/-- A player that stops after the track it plays. -/
def stopping : (f : Field) → f.Val
  | .stopAfterCurrent => true
  | f => f.blank

/-- A client connects and reads; the track ends and MusicBee clears stop-after-current; the first
poll sees it. -/
def silentClear : List Event :=
  [.warmUp, .warmUp, .warmUp, .register, .ask 0, .answer 0, .answer 0, .answer 0,
    .change .stopAfterCurrent false true, .poll false, .poll false, .poll false, .poll false,
    .poll false]

/-- A client connects, a volume change is handled, and a poll ends after it. -/
def volumeChange : List Event :=
  [.warmUp, .warmUp, .warmUp, .register, .change .volume (5 : Int) false, .handler 0, .handler 0,
    .handler 0, .handler 0, .handler 0, .handler 0, .poll false, .poll false, .poll false,
    .poll false, .poll false]

end Mbrc.Server.Player
