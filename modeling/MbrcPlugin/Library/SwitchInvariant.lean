import MbrcPlugin.Library.Switches

/-!
# What a reconcile can rely on

The invariant of the caches between wipes and reconciles, that the steps beside a reconcile keep it
where they are taken with care, and the facts about the caches that they leave true in a stage of
the reconcile.
-/

namespace Mbrc.Switches

open Cache Interaction Interaction.Program Reconcile Transition

/-! ## The invariant -/

namespace World

variable (w : World)

/-- A switch is to be notified, or some caller is to make the wipe. -/
def Awaits (wipe : Wipe) : Prop :=
  w.switched = false ∨ 0 < w.unannounced ∨ ∃ c ∈ w.callers, wipe ∈ c.todo

/-- The wipes of a switch are all to be made. -/
def Pending : Prop := 0 < w.unannounced ∨ ∃ c ∈ w.callers, c.todo = switchWipes

/-- The caches need not be filled: a call failed, or wipes are to be made. -/
def Wanting : Prop :=
  w.failed = true ∨ w.switched = false ∨ 0 < w.unannounced ∨ ∃ c ∈ w.callers, c.todo ≠ []

def Follows : Prop := ∃ c ∈ w.callers, c.scope.doesMetadata = true

/-- The reconcile under way is still to fill the caches. -/
def Refills : Prop :=
  ∃ r, w.running = some r ∧ r.scope.doesMetadata = true ∧ r.wiped = false ∧ r.stage ≠ .covers

variable {w}

theorem Pending.awaits {wipe : Wipe} (h : w.Pending) : w.Awaits wipe := by
  rcases h with h | ⟨c, hc, htodo⟩
  · exact .inr (.inl h)
  · refine .inr (.inr ⟨c, hc, ?_⟩)
    rw [htodo]
    cases wipe <;> decide

theorem Awaits.wanting {wipe : Wipe} (h : w.Awaits wipe) : w.Wanting := by
  rcases h with h | h | ⟨c, hc, hwipe⟩
  · exact .inr (.inl h)
  · exact .inr (.inr (.inl h))
  · exact .inr (.inr (.inr ⟨c, hc, List.ne_nil_of_mem hwipe⟩))

end World

/-- A caller's wipes are the rest of a switch's or a rebuild's, and a reconcile follows them. -/
structure Caller.Sound (c : Caller) : Prop where
  follows : c.todo ≠ [] → c.scope.doesMetadata = true
  rest : c.todo <:+ switchWipes ∨ c.todo <:+ invalidate

/-- What holds of the reconcile under way. -/
structure World.Holder (w : World) (r : Running) : Prop where
  metadata : r.stage = .fingerprinting ∨ r.stage = .filling → r.scope.doesMetadata = true
  wiped : r.wiped = true → r.stage = .filling ∨ r.stage = .covers
  /-- The attempt that follows a wipe still waits. -/
  undone : r.wiped = true → w.Follows
  flag : r.stage = .filling → r.wiped = false → w.store.cache.validated = true
  seen : r.stage = .filling → w.gate = some true →
    w.store.cache.validated = true ∨ w.Awaits .clear
  unseen : r.stage = .filling → w.gate = some false → w.store.cache.validated = false
  filled : r.stage = .covers → r.scope.doesMetadata = true → r.wiped = false →
    Filled w.heard w.store ∨ w.Wanting

/-- Each part of the caches is as heard or to be wiped, and they are filled or some attempt is to
fill them. -/
structure World.Inv (lower : String → String) (w : World) : Prop where
  fingerprint : w.Awaits .unvalidate ∨ FingerprintRead lower w.heard w.store
  tables : w.Awaits .clear ∨ TablesRead w.heard w.store
  /-- The index is written after the lists. -/
  full : w.Awaits .clear ∨ w.failed = true ∨
    (w.store.cache.index ≠ [] → ∀ f, w.store.lists f ≠ none)
  log : w.Awaits .forgetLog ∨ LogRead w.heard w.store.log
  callers : ∀ c ∈ w.callers, c.Sound
  holder : ∀ r, w.running = some r → w.Holder r
  refills : Filled w.heard w.store ∨ w.Wanting ∨ w.Follows ∨ w.Refills

section

variable {lower : String → String}

theorem World.Inv.start (store : Store) : (World.fresh store).Inv lower where
  fingerprint := .inl (.inl rfl)
  tables := .inl (.inl rfl)
  full := .inl (.inl rfl)
  log := .inl (.inl rfl)
  callers c hc := by cases hc
  holder r hr := by cases hr
  refills := .inr (.inl (.inr (.inl rfl)))

/-- What the invariant says at rest. -/
theorem World.Inv.settled {w : World} (h : w.Inv lower) (hrest : w.AtRest) : w.Settled lower := by
  have hawaits : ∀ wipe, ¬ w.Awaits wipe := by
    rintro wipe (hs | hu | ⟨c, hc, -⟩)
    · rw [hrest.switched] at hs
      cases hs
    · exact hu.ne' hrest.announced
    · rw [hrest.callers] at hc
      cases hc
  constructor
  · intro _
    exact ⟨h.fingerprint.resolve_left (hawaits _), h.tables.resolve_left (hawaits _),
      h.log.resolve_left (hawaits _)⟩
  · intro hfailed
    rcases h.refills with hfilled | (hf | hs | hu | ⟨c, hc, -⟩) | ⟨c, hc, -⟩ | ⟨r, hr, -⟩
    · exact hfilled
    · rw [hfailed] at hf
      cases hf
    · rw [hrest.switched] at hs
      cases hs
    · exact absurd hrest.announced hu.ne'
    · rw [hrest.callers] at hc
      cases hc
    · rw [hrest.callers] at hc
      cases hc
    · rw [hrest.running] at hr
      cases hr

/-! ## What the others do -/

namespace World

/-- A step of others that wipes nothing. -/
structure Moved (w w' : World) : Prop where
  store : w'.store = w.store
  gate : w'.gate = w.gate
  failed : w'.failed = w.failed
  heard : w'.heard = w.heard ∨ 0 < w'.unannounced
  kept : ∀ c ∈ w.callers, c.todo ≠ [] → c ∈ w'.callers
  announced : 0 < w.unannounced → w'.Pending
  switched : w.switched = false → w'.switched = false ∨ w'.Pending
  sound : (∀ c ∈ w.callers, c.Sound) → ∀ c ∈ w'.callers, c.Sound

variable {w w' : World}

theorem Moved.pending (h : Moved w w') (hp : w.Pending) : w'.Pending := by
  rcases hp with hpos | ⟨c, hc, htodo⟩
  · exact h.announced hpos
  · refine .inr ⟨c, h.kept c hc ?_, htodo⟩
    rw [htodo]
    decide

theorem Moved.awaits {wipe : Wipe} (h : Moved w w') (ha : w.Awaits wipe) : w'.Awaits wipe := by
  rcases ha with hs | hpos | ⟨c, hc, hwipe⟩
  · exact (h.switched hs).elim .inl Pending.awaits
  · exact (h.announced hpos).awaits
  · exact .inr (.inr ⟨c, h.kept c hc (List.ne_nil_of_mem hwipe), hwipe⟩)

theorem Pending.wanting (h : w.Pending) : w.Wanting := (h.awaits : w.Awaits .clear).wanting

theorem Moved.wanting (h : Moved w w') (hw : w.Wanting) : w'.Wanting := by
  rcases hw with hf | hs | hpos | ⟨c, hc, htodo⟩
  · exact .inl (h.failed.trans hf)
  · exact (h.switched hs).elim (fun hs => .inr (.inl hs)) Pending.wanting
  · exact (h.announced hpos).wanting
  · exact .inr (.inr (.inr ⟨c, h.kept c hc htodo, htodo⟩))

theorem moved_load : Moved w { w with heard := [], unannounced := w.unannounced + 1 } where
  store := rfl
  gate := rfl
  failed := rfl
  heard := .inr (Nat.succ_pos _)
  kept _ hc _ := hc
  announced _ := .inl (Nat.succ_pos _)
  switched := .inl
  sound h := h

theorem sound_call {c : Caller} (hc : c.Sound) (h : ∀ c ∈ w.callers, c.Sound) :
    ∀ d ∈ (w.call c).callers, d.Sound := by
  intro d hd
  rcases List.mem_append.mp hd with hd | hd
  · exact h d hd
  · rwa [List.mem_singleton.mp hd]

theorem moved_call {c : Caller} (hc : c.Sound) : Moved w (w.call c) where
  store := rfl
  gate := rfl
  failed := rfl
  heard := .inl rfl
  kept _ hd _ := List.mem_append_left _ hd
  announced := .inl
  switched := .inl
  sound := sound_call hc

theorem sound_switch : Caller.Sound ⟨switchWipes, .both⟩ :=
  ⟨fun _ => rfl, .inl List.suffix_rfl⟩

theorem sound_rebuild (scope : RebuildScope) : Caller.Sound ⟨rebuildWipes scope, scope⟩ := by
  cases scope with
  | metadata => exact ⟨fun _ => rfl, .inr List.suffix_rfl⟩
  | covers => exact ⟨fun h => absurd rfl h, .inl List.nil_suffix⟩
  | both => exact ⟨fun h => absurd rfl h, .inl List.nil_suffix⟩

theorem sound_reconcile : Caller.Sound ⟨[], .both⟩ := ⟨fun h => absurd rfl h, .inl List.nil_suffix⟩

/-- The notification: what was awaited of it is awaited of its caller. -/
theorem moved_switched : Moved w { w.call ⟨switchWipes, .both⟩ with
    switched := true, unannounced := w.unannounced - 1 } where
  store := rfl
  gate := rfl
  failed := rfl
  heard := .inl rfl
  kept _ hd _ := List.mem_append_left _ hd
  announced _ := .inr ⟨_, List.mem_append_right _ (List.mem_singleton_self _), rfl⟩
  switched _ := .inr (.inr ⟨_, List.mem_append_right _ (List.mem_singleton_self _), rfl⟩)
  sound := sound_call sound_switch

theorem mem_eraseIdx {α : Type} {as : List α} {n : Nat} {a b : α} (hn : as[n]? = some a)
    (hb : b ∈ as) (hne : b ≠ a) : b ∈ as.eraseIdx n := by
  obtain ⟨i, hi⟩ := List.mem_iff_getElem?.mp hb
  refine List.mem_eraseIdx_iff_getElem?.mpr ⟨i, ?_, hi⟩
  rintro rfl
  exact hne (Option.some.inj (hi.symm.trans hn))

theorem mem_set {α : Type} {as : List α} {n : Nat} {a b c : α} (hn : as[n]? = some a)
    (hb : b ∈ as) (hne : b ≠ a) : b ∈ as.set n c := by
  obtain ⟨i, hi⟩ := List.mem_iff_getElem?.mp hb
  refine List.mem_iff_getElem?.mpr ⟨i, ?_⟩
  rw [List.getElem?_set_ne, hi]
  rintro rfl
  exact hne (Option.some.inj (hi.symm.trans hn))

/-- A caller without wipes is one nothing was awaited of. -/
theorem moved_take {n : Nat} {scope : RebuildScope} {running : Running}
    (hn : w.callers[n]? = some ⟨[], scope⟩) : Moved w (w.take n running) where
  store := rfl
  gate := rfl
  failed := rfl
  heard := .inl rfl
  kept c hc htodo := by
    refine mem_eraseIdx hn hc ?_
    rintro rfl
    exact htodo rfl
  announced := .inl
  switched := .inl
  sound h c hc := h c (List.mem_of_mem_eraseIdx hc)

/-! ## A wipe -/

section Wipe

variable {n : Nat} {first : Wipe} {rest : List Wipe} {scope : RebuildScope}

theorem mem_wipe (hn : w.callers[n]? = some ⟨first :: rest, scope⟩) :
    ⟨rest, scope⟩ ∈ (w.wipe n first ⟨rest, scope⟩).callers :=
  List.mem_set (List.getElem?_eq_some_iff.mp hn).1 _

theorem kept_wipe {c : Caller} (hn : w.callers[n]? = some ⟨first :: rest, scope⟩)
    (hc : c ∈ w.callers) : c = ⟨first :: rest, scope⟩ ∨
      c ∈ (w.wipe n first ⟨rest, scope⟩).callers := by
  by_cases heq : c = ⟨first :: rest, scope⟩
  · exact .inl heq
  · exact .inr (mem_set hn hc heq)

theorem awaits_wipe {wipe : Wipe} (hn : w.callers[n]? = some ⟨first :: rest, scope⟩)
    (hne : wipe ≠ first) (h : w.Awaits wipe) :
    (w.wipe n first ⟨rest, scope⟩).Awaits wipe := by
  refine h.imp_right (Or.imp_right fun ⟨c, hc, htodo⟩ => ?_)
  rcases kept_wipe hn hc with rfl | hkept
  · exact ⟨_, mem_wipe hn, (List.mem_cons.mp htodo).resolve_left hne⟩
  · exact ⟨c, hkept, htodo⟩

theorem sound_wipe (hn : w.callers[n]? = some ⟨first :: rest, scope⟩)
    (h : ∀ c ∈ w.callers, c.Sound) : ∀ c ∈ (w.wipe n first ⟨rest, scope⟩).callers, c.Sound := by
  have hcaller := h _ (List.mem_of_getElem? hn)
  intro c hc
  rcases List.mem_or_eq_of_mem_set hc with hc | rfl
  · exact h c hc
  · exact ⟨fun _ => hcaller.follows (List.cons_ne_nil _ _),
      hcaller.rest.imp (List.suffix_cons _ _).trans (List.suffix_cons _ _).trans⟩

theorem follows_wipe (hn : w.callers[n]? = some ⟨first :: rest, scope⟩)
    (h : ∀ c ∈ w.callers, c.Sound) : (w.wipe n first ⟨rest, scope⟩).Follows :=
  ⟨_, mem_wipe hn, (h _ (List.mem_of_getElem? hn)).follows (List.cons_ne_nil _ _)⟩

/-- Whoever unsets the flag is to clear the tables. -/
theorem clear_after_unvalidate (hn : w.callers[n]? = some ⟨.unvalidate :: rest, scope⟩)
    (h : ∀ c ∈ w.callers, c.Sound) : (w.wipe n .unvalidate ⟨rest, scope⟩).Awaits .clear := by
  refine .inr (.inr ⟨_, mem_wipe hn, ?_⟩)
  have hrest := (h _ (List.mem_of_getElem? hn)).rest
  simp only [switchWipes, invalidate, forgetLibrary, List.cons_append, List.nil_append,
    List.suffix_cons_iff, List.suffix_nil] at hrest
  rcases hrest with (h | h | h | h | h) | (h | h | h) <;> cases h <;> simp

theorem holder_wipe (hn : w.callers[n]? = some ⟨first :: rest, scope⟩) (h : w.Inv lower)
    {r : Running} (hr : w.running = some r) (hmay : w.mayWipe r first = true) :
    (w.wipe n first ⟨rest, scope⟩).Holder (mark r) := by
  have hholder := h.holder r hr
  have hstage : (mark r).stage = r.stage := rfl
  have hmark : r.stage = .filling ∨ r.stage = .covers → (mark r).wiped = true := by
    rintro (hst | hst) <;> simp [mark, hst]
  refine ⟨hholder.metadata, ?_, fun _ => follows_wipe hn h.callers, ?_, ?_, ?_, ?_⟩
  · intro hw
    simp only [mark, Bool.or_eq_true, decide_eq_true_eq] at hw
    exact hw.elim (fun hw => hw.elim hholder.wiped .inl) .inr
  · intro hst hw
    rw [hmark (.inl hst)] at hw
    cases hw
  · intro hst hseen
    cases first with
    | unvalidate => exact .inr (clear_after_unvalidate hn h.callers)
    | clear =>
      have hgate : w.store.cache.validated = false ∧ w.gate ≠ some true := by
        simpa [mayWipe, show r.stage = .filling from hst] using hmay
      exact absurd hseen hgate.2
    | forgetLog | forgetWatermark =>
      exact (hholder.seen hst hseen).imp_right (awaits_wipe hn (by decide))
  · intro hst hunseen
    cases first with
    | unvalidate => rfl
    | _ => exact hholder.unseen hst hunseen
  · intro hst _ hw
    rw [hmark (.inr hst)] at hw
    cases hw

theorem Inv.wipe (hn : w.callers[n]? = some ⟨first :: rest, scope⟩) (h : w.Inv lower)
    (hmay : ∀ r, w.running = some r → w.mayWipe r first = true) :
    (w.wipe n first ⟨rest, scope⟩).Inv lower where
  fingerprint := by
    cases first with
    | unvalidate => exact .inr fun hflag => Bool.noConfusion hflag
    | _ => exact h.fingerprint.imp (awaits_wipe hn (by decide)) id
  tables := by
    cases first with
    | clear =>
      refine .inr ⟨fun f page hpage => ?_, .inl rfl⟩
      cases show none = some page from hpage
    | _ => exact h.tables.imp (awaits_wipe hn (by decide)) fun ht => ⟨ht.lists, ht.index⟩
  full := by
    cases first with
    | clear => exact .inr (.inr fun hindex => absurd rfl hindex)
    | _ => exact h.full.imp_left (awaits_wipe hn (by decide))
  log := by
    cases first with
    | forgetLog =>
      refine .inr ⟨ChangeLog.empty_consistent, .inl fun p => ?_⟩
      rintro ⟨g, hg⟩
      cases hg.symm.trans (Table.get?_empty p)
    | _ => exact h.log.imp_left (awaits_wipe hn (by decide))
  callers := sound_wipe hn h.callers
  holder r' hr' := by
    obtain ⟨r, hr, rfl⟩ := Option.map_eq_some_iff.mp hr'
    exact holder_wipe hn h hr (hmay r hr)
  refills := .inr (.inr (.inl (follows_wipe hn h.callers)))

end Wipe

/-! ## Their steps -/

/-- What others do to the world: a wipe, or a step that wipes nothing; an attempt begins, or is
skipped. -/
theorem outside_cases {e : Outside} (h : w.outside e = some w') (hallows : w.allows e = true) :
    (∃ n first rest scope, w.callers[n]? = some ⟨first :: rest, scope⟩ ∧
      w' = w.wipe n first ⟨rest, scope⟩ ∧ ∀ r, w.running = some r → w.mayWipe r first = true) ∨
    (Moved w w' ∧ w'.running = w.running ∧ (w.Follows → w'.Follows ∨
      ∃ r, w.running = some r ∧ r.scope.doesMetadata = true ∧ r.wiped = false)) ∨
    (Moved w w' ∧ w.running = none ∧ ∃ scope, w'.running = some { scope } ∧
      (w.Follows → w'.Follows ∨ scope.doesMetadata = true)) := by
  cases e with
  | load =>
    obtain rfl := Option.some.inj h
    exact .inr (.inl ⟨moved_load, rfl, .inl⟩)
  | switched =>
    simp only [outside] at h
    split at h
    · cases h
    obtain rfl := Option.some.inj h
    exact .inr (.inl ⟨moved_switched, rfl,
      fun ⟨c, hc, h⟩ => .inl ⟨c, List.mem_append_left _ hc, h⟩⟩)
  | rebuild scope =>
    obtain rfl := Option.some.inj h
    exact .inr (.inl ⟨moved_call (sound_rebuild scope), rfl,
      fun ⟨c, hc, h⟩ => .inl ⟨c, List.mem_append_left _ hc, h⟩⟩)
  | reconcile =>
    obtain rfl := Option.some.inj h
    exact .inr (.inl ⟨moved_call sound_reconcile, rfl,
      fun ⟨c, hc, h⟩ => .inl ⟨c, List.mem_append_left _ hc, h⟩⟩)
  | wipe n =>
    simp only [outside] at h
    split at h
    case h_2 => cases h
    case h_1 first rest scope hn =>
      obtain rfl := Option.some.inj h
      refine .inl ⟨n, first, rest, scope, hn, rfl, fun r hr => ?_⟩
      simpa only [allows, hr, hn] using hallows
  | «begin» n =>
    simp only [outside] at h
    split at h
    case h_2 => cases h
    case h_1 scope hn =>
      obtain rfl := Option.some.inj h
      have hfollows : w.Follows →
          (w.take n (w.running.getD { scope })).Follows ∨ scope.doesMetadata = true := by
        rintro ⟨c, hc, hmeta⟩
        by_cases heq : c = ⟨[], scope⟩
        · rw [heq] at hmeta
          exact .inr hmeta
        · exact .inl ⟨c, mem_eraseIdx hn hc heq, hmeta⟩
      right
      cases hr : w.running with
      | none => exact .inr ⟨moved_take hn, rfl, scope, rfl, hr ▸ hfollows⟩
      | some r =>
        rw [hr] at hfollows
        refine .inl ⟨moved_take hn, rfl, fun hf => (hfollows hf).imp_right ?_⟩
        intro hmeta
        have hskip : r.maySkip scope = true := by simpa only [allows, hr, hn] using hallows
        exact ⟨r, rfl, by simpa [Running.maySkip, hmeta] using hskip⟩

theorem Moved.read {wipe : Wipe} {P : List Heard → Prop} (h : Moved w w')
    (hP : w.Awaits wipe ∨ P w.heard) : w'.Awaits wipe ∨ P w'.heard := by
  rcases hP with ha | hP
  · exact .inl (h.awaits ha)
  · rcases h.heard with heq | hpos
    · rw [heq]
      exact .inr hP
    · exact .inl (.inr (.inl hpos))

theorem Moved.filled (h : Moved w w') (hf : Filled w.heard w.store ∨ w.Wanting) :
    Filled w'.heard w'.store ∨ w'.Wanting := by
  rcases hf with hf | hf
  · rcases h.heard with heq | hpos
    · rw [heq, h.store]
      exact .inl hf
    · exact .inr (.inr (.inr (.inl hpos)))
  · exact .inr (h.wanting hf)

/-- The reconcile under way, where no wipe and no attempt of its kind touches it. -/
theorem Moved.holder {r : Running} (h : Moved w w') (hholder : w.Holder r)
    (hfollows : r.wiped = true → w'.Follows) : w'.Holder r where
  metadata := hholder.metadata
  wiped := hholder.wiped
  undone := hfollows
  flag := by
    rw [h.store]
    exact hholder.flag
  seen hst hseen := by
    rw [h.gate] at hseen
    rw [h.store]
    exact (hholder.seen hst hseen).imp_right h.awaits
  unseen := by
    rw [h.gate, h.store]
    exact hholder.unseen
  filled hst hmeta hw := h.filled (hholder.filled hst hmeta hw)

theorem holder_start (scope : RebuildScope) : w.Holder { scope } where
  metadata hst := by simp at hst
  wiped hw := by cases hw
  undone hw := by cases hw
  flag hst := by cases hst
  seen hst := by cases hst
  unseen hst := by cases hst
  filled hst := by cases hst

/-- Where nothing is wiped, all parts are as they were. -/
theorem Moved.inv (h : Moved w w') (hinv : w.Inv lower)
    (hholder : ∀ r, w'.running = some r → w'.Holder r)
    (hrefills : Filled w'.heard w'.store ∨ w'.Wanting ∨ w'.Follows ∨ w'.Refills) :
    w'.Inv lower where
  fingerprint := by
    rw [h.store]
    exact h.read (P := fun heard => FingerprintRead lower heard w.store) hinv.fingerprint
  tables := by
    rw [h.store]
    exact h.read (P := fun heard => TablesRead heard w.store) hinv.tables
  full := by
    rw [h.store, h.failed]
    exact hinv.full.imp_left h.awaits
  log := by
    rw [h.store]
    exact h.read (P := fun heard => LogRead heard w.store.log) hinv.log
  callers := h.sound hinv.callers
  holder := hholder
  refills := hrefills

/-- **The others keep the invariant.** -/
theorem Inv.outside {e : Outside} (hinv : w.Inv lower) (hallows : w.allows e = true)
    (h : w.outside e = some w') : w'.Inv lower := by
  rcases outside_cases h hallows with
    ⟨n, first, rest, scope, hn, rfl, hmay⟩ | ⟨hmoved, hrun, hfollows⟩ |
    ⟨hmoved, hnone, scope, hrun, hfollows⟩
  · exact hinv.wipe hn hmay
  · apply hmoved.inv hinv
    · intro r hr
      rw [hrun] at hr
      refine hmoved.holder (hinv.holder r hr) fun hw => ?_
      rcases hfollows ((hinv.holder r hr).undone hw) with hf | ⟨r', hr', -, hw'⟩
      · exact hf
      · rw [Option.some.inj (hr.symm.trans hr'), hw'] at hw
        cases hw
    · have hkept : Filled w.heard w.store ∨ w.Wanting →
          Filled w'.heard w'.store ∨ w'.Wanting ∨ w'.Follows ∨ w'.Refills :=
        fun hf => (hmoved.filled hf).imp_right .inl
      rcases hinv.refills with hf | hf | hf | ⟨r, hr, hf⟩
      · exact hkept (.inl hf)
      · exact hkept (.inr hf)
      · rcases hfollows hf with hf | ⟨r, hr, hmeta, hw⟩
        · exact .inr (.inr (.inl hf))
        -- the skipped attempt's work is done, or is still to be
        · by_cases hst : r.stage = .covers
          · exact hkept ((hinv.holder r hr).filled hst hmeta hw)
          · exact .inr (.inr (.inr ⟨r, hrun.trans hr, hmeta, hw, hst⟩))
      · exact .inr (.inr (.inr ⟨r, hrun.trans hr, hf⟩))
  · apply hmoved.inv hinv
    · intro r hr
      obtain rfl := Option.some.inj (hrun.symm.trans hr)
      exact holder_start scope
    · rcases hinv.refills with hf | hf | hf | ⟨r, hr, -⟩
      · exact (hmoved.filled (.inl hf)).imp_right .inl
      · exact .inr (.inl (hmoved.wanting hf))
      · rcases hfollows hf with hf | hmeta
        · exact .inr (.inr (.inl hf))
        · exact .inr (.inr (.inr ⟨_, hrun, hmeta, rfl, by simp⟩))
      · rw [hnone] at hr
        cases hr


theorem Inv.look (hinv : w.Inv lower) : Inv lower { w with gate := some w.store.cache.validated } :=
  { hinv with
    holder := fun r hr =>
      { hinv.holder r hr with
        seen := fun _ hseen => .inl (Option.some.inj hseen)
        unseen := fun _ hunseen => Option.some.inj hunseen } }

/-! ## What stays true beside the reconcile -/

/-- The stage of the reconcile under way. -/
def At (stage : Stage) (w : World) : Prop := ∃ r, w.running = some r ∧ r.stage = stage

theorem At.eq {stage : Stage} {r : Running} (hat : w.At stage) (hr : w.running = some r) :
    r.stage = stage := by
  obtain ⟨r', hr', hst⟩ := hat
  rwa [Option.some.inj (hr'.symm.trans hr)] at hst

theorem running_stage {r : Running} (stage : Stage) (hr : w.running = some r) :
    (w.stage stage).running = some { r with stage } := by
  simp only [World.stage, hr, Option.map_some]

theorem at_stage {r : Running} (stage : Stage) (hr : w.running = some r) :
    (w.stage stage).At stage :=
  ⟨_, running_stage stage hr, rfl⟩

/-- What happens beside a call of the reconcile, and what a call to the host adds. -/
inductive Touched (w : World) : World → Prop where
  | moved {w' : World} (h : Moved w w') (hrun : w'.running = w.running) : Touched w w'
  | wiped {n : Nat} {first : Wipe} {rest : List Wipe} {scope : RebuildScope}
    (hn : w.callers[n]? = some ⟨first :: rest, scope⟩)
    (hmay : ∀ r, w.running = some r → w.mayWipe r first = true) :
    Touched w (w.wipe n first ⟨rest, scope⟩)
  | looked : Touched w { w with gate := some w.store.cache.validated }
  | heard (more : List Heard) (failed : Bool) :
    Touched w { w with heard := w.heard ++ more, failed := w.failed || failed }

/-- Nothing beside the reconcile, in this stage, makes it false. -/
def Lasts (lower : String → String) (stage : Stage) (P : World → Prop) : Prop :=
  ∀ w w', w.Inv lower → w.At stage → Touched w w' → P w → P w'

theorem Lasts.and {stage : Stage} {P Q : World → Prop} (hP : Lasts lower stage P)
    (hQ : Lasts lower stage Q) : Lasts lower stage fun w => P w ∧ Q w :=
  fun w w' hinv hat ht h => ⟨hP w w' hinv hat ht h.1, hQ w w' hinv hat ht h.2⟩

theorem lasts_at (stage : Stage) : Lasts lower stage (At stage) := by
  rintro w w' - - ht ⟨r, hr, hst⟩
  cases ht with
  | moved h hrun => exact ⟨r, hrun.trans hr, hst⟩
  | wiped hn hmay => exact ⟨mark r, by rw [World.wipe, hr]; rfl, hst⟩
  | looked => exact ⟨r, hr, hst⟩
  | heard => exact ⟨r, hr, hst⟩

/-- What a `mayWipe` says in a stage. -/
theorem mayWipe_at {stage : Stage} {first : Wipe} (hat : w.At stage)
    (hmay : ∀ r, w.running = some r → w.mayWipe r first = true) :
    (first = .unvalidate → stage ≠ .fingerprinting) ∧
    (first = .clear → stage = .filling → w.store.cache.validated = false ∧ w.gate ≠ some true) ∧
    (first = .forgetLog → w.gate ≠ some true) := by
  obtain ⟨r, hr, rfl⟩ := hat
  have hmay := hmay r hr
  refine ⟨?_, ?_, ?_⟩ <;> rintro rfl
  · simpa [mayWipe] using hmay
  · simpa [mayWipe, imp_iff_not_or] using hmay
  · simpa [mayWipe] using hmay

/-! ## The facts the reconcile goes by -/

/-- The albums were heard of the library loaded last, or a switch's wipes are all to be made. -/
def Enumerated (identifiers : List AlbumIdentifier) (w : World) : Prop :=
  Heard.albums identifiers ∈ w.heard ∨ w.Pending

/-- What was heard is of the library loaded last, or a switch's wipes are all to be made, or the
flag is unset: then a write under way will be cleared and forgotten. -/
def Vouched (x : Heard) (w : World) : Prop :=
  x ∈ w.heard ∨ w.Pending ∨ (w.store.cache.validated = false ∧
    (w.gate = some true → ∃ c ∈ w.callers, .clear ∈ c.todo ∧ .forgetLog ∈ c.todo))

/-- These lists are there, unless the tables are to be cleared. -/
def Warm (lists : List FlatList) (w : World) : Prop :=
  w.store.cache.validated = false ∨ w.failed = true ∨ w.Awaits .clear ∨
    ∀ f ∈ lists, w.store.lists f ≠ none

def Indexed (paths : List Path) (w : World) : Prop :=
  w.store.cache.validated = false ∨ w.store.cache.index = paths

/-- The log holds these paths, unless it is or was to be forgotten. -/
def Logged (paths : List Path) (w : World) : Prop :=
  w.store.cache.validated = false ∨ (∃ r, w.running = some r ∧ r.wiped = true) ∨
    w.Awaits .forgetLog ∨ ∀ p, w.store.log.IsLive p ↔ p ∈ paths

theorem lasts_enumerated (identifiers : List AlbumIdentifier) :
    Lasts lower .fingerprinting (Enumerated identifiers) := by
  intro w w' hinv hat ht h
  cases ht with
  | moved hm hrun =>
    rcases h with h | h
    · rcases hm.heard with heq | hpos
      · exact .inl (heq ▸ h)
      · exact .inr (.inl hpos)
    · exact .inr (hm.pending h)
  | wiped hn hmay =>
    refine h.imp_right (Or.imp_right fun ⟨c, hc, htodo⟩ => ?_)
    rcases kept_wipe hn hc with rfl | hkept
    · -- the flag is not unset here
      have hfirst := (List.cons.inj htodo).1
      exact absurd rfl ((mayWipe_at hat hmay).1 hfirst)
    · exact ⟨c, hkept, htodo⟩
  | looked => exact h
  | heard => exact h.imp_left (List.mem_append_left _)

theorem lasts_fingerprint {stage : Stage} (fingerprint : Option Nat) :
    Lasts lower stage fun w => w.store.cache.fingerprint = fingerprint := by
  intro w w' hinv hat ht h
  cases ht with
  | moved hm hrun =>
    rw [hm.store]
    exact h
  | @wiped n first rest scope hn hmay => cases first <;> exact h
  | looked => exact h
  | heard => exact h

theorem lasts_vouched (x : Heard) : Lasts lower .filling (Vouched x) := by
  intro w w' hinv hat ht h
  cases ht with
  | moved hm hrun =>
    rcases h with h | h | ⟨hflag, hgate⟩
    · rcases hm.heard with heq | hpos
      · exact .inl (heq ▸ h)
      · exact .inr (.inl (.inl hpos))
    · exact .inr (.inl (hm.pending h))
    · refine .inr (.inr ⟨by rw [hm.store]; exact hflag, fun hseen => ?_⟩)
      rw [hm.gate] at hseen
      obtain ⟨c, hc, hclear, hforget⟩ := hgate hseen
      exact ⟨c, hm.kept c hc (List.ne_nil_of_mem hclear), hclear, hforget⟩
  | @wiped n first rest scope hn hmay =>
    obtain ⟨-, hmayClear, hmayForget⟩ := mayWipe_at hat hmay
    have hflag' : w.store.cache.validated = false →
        (w.wipe n first ⟨rest, scope⟩).store.cache.validated = false := by
      intro hflag
      cases first <;> first | rfl | exact hflag
    rcases h with h | (hpos | ⟨c, hc, htodo⟩) | ⟨hflag, hgate⟩
    · exact .inl h
    · exact .inr (.inl (.inl hpos))
    · rcases kept_wipe hn hc with rfl | hkept
      · obtain ⟨rfl, rfl⟩ := List.cons.inj htodo
        exact .inr (.inr ⟨rfl, fun _ => ⟨_, mem_wipe hn, by simp [forgetLibrary]⟩⟩)
      · exact .inr (.inl (.inr ⟨c, hkept, htodo⟩))
    · refine .inr (.inr ⟨hflag' hflag, fun hseen => ?_⟩)
      obtain ⟨c, hc, hclear, hforget⟩ := hgate hseen
      rcases kept_wipe hn hc with rfl | hkept
      · refine ⟨_, mem_wipe hn, ?_, ?_⟩
        · refine (List.mem_cons.mp hclear).resolve_left ?_
          rintro rfl
          exact (hmayClear rfl rfl).2 hseen
        · refine (List.mem_cons.mp hforget).resolve_left ?_
          rintro rfl
          exact hmayForget rfl hseen
      · exact ⟨c, hkept, hclear, hforget⟩
  | looked =>
    refine h.imp_right (Or.imp_right fun ⟨hflag, _⟩ => ⟨hflag, fun hseen => ?_⟩)
    rw [hflag] at hseen
    cases hseen
  | heard => exact h.imp_left (List.mem_append_left _)

theorem lasts_warm (lists : List FlatList) : Lasts lower .filling (Warm lists) := by
  intro w w' hinv hat ht h
  cases ht with
  | moved hm hrun =>
    rw [Warm, hm.store, hm.failed]
    exact h.imp_right (Or.imp_right (Or.imp_left hm.awaits))
  | @wiped n first rest scope hn hmay =>
    cases first with
    | unvalidate => exact .inl rfl
    | clear => exact .inl ((mayWipe_at hat hmay).2.1 rfl rfl).1
    | forgetLog | forgetWatermark =>
      exact h.imp_right (Or.imp_right (Or.imp_left (awaits_wipe hn (by decide))))
  | looked => exact h
  | heard => exact h.imp_right (Or.imp_left fun hf => by rw [hf]; rfl)

theorem lasts_indexed (paths : List Path) : Lasts lower .filling (Indexed paths) := by
  intro w w' hinv hat ht h
  cases ht with
  | moved hm hrun =>
    rw [Indexed, hm.store]
    exact h
  | @wiped n first rest scope hn hmay =>
    cases first with
    | unvalidate => exact .inl rfl
    | clear => exact .inl ((mayWipe_at hat hmay).2.1 rfl rfl).1
    | forgetLog | forgetWatermark => exact h
  | looked => exact h
  | heard => exact h

theorem lasts_logged (paths : List Path) : Lasts lower .filling (Logged paths) := by
  intro w w' hinv hat ht h
  cases ht with
  | moved hm hrun =>
    rw [Logged, hm.store, hrun]
    exact h.imp_right (Or.imp_right (Or.imp_left hm.awaits))
  | @wiped n first rest scope hn hmay =>
    have hwiped : ∃ r, (w.wipe n first ⟨rest, scope⟩).running = some r ∧ r.wiped = true := by
      obtain ⟨r, hr, hst⟩ := hat
      exact ⟨mark r, by rw [World.wipe, hr]; rfl, by simp [mark, hst]⟩
    exact .inr (.inl hwiped)
  | looked => exact h
  | heard => exact h

end World

end

end Mbrc.Switches
