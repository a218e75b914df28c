import MbrcPlugin.Library.LateAnswers

/-!
# Runs with late answers

Each step of a thread keeps the invariant of `LateAnswers`, so in an orderly run no value outlives
the change that made it stale (`nothing_outlives`).  An answer stored after the pass does
(`lateRow`).
-/

namespace Mbrc.Readers

open Cache Reconcile

variable {lower : String → String}

/-! ## The steps of a thread -/

section Run

variable {w w' : World} {t t' : Thread} {n : Nat} {op : Op} {rest : List Op}

theorem mem_set_of_ne {l : List Thread} {s : Thread} (ht : l[n]? = some t) (hs : s ∈ l)
    (hne : s ≠ t) : s ∈ l.set n t' := by
  obtain ⟨m, hm⟩ := List.mem_iff_getElem?.mp hs
  have hnm : n ≠ m := by
    rintro rfl
    exact hne (Option.some.inj (hm.symm.trans ht))
  exact List.mem_iff_getElem?.mpr ⟨m, (List.getElem?_set_ne hnm).trans hm⟩

/-- A step of one thread, in a world that keeps the others' changes and flag. -/
theorem Inv.set (h : Inv w) (ht : w.threads[n]? = some t) (hns : t.scope ≠ .switch)
    (hscope : t'.scope = t.scope) (hcover : t'.cover = t.cover)
    (hthreads : w'.threads = w.threads.set n t') (hchanges : w'.changes = w.changes)
    (happlied : w'.applied = w.applied) (hdealt : ∀ k i, w.dealt k i = true → w'.dealt k i = true)
    (hthrough : ∀ d ∈ w'.through, d.cover ≤ w.changes.length)
    (hvalid : w'.store.cache.validated = w.store.cache.validated ∨
      w'.store.cache.validated = true ∧ ∀ s ∈ w.threads, s.scope = .switch → s.todo = [])
    (hfresh : ∀ k i, w'.dealt k i = true → w'.stored k = true → i < w'.answered k)
    (hleft : ∀ (i : Nat) (c : Change) (k : Key), i < t.cover → w.changes[i]? = some c →
      t.scope.covers c = true → c.touches k = true → (∃ op ∈ t.todo, op.deals c k = true) →
        (∃ op ∈ t'.todo, op.deals c k = true) ∨ Settled w k i ∨ w'.dealt k i = true)
    (hheld : ∀ write date, t'.stage = .answered write date ∨ t'.stage = .checked write date →
      t.cover ≤ date ∧ ∃ op rest, t'.todo = op :: rest ∧ op.Makes write)
    (hsub : t'.todo ⊆ t.todo) : Inv w' := by
  have hmem := List.mem_of_getElem? ht
  have hs := h.threads t hmem
  have hother : ∀ s ∈ w'.threads, s ∈ w.threads ∨ s = t' := by
    intro s hs
    rw [hthreads] at hs
    exact List.mem_or_eq_of_mem_set hs
  have hsettled : ∀ k i, Settled w k i → Settled w' k i := fun k i hor =>
    hor.imp (hdealt k i) fun ⟨s, hs, hswitch, htodo, hi⟩ => by
      refine ⟨s, ?_, hswitch, htodo, hi⟩
      rw [hthreads]
      exact mem_set_of_ne ht hs fun heq => hns (heq ▸ hswitch)
  have hflag : w'.store.cache.validated = false → w.store.cache.validated = false := by
    intro hv
    rcases hvalid with heq | ⟨htrue, -⟩
    · exact heq.symm.trans hv
    · rw [htrue] at hv
      exact absurd hv (by simp)
  refine ⟨hfresh, ?_, fun s hs hswitch htodo => ?_, fun s hs' => ?_, fun m scope hm => ?_⟩
  · rwa [hchanges]
  · have hs : s ∈ w.threads := by
      rcases hother s hs with hs | rfl
      · exact hs
      · exact absurd (hscope.symm.trans hswitch) hns
    rcases hvalid with heq | ⟨-, hnone⟩
    · exact heq.trans (h.pending s hs hswitch htodo)
    · exact absurd (hnone s hs hswitch) htodo
  · have hcarry : ∀ s ∈ w.threads, Sound w' s := fun s hs => (h.threads s hs).carry
      (le_of_eq (by rw [hchanges])) (fun i _ => by rw [hchanges]) (fun i _ k _ _ => hsettled k i)
      fun _ hv => Or.inl (hflag hv)
    rcases hother s hs' with hs' | rfl
    · exact hcarry s hs'
    · have hs' := hcarry t hmem
      refine ⟨hcover ▸ hs'.cover, fun i c k hi hc hcov htouch => ?_, fun hpass hv i c k hi => ?_,
        fun write date hor => hcover ▸ hheld write date hor,
        fun hswitch => absurd (hscope.symm.trans hswitch) hns,
        fun txn htxn => hs.txns txn (hsub htxn)⟩
      · rw [hcover] at hi
        rw [hscope] at hcov
        rw [hchanges] at hc
        rcases hs.left i c k hi hc hcov htouch with hop | hset
        · rcases hleft i c k hi hc hcov htouch hop with hop | hset | hd
          · exact Or.inl hop
          · exact Or.inr (hsettled k i hset)
          · exact Or.inr (Or.inl hd)
        · exact Or.inr (hsettled k i hset)
      · exact hs'.live (hscope ▸ hpass) hv i c k (hcover ▸ hi)
  · obtain ⟨hle, hall⟩ := h.applied m scope (happlied ▸ hm)
    rw [hchanges]
    exact ⟨hle, fun i c k hi hc hcov htouch => hsettled k i (hall i c k hi hc hcov htouch)⟩

/-- An operation of a switch is its transaction. -/
theorem Sound.not_switch (hs : Sound w t) (htodo : t.todo = op :: rest)
    (hor : t.stage ≠ .ready ∨ op ≠ .commit .clear) : t.scope ≠ .switch := by
  intro hswitch
  obtain ⟨hstage, hnil | hone⟩ := hs.calls hswitch
  · simp [htodo] at hnil
  · rw [htodo] at hone
    exact hor.elim (fun hne => hne hstage) fun hne => hne (List.cons.inj hone).1

/-- The thread still has what it had, or is through with it. -/
theorem deals_of_todo (htodo : t.todo = op :: rest) {i : Nat} {c : Change} {k : Key}
    (hi : i < t.cover) (hc : w.changes[i]? = some c) (hcov : t.scope.covers c = true)
    (htouch : c.touches k = true) (h : ∃ op ∈ t.todo, op.deals c k = true) :
    (∃ op ∈ rest, op.deals c k = true) ∨ w.deals (t.doing op) k i = true := by
  obtain ⟨op', hmem, hdeals⟩ := h
  rw [htodo, List.mem_cons] at hmem
  rcases hmem with rfl | hmem
  · exact Or.inr (deals_iff.mpr ⟨hi, c, hc, hcov, htouch, hdeals⟩)
  · exact Or.inl ⟨op', hmem, hdeals⟩

theorem isPass_of_covers {scope : Scope} {c : Change} (h : scope.covers c = true)
    (hne : scope ≠ .switch) : scope.isPass = true := by
  cases scope with
  | pass => rfl
  | switch => exact absurd rfl hne
  | reader | reconcile => cases c <;> simp [Scope.covers] at h

/-- What the operation of a write deals with is gone with the write, or newer. -/
theorem fresh_of_write {write : Write} {date : Nat} {k : Key} {i : Nat} (hmakes : op.Makes write)
    (hdate : t.cover ≤ date) (hkept : ∀ paths, write = .index paths →
      ∀ path ∈ paths, Renewed w t op (.row path))
    (hdeals : w.deals (t.doing op) k i = true) (hstored : (w.write write date).stored k = true) :
    i < (w.write write date).answered k := by
  obtain ⟨hi, c, -, -, -, hdl⟩ := deals_iff.mp hdeals
  have hlt : i < date := Nat.lt_of_lt_of_le hi hdate
  cases op with
  | fill | syncDelta | trackPaths | setValidated => simp [Thread.doing, Op.deals] at hdl
  | commit txn => cases write <;> exact hmakes.elim
  | warm f =>
    cases write with
    | list g page =>
      obtain rfl : g = f := hmakes
      cases k with
      | row path => simp [Thread.doing, Op.deals] at hdl
      | list f =>
        have hf : f = g := by simpa [Thread.doing, Op.deals] using hdl
        simpa [World.write, Write.stores, hf] using hlt
    | _ => exact hmakes.elim
  | drop paths =>
    cases write with
    | drop paths' =>
      obtain rfl : paths' = paths := hmakes
      cases k with
      | row path =>
        have hp : path ∈ paths' := by simpa [Thread.doing, Op.deals] using hdl
        rw [not_stored_drop hp] at hstored
        exact absurd hstored (by simp)
      | list f => simp [Thread.doing, Op.deals] at hdl
    | _ => exact hmakes.elim
  | index =>
    cases write with
    | index paths =>
      cases k with
      | row path =>
        have hp := listed_of_stored hstored
        exact hkept paths rfl path hp i hdeals (stored_write rfl hstored)
      | list f => cases c <;> simp [Thread.doing, Op.deals] at hdl
    | _ => exact hmakes.elim

theorem Inv.write {write : Write} {date : Nat} {answer : Answer} (h : Inv w)
    (ht : w.threads[n]? = some t) (htodo : t.todo = op :: rest)
    (hstage : t.stage = .checked write date) (ho : StepOrderly w t op answer) :
    Inv { (w.write write date).settle t op with threads := w.threads.set n (t.next rest) } := by
  have hs := h.threads t (List.mem_of_getElem? ht)
  obtain ⟨hdate, op', rest', htodo', hmakes⟩ := hs.held write date (Or.inr hstage)
  obtain ⟨rfl, -⟩ := List.cons.inj (htodo.symm.trans htodo')
  have hkept : ∀ paths, write = .index paths → ∀ path ∈ paths, Renewed w t op (.row path) := by
    rintro paths rfl
    simpa only [StepOrderly, hstage] using ho
  have hlate : ∀ k, write.stores k = true → NotOvertaken w k date := by
    cases write with
    | index paths => exact fun k hk => by simp [Write.stores] at hk
    | _ => simpa only [StepOrderly, hstage] using ho
  refine h.set ht (hs.not_switch htodo (Or.inl (by simp [hstage])))
    (show (t.next rest).scope = t.scope from rfl) rfl rfl rfl rfl
    (fun k i hd => ?_) (fun d hd => ?_) (Or.inl ?_) (fun k i hd hstored => ?_)
    (fun i c k hi hc hcov htouch hop => ?_) (fun write date hor => by simp [Thread.next] at hor)
    (by rw [htodo]; exact List.subset_cons_self op rest)
  · show ((w.write write date).settle t op).dealt k i = true
    rw [dealt_settle, dealt_write, hd]
    rfl
  · rcases List.mem_append.mp hd with hd | hd
    · exact h.through d hd
    · obtain rfl := List.mem_singleton.mp hd
      exact hs.cover
  · cases write <;> rfl
  · have hd' : ((w.write write date).settle t op).dealt k i = true := hd
    rw [dealt_settle, dealt_write, Bool.or_eq_true] at hd'
    show i < (w.write write date).answered k
    rcases hd' with hd' | hdeals
    · cases hstores : write.stores k with
      | true =>
        have hlt : i < date := by
          by_contra hle
          have hnot := hlate k hstores i (by omega)
          rw [hnot] at hd'
          exact absurd hd' (by simp)
        simpa [World.write, hstores] using hlt
      | false =>
        simpa [World.write, hstores] using h.fresh k i hd'
          (stored_write hstores (show (w.write write date).stored k = true from hstored))
    · exact fresh_of_write hmakes hdate hkept hdeals hstored
  · refine (deals_of_todo (w := w) htodo hi hc hcov htouch hop).imp_right fun hdeals => Or.inr ?_
    show ((w.write write date).settle t op).dealt k i = true
    rw [dealt_settle, deals_write, hdeals, Bool.or_true]

/-- A step that leaves the store alone and deals with nothing new. -/
theorem Inv.still (h : Inv w) (ht : w.threads[n]? = some t) (hns : t.scope ≠ .switch)
    (hscope : t'.scope = t.scope) (hcover : t'.cover = t.cover) (hsub : t'.todo ⊆ t.todo)
    (hleft : ∀ (i : Nat) (c : Change) (k : Key), i < t.cover → w.changes[i]? = some c →
      t.scope.covers c = true → c.touches k = true → (∃ op ∈ t.todo, op.deals c k = true) →
        (∃ op ∈ t'.todo, op.deals c k = true) ∨ Settled w k i)
    (hheld : ∀ write date, t'.stage = .answered write date ∨ t'.stage = .checked write date →
      t.cover ≤ date ∧ ∃ op rest, t'.todo = op :: rest ∧ op.Makes write) :
    Inv { w with threads := w.threads.set n t' } :=
  h.set ht hns hscope hcover rfl rfl rfl (fun _ _ hd => hd) h.through (Or.inl rfl) h.fresh
    (fun i c k hi hc hcov htouch hop => (hleft i c k hi hc hcov htouch hop).imp_right Or.inl) hheld
    hsub

/-- An operation is through that stored nothing: what it was to remove is gone, or newer. -/
theorem Inv.settle {store : Store} (h : Inv w) (ht : w.threads[n]? = some t)
    (hns : t.scope ≠ .switch) (htodo : t.todo = op :: rest)
    (hvalid : store.cache.validated = w.store.cache.validated ∨
      store.cache.validated = true ∧ ∀ s ∈ w.threads, s.scope = .switch → s.todo = [])
    (hstored : ∀ k, World.stored { w with store } k = true → w.stored k = true)
    (hrenewed : ∀ k i, w.deals (t.doing op) k i = true → World.stored { w with store } k = true →
      i < w.answered k) :
    Inv { World.settle { w with store } t op with threads := w.threads.set n (t.next rest) } := by
  have hdealt : ∀ k i, World.dealt { World.settle { w with store } t op with
      threads := w.threads.set n (t.next rest) } k i =
        (w.dealt k i || w.deals (t.doing op) k i) := fun k i =>
    dealt_settle (w := { w with store })
  refine h.set ht hns (show (t.next rest).scope = t.scope from rfl) rfl rfl rfl rfl
    (fun k i hd => ?_) (fun d hd => ?_) hvalid
    (fun k i hd hst => ?_) (fun i c k hi hc hcov htouch hop => ?_)
    (fun write date hor => by simp [Thread.next] at hor)
    (by rw [htodo]; exact List.subset_cons_self op rest)
  · rw [hdealt, hd, Bool.true_or]
  · rcases List.mem_append.mp hd with hd | hd
    · exact h.through d hd
    · obtain rfl := List.mem_singleton.mp hd
      exact (h.threads t (List.mem_of_getElem? ht)).cover
  · rw [hdealt, Bool.or_eq_true] at hd
    rcases hd with hd | hdeals
    · exact h.fresh k i hd (hstored k hst)
    · exact hrenewed k i hdeals hst
  · refine (deals_of_todo (w := w) htodo hi hc hcov htouch hop).imp_right fun hdeals => Or.inr ?_
    rw [hdealt, hdeals, Bool.or_true]

/-- What is stored after a transaction of a reconcile was stored before. -/
theorem stored_commit {txn : Txn} (htxn : Scanner.isReconcileTxn txn = true) {k : Key}
    (h : World.stored { w with store := w.store.commit lower "" txn } k = true) :
    w.stored k = true := by
  cases k with
  | row path =>
    have hne : (w.store.commit lower "" txn).cache.tags.get? path ≠ none :=
      Option.isSome_iff_ne_none.mp h
    exact Option.isSome_iff_ne_none.mpr
      ((commit_trims txn (by rintro ts rfl; simp [Scanner.isReconcileTxn] at htxn)).tags path hne)
  | list f =>
    have hne : (w.store.commit lower "" txn).lists f ≠ none := Option.isSome_iff_ne_none.mp h
    exact Option.isSome_iff_ne_none.mpr
      (commit_lists txn (by rintro g page rfl; simp [Scanner.isReconcileTxn] at htxn) hne)

theorem not_stored_clear {k : Key} :
    World.stored { w with store := w.store.commit lower "" .clear } k = false := by
  cases k <;> rfl

/-- A switch clears the cache. -/
theorem Inv.clear (h : Inv w) (ht : w.threads[n]? = some t) (hswitch : t.scope = .switch) :
    Inv { World.settle { w with store := w.store.commit lower "" .clear } t (.commit .clear) with
      threads := w.threads.set n (t.next []) } := by
  set w' : World :=
    { World.settle { w with store := w.store.commit lower "" .clear } t (.commit .clear) with
      threads := w.threads.set n (t.next []) } with hw'
  have hmem := List.mem_of_getElem? ht
  have hdealt : ∀ k i, w'.dealt k i =
      (w.dealt k i || w.deals (t.doing (.commit .clear)) k i) := fun k i =>
    dealt_settle (w := { w with store := w.store.commit lower "" .clear })
  have hclear : ∀ (i : Nat) (c : Change) (k : Key), i < t.cover → w.changes[i]? = some c →
      c.touches k = true → w'.dealt k i = true := by
    intro i c k hi hc htouch
    have hcov : (t.doing (.commit .clear)).scope.covers c = true := by
      simp [Thread.doing, hswitch, Scope.covers]
    rw [hdealt, deals_iff.mpr ⟨hi, c, hc, hcov, htouch, rfl⟩, Bool.or_true]
  have hsettled : ∀ (i : Nat) (c : Change) (k : Key), w.changes[i]? = some c →
      c.touches k = true → Settled w k i → Settled w' k i := by
    intro i c k hc htouch hor
    rcases hor with hd | ⟨s, hs, hsw, hne, hi⟩
    · exact Or.inl (by rw [hdealt, hd, Bool.true_or])
    · by_cases heq : s = t
      · exact Or.inl (hclear i c k (heq ▸ hi) hc htouch)
      · exact Or.inr ⟨s, mem_set_of_ne ht hs heq, hsw, hne, hi⟩
  have hcarry : ∀ s ∈ w.threads, Sound w' s := fun s hs => (h.threads s hs).carry le_rfl
    (fun _ _ => rfl) hsettled fun _ hv => Or.inl hv
  refine ⟨fun k i _ hst => ?_, fun d hd => ?_, fun s hs hsw hne => ?_, fun s hs => ?_,
    fun m scope hm => ?_⟩
  · have hgone : World.stored { w with store := w.store.commit lower "" .clear } k = false :=
      not_stored_clear
    exact absurd (hgone.symm.trans hst) (by simp)
  · rcases List.mem_append.mp hd with hd | hd
    · exact h.through d hd
    · obtain rfl := List.mem_singleton.mp hd
      exact (h.threads t hmem).cover
  · rcases List.mem_or_eq_of_mem_set hs with hs | rfl
    · exact h.pending s hs hsw hne
    · exact absurd rfl hne
  · rcases List.mem_or_eq_of_mem_set hs with hs | rfl
    · exact hcarry s hs
    · have hs' := hcarry t hmem
      refine ⟨hs'.cover, fun i c k hi hc _ htouch => Or.inr (Or.inl (hclear i c k hi hc htouch)),
        hs'.live, fun write date hor => by simp [Thread.next] at hor,
        fun _ => ⟨rfl, Or.inl rfl⟩, fun txn htxn => by simp [Thread.next] at htxn⟩
  · obtain ⟨hle, hall⟩ := h.applied m scope hm
    exact ⟨hle, fun i c k hi hc hcov htouch => hsettled i c k hc htouch
      (hall i c k hi hc hcov htouch)⟩

/-- **A step of a thread.** -/
theorem Inv.run {answer : Answer} (h : Inv w) (ht : w.threads[n]? = some t)
    (htodo : t.todo = op :: rest) (hstep : Stepped lower w t answer op rest w' t')
    (ho : StepOrderly w t op answer) : Inv { w' with threads := w.threads.set n t' } := by
  have hs := h.threads t (List.mem_of_getElem? ht)
  have hsub : rest ⊆ t.todo := by
    rw [htodo]
    exact List.subset_cons_self op rest
  cases hstep with
  | hold write hstage hmakes =>
    refine h.still ht (hs.not_switch htodo (Or.inr ?_)) rfl rfl (List.Subset.refl _)
      (fun i c k _ _ _ _ hop => Or.inl hop) (fun write' date hor => ?_)
    · rintro rfl
      cases write <;> exact hmakes.elim
    · obtain ⟨rfl, rfl⟩ : write = write' ∧ w.changes.length = date := by simpa using hor
      exact ⟨hs.cover, op, rest, htodo, hmakes⟩
  | look write date hstage =>
    refine h.still ht (hs.not_switch htodo (Or.inl (by simp [hstage]))) rfl rfl (List.Subset.refl _)
      (fun i c k _ _ _ _ hop => Or.inl hop) (fun write' date' hor => ?_)
    obtain ⟨rfl, rfl⟩ : write = write' ∧ date = date' := by simpa using hor
    exact hs.held write date (Or.inl hstage)
  | lapse write date hstage hv =>
    have hns := hs.not_switch htodo (Or.inl (by simp [hstage]))
    exact h.still ht hns rfl rfl hsub
      (fun i c k hi hc hcov htouch _ =>
        Or.inr (hs.live (isPass_of_covers hcov hns) hv i c k hi hc htouch))
      fun write date hor => by simp [Thread.next] at hor
  | write write date hstage => exact h.write ht htodo hstage ho
  | pass listing hstage hquiet =>
    refine h.still ht (hs.not_switch htodo (Or.inr ?_)) rfl rfl hsub
      (fun i c k hi hc hcov htouch hop => Or.inl ?_) fun write date hor => by
        simp [Thread.next] at hor
    · rintro rfl
      exact absurd (hquiet .switched (.row "")) (by simp [Op.deals])
    · rcases deals_of_todo (w := w) htodo hi hc hcov htouch hop with hrest | hdeals
      · exact hrest
      · obtain ⟨-, c, -, -, -, hdl⟩ := deals_iff.mp hdeals
        rw [show (t.doing op).op.deals c k = false from hquiet c k] at hdl
        exact absurd hdl (by simp)
  | keep hstage hkeep =>
    have hne : op ≠ .commit .clear := by
      rintro rfl
      simp at hkeep
    refine h.settle ht (hs.not_switch htodo (Or.inr hne)) htodo (Or.inl rfl)
      (fun _ hst => hst) fun k i hdeals hst => ?_
    obtain ⟨-, c, -, -, -, hdl⟩ := deals_iff.mp hdeals
    rcases hkeep with ⟨f, rfl, rfl⟩ | ⟨rfl, hlisting⟩
    · have hrenewed : Renewed w t (.warm f) (.list f) := by
        simpa [StepOrderly, hstage] using ho
      cases k with
      | row path => simp [Thread.doing, Op.deals] at hdl
      | list g =>
        obtain rfl : g = f := by simpa [Thread.doing, Op.deals] using hdl
        exact hrenewed i hdeals hst
    · have hrenewed : ∀ path, Renewed w t .index (.row path) := by
        simpa [StepOrderly, hstage, hlisting] using ho
      cases k with
      | row path => exact hrenewed path i hdeals hst
      | list f => cases c <;> simp [Thread.doing, Op.deals] at hdl
  | commit txn hstage hop =>
    subst hop
    by_cases hswitch : t.scope = .switch
    · obtain ⟨-, hnil | hone⟩ := hs.calls hswitch
      · simp [htodo] at hnil
      · obtain ⟨htxn, rfl⟩ := List.cons.inj (htodo.symm.trans hone)
        obtain rfl : txn = .clear := by simpa using htxn
        exact h.clear ht hswitch
    · have htxn := hs.txns txn (by rw [htodo]; exact List.mem_cons_self)
      refine h.settle ht hswitch htodo (Or.inl ?_) (fun k => stored_commit htxn)
        fun k i hdeals hst => ?_
      · exact (commit_trims txn (by rintro ts rfl; simp [Scanner.isReconcileTxn] at htxn)).validated
      · obtain ⟨-, c, -, -, -, hdl⟩ := deals_iff.mp hdeals
        cases txn with
        | clear =>
          rw [not_stored_clear] at hst
          exact absurd hst (by simp)
        | _ => simp [Thread.doing, Op.deals] at hdl
  | setValidated hstage hop =>
    subst hop
    have hnone : ∀ s ∈ w.threads, s.scope = .switch → s.todo = [] := by
      simpa [StepOrderly, hstage] using ho
    have hns := hs.not_switch htodo (Or.inr (by simp))
    refine h.set ht hns (show (t.next rest).scope = t.scope from rfl) rfl rfl rfl rfl
      (fun _ _ hd => hd) h.through (Or.inr ⟨rfl, hnone⟩) h.fresh
      (fun i c k hi hc hcov htouch hop => ?_) (fun write date hor => by simp [Thread.next] at hor)
      hsub
    rcases deals_of_todo (w := w) htodo hi hc hcov htouch hop with hrest | hdeals
    · exact Or.inl hrest
    · obtain ⟨-, c, -, -, -, hdl⟩ := deals_iff.mp hdeals
      simp [Thread.doing, Op.deals] at hdl

theorem Inv.finish (h : Inv w) (ht : w.threads[n]? = some t) (htodo : t.todo = []) :
    Inv { w with
      threads := w.threads.eraseIdx n
      applied := if t.scope.isPass || t.scope = .switch then w.applied ++ [(t.cover, t.scope)]
        else w.applied } := by
  have hs := h.threads t (List.mem_of_getElem? ht)
  set w' : World := { w with
    threads := w.threads.eraseIdx n
    applied := if t.scope.isPass || t.scope = .switch then w.applied ++ [(t.cover, t.scope)]
      else w.applied } with hw'
  have hsettled : ∀ k i, Settled w k i → Settled w' k i := fun k i hor =>
    hor.imp id fun ⟨s, hsm, hsw, hne, hi⟩ => by
      refine ⟨s, ?_, hsw, hne, hi⟩
      obtain ⟨m, hm⟩ := List.mem_iff_getElem?.mp hsm
      have hnm : m ≠ n := by
        rintro rfl
        obtain rfl : s = t := Option.some.inj (hm.symm.trans ht)
        exact hne htodo
      exact List.mem_eraseIdx_iff_getElem?.mpr ⟨m, hnm, hm⟩
  have happlied : ∀ m scope, (m, scope) ∈ w'.applied → (m, scope) ∈ w.applied ∨
      m = t.cover ∧ scope = t.scope := by
    intro m scope hm
    simp only [hw'] at hm
    split at hm
    · rcases List.mem_append.mp hm with hm | hm
      · exact Or.inl hm
      · exact Or.inr (by simpa using hm)
    · exact Or.inl hm
  refine ⟨h.fresh, h.through, fun s hsm => h.pending s (List.mem_of_mem_eraseIdx hsm),
    fun s hsm => ?_, fun m scope hm => ?_⟩
  · exact (h.threads s (List.mem_of_mem_eraseIdx hsm)).carry le_rfl (fun _ _ => rfl)
      (fun i _ k _ _ => hsettled k i) fun _ hv => Or.inl hv
  · rcases happlied m scope hm with hm | ⟨rfl, rfl⟩
    · obtain ⟨hle, hall⟩ := h.applied m scope hm
      exact ⟨hle, fun i c k hi hc hcov htouch => hsettled k i (hall i c k hi hc hcov htouch)⟩
    · refine ⟨hs.cover, fun i c k hi hc hcov htouch => ?_⟩
      rcases hs.left i c k hi hc hcov htouch with ⟨op, hop, -⟩ | hset
      · simp [htodo] at hop
      · exact hsettled k i hset

end Run

/-! ## Every run -/

theorem reconcileMetadata_txns {txns : List Txn} {rebuild : Bool}
    (h : txns.all Scanner.isReconcileTxn = true) (txn : Txn)
    (hmem : Op.commit txn ∈ reconcileMetadata txns rebuild) :
    Scanner.isReconcileTxn txn = true := by
  have hin : txn ∈ txns := by
    cases rebuild <;>
      simpa [reconcileMetadata, prewarmBrowseLists, buildTrackIndex] using hmem
  exact List.all_eq_true.mp h txn hin

theorem mem_prewarmBrowseLists (f : FlatList) : .warm f ∈ prewarmBrowseLists := by
  cases f with
  | artists albumArtists => cases albumArtists <;> simp [prewarmBrowseLists]
  | _ => simp [prewarmBrowseLists]

/-- A relisting has an operation for everything it runs for. -/
theorem relistLibrary_deals {edited : List Path} (c : Change) (k : Key)
    (hcov : (Scope.pass edited true).covers c = true) (htouch : c.touches k = true) :
    ∃ op ∈ relistLibrary edited, op.deals c k = true := by
  cases k with
  | list f =>
    exact ⟨.warm f, List.mem_append_right _ (mem_prewarmBrowseLists f), by simp [Op.deals]⟩
  | row path =>
    cases c with
    | rated q | tagged q =>
      have hq : path = q := by simpa [Change.touches] using htouch
      exact ⟨.drop edited, by simp [relistLibrary], by
        simpa [Op.deals, hq, Scope.covers] using hcov⟩
    | removed q =>
      exact ⟨.index, by simp [relistLibrary], by simpa [Op.deals, Change.touches] using htouch⟩
    | added q => simp [Change.touches] at htouch
    | switched => simp [Scope.covers] at hcov

theorem fileReportedEdits_deals {paths : List Path} (c : Change) (k : Key)
    (hcov : (Scope.pass paths false).covers c = true) (htouch : c.touches k = true) :
    ∃ op ∈ fileReportedEdits paths, op.deals c k = true := by
  refine ⟨.drop paths, by simp [fileReportedEdits], ?_⟩
  cases c with
  | rated q =>
    cases k with
    | row path =>
      have hq : path = q := by simpa [Change.touches] using htouch
      simpa [Op.deals, hq, Scope.covers] using hcov
    | list f => simp [Change.touches] at htouch
  | _ => simp [Scope.covers] at hcov

/-- **Every step keeps the invariant.** -/
theorem step_inv {w w' : World} {event : Event} (h : Inv w) (ho : Orderly w event)
    (hstep : step lower w event = some w') : Inv w' := by
  have hnone : ∀ {scope : Scope}, scope.isPass = false → scope ≠ .switch →
      ∀ c, scope.covers c = true → False := fun hp hne c hcov => by
    rw [isPass_of_covers hcov hne] at hp
    exact absurd hp (by simp)
  cases event with
  | change c =>
    obtain rfl := Option.some.inj hstep
    exact h.change c
  | browse f =>
    simp only [step] at hstep
    split at hstep
    · simp at hstep
    · obtain rfl := Option.some.inj hstep
      exact h.spawn (by simp) (by simp [Scope.isPass])
        (fun c k hcov => (hnone rfl (by simp) c hcov).elim) (by simp)
  | read paths =>
    obtain rfl := Option.some.inj hstep
    exact h.spawn (by simp) (by simp [Scope.isPass])
      (fun c k hcov => (hnone rfl (by simp) c hcov).elim) (by simp)
  | relist edited =>
    simp only [step, Bool.and_eq_true] at hstep
    split at hstep
    · rename_i hg
      obtain rfl := Option.some.inj hstep
      exact h.spawn (by simp) (fun _ => hg.2) relistLibrary_deals
        (by simp [relistLibrary, prewarmBrowseLists])
    · simp at hstep
  | file paths =>
    simp only [step, Bool.and_eq_true] at hstep
    split at hstep
    · rename_i hg
      obtain rfl := Option.some.inj hstep
      exact h.spawn (by simp) (fun _ => hg.2.1) fileReportedEdits_deals
        (by simp [fileReportedEdits])
    · simp at hstep
  | invalidate =>
    obtain rfl := Option.some.inj hstep
    exact h.invalidate
  | reconcile txns rebuild =>
    simp only [step, Bool.and_eq_true] at hstep
    split at hstep
    · rename_i hg
      obtain rfl := Option.some.inj hstep
      exact h.spawn (by simp) (by simp [Scope.isPass])
        (fun c k hcov => (hnone rfl (by simp) c hcov).elim) (reconcileMetadata_txns hg.2)
    · simp at hstep
  | run n answer =>
    simp only [step, Option.bind_eq_bind, Option.bind_eq_some_iff] at hstep
    obtain ⟨t, ht, ⟨w₁, t'⟩, hthread, hsome⟩ := hstep
    obtain rfl := Option.some.inj hsome
    obtain ⟨op, rest, htodo, hstepped⟩ := threadStep_stepped hthread
    exact h.run ht htodo hstepped (ho t op rest ht htodo)
  | finish n =>
    simp only [step, Option.bind_eq_bind, Option.bind_eq_some_iff] at hstep
    obtain ⟨t, ht, hsome⟩ := hstep
    split at hsome
    · rename_i htodo
      obtain rfl := Option.some.inj hsome
      exact h.finish ht htodo
    · simp at hsome

theorem initial_inv (store : Store) : Inv (World.initial store) where
  fresh k i hd := by simp [World.initial, World.dealt] at hd
  through d hd := by simp [World.initial] at hd
  pending s hs := by simp [World.initial] at hs
  threads t ht := by simp [World.initial] at ht
  applied n scope hn := by simp [World.initial] at hn

/-- **Nothing outlives the change that made it stale**, in an orderly run. -/
theorem nothing_outlives {store : Store} {events : List Event} {w : World}
    (ho : (system lower).Along Orderly (World.initial store) events)
    (hexec : (system lower).exec (World.initial store) events = some w) : NothingOutlives w :=
  ((system lower).exec_induction (fun _ _ _ hi hC hn => step_inv hi hC hn) (initial_inv store) ho
    hexec).nothingOutlives

/-- A check of a step that is orderly: no pass but one of ratings, and no answer that a pass met on
its way. -/
def calm (w : World) : Event → Bool
  | .run n _ => (w.threads[n]?).all fun t =>
    match t.stage, t.todo with
    | .checked (.index _) _, _ => t.scope = .reconcile
    | .checked _ date, _ => w.through.all fun d => d.cover ≤ date
    | .ready, .warm _ :: _ => false
    | .ready, .index :: _ => t.listing.isSome
    | .ready, .setValidated :: _ => w.threads.all (·.scope ≠ .switch)
    | _, _ => true
  | _ => true

theorem notOvertaken_of_calm {w : World} {date : Nat}
    (h : (w.through.all fun d => d.cover ≤ date) = true) (k : Key) : NotOvertaken w k date := by
  intro i hi
  rw [← Bool.not_eq_true, World.dealt, List.any_eq_true]
  rintro ⟨d, hd, hdeals⟩
  have hle : d.cover ≤ date := by simpa using List.all_eq_true.mp h d hd
  have hlt := (deals_iff.mp hdeals).1
  omega

theorem orderly_of_calm (w : World) (event : Event) (h : calm w event = true) :
    Orderly w event := by
  cases event with
  | run n answer =>
    intro t op rest ht htodo
    rw [calm, ht, Option.all_some, htodo] at h
    unfold StepOrderly
    split
    · rename_i paths date hstage
      rw [hstage] at h
      intro path _ i hdeals
      obtain ⟨-, c, -, hcov, -⟩ := deals_iff.mp hdeals
      have hscope : t.scope = .reconcile := by simpa using h
      cases c <;> simp [Thread.doing, hscope, Scope.covers] at hcov
    · rename_i write date hne hstage
      rw [hstage] at h
      intro k _
      refine notOvertaken_of_calm ?_ k
      cases write with
      | index paths => exact (hne paths rfl).elim
      | _ => exact h
    · rename_i f hstage
      rw [hstage] at h
      simp at h
    · rename_i hstage
      rw [hstage] at h
      intro hlisting
      simp [hlisting] at h
    · rename_i hstage
      rw [hstage] at h
      intro s hs hswitch
      have hall := List.all_eq_true.mp h s hs
      simp [hswitch] at hall
    · trivial
  | _ => trivial

/-- The tags of the file with a rating. -/
def ratedRow (rating : ℚ) : CachedTags := { src := "a", rating := some (rating : WithTop ℚ) }

/-- The library is listed, and a reader caches the tags of a file; the file is rated, its row
dropped, and a second reader caches them again. -/
def ratedBetween : List Event :=
  [.reconcile [] false, .run 0 .nothing, .run 0 (.paths ["a"]), .run 0 .nothing, .run 0 .nothing,
    .run 0 .nothing, .run 0 .nothing, .finish 0,
    .read ["a"], .run 0 (.tracks [ratedRow 1]), .run 0 .nothing,
    .run 0 .nothing, .finish 0, .change (.rated "a"),
    .file ["a"], .run 0 .nothing, .run 0 .nothing, .run 0 .nothing, .finish 0,
    .read ["a"], .run 0 (.tracks [ratedRow 5]), .run 0 .nothing,
    .run 0 .nothing, .finish 0]

/-- The second row is served, and the first is gone. -/
theorem nothing_outlives_ratedBetween :
    ∃ w, (system id).exec (World.initial .initial) ratedBetween = some w ∧
      w.applied.length = 1 ∧ w.served (.row "a") = true ∧ NothingOutlives w := by
  have hrun : ((system id).exec (World.initial .initial) ratedBetween).any
      (fun w => w.applied.length = 1 ∧ w.served (.row "a") = true) = true := by decide +kernel
  have hcalm : (system id).checked calm (World.initial .initial) ratedBetween = true := by
    decide +kernel
  obtain ⟨w, hexec, hfacts⟩ := (Option.any_eq_true _ _).mp hrun
  obtain ⟨happlied, hserved⟩ := of_decide_eq_true hfacts
  exact ⟨w, hexec, happlied, hserved,
    nothing_outlives ((system id).along_of_checked orderly_of_calm hcalm) hexec⟩

/-! ## A row that stays -/

/-- A reader asks for the tags of a file; the file is rated and its row dropped; then the reader
stores the answer. -/
def lateRow : List Event :=
  [.reconcile [] false, .run 0 .nothing, .run 0 (.paths ["a"]), .run 0 .nothing, .run 0 .nothing,
    .run 0 .nothing, .run 0 .nothing, .finish 0,
    .read ["a"], .run 0 (.tracks [ratedRow 1]), .change (.rated "a"),
    .file ["a"], .run 1 .nothing, .run 1 .nothing, .run 1 .nothing, .finish 1,
    .run 0 .nothing, .run 0 .nothing, .finish 0]

/-- The old rating is served, with the pass and the reader through. -/
theorem late_row_outlives :
    ¬ ∀ store events w, (system id).exec (World.initial store) events = some w →
      NothingOutlives w := by
  intro hall
  have hrun : ((system id).exec (World.initial .initial) lateRow).any (fun w =>
      w.applied[0]? = some (1, .pass ["a"] false) ∧ w.threads.isEmpty = true ∧
      w.changes[0]? = some (.rated "a") ∧ w.served (.row "a") = true ∧
      w.answered (.row "a") = 0) = true := by decide +kernel
  obtain ⟨w, hexec, hfacts⟩ := (Option.any_eq_true _ _).mp hrun
  obtain ⟨happlied, hnone, hchange, hserved, hdate⟩ := of_decide_eq_true hfacts
  have hlt := hall _ _ w hexec 0 1 _ happlied
    (fun t ht => by rw [List.isEmpty_iff.mp hnone] at ht; simp at ht) 0 _ (.row "a") (by omega)
    hchange (by decide) (by decide) hserved
  omega

end Mbrc.Readers
