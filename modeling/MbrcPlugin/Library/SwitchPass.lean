import MbrcPlugin.Library.SwitchInvariant

/-!
# A pass over the metadata beside others

Each call of `reconcile_metadata` keeps the invariant, whatever is done beside it with care.  Up to
the flag the pass goes by the albums it read, after it by the writes that saw the flag set.
-/

namespace Mbrc.Switches

open Cache Interaction Interaction.Program Reconcile Transition

section

variable {lower : String → String}

namespace World

variable {w w' : World}

/-! ## The calls -/

/-- What the others take care of. -/
def care : Guard Empty Call World Part Host where
  during _ part w :=
    match part with
    | .outside e => w.allows e = true
    | .look => True

theorem stable {stage : Stage} {P : World → Prop} (hP : Lasts lower stage P) (c : Call) :
    (machine lower).Stable care c fun w => w.Inv lower ∧ w.At stage ∧ P w := by
  rintro part w w' ⟨hinv, hat, h⟩ hcare hpart
  cases part with
  | outside e =>
    refine ⟨hinv.outside hcare hpart, ?_⟩
    rcases outside_cases hpart hcare with
      ⟨n, first, rest, scope, hn, rfl, hmay⟩ | ⟨hmoved, hrun, -⟩ | ⟨-, hnone, -⟩
    · exact (lasts_at stage).and hP w _ hinv hat (.wiped hn hmay) ⟨hat, h⟩
    · exact (lasts_at stage).and hP w _ hinv hat (.moved hmoved hrun) ⟨hat, h⟩
    · obtain ⟨r, hr, -⟩ := hat
      rw [hnone] at hr
      cases hr
  | look =>
    have hlooked : w' = { w with gate := some w.store.cache.validated } := by
      cases c with
      | commit txn =>
        simp only [machine, during] at hpart
        split at hpart
        · exact (Option.some.inj hpart).symm
        · cases hpart
      | _ => cases hpart
    rw [hlooked]
    exact ⟨hinv.look, (lasts_at stage).and hP w _ hinv hat .looked ⟨hat, h⟩⟩

theorem Wanting.heard {more : List Heard} {failed : Bool} (h : w.Wanting) :
    Wanting { w with heard := w.heard ++ more, failed := w.failed || failed } :=
  h.imp_left fun hf => by rw [hf]; rfl

end World

theorem Filled.more {heard : List Heard} {s : Store} (h : Filled heard s) (more : List Heard) :
    Filled (heard ++ more) s :=
  { h with index := List.mem_append_left _ h.index }

theorem TablesRead.more {heard : List Heard} {s : Store} (h : TablesRead heard s)
    (more : List Heard) : TablesRead (heard ++ more) s :=
  ⟨fun f page hpage => List.mem_append_left _ (h.lists f page hpage),
    h.index.imp_right (List.mem_append_left _)⟩

theorem LogRead.more {heard : List Heard} {log : ChangeLog} (h : LogRead heard log)
    (more : List Heard) : LogRead (heard ++ more) log :=
  ⟨h.consistent, h.live.imp_right fun ⟨paths, hpaths, hlive⟩ =>
    ⟨paths, List.mem_append_left _ hpaths, hlive⟩⟩

theorem FingerprintRead.more {heard : List Heard} {s : Store} (h : FingerprintRead lower heard s)
    (more : List Heard) : FingerprintRead lower (heard ++ more) s := by
  intro hflag
  obtain ⟨identifiers, halbums, hfp⟩ := h hflag
  exact ⟨identifiers, List.mem_append_left _ halbums, hfp⟩

namespace World

variable {w w' : World}

/-- The host answers. -/
theorem Inv.heard (hinv : w.Inv lower) (more : List Heard) (failed : Bool) :
    Inv lower { w with heard := w.heard ++ more, failed := w.failed || failed } where
  fingerprint := hinv.fingerprint.imp_right fun h => h.more more
  tables := hinv.tables.imp_right fun h => h.more more
  full := hinv.full.imp_right (Or.imp_left fun hf => by rw [hf]; rfl)
  log := hinv.log.imp_right fun h => h.more more
  callers := hinv.callers
  holder r hr :=
    { hinv.holder r hr with
      filled := fun hst hmeta hw =>
        ((hinv.holder r hr).filled hst hmeta hw).imp (fun h => h.more more) Wanting.heard }
  refills := hinv.refills.imp (fun h => h.more more) (Or.imp_left Wanting.heard)

/-- A part of the reconcile in one stage. -/
def Does {α : Type} (lower : String → String) (stage : Stage) (P : World → Prop) (p : Work α)
    (Q : α → World → Prop) : Prop :=
  Spec (machine lower) care (Inv lower) (fun w => w.At stage ∧ P w) p Q

/-- A call to the host. -/
theorem does_host (lower : String → String) {stage : Stage} {P : World → Prop} {c : Call}
    {Q : Ans c → World → Prop}
    (hans : ∀ host w, ∃ ans : Ans c, answer lower c host w = some (ans, { w with
      heard := w.heard ++ heardOf c ans, failed := w.failed || callFailed c ans }))
    (hP : Lasts lower stage P)
    (hQ : ∀ ans w, P w → (∀ x ∈ heardOf c ans, x ∈ w.heard) →
      (callFailed c ans = true → w.failed = true) → Q ans w) :
    Does lower stage P (ask c) fun ans w => w.At stage ∧ Q ans w := by
  refine spec_ask (stable hP c) fun host w ans w' hinv h _ hanswer => ?_
  obtain ⟨ans', hans'⟩ := hans host w
  obtain ⟨rfl, rfl⟩ := Prod.mk.inj (Option.some.inj (hans'.symm.trans hanswer))
  refine ⟨hinv.heard _ _, lasts_at stage w _ hinv h.1 (.heard _ _) h.1, hQ _ _ ?_ ?_ ?_⟩
  · exact hP w _ hinv h.1 (.heard _ _) h.2
  · exact fun x hx => List.mem_append_right _ hx
  · intro hfailed
    simp only [hfailed, Bool.or_true]

/-- A look at the store. -/
theorem does_look {stage : Stage} {P : World → Prop} {Q : Store → World → Prop}
    (hP : Lasts lower stage P) (hQ : ∀ w, w.Inv lower → w.At stage → P w → Q w.store w) :
    Does lower stage P look fun s w => w.At stage ∧ P w ∧ Q s w := by
  refine spec_ask (stable hP .look) fun host w s w' hinv h _ hanswer => ?_
  obtain ⟨rfl, rfl⟩ := Prod.mk.inj (Option.some.inj hanswer)
  have hinv' := hinv.heard [] false
  have hat' := lasts_at stage w _ hinv h.1 (.heard [] false) h.1
  have hP' := hP w _ hinv h.1 (.heard [] false) h.2
  exact ⟨hinv', hat', hP', hQ _ hinv' hat' hP'⟩

end World

/-! ## The writes before the flag -/

/-- The writes of the reconcile before it sets the flag. -/
def preparing : Txn → Bool
  | .clear | .storeTagsSchema | .dropMovedAlbums _ | .storeFingerprint _ | .storeAlbumStamps _
  | .dropNavLists => true
  | _ => false

section Preparing

variable {epoch : Epoch} {s : Store} {txn : Txn}

/-- They leave the tables as they are, or empty. -/
theorem preparing_tables (lower : String → String) (epoch : Epoch) (s : Store)
    (h : preparing txn = true) :
    ((s.commit lower epoch txn).lists = s.lists ∧
      (s.commit lower epoch txn).cache.index = s.cache.index) ∨
    ((∀ f, (s.commit lower epoch txn).lists f = none) ∧
      (s.commit lower epoch txn).cache.index = []) := by
  cases txn with
  | clear => exact .inr ⟨fun _ => rfl, rfl⟩
  | dropMovedAlbums albums =>
    simp only [Store.commit, MetadataCache.dropMovedAlbums, MetadataCache.dropTagsOf]
    by_cases hstamps : s.cache.stamps.rows = []
    · exact .inr ⟨fun f => by rw [if_pos hstamps], by rw [if_pos hstamps]; rfl⟩
    · refine .inl ⟨by rw [if_neg hstamps], ?_⟩
      rw [if_neg hstamps]
      split
      · rfl
      · split <;> rfl
  | storeTagsSchema | storeFingerprint _ | storeAlbumStamps _ | dropNavLists =>
    exact .inl ⟨rfl, rfl⟩
  | _ => cases h

theorem preparing_tablesRead {heard : List Heard} (h : preparing txn = true)
    (ht : TablesRead heard s) : TablesRead heard (s.commit lower epoch txn) := by
  rcases preparing_tables lower epoch s h with ⟨hlists, hindex⟩ | ⟨hlists, hindex⟩
  · constructor
    · rw [hlists]
      exact ht.lists
    · rw [hindex]
      exact ht.index
  · refine ⟨fun f page hpage => ?_, .inl hindex⟩
    rw [hlists f] at hpage
    cases hpage

theorem preparing_full (h : preparing txn = true)
    (hfull : s.cache.index ≠ [] → ∀ f, s.lists f ≠ none) :
    (s.commit lower epoch txn).cache.index ≠ [] →
      ∀ f, (s.commit lower epoch txn).lists f ≠ none := by
  rcases preparing_tables lower epoch s h with ⟨hlists, hindex⟩ | ⟨hlists, hindex⟩
  · rw [hlists, hindex]
    exact hfull
  · intro hne
    exact absurd hindex hne

theorem preparing_validated (h : preparing txn = true) :
    (s.commit lower epoch txn).cache.validated = s.cache.validated := by
  refine (commit_trims txn ?_).validated
  rintro ts rfl
  cases h

theorem preparing_log (h : preparing txn = true) :
    (s.commit lower epoch txn).log = s.log := by
  refine commit_log txn ?_
  rintro paths edited rfl
  cases h

theorem preparing_fingerprint (lower : String → String) (epoch : Epoch) (s : Store)
    (h : preparing txn = true)
    (hne : ∀ fingerprint, txn ≠ .storeFingerprint fingerprint) :
    (s.commit lower epoch txn).cache.fingerprint = s.cache.fingerprint := by
  cases txn with
  | storeFingerprint fingerprint => exact absurd rfl (hne fingerprint)
  | dropMovedAlbums albums =>
    simp only [Store.commit, MetadataCache.dropMovedAlbums, MetadataCache.dropTagsOf]
    split
    · rfl
    · split
      · rfl
      · split <;> rfl
  | clear | storeTagsSchema | storeAlbumStamps _ | dropNavLists => rfl
  | _ => cases h

theorem preparing_not_gated (h : preparing txn = true) : gated txn = false := by
  cases txn <;> first | rfl | cases h

end Preparing

namespace World

variable {w w' : World}

/-- In these stages the reconcile itself is still to fill the caches, or a caller is. -/
theorem Inv.unfinished (hinv : w.Inv lower) {stage : Stage} (hat : w.At stage)
    (hstage : stage = .fingerprinting ∨ stage = .filling) : w.Follows ∨ w.Refills := by
  obtain ⟨r, hr, rfl⟩ := hat
  cases hw : r.wiped with
  | true => exact .inl ((hinv.holder r hr).undone hw)
  | false =>
    refine .inr ⟨r, hr, (hinv.holder r hr).metadata hstage, hw, ?_⟩
    rcases hstage with hst | hst <;> simp [hst]

theorem Inv.prepare {epoch : Epoch} {txn : Txn} (hinv : w.Inv lower) (hat : w.At .fingerprinting)
    (htxn : preparing txn = true) (hfp : w.Awaits .unvalidate ∨
      FingerprintRead lower w.heard (w.store.commit lower epoch txn)) :
    Inv lower { w with store := w.store.commit lower epoch txn } where
  fingerprint := hfp
  tables := hinv.tables.imp_right (preparing_tablesRead htxn)
  full := hinv.full.imp_right (Or.imp_right (preparing_full htxn))
  log := by
    rw [preparing_log htxn]
    exact hinv.log
  callers := hinv.callers
  holder r hr := by
    have hst := hat.eq hr
    have hholder := hinv.holder r hr
    exact ⟨hholder.metadata, hholder.wiped, hholder.undone, by simp [hst], by simp [hst],
      by simp [hst], by simp [hst]⟩
  refills := .inr (.inr (hinv.unfinished hat (.inl rfl)))

/-- A write before the flag that is not the fingerprint's. -/
theorem does_prepare {P : World → Prop} {txn : Txn} (htxn : preparing txn = true)
    (hne : ∀ fingerprint, txn ≠ .storeFingerprint fingerprint)
    (hP : Lasts lower .fingerprinting P)
    (hkeep : ∀ w (s : Store), s.cache.fingerprint = w.store.cache.fingerprint → P w →
      P { w with store := s }) :
    Does lower .fingerprinting P (commit txn) fun _ w => w.At .fingerprinting ∧ P w := by
  refine spec_ask (stable hP _) fun host w _ w' hinv ⟨hat, h⟩ _ hanswer => ?_
  have hans : answer lower (.commit txn) host w =
      some ((), { w with store := w.store.commit lower host.newEpoch txn }) := by
    unfold answer
    exact if_neg (by rw [preparing_not_gated htxn]; exact Bool.false_ne_true)
  obtain ⟨-, rfl⟩ := Prod.mk.inj (Option.some.inj (hans.symm.trans hanswer))
  have hfp := preparing_fingerprint lower host.newEpoch w.store htxn hne
  refine ⟨hinv.prepare hat htxn ?_, hat, hkeep w _ hfp h⟩
  refine hinv.fingerprint.imp_right fun hread => ?_
  rw [FingerprintRead, hfp, preparing_validated htxn]
  exact hread


/-! ## Up to the flag -/

theorem fingerprintRead_of {identifiers : List AlbumIdentifier} {s : Store}
    (h : w.Enumerated identifiers)
    (hfp : s.cache.fingerprint = some (fingerprint (stampsOf lower identifiers)).toNat) :
    w.Awaits .unvalidate ∨ FingerprintRead lower w.heard s := by
  rcases h with h | h
  · exact .inr fun _ => ⟨identifiers, h, hfp⟩
  · exact .inl h.awaits

/-- The stored fingerprint is that of the albums. -/
def Stored (lower : String → String) (identifiers : List AlbumIdentifier) (w : World) : Prop :=
  w.store.cache.fingerprint = some (fingerprint (stampsOf lower identifiers)).toNat

section Fingerprinting

variable {identifiers : List AlbumIdentifier}

theorem lasts_stored : Lasts lower .fingerprinting
    fun w => w.Enumerated identifiers ∧ w.Stored lower identifiers :=
  (lasts_enumerated identifiers).and (lasts_fingerprint _)

theorem does_storeFingerprint : Does lower .fingerprinting (Enumerated identifiers)
    (commit (.storeFingerprint (fingerprint (stampsOf lower identifiers))))
    fun _ w => w.At .fingerprinting ∧ w.Enumerated identifiers ∧ w.Stored lower identifiers := by
  refine spec_ask (stable (lasts_enumerated identifiers) _)
    fun host w _ w' hinv ⟨hat, h⟩ _ hanswer => ?_
  obtain ⟨-, rfl⟩ := Prod.mk.inj (Option.some.inj hanswer)
  exact ⟨hinv.prepare hat rfl (fingerprintRead_of h rfl), hat, h, rfl⟩

/-- Any write but that of the fingerprint, once the fingerprint is stored. -/
theorem does_prepareStored {txn : Txn} (htxn : preparing txn = true)
    (hne : ∀ fingerprint, txn ≠ .storeFingerprint fingerprint) :
    Does lower .fingerprinting (fun w => w.Enumerated identifiers ∧ w.Stored lower identifiers)
      (commit txn) fun _ w =>
        w.At .fingerprinting ∧ w.Enumerated identifiers ∧ w.Stored lower identifiers :=
  does_prepare htxn hne lasts_stored fun _ _ hfp h => ⟨h.1, hfp.trans h.2⟩

theorem does_prepareEnumerated {txn : Txn} (htxn : preparing txn = true)
    (hne : ∀ fingerprint, txn ≠ .storeFingerprint fingerprint) :
    Does lower .fingerprinting (Enumerated identifiers) (commit txn) fun _ w =>
      w.At .fingerprinting ∧ w.Enumerated identifiers :=
  does_prepare htxn hne (lasts_enumerated identifiers) fun _ _ _ h => h

/-- The flag is set over the albums' own fingerprint. -/
theorem Inv.setValidated (hinv : w.Inv lower) (hat : w.At .fingerprinting)
    (h : w.Enumerated identifiers) (hstored : w.Stored lower identifiers) :
    ({ w with store := flagged w.store true }.stage .filling).Inv lower where
  fingerprint := fingerprintRead_of h hstored
  tables := hinv.tables.imp_right fun ht => ⟨ht.lists, ht.index⟩
  full := hinv.full
  log := hinv.log
  callers := hinv.callers
  holder r' hr' := by
    obtain ⟨r, hr, rfl⟩ := Option.map_eq_some_iff.mp hr'
    have hst := hat.eq hr
    have hholder := hinv.holder r hr
    exact ⟨fun _ => hholder.metadata (.inl hst), fun _ => .inl rfl, hholder.undone, fun _ _ => rfl,
      fun _ _ => .inl rfl, (fun _ hunseen => nomatch hunseen), (fun hst => nomatch hst)⟩
  refills := by
    rcases hinv.unfinished hat (.inl rfl) with hf | ⟨r, hr, hmeta, hw, -⟩
    · exact .inr (.inr (.inl hf))
    · exact .inr (.inr (.inr ⟨_, running_stage _ hr, hmeta, hw, by simp⟩))

theorem does_setValidated : Does lower .fingerprinting
    (fun w => w.Enumerated identifiers ∧ w.Stored lower identifiers) setValidated
    fun _ w => w.At .filling := by
  refine spec_ask (stable lasts_stored _) fun host w _ w' hinv ⟨hat, h, hstored⟩ _ hanswer => ?_
  obtain ⟨-, rfl⟩ := Prod.mk.inj (Option.some.inj hanswer)
  obtain ⟨r, hr, hst⟩ := hat
  exact ⟨hinv.setValidated ⟨r, hr, hst⟩ h hstored, at_stage _ hr⟩

/-- A look whose answer says nothing here. -/
theorem does_look' {stage : Stage} {P : World → Prop} (hP : Lasts lower stage P) :
    Does lower stage P look fun _ w => w.At stage ∧ P w :=
  (does_look (Q := fun _ _ => True) hP fun _ _ _ _ => trivial).post
    fun _ _ _ h => ⟨h.1, h.2.1⟩

theorem does_reconcileRest (moved : Bool) : Does lower .fingerprinting
    (fun w => w.Enumerated identifiers ∧ w.Stored lower identifiers)
    (reconcileRest (stampsOf lower identifiers) moved) fun _ w => w.At .filling := by
  refine (does_look' lasts_stored).bind fun s => ?_
  refine (spec_when (fun _ => does_prepareStored rfl (by simp)) fun _ _ _ h => h).bind fun _ => ?_
  refine (does_look' lasts_stored).bind fun s => ?_
  refine (spec_when (fun _ => does_prepareStored rfl (by simp)) fun _ _ _ h => h).bind fun _ => ?_
  exact does_setValidated.bind fun _ => spec_pure fun _ _ h => h

/-- **The reconcile of the cache**, up to the flag. -/
theorem does_reconcile : Does lower .fingerprinting (Enumerated identifiers)
    (reconcile (stampsOf lower identifiers) (fingerprint (stampsOf lower identifiers)))
    fun _ w => w.At .filling := by
  have hlasts : Lasts lower .fingerprinting (Enumerated identifiers) :=
    lasts_enumerated identifiers
  refine (does_look' hlasts).bind fun s => ?_
  refine (spec_when (Q := fun _ (w : World) => w.At .fingerprinting ∧ w.Enumerated identifiers)
    (fun _ => ?_) fun _ _ _ h => h).bind fun _ => ?_
  · exact (does_prepareEnumerated rfl (by simp)).bind fun _ =>
      does_prepareEnumerated rfl (by simp)
  refine (does_look (Q := fun s (w : World) => s.cache.fingerprint = w.store.cache.fingerprint)
    hlasts fun _ _ _ _ => rfl).bind fun s' => ?_
  refine (spec_when (Q := fun _ (w : World) =>
    w.At .fingerprinting ∧ w.Enumerated identifiers ∧ w.Stored lower identifiers)
    (fun _ => ?_) fun hmoved w _ h => ?_).bind fun _ => does_reconcileRest _
  · refine Spec.pre (P := fun (w : World) => w.At .fingerprinting ∧ w.Enumerated identifiers) ?_
      fun _ _ h => ⟨h.1, h.2.1⟩
    exact (spec_when (fun _ => does_prepareEnumerated rfl (by simp)) fun _ _ _ h => h).bind
      fun _ => does_storeFingerprint
  · -- nothing moved: the fingerprint is stored already
    simp only [Bool.or_eq_false_iff, decide_eq_false_iff_not, not_not] at hmoved
    exact ⟨h.1, h.2.1, h.2.2.symm.trans hmoved.2⟩

end Fingerprinting


/-! ## The writes after the flag -/

/-- A write while the tables are filled. -/
theorem Inv.fill {s : Store} (hinv : w.Inv lower) (hat : w.At .filling)
    (hfp : s.cache.fingerprint = w.store.cache.fingerprint)
    (hflag : s.cache.validated = w.store.cache.validated)
    (htables : w.Awaits .clear ∨ TablesRead w.heard s)
    (hfull : w.Awaits .clear ∨ w.failed = true ∨ (s.cache.index ≠ [] → ∀ f, s.lists f ≠ none))
    (hlog : w.Awaits .forgetLog ∨ LogRead w.heard s.log) :
    Inv lower { w with store := s, gate := none } where
  fingerprint := by
    refine hinv.fingerprint.imp_right fun hread => ?_
    rw [FingerprintRead, hfp, hflag]
    exact hread
  tables := htables
  full := hfull
  log := hlog
  callers := hinv.callers
  holder r hr := by
    have hst := hat.eq hr
    have hholder := hinv.holder r hr
    refine ⟨hholder.metadata, hholder.wiped, hholder.undone, fun hst hw => ?_,
      (fun _ hseen => nomatch hseen), (fun _ hunseen => nomatch hunseen), by simp [hst]⟩
    exact hflag.trans (hholder.flag hst hw)
  refills := .inr (.inr (hinv.unfinished hat (.inr rfl)))

/-- A write that saw the flag unset is made where it is unset. -/
theorem Inv.unseen (hinv : w.Inv lower) (hat : w.At .filling) (h : w.gate = some false) :
    w.store.cache.validated = false := by
  obtain ⟨r, hr, hst⟩ := hat
  exact (hinv.holder r hr).unseen hst h

theorem Inv.seen (hinv : w.Inv lower) (hat : w.At .filling) (h : w.gate = some true) :
    w.store.cache.validated = true ∨ w.Awaits .clear := by
  obtain ⟨r, hr, hst⟩ := hat
  exact (hinv.holder r hr).seen hst h

theorem Inv.untouched (hinv : w.Inv lower) (hat : w.At .filling) :
    Inv lower { w with store := w.store, gate := none } :=
  hinv.fill hat rfl rfl hinv.tables hinv.full hinv.log

/-- A write that looks at the flag first. -/
theorem does_gated {P Q : World → Prop} {txn : Txn} (htxn : gated txn = true)
    (hP : Lasts lower .filling P)
    (hQ : ∀ w seen epoch, w.Inv lower → w.At .filling → P w → w.gate = some seen →
      Inv lower { w with store := commitSeeing lower seen epoch w.store txn, gate := none } ∧
        Q { w with store := commitSeeing lower seen epoch w.store txn, gate := none }) :
    Does lower .filling P (commit txn) fun _ w => w.At .filling ∧ Q w := by
  refine spec_ask (stable hP _) fun host w _ w' hinv ⟨hat, h⟩ _ hanswer => ?_
  have hans : answer lower (.commit txn) host w = w.gate.map fun seen => ((), { w with
      store := commitSeeing lower seen host.newEpoch w.store txn, gate := none }) := by
    unfold answer
    exact if_pos htxn
  obtain ⟨seen, hseen, heq⟩ := Option.map_eq_some_iff.mp (hans.symm.trans hanswer)
  obtain ⟨-, rfl⟩ := Prod.mk.inj heq
  obtain ⟨hinv', hQ'⟩ := hQ w seen host.newEpoch hinv hat h hseen
  exact ⟨hinv', hat, hQ'⟩

/-- What was vouched for was heard, or is to be cleared and forgotten. -/
theorem Vouched.awaits {x : Heard} {wipe : Wipe} (h : w.Vouched x) (hgate : w.gate = some true)
    (hwipe : wipe = .clear ∨ wipe = .forgetLog) : w.Awaits wipe ∨ x ∈ w.heard := by
  rcases h with h | h | ⟨-, h⟩
  · exact .inr h
  · exact .inl h.awaits
  · obtain ⟨c, hc, hclear, hforget⟩ := h hgate
    refine .inl (.inr (.inr ⟨c, hc, ?_⟩))
    rcases hwipe with rfl | rfl
    · exact hclear
    · exact hforget

theorem does_put {f : FlatList} {page : Page f.Item} {lists : List FlatList} :
    Does lower .filling (fun w => w.Warm lists ∧ w.Vouched (.page f page)) (commit (.put f page))
      fun _ w => w.At .filling ∧ w.Warm (f :: lists) := by
  refine does_gated rfl ((lasts_warm lists).and (lasts_vouched _)) ?_
  rintro w seen epoch hinv hat ⟨hwarm, hpage⟩ hgate
  cases seen with
  | false => exact ⟨hinv.untouched hat, .inl (hinv.unseen hat hgate)⟩
  | true =>
    have hlists : ∀ g, w.store.lists g ≠ none →
        Function.update w.store.lists f (some page) g ≠ none := by
      intro g hg
      by_cases hgf : g = f
      · subst hgf
        simp
      · rwa [Function.update_of_ne hgf]
    constructor
    · refine hinv.fill hat rfl rfl ?_ ?_ hinv.log
      · rcases hpage.awaits hgate (.inl rfl) with ha | hheard
        · exact .inl ha
        refine hinv.tables.imp_right fun ht => ⟨fun g page' hpage' => ?_, ht.index⟩
        change Function.update w.store.lists f (some page) g = some page' at hpage'
        by_cases hgf : g = f
        · subst hgf
          rw [Function.update_self] at hpage'
          rwa [← Option.some.inj hpage']
        · rw [Function.update_of_ne hgf] at hpage'
          exact ht.lists g page' hpage'
      · exact hinv.full.imp_right (Or.imp_right fun h hindex g => hlists g (h hindex g))
    · refine hwarm.imp_right (Or.imp_right (Or.imp_right fun h g hg => ?_))
      rcases List.mem_cons.mp hg with rfl | hg
      · show Function.update w.store.lists g (some page) g ≠ none
        simp
      · exact hlists g (h g hg)

theorem does_prewarm (f : FlatList) (lists : List FlatList) :
    Does lower .filling (Warm lists) (prewarm f)
      fun _ w => w.At .filling ∧ w.Warm (f :: lists) := by
  have hbrowse := does_host lower (c := .browse f)
    (Q := fun page w => match page with
      | some page => w.Warm lists ∧ w.Vouched (.page f page)
      | none => w.Warm (f :: lists)) (fun host w => ⟨host.list f, rfl⟩) (lasts_warm lists) ?_
  · refine hbrowse.bind fun page => ?_
    cases page with
    | some page => exact does_put
    | none => exact spec_pure fun _ _ h => h
  · intro page w hwarm hheard hfailed
    cases page with
    | some page => exact ⟨hwarm, .inl (hheard _ (List.mem_singleton_self _))⟩
    | none => exact .inr (.inl (hfailed rfl))

/-- All the lists. -/
def allLists : List FlatList := [.albums, .artists true, .artists false, .genres]

theorem mem_allLists (f : FlatList) : f ∈ allLists := by
  rcases f with _ | (_ | _) | _ <;> decide

theorem does_prewarmBrowseLists : Does lower .filling (fun _ => True) prewarmBrowseLists
    fun _ w => w.At .filling ∧ w.Warm allLists := by
  refine Spec.pre (P := fun (w : World) => w.At .filling ∧ w.Warm []) ?_
    fun _ _ h => ⟨h.1, .inr (.inr (.inr fun f hf => nomatch hf))⟩
  refine (does_prewarm .genres []).bind fun _ => ?_
  refine (does_prewarm (.artists false) _).bind fun _ => ?_
  refine (does_prewarm (.artists true) _).bind fun _ => ?_
  exact does_prewarm .albums _


/-! ## The index and the log -/

/-- What the index build goes by once the library is listed. -/
def Listed (paths : List Path) (w : World) : Prop :=
  w.Warm allLists ∧ w.Vouched (.paths paths)

theorem lasts_listed (paths : List Path) : Lasts lower .filling (Listed paths) :=
  (lasts_warm allLists).and (lasts_vouched _)

theorem dropTrackTags_seeing (lower : String → String) (seen : Bool) (epoch : Epoch) (s : Store)
    (edited : List Path) :
    ∃ tags, commitSeeing lower seen epoch s (.dropTrackTags edited) =
      { s with cache := { s.cache with tags } } := by
  cases seen with
  | false => exact ⟨_, rfl⟩
  | true => exact ⟨_, rfl⟩

theorem does_dropTrackTags {paths edited : List Path} : Does lower .filling (Listed paths)
    (commit (.dropTrackTags edited)) fun _ w => w.At .filling ∧ w.Listed paths := by
  refine does_gated rfl (lasts_listed paths) ?_
  rintro w seen epoch hinv hat ⟨hwarm, hpaths⟩ -
  obtain ⟨tags, htags⟩ := dropTrackTags_seeing lower seen epoch w.store edited
  rw [htags]
  exact ⟨hinv.fill hat rfl rfl (hinv.tables.imp_right fun ht => ⟨ht.lists, ht.index⟩) hinv.full
    hinv.log, hwarm, hpaths.imp_right (Or.imp_right fun h => ⟨h.1, fun hseen => nomatch hseen⟩)⟩

theorem does_editedSince {paths : List Path} (since : Int) : Does lower .filling (Listed paths)
    (editedSince since) fun _ w => w.At .filling ∧ w.Listed paths := by
  have hdelta := does_host lower (c := .syncDelta since) (Q := fun _ => Listed paths)
    (fun host w => ⟨host.delta since, rfl⟩) (lasts_listed paths) fun _ _ h _ _ => h
  refine hdelta.bind fun delta => ?_
  cases delta with
  | none => exact spec_pure fun _ _ h => h
  | some delta => exact does_dropTrackTags.bind fun _ => spec_pure fun _ _ h => h

theorem replaceTrackIndex_seeing (lower : String → String) (epoch : Epoch) (s : Store)
    (paths : List Path) :
    ∃ tags, commitSeeing lower true epoch s (.replaceTrackIndex paths) =
      { s with cache := { s.cache with index := paths, tags } } := ⟨_, rfl⟩

theorem does_replaceTrackIndex {paths : List Path} : Does lower .filling (Listed paths)
    (commit (.replaceTrackIndex paths))
    fun _ w => w.At .filling ∧ w.Listed paths ∧ w.Indexed paths := by
  refine does_gated rfl (lasts_listed paths) ?_
  rintro w seen epoch hinv hat ⟨hwarm, hpaths⟩ hgate
  have hpaths' : ∀ s : Store, s.cache.validated = w.store.cache.validated →
      Vouched (.paths paths) { w with store := s, gate := none } := fun s hs =>
    hpaths.imp_right (Or.imp_right fun h => ⟨hs.trans h.1, fun hseen => nomatch hseen⟩)
  cases seen with
  | false =>
    exact ⟨hinv.untouched hat, ⟨hwarm, hpaths' _ rfl⟩, .inl (hinv.unseen hat hgate)⟩
  | true =>
    obtain ⟨tags, htags⟩ := replaceTrackIndex_seeing lower epoch w.store paths
    rw [htags]
    refine ⟨hinv.fill hat rfl rfl ?_ ?_ hinv.log, ⟨hwarm, hpaths' _ rfl⟩, .inr rfl⟩
    · rcases hpaths.awaits hgate (.inl rfl) with ha | hheard
      · exact .inl ha
      · exact hinv.tables.imp_right fun ht => ⟨ht.lists, .inr hheard⟩
    · rcases hwarm with hflag | hfailed | ha | hlists
      · -- the write saw the flag that is unset by now
        refine .inl ((hinv.seen hat hgate).resolve_left fun hset => ?_)
        rw [hset] at hflag
        cases hflag
      · exact .inr (.inl hfailed)
      · exact .inl ha
      · exact .inr (.inr fun _ f => hlists f (mem_allLists f))

theorem does_recordChanges {paths edited : List Path} : Does lower .filling
    (fun w => w.Listed paths ∧ w.Indexed paths) (commit (.recordChanges (some paths) edited))
    fun _ w => w.At .filling ∧ (w.Listed paths ∧ w.Indexed paths) ∧ w.Logged paths := by
  refine does_gated rfl ((lasts_listed paths).and (lasts_indexed paths)) ?_
  rintro w seen epoch hinv hat ⟨⟨hwarm, hpaths⟩, hindex⟩ hgate
  have hpaths' : ∀ s : Store, s.cache.validated = w.store.cache.validated →
      Vouched (.paths paths) { w with store := s, gate := none } := fun s hs =>
    hpaths.imp_right (Or.imp_right fun h => ⟨hs.trans h.1, fun hseen => nomatch hseen⟩)
  cases seen with
  | false =>
    exact ⟨hinv.untouched hat, ⟨⟨hwarm, hpaths' _ rfl⟩, hindex⟩, .inl (hinv.unseen hat hgate)⟩
  | true =>
    have hlog : w.Awaits .forgetLog ∨
        LogRead w.heard (w.store.log.record epoch (some paths) edited).1 := by
      rcases hpaths.awaits hgate (.inr rfl) with ha | hheard
      · exact .inl ha
      · exact hinv.log.imp_right fun h => ⟨ChangeLog.record_consistent h.consistent _ _ _,
          .inr ⟨paths, hheard, ChangeLog.record_live h.consistent epoch paths edited⟩⟩
    refine ⟨hinv.fill hat rfl rfl (hinv.tables.imp_right fun ht => ⟨ht.lists, ht.index⟩) hinv.full
      hlog, ⟨⟨hwarm, hpaths' _ rfl⟩, hindex⟩, ?_⟩
    exact hinv.log.elim (fun ha => .inr (.inr (.inl ha))) fun h =>
      .inr (.inr (.inr (ChangeLog.record_live h.consistent epoch paths edited)))

/-! ## A whole pass -/

/-- What a pass over the metadata ends with. -/
def Passed (w : World) : Prop :=
  w.At .filling ∧ (w.store.cache.validated = false ∨
    (∃ r, w.running = some r ∧ r.wiped = true) ∨ w.Wanting ∨ Filled w.heard w.store)

theorem passed_of {paths : List Path} (hat : w.At .filling) (hlisted : w.Listed paths)
    (hindex : w.Indexed paths) (hlog : w.Logged paths) : w.Passed := by
  refine ⟨hat, ?_⟩
  by_cases hflag : w.store.cache.validated = true
  · have hset : w.store.cache.validated ≠ false := by
      rw [hflag]
      exact Bool.true_eq_false_eq_False
    rcases hlisted.1.resolve_left hset with hf | ha | hlists
    · exact .inr (.inr (.inl (.inl hf)))
    · exact .inr (.inr (.inl ha.wanting))
    rcases hlisted.2 with hheard | hp | h
    · rcases hlog.resolve_left hset with hw | ha | hlive
      · exact .inr (.inl hw)
      · exact .inr (.inr (.inl ha.wanting))
      · have hindex := hindex.resolve_left hset
        rw [← hindex] at hheard hlive
        exact .inr (.inr (.inr ⟨hflag, fun f => hlists f (mem_allLists f), hheard, hlive⟩))
    · exact .inr (.inr (.inl hp.wanting))
    · exact absurd h.1 hset
  · exact .inl (Bool.not_eq_true _ ▸ hflag)

theorem Inv.synced (hinv : w.Inv lower) (hat : w.At .filling) (ts : Int) :
    Inv lower { w with store.cache.syncedAt := ts } where
  fingerprint := hinv.fingerprint
  tables := hinv.tables.imp_right fun ht => ⟨ht.lists, ht.index⟩
  full := hinv.full
  log := hinv.log
  callers := hinv.callers
  holder r hr := by
    have hst := hat.eq hr
    have hholder := hinv.holder r hr
    exact ⟨hholder.metadata, hholder.wiped, hholder.undone, hholder.flag, hholder.seen,
      hholder.unseen, by simp [hst]⟩
  refills := .inr (.inr (hinv.unfinished hat (.inr rfl)))

theorem does_setTracksSyncedAt {paths : List Path} {ts : Int} : Does lower .filling
    (fun w => (w.Listed paths ∧ w.Indexed paths) ∧ w.Logged paths)
    (commit (.setTracksSyncedAt ts)) fun _ => Passed := by
  refine spec_ask (stable
    (((lasts_listed paths).and (lasts_indexed paths)).and (lasts_logged paths)) _) ?_
  rintro host w _ w' hinv ⟨hat, ⟨hlisted, hindex⟩, hlog⟩ - hanswer
  obtain ⟨-, rfl⟩ := Prod.mk.inj (Option.some.inj hanswer)
  exact ⟨hinv.synced hat ts, passed_of hat hlisted hindex hlog⟩

theorem does_fileListing (paths : List Path) :
    Does lower .filling (Listed paths) (fileListing paths) fun _ => Passed := by
  have hlasts : Lasts lower .filling (Listed paths) := lasts_listed paths
  refine (does_look' hlasts).bind fun s => ?_
  refine Spec.bind (Q := fun _ (w : World) => w.At .filling ∧ w.Listed paths) ?_ fun edited => ?_
  · split
    · exact does_editedSince _
    · exact spec_pure fun _ _ h => h
  refine does_replaceTrackIndex.bind fun _ => ?_
  refine does_recordChanges.bind fun _ => ?_
  have hnow := does_host lower (c := .now)
    (Q := fun _ w => (w.Listed paths ∧ w.Indexed paths) ∧ w.Logged paths)
    (fun host w => ⟨host.now, rfl⟩)
    ((hlasts.and (lasts_indexed paths)).and (lasts_logged paths)) fun _ _ h _ _ => h
  exact hnow.bind fun ts => does_setTracksSyncedAt

theorem does_buildTrackIndex :
    Does lower .filling (Warm allLists) buildTrackIndex fun _ => Passed := by
  have hpaths := does_host lower (c := .trackPaths)
    (Q := fun paths w => match paths with
      | some paths => w.Listed paths
      | none => w.failed = true) (fun host w => ⟨host.paths, rfl⟩) (lasts_warm allLists) ?_
  · refine hpaths.bind fun paths => ?_
    cases paths with
    | some paths => exact does_fileListing paths
    | none => exact spec_pure fun _ _ h => ⟨h.1, .inr (.inr (.inl (.inl h.2)))⟩
  · intro paths w hwarm hheard hfailed
    cases paths with
    | some paths => exact ⟨hwarm, .inl (hheard _ (List.mem_singleton_self _))⟩
    | none => exact hfailed rfl

/-- Where the browse lists are taken to be cached, they are. -/
theorem Inv.warm (hinv : w.Inv lower) (hcached : w.store.browseListsCached = true) :
    w.Warm allLists := by
  refine .inr ?_
  rcases hinv.full with ha | hf | hfull
  · exact .inr (.inl ha)
  · exact .inl hf
  · refine .inr (.inr fun f _ => hfull ?_ f)
    intro hempty
    simp [Store.browseListsCached, MetadataCache.trackCount, hempty] at hcached

/-- **A pass over the metadata** keeps the invariant, whatever is done beside it with care. -/
theorem does_reconcileMetadata (identifiers : List AlbumIdentifier) :
    Does lower .fingerprinting (Enumerated identifiers) (reconcileMetadata lower identifiers)
      fun _ => Passed := by
  refine does_reconcile.bind fun changed => ?_
  refine Spec.pre (P := fun (w : World) => w.At .filling ∧ True) ?_ fun _ _ h => ⟨h, trivial⟩
  refine (does_look (Q := fun s w => s.browseListsCached = true → w.Warm allLists)
    (fun _ _ _ _ _ h => h) fun w hinv _ _ => hinv.warm).bind fun s => ?_
  refine (spec_when (Q := fun _ (w : World) => w.At .filling ∧ w.Warm allLists) (fun _ => ?_)
    fun hskip w _ h => ⟨h.1, ?_⟩).bind fun _ => does_buildTrackIndex
  · exact does_prewarmBrowseLists.pre fun _ _ h => ⟨h.1, trivial⟩
  · simp only [Bool.or_eq_false_iff, Bool.not_eq_false'] at hskip
    exact h.2.2 hskip.2

end World

end

end Mbrc.Switches
