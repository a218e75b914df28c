import MbrcPlugin.Library.SwitchPass

/-!
# Runs with switches

The steps of a reconcile and of the others, taken with care, keep the invariant, so that the caches
are the new library's once all have ended.  Two runs without care end with the caches cleared and
with the old library validated.
-/

namespace Mbrc.Switches

open Cache Interaction Interaction.Program Reconcile Transition

section

variable {lower : String → String}

namespace World

variable {w w' : World}

/-! ## The stages -/

/-- A new stage, where the holder and what is still to be filled are as it asks. -/
theorem Inv.enter {stage : Stage} (hinv : w.Inv lower)
    (hholder : ∀ r, w.running = some r → (w.stage stage).Holder { r with stage })
    (hrefills : Filled w.heard w.store ∨ w.Wanting ∨ w.Follows ∨ (w.stage stage).Refills) :
    (w.stage stage).Inv lower where
  fingerprint := hinv.fingerprint
  tables := hinv.tables
  full := hinv.full
  log := hinv.log
  callers := hinv.callers
  holder r' hr' := by
    obtain ⟨r, hr, rfl⟩ := Option.map_eq_some_iff.mp hr'
    exact hholder r hr
  refills := hrefills

/-- A pass that nothing was wiped behind leaves the caches filled, if they need be. -/
theorem Passed.filled {r : Running} (hinv : w.Inv lower) (h : w.Passed) (hr : w.running = some r)
    (hw : r.wiped = false) : Filled w.heard w.store ∨ w.Wanting := by
  obtain ⟨⟨r', hr', hst⟩, h⟩ := h
  obtain rfl : r = r' := Option.some.inj (hr.symm.trans hr')
  rcases h with hflag | ⟨r', hr', hw'⟩ | h | h
  · rw [(hinv.holder r hr).flag hst hw] at hflag
    cases hflag
  · rw [← Option.some.inj (hr.symm.trans hr'), hw] at hw'
    cases hw'
  · exact .inr h
  · exact .inl h

theorem Inv.passed (hinv : w.Inv lower) (h : w.Passed) : (w.stage .covers).Inv lower := by
  apply hinv.enter
  · intro r hr
    have hfilled : r.wiped = false → Filled w.heard w.store ∨ w.Wanting := h.filled hinv hr
    exact ⟨by simp, fun _ => .inr rfl, (hinv.holder r hr).undone, (fun hst => nomatch hst),
      (fun hst => nomatch hst), (fun hst => nomatch hst), fun _ _ hw => hfilled hw⟩
  · rcases hinv.unfinished h.1 (.inr rfl) with hf | ⟨r, hr, -, hw, -⟩
    · exact .inr (.inr (.inl hf))
    · exact (h.filled hinv hr hw).imp_right .inl

/-- The album read failed, or was not for the metadata. -/
theorem Inv.skipped {r : Running} (hinv : w.Inv lower) (hr : w.running = some r)
    (h : w.failed = true ∨ r.scope.doesMetadata = false) :
    (w.stage .covers).Inv lower := by
  have hholder := hinv.holder r hr
  apply hinv.enter
  · intro r' hr'
    obtain rfl : r = r' := Option.some.inj (hr.symm.trans hr')
    refine ⟨by simp, fun _ => .inr rfl, hholder.undone, (fun hst => nomatch hst),
      (fun hst => nomatch hst), (fun hst => nomatch hst), fun _ hmeta _ => ?_⟩
    rcases h with h | h
    · exact .inr (.inl h)
    · rw [h] at hmeta
      cases hmeta
  · rcases h with h | h
    · exact .inr (.inl (.inl h))
    · refine hinv.refills.imp_right (Or.imp_right (Or.imp_right ?_))
      rintro ⟨r', hr', hmeta, -⟩
      rw [← Option.some.inj (hr.symm.trans hr'), h] at hmeta
      cases hmeta

theorem Inv.enumerated {r : Running} (hinv : w.Inv lower) (hr : w.running = some r)
    (hst : r.stage = .enumerating) (hmeta : r.scope.doesMetadata = true) :
    (w.stage .fingerprinting).Inv lower := by
  have hholder := hinv.holder r hr
  have hw : r.wiped = false := by
    cases hw : r.wiped with
    | false => rfl
    | true => rcases hholder.wiped hw with h | h <;> rw [hst] at h <;> cases h
  apply hinv.enter
  · intro r' hr'
    obtain rfl : r = r' := Option.some.inj (hr.symm.trans hr')
    exact ⟨fun _ => hmeta, fun hw' => by simp [hw] at hw', hholder.undone,
      (fun hst => nomatch hst), (fun hst => nomatch hst), (fun hst => nomatch hst),
      (fun hst => nomatch hst)⟩
  · exact .inr (.inr (.inr ⟨_, running_stage _ hr, hmeta, hw, by simp⟩))

/-! ## Runs with care -/

def Busy (w : World) : Prop := w.At .fingerprinting ∨ w.At .filling

/-- What is still to be done of a pass keeps the invariant. -/
def Pass (lower : String → String) (p : Work Unit) (w : World) : Prop :=
  w.Busy ∧ p.Holds (machine lower) care (Inv lower) (fun _ w => w.Inv lower ∧ w.Passed) w

end World

structure RunInv (lower : String → String) (s : State) : Prop where
  inv : s.1.Inv lower
  pass : ∀ c rest, s.2 = .call c rest → s.1.Pass lower s.2

section Runs

variable {w : World} {p : Work Unit} {s s' : State}

theorem RunInv.idle (h : w.Inv lower) : RunInv lower (w, .done ()) :=
  ⟨h, fun _ _ hp => nomatch hp⟩

/-- A pass goes on, or has come to its end. -/
theorem RunInv.settle (h : w.Pass lower p) : RunInv lower (settle (w, p)) := by
  cases p with
  | done a => exact .idle (h.2.1.passed h.2.2)
  | call c rest => exact ⟨h.2.now fun _ _ hq => hq.1, fun _ _ _ => h⟩

theorem answer_busy {c : Call} {host : Host} {a : Ans c} {w' : World} (h : w.Busy)
    (ha : answer lower c host w = some (a, w')) : w'.Busy := by
  have hkept : w'.running = w.running → w'.Busy := fun hrun =>
    h.imp (fun ⟨r, hr, hst⟩ => ⟨r, hrun.trans hr, hst⟩) fun ⟨r, hr, hst⟩ => ⟨r, hrun.trans hr, hst⟩
  cases c with
  | commit txn =>
    simp only [answer] at ha
    split at ha
    · obtain ⟨seen, -, heq⟩ := Option.map_eq_some_iff.mp ha
      obtain ⟨-, rfl⟩ := Prod.mk.inj heq
      exact hkept rfl
    · obtain ⟨-, rfl⟩ := Prod.mk.inj (Option.some.inj ha)
      exact hkept rfl
  | setValidated =>
    obtain ⟨-, rfl⟩ := Prod.mk.inj (Option.some.inj ha)
    rcases h with ⟨r, hr, -⟩ | ⟨r, hr, -⟩ <;> exact .inr (World.at_stage _ hr)
  | _ =>
    obtain ⟨-, rfl⟩ := Prod.mk.inj (Option.some.inj ha)
    exact hkept rfl

/-- What is done beside a call. -/
theorem Pass.part {c : Call} {rest : Ans c → Work Unit} (part : Part) {w' : World}
    (hinv : w.Inv lower) (h : w.Pass lower (.call c rest)) (hcare : World.care.during c part w)
    (hpart : during c part w = some w') : w'.Pass lower (.call c rest) := by
  have hat : ∀ stage, w.At stage → w'.At stage := fun stage hat =>
    (World.stable (P := fun _ => True) (fun _ _ _ _ _ h => h) c part w w' ⟨hinv, hat, trivial⟩
      hcare hpart).2.1
  exact ⟨h.1.imp (hat _) (hat _), fun s hs => h.2 s (.head ⟨part, hcare, hpart⟩ hs)⟩

theorem RunInv.enumerated {r : Running} {identifiers : Option (List AlbumIdentifier)}
    (h : w.Inv lower) (hr : w.running = some r) (hst : r.stage = .enumerating) :
    RunInv lower (enumerated lower w r identifiers) := by
  cases identifiers with
  | none =>
    have hfailed := h.heard [] true
    rw [List.append_nil, Bool.or_true] at hfailed
    exact .idle (hfailed.skipped hr (.inl rfl))
  | some identifiers =>
    have hheard := h.heard [.albums identifiers] false
    rw [Bool.or_false] at hheard
    unfold Switches.enumerated
    dsimp only
    split
    · rename_i hmeta
      have hinv := hheard.enumerated hr hst hmeta
      have hat : World.At .fingerprinting
          ({ w with heard := w.heard ++ [Heard.albums identifiers] }.stage .fingerprinting) :=
        World.at_stage _ hr
      refine .settle ⟨.inl hat, World.does_reconcileMetadata identifiers _ hinv ⟨hat, .inl ?_⟩⟩
      exact List.mem_append_right _ (List.mem_singleton_self _)
    · rename_i hmeta
      exact .idle (hheard.skipped hr (.inr (Bool.not_eq_true _ ▸ hmeta)))

theorem RunInv.release {r : Running} (h : RunInv lower (w, p)) (hr : w.running = some r)
    (hst : r.stage = .covers) : RunInv lower ({ w with running := none }, p) := by
  refine ⟨{ h.inv with holder := (fun _ hr => nomatch hr), refills := ?_ }, fun c rest hp => ?_⟩
  · refine h.inv.refills.imp_right (Or.imp_right (Or.imp_right ?_))
    rintro ⟨r', hr', -, -, hne⟩
    rw [← Option.some.inj (hr.symm.trans hr')] at hne
    exact absurd hst hne
  · rcases (h.pass c rest hp).1 with ⟨r', hr', hst'⟩ | ⟨r', hr', hst'⟩ <;>
      rw [← Option.some.inj (hr.symm.trans hr'), hst] at hst' <;> cases hst'

/-- A step taken with care. -/
theorem RunInv.next {e : Event} (h : RunInv lower s) (hguard : guarded s e = true)
    (hs : (system lower).next s e = some s') : RunInv lower s' := by
  obtain ⟨w, p⟩ := s
  cases e with
  | outside e =>
    obtain ⟨w', hw', rfl⟩ := Option.map_eq_some_iff.mp hs
    refine ⟨h.inv.outside hguard hw', fun c rest hp => ?_⟩
    have hpass := h.pass c rest hp
    obtain rfl : p = .call c rest := hp
    exact Pass.part (.outside e) h.inv hpass hguard hw'
  | look =>
    cases p with
    | done a => cases hs
    | call c rest =>
      obtain ⟨w', hw', rfl⟩ := Option.map_eq_some_iff.mp hs
      have hpass := Pass.part .look h.inv (h.pass c rest rfl) trivial hw'
      exact ⟨hpass.2.now fun _ _ hq => hq.1, fun _ _ _ => hpass⟩
  | enumerate identifiers =>
    obtain ⟨r, hr, hs⟩ := Option.bind_eq_some_iff.mp hs
    split at hs
    · rename_i hst
      obtain rfl := Option.some.inj hs
      exact .enumerated h.inv hr hst
    · cases hs
  | answer host =>
    cases p with
    | done a => cases hs
    | call c rest =>
      obtain ⟨⟨a, w'⟩, ha, rfl⟩ := Option.map_eq_some_iff.mp hs
      obtain ⟨hbusy, hholds⟩ := h.pass c rest rfl
      exact .settle ⟨answer_busy hbusy ha, (hholds w .refl).2 host a w' trivial ha⟩
  | release =>
    obtain ⟨r, hr, hs⟩ := Option.bind_eq_some_iff.mp hs
    split at hs
    · rename_i hst
      obtain rfl := Option.some.inj hs
      exact h.release hr hst
    · cases hs

/-- **After a switch**, once every attempt has ended: what the caches show was heard of the library
loaded last, and they are filled if no call failed.  It is so in every run where each wipe and each
skipped attempt is one the reconcile under way allows. -/
theorem settled_after_switch {events : List Event} (h₀ : (system lower).start s)
    (hguard : (system lower).Along (fun s e => guarded s e = true) s events)
    (hrun : (system lower).exec s events = some s') (hrest : s'.1.AtRest) :
    s'.1.Settled lower := by
  obtain ⟨store, rfl⟩ := h₀
  have hinv : RunInv lower s' :=
    (system lower).exec_induction (fun _ _ _ h hguard hs => h.next hguard hs)
      (.idle (World.Inv.start store)) hguard hrun
  exact hinv.inv.settled hrest

end Runs

end

/-! ## Runs without it -/

instance (w : World) : Decidable w.AtRest :=
  decidable_of_iff (w.switched = true ∧ w.unannounced = 0 ∧ w.callers = [] ∧ w.running = none)
    ⟨fun ⟨hs, hu, hc, hr⟩ => ⟨hs, hu, hc, hr⟩, fun ⟨hs, hu, hc, hr⟩ => ⟨hs, hu, hc, hr⟩⟩

/-- A library of one album. -/
def oneAlbum (artist album : String) (path : Path) : Library :=
  { albums := [{ artist, album, path, modified := 3 }]
    list := fun f => match f with
      | .genres => ⟨1, 0, 1, [{ genre := "Jazz", count := 1 }]⟩
      | .artists _ => ⟨1, 0, 1, [{ artist, count := 1 }]⟩
      | .albums => ⟨1, 0, 1, [{ album, artist, count := 1 }]⟩
    paths := [path] }

def oldLibrary : Library := oneAlbum "Abba" "Gold" "/old/1.mp3"

def newLibrary : Library := oneAlbum "Nina" "Live" "/new/1.mp3"

def visit : Visit := { delta := fun _ => ([], []), now := 20, newEpoch := "e" }

/-- The calls of the first pass over a new store, each answered by the library. -/
def firstPass (library : Library) : List Event :=
  let answer : Event := .answer (library.host visit)
  List.replicate 12 answer ++ (List.replicate 4 [.look, answer, answer]).flatten ++
    [answer, .look, answer, .look, answer, answer, answer]

/-- Another library is loaded, and its notification is handled. -/
def switch : List Event :=
  (.outside .load :: .outside .switched :: List.replicate 4 (.outside (.wipe 0))) ++
    [.outside (.«begin» 0)]

/-- A start reconciles the old library. -/
def starting : List Event :=
  [.outside .reconcile, .outside (.«begin» 0), .enumerate (some oldLibrary.albums)]

/-- The switch comes while the covers are built. -/
def switchedAtCovers : List Event := starting ++ firstPass oldLibrary ++ switch ++ [.release]

/-- The switch comes while the old library is fingerprinted. -/
def switchedBeforeFlag : List Event := starting ++ switch ++ firstPass newLibrary ++ [.release]

/-- The switch finds nothing under way. -/
def switchedAtRest : List Event :=
  switch ++ [.enumerate (some newLibrary.albums)] ++ firstPass newLibrary ++ [.release]

def opened : State := (World.fresh .initial, .done ())

theorem opened_start : (system id).start opened := ⟨.initial, rfl⟩

/-- With care the switch is followed. -/
theorem settled_after_switch_atRest : ∃ s, (system id).exec opened switchedAtRest = some s ∧
    s.1.AtRest ∧ s.1.Settled id := by
  have hrun : ((system id).exec opened switchedAtRest).any (fun s => s.1.AtRest) = true := by
    decide +kernel
  have hguard : (system id).checked guarded opened switchedAtRest = true := by
    decide +kernel
  obtain ⟨s, hexec, hrest⟩ := (Option.any_eq_true _ _).mp hrun
  refine ⟨s, hexec, of_decide_eq_true hrest, ?_⟩
  exact settled_after_switch opened_start
    ((system id).along_of_checked (fun _ _ h => h) hguard) hexec (of_decide_eq_true hrest)

/-- No albums were heard since the library was loaded. -/
def noAlbums (heard : List Heard) : Bool :=
  heard.all fun
    | .albums _ => false
    | _ => true

theorem not_fingerprintRead {lower : String → String} {heard : List Heard} {s : Store}
    (hflag : s.cache.validated = true) (h : noAlbums heard = true) :
    ¬ FingerprintRead lower heard s := by
  intro hread
  obtain ⟨identifiers, halbums, -⟩ := hread hflag
  exact Bool.noConfusion (List.all_eq_true.mp h _ halbums)

/-- **What a switch leaves**: caches that are cleared and not filled again, every call having
succeeded, and caches that are validated under the fingerprint of the old library. -/
theorem cleared_or_outdated :
    (∃ s, (system id).exec opened switchedAtCovers = some s ∧ (system id).Reachable s ∧
      s.1.AtRest ∧ ¬ s.1.Settled id) ∧
    ∃ s, (system id).exec opened switchedBeforeFlag = some s ∧ (system id).Reachable s ∧
      s.1.AtRest ∧ ¬ s.1.Settled id := by
  have hcleared : ((system id).exec opened switchedAtCovers).any (fun s =>
      s.1.AtRest ∧ s.1.failed = false ∧ s.1.store.cache.validated = false) = true := by
    decide +kernel
  have houtdated : ((system id).exec opened switchedBeforeFlag).any (fun s =>
      s.1.AtRest ∧ noAlbums s.1.heard ∧ s.1.store.cache.validated = true) = true := by
    decide +kernel
  obtain ⟨s, hexec, hs⟩ := (Option.any_eq_true _ _).mp hcleared
  obtain ⟨t, hexec', ht⟩ := (Option.any_eq_true _ _).mp houtdated
  obtain ⟨hrest, hfailed, hflag⟩ := of_decide_eq_true hs
  obtain ⟨hrest', hheard, hflag'⟩ := of_decide_eq_true ht
  refine ⟨⟨s, hexec, ⟨opened, switchedAtCovers, opened_start, hexec⟩, hrest, fun hsettled => ?_⟩,
    t, hexec', ⟨opened, switchedBeforeFlag, opened_start, hexec'⟩, hrest', fun hsettled => ?_⟩
  · have hset := (hsettled.filled hfailed).validated
    rw [hflag] at hset
    cases hset
  · exact not_fingerprintRead hflag' hheard (hsettled.read hflag').1

end Mbrc.Switches
