import MbrcPlugin.Updates.Sessions
import Mathlib.Logic.Function.Basic

/-!
# Update jobs step by step

Checks and downloads run on threads of their own behind one guard; a skip runs on the thread of its
caller and takes no guard.  The status, the stashed update, the record and the staging marker are
shared, and every read or write of one of them is a step of its own.
-/

namespace Mbrc.Updates

open Transition

/-- What calls and jobs share.  No step of the code reads `lastSkip`. -/
structure Shared where
  busy : Bool
  status : Option UpdateStatus
  stash : Option AvailableUpdate
  file : Option UpdateState
  marker : Option String
  /-- The version that a skip recorded last. -/
  lastSkip : Option String

def Shared.shown (s : Shared) : UpdateStatus := s.status.getD (initialStatus s.marker)

/-- Where a call or its job stands: what it goes on with, under the name of its last step. -/
inductive Phase where
  | idle
  | checkAsked (force : Bool)
  | checkClaimed (force : Bool)
  | checkRead (force : Bool) (previous : UpdateStatus)
  | checkSpawned (force : Bool) (previous : UpdateStatus)
  | checkLoaded (force : Bool) (previous : UpdateStatus) (state : UpdateState)
  | checkFetched (previous : UpdateStatus) (outcome : Except UpdateError CheckOutcome)
      (state : UpdateState)
  | checkSaved (previous : UpdateStatus) (outcome : Except UpdateError CheckOutcome)
  | checkFresh (status : UpdateStatus) (available : Option AvailableUpdate)
  | downloadAsked
  | downloadRead (update : AvailableUpdate)
  | downloadClaimed (update : AvailableUpdate)
  | downloadSpawned (update : AvailableUpdate)
  | publishing (status : UpdateStatus)
  | releasing
  | skipAsked
  | skipOffered (version : String)
  | skipLoaded (version : String) (state : UpdateState)
  | skipSaved (version : String)
  | skipTaken (version : String)

/-- What a step finds around it; each step looks at what it needs. -/
structure Choice where
  /-- The core has not been shut down. -/
  alive : Bool := true
  /-- Why there is no client. -/
  client : Option String := none
  preferences : Preferences := stableDaily
  pluginVersion : String
  reply : Option String → Except UpdateError Fetched
  now : Int
  /-- The record is written. -/
  saves : Bool := true
  /-- Why the bundle is not staged. -/
  failed : Option String := none
  /-- A failed staging leaves the marker it found. -/
  leavesMarker : Bool := true

variable {V : Type} [LinearOrder V] (L : Library V)

/-- The next step of a call or a job. -/
def advance (s : Shared) (c : Choice) : Phase → Option (Shared × Phase)
  | .idle => none
  | .checkAsked force =>
    if s.busy then some (s, .idle) else some ({ s with busy := true }, .checkClaimed force)
  | .checkClaimed force => some ({ s with status := some s.shown }, .checkRead force s.shown)
  | .checkRead force previous =>
    some (if force then { s with status := some { state := .checking } } else s,
      .checkSpawned force previous)
  | .checkSpawned force previous =>
    if !c.alive then some (s, .releasing)
    else
      match c.client with
      | some detail => some (s, .publishing (failure detail))
      | none =>
        if !c.preferences.updateCheckEnabled && !force then
          some (s, .checkSaved previous (.ok .disabled))
        else some (s, .checkLoaded force previous (UpdateState.load s.file))
  | .checkLoaded force previous state =>
    let options := checkOptions L c.preferences c.pluginVersion force
    let r := check L c.reply options state c.now
    some (s, .checkFetched previous r.1 r.2)
  | .checkFetched previous outcome state =>
    some (if c.saves then { s with file := some state } else s, .checkSaved previous outcome)
  | .checkSaved previous outcome =>
    let checkedAt := (UpdateState.load s.file).lastCheck.getD ""
    match interpret outcome s.marker checkedAt with
    | .fresh status available => some (s, .checkFresh status available)
    | .noNews => some (s, .publishing (noNews previous s.marker checkedAt))
  | .checkFresh status available => some ({ s with stash := available }, .publishing status)
  | .downloadAsked =>
    match s.stash with
    | none => some (s, .idle)
    | some u => some (s, .downloadRead u)
  | .downloadRead u =>
    if s.busy then some (s, .idle) else some ({ s with busy := true }, .downloadClaimed u)
  | .downloadClaimed u => some ({ s with status := some (downloading u) }, .downloadSpawned u)
  | .downloadSpawned u =>
    if !c.alive then some (s, .releasing)
    else
      match c.client with
      | some detail => some (s, .publishing (downloadFailure u detail))
      | none =>
        match c.failed with
        | none =>
          some ({ s with marker := some u.manifest.version }, .publishing (u.status .staged))
        | some detail =>
          some ({ s with marker := if c.leavesMarker then s.marker else none },
            .publishing (downloadFailure u detail))
  | .publishing status => some ({ s with status := some status }, .releasing)
  | .releasing => some ({ s with busy := false }, .idle)
  | .skipAsked =>
    some ({ s with status := some s.shown },
      if s.shown.offered then .skipOffered s.shown.version else .idle)
  | .skipOffered version => some (s, .skipLoaded version (UpdateState.load s.file))
  | .skipLoaded version state =>
    if c.saves then
      some ({ s with
        file := some { state with skippedVersion := some version }
        lastSkip := some version }, .skipSaved version)
    else some (s, .idle)
  | .skipSaved version => some ({ s with stash := none }, .skipTaken version)
  | .skipTaken version => some ({ s with status := some (skippedStatus version) }, .idle)

/-- The shared state and all calls, each with the job it starts. -/
structure Jobs where
  shared : Shared
  procs : Nat → Phase

inductive Call where
  | startCheck (force : Bool)
  | startDownload
  | skipAvailable

def Call.phase : Call → Phase
  | startCheck force => .checkAsked force
  | startDownload => .downloadAsked
  | skipAvailable => .skipAsked

inductive Label where
  | call (i : Nat) (c : Call)
  | go (i : Nat) (c : Choice)
  /-- The panel reads the status. -/
  | read

/-- A process goes on. -/
def Jobs.move (w : Jobs) (i : Nat) (s : Shared) (ph : Phase) : Jobs :=
  { shared := s, procs := Function.update w.procs i ph }

def Phase.isIdle : Phase → Bool
  | idle => true
  | _ => false

def Jobs.next (w : Jobs) : Label → Option Jobs
  | .call i c => if (w.procs i).isIdle then some (w.move i w.shared c.phase) else none
  | .go i c => (advance L w.shared c (w.procs i)).map fun r => w.move i r.1 r.2
  | .read => some { w with shared := { w.shared with status := some w.shared.shown } }

/-- A session begins with nothing in memory. -/
def jobs : System Jobs Label where
  start w := w.shared.busy = false ∧ w.shared.status = none ∧ w.shared.stash = none ∧
    w.shared.lastSkip = (UpdateState.load w.shared.file).skippedVersion ∧ ∀ i, w.procs i = .idle
  next := Jobs.next L

/-! ## What is claimed -/

/-- The process holds the guard. -/
def Phase.holds : Phase → Bool
  | checkClaimed _ | checkRead _ _ | checkSpawned _ _ | checkLoaded _ _ _ | checkFetched _ _ _
  | checkSaved _ _ | checkFresh _ _ | downloadClaimed _ | downloadSpawned _ | publishing _
  | releasing => true
  | _ => false

/-- What is on offer is the update a download would fetch. -/
def Backed (s : UpdateStatus) (stash : Option AvailableUpdate) : Prop :=
  s.state = .available ∨ s.state = .downloadFailed →
    stash.map (fun u => u.manifest.version) = some s.version

/-- One job, one truth. -/
structure Jobs.OneTruth (w : Jobs) : Prop where
  oneJob : ∀ i j, (w.procs i).holds = true → (w.procs j).holds = true → i = j
  offer : (∀ i, w.procs i = .idle) → ∀ s, w.shared.status = some s → Backed s w.shared.stash
  skipped : (UpdateState.load w.shared.file).skippedVersion = w.shared.lastSkip

/-! ## What every run keeps -/

/-- The process holds a record that it will write. -/
def Phase.holdsRecord : Phase → Bool
  | checkLoaded _ _ _ | checkFetched _ _ _ => true
  | _ => false

/-- Some skip has taken the stash and has not said so. -/
def Jobs.Taken (w : Jobs) : Prop := ∃ i version, w.procs i = .skipTaken version

/-- Some job has an answer, and the stash that goes with it, and has not published it. -/
def Jobs.Publishing (w : Jobs) : Prop := ∃ i status, w.procs i = .publishing status

/-- A skip writes while no check holds the record, takes the stash and publishes while no job runs,
and a download is of the update still stashed. -/
def Apart (w : Jobs) : Label → Prop
  | .go i c =>
    match w.procs i with
    | .downloadRead u => w.shared.busy = false →
      w.shared.stash.map (fun t => t.manifest.version) = some u.manifest.version
    | .skipLoaded _ _ => c.saves = true → ∀ j, (w.procs j).holdsRecord = false
    | .skipSaved _ => w.shared.busy = false
    | .skipTaken _ => w.shared.busy = false
    | _ => True
  | _ => True

/-- What a process relies on of the shared state; `taken` says that a skip has taken the stash. -/
def Phase.Sound (s : Shared) (taken : Prop) : Phase → Prop
  | checkRead _ previous => Backed previous s.stash ∨ taken
  | checkSpawned _ previous => Backed previous s.stash ∨ taken
  | checkLoaded _ previous state =>
    (Backed previous s.stash ∨ taken) ∧ state.skippedVersion = s.lastSkip
  | checkFetched previous _ state =>
    (Backed previous s.stash ∨ taken) ∧ state.skippedVersion = s.lastSkip
  | checkSaved previous _ => Backed previous s.stash ∨ taken
  | checkFresh status available => Backed status available
  | downloadClaimed u =>
    s.stash.map (fun t => t.manifest.version) = some u.manifest.version
  | downloadSpawned u =>
    s.stash.map (fun t => t.manifest.version) = some u.manifest.version
  | publishing status => Backed status s.stash ∨ taken
  | _ => True

structure Jobs.Inv (w : Jobs) : Prop where
  busy : ∀ i, (w.procs i).holds = true → w.shared.busy = true
  one : ∀ i j, (w.procs i).holds = true → (w.procs j).holds = true → i = j
  sound : ∀ i, (w.procs i).Sound w.shared w.Taken
  offer : (∀ s, w.shared.status = some s → Backed s w.shared.stash) ∨ w.Taken ∨ w.Publishing
  skipped : (UpdateState.load w.shared.file).skippedVersion = w.shared.lastSkip

/-- Only a process that holds the guard relies on anything. -/
theorem Phase.sound_of_not_holds {s : Shared} {taken : Prop} {ph : Phase}
    (h : ph.holds = false) : ph.Sound s taken := by
  cases ph <;> trivial

/-- The stash as it is, and the version skipped last where a record is held. -/
theorem Phase.Sound.keep {s s' : Shared} {taken taken' : Prop} {ph : Phase}
    (h : ph.Sound s taken) (hstash : s'.stash = s.stash)
    (hskip : ph.holdsRecord = true → s'.lastSkip = s.lastSkip) (htaken : taken → taken') :
    ph.Sound s' taken' := by
  have hbacked : ∀ t, Backed t s.stash ∨ taken → Backed t s'.stash ∨ taken' := by
    intro t ht
    rw [hstash]
    exact ht.imp_right htaken
  cases ph with
  | checkRead force previous => exact hbacked previous h
  | checkSpawned force previous => exact hbacked previous h
  | checkLoaded force previous state => exact ⟨hbacked previous h.1, h.2.trans (hskip rfl).symm⟩
  | checkFetched previous outcome state =>
    exact ⟨hbacked previous h.1, h.2.trans (hskip rfl).symm⟩
  | checkSaved previous outcome => exact hbacked previous h
  | checkFresh status available => exact h
  | downloadClaimed u => exact (congrArg _ hstash).trans h
  | downloadSpawned u => exact (congrArg _ hstash).trans h
  | publishing status => exact hbacked status h
  | _ => trivial

variable {w : Jobs} {i : Nat} {s : Shared} {ph : Phase}

@[simp] theorem move_self : (w.move i s ph).procs i = ph := Function.update_self ..

theorem move_of_ne {j : Nat} (h : j ≠ i) : (w.move i s ph).procs j = w.procs j :=
  Function.update_of_ne h _ _

theorem Jobs.Taken.move (h : w.Taken) (hi : ∀ version, w.procs i ≠ .skipTaken version) :
    (w.move i s ph).Taken := by
  obtain ⟨j, version, hj⟩ := h
  have hne : j ≠ i := by
    rintro rfl
    exact hi version hj
  exact ⟨j, version, (move_of_ne hne).trans hj⟩

theorem shown_backed {s : Shared} (h : ∀ t, s.status = some t → Backed t s.stash) :
    Backed s.shown s.stash := by
  unfold Shared.shown
  cases hs : s.status with
  | none => cases hm : s.marker <;> simp [Backed, initialStatus]
  | some t => exact h t hs

/-- An answer that is stashed backs the status that offers it. -/
theorem interpret_backed {outcome : Except UpdateError CheckOutcome} {staged : Option String}
    {checkedAt : String} {status : UpdateStatus} {available : Option AvailableUpdate}
    (h : interpret outcome staged checkedAt = .fresh status available) :
    Backed status available := by
  cases available with
  | some u =>
    intro _
    exact congrArg some (interpret_fresh h).2.1.symm
  | none =>
    unfold interpret at h
    split at h <;> cases h
    all_goals try simp [Backed]
    cases staged <;> simp [quiet]

theorem noNews_backed {previous : UpdateStatus} {staged : Option String} {checkedAt : String}
    {stash : Option AvailableUpdate} (h : Backed previous stash) :
    Backed (noNews previous staged checkedAt) stash := by
  unfold noNews
  split
  · exact h
  · cases staged <;> simp [Backed, quiet]

/-- **One process moves.**  It holds the guard only if it did or nobody did, it does not give up
what another holds, and what the others rely on stays. -/
theorem Jobs.Inv.move (h : w.Inv)
    (hclaim : ph.holds = true → s.busy = true ∧
      ((w.procs i).holds = true ∨ w.shared.busy = false))
    (hkeep : ∀ j, j ≠ i → (w.procs j).holds = true → s.busy = true ∧
      (w.procs j).Sound s (w.move i s ph).Taken)
    (hsound : ph.Sound s (w.move i s ph).Taken)
    (hoffer : (∀ t, s.status = some t → Backed t s.stash) ∨ (w.move i s ph).Taken ∨
      (w.move i s ph).Publishing)
    (hskipped : (UpdateState.load s.file).skippedVersion = s.lastSkip) : (w.move i s ph).Inv where
  busy j hj := by
    by_cases hne : j = i
    · subst hne
      rw [move_self] at hj
      exact (hclaim hj).1
    · rw [move_of_ne hne] at hj
      exact (hkeep j hne hj).1
  one j k hj hk := by
    -- another holder and a claim exclude each other
    have key : ∀ k, k ≠ i → (w.procs k).holds = true → ph.holds = true → False := by
      intro k hne hk hph
      rcases (hclaim hph).2 with hi | hfree
      · exact hne (h.one k i hk hi)
      · rw [h.busy k hk] at hfree
        cases hfree
    by_cases hji : j = i
    · by_cases hki : k = i
      · rw [hji, hki]
      · rw [hji, move_self] at hj
        rw [move_of_ne hki] at hk
        exact (key k hki hk hj).elim
    · rw [move_of_ne hji] at hj
      by_cases hki : k = i
      · rw [hki, move_self] at hk
        exact (key j hji hj hk).elim
      · rw [move_of_ne hki] at hk
        exact h.one j k hj hk
  sound j := by
    by_cases hne : j = i
    · subst hne
      rw [move_self]
      exact hsound
    · rw [move_of_ne hne]
      by_cases hj : (w.procs j).holds = true
      · exact (hkeep j hne hj).2
      · exact Phase.sound_of_not_holds (by simpa using hj)
  offer := hoffer
  skipped := hskipped

theorem Jobs.Publishing.move (h : w.Publishing) (hi : (w.procs i).holds = false) :
    (w.move i s ph).Publishing := by
  obtain ⟨j, status, hj⟩ := h
  have hne : j ≠ i := by
    rintro rfl
    rw [hj] at hi
    cases hi
  exact ⟨j, status, (move_of_ne hne).trans hj⟩

/-- Where nobody else holds the guard, an answer is not half published. -/
theorem Jobs.Inv.settled (h : w.Inv) (hnone : ∀ j status, w.procs j ≠ .publishing status) :
    (∀ t, w.shared.status = some t → Backed t w.shared.stash) ∨ w.Taken := by
  rcases h.offer with hbacked | htaken | ⟨j, status, hj⟩
  · exact .inl hbacked
  · exact .inr htaken
  · exact absurd hj (hnone j status)

/-- The holder of the guard moves on. -/
theorem Jobs.Inv.hold (h : w.Inv) (hi : (w.procs i).holds = true)
    (hbusy : ph.holds = true → s.busy = true) (hsound : ph.Sound s w.Taken)
    (hoffer : ((∀ t, s.status = some t → Backed t s.stash) ∨ w.Taken) ∨
      ∃ status, ph = .publishing status)
    (hskipped : (UpdateState.load s.file).skippedVersion = s.lastSkip) : (w.move i s ph).Inv := by
  have hnot : ∀ version, w.procs i ≠ .skipTaken version := by
    intro version hv
    rw [hv] at hi
    cases hi
  refine h.move (fun hph => ⟨hbusy hph, .inl hi⟩) ?_ ?_ ?_ hskipped
  · intro j hne hj
    exact absurd (h.one j i hj hi) hne
  · exact hsound.keep rfl (fun _ => rfl) (·.move hnot)
  · rcases hoffer with (hbacked | htaken) | ⟨status, rfl⟩
    · exact .inl hbacked
    · exact .inr (.inl (htaken.move hnot))
    · exact .inr (.inr ⟨i, status, move_self⟩)

/-- A process without the guard moves on, and leaves the stash alone. -/
theorem Jobs.Inv.aside (h : w.Inv) (hi : (w.procs i).holds = false) (hph : ph.holds = false)
    (hnot : ∀ version, w.procs i ≠ .skipTaken version) (hbusy : s.busy = w.shared.busy)
    (hstash : s.stash = w.shared.stash)
    (hstatus : ∀ t, s.status = some t → w.shared.status = some t ∨ t = w.shared.shown)
    (hskip : ∀ j, (w.procs j).holdsRecord = true → s.lastSkip = w.shared.lastSkip)
    (hskipped : (UpdateState.load s.file).skippedVersion = s.lastSkip) : (w.move i s ph).Inv := by
  refine h.move ?_ ?_ (Phase.sound_of_not_holds hph) ?_ hskipped
  · rw [hph]
    exact nofun
  · intro j _ hj
    exact ⟨hbusy.trans (h.busy j hj), (h.sound j).keep hstash (hskip j) (·.move hnot)⟩
  · rcases h.offer with hbacked | htaken | hpublishing
    · left
      intro t ht
      rw [hstash]
      rcases hstatus t ht with ht | rfl
      · exact hbacked t ht
      · exact shown_backed hbacked
    · exact .inr (.inl (htaken.move hnot))
    · exact .inr (.inr (hpublishing.move hi))

/-- While nobody holds the guard nothing is relied on. -/
theorem Jobs.Inv.free (h : w.Inv) (hfree : w.shared.busy = false)
    (hclaim : ph.holds = true → s.busy = true) (hsound : ph.Sound s (w.move i s ph).Taken)
    (hoffer : (∀ t, s.status = some t → Backed t s.stash) ∨ (w.move i s ph).Taken)
    (hskipped : (UpdateState.load s.file).skippedVersion = s.lastSkip) : (w.move i s ph).Inv := by
  refine h.move (fun hph => ⟨hclaim hph, .inr hfree⟩) ?_ hsound (hoffer.imp_right .inl) hskipped
  intro j _ hj
  rw [h.busy j hj] at hfree
  cases hfree

/-- While nobody holds the guard, no answer is half published. -/
theorem Jobs.Inv.settled_of_free (h : w.Inv) (hfree : w.shared.busy = false) :
    (∀ t, w.shared.status = some t → Backed t w.shared.stash) ∨ w.Taken := by
  refine h.settled fun j status hj => ?_
  rw [h.busy j (by rw [hj]; rfl)] at hfree
  cases hfree

/-! ### One step -/

/-- A check leaves the skipped version alone. -/
theorem check_skippedVersion (reply : Option String → Except UpdateError Fetched)
    (o : CheckOptions) (state : UpdateState) (now : Int) :
    (check L reply o state now).2.skippedVersion = state.skippedVersion := by
  cases hr : check L reply o state now with
  | mk outcome state' =>
    cases outcome with
    | ok outcome =>
      rcases check_ok L hr with ⟨-, rfl⟩ | ⟨-, -, rfl⟩ | ⟨_, _, -, rfl, -⟩ <;> rfl
    | error e =>
      unfold check at hr
      split at hr
      · cases hr
      · split at hr
        · cases hr
        · obtain ⟨-, rfl⟩ := Prod.mk.inj hr
          rfl

/-- The steps of a job. -/
theorem hold_inv {c : Choice} {s : Shared} {ph : Phase} (h : w.Inv)
    (hholds : (w.procs i).holds = true)
    (hn : advance L w.shared c (w.procs i) = some (s, ph)) : (w.move i s ph).Inv := by
  have hbusy := h.busy i hholds
  have hsound := h.sound i
  -- nobody else holds the guard, so only this process can have an answer to publish
  have hsettled : (∀ status, w.procs i ≠ .publishing status) →
      (∀ t, w.shared.status = some t → Backed t w.shared.stash) ∨ w.Taken := by
    intro hnone
    refine h.settled fun j status hj => ?_
    obtain rfl := h.one j i (by rw [hj]; rfl) hholds
    exact hnone status hj
  cases hi : w.procs i with
  | checkClaimed force =>
    rw [hi] at hn
    obtain ⟨rfl, rfl⟩ := Prod.mk.inj (Option.some.inj hn)
    have hshown : Backed w.shared.shown w.shared.stash ∨ w.Taken :=
      (hsettled (by simp [hi])).imp_left shown_backed
    refine h.hold hholds (fun _ => hbusy) hshown (.inl (hshown.imp_left ?_)) h.skipped
    rintro hb t ht
    obtain rfl := Option.some.inj ht
    exact hb
  | checkRead force previous =>
    have hoffer := hsettled (by simp [hi])
    rw [hi] at hn hsound
    obtain ⟨rfl, rfl⟩ := Prod.mk.inj (Option.some.inj hn)
    cases force with
    | false => exact h.hold hholds (fun _ => hbusy) hsound (.inl hoffer) h.skipped
    | true =>
      refine h.hold hholds (fun _ => hbusy) hsound (.inl (.inl ?_)) h.skipped
      intro t ht
      obtain rfl := Option.some.inj ht
      simp [Backed]
  | checkSpawned force previous =>
    have hoffer := hsettled (by simp [hi])
    rw [hi] at hn hsound
    simp only [advance] at hn
    split at hn
    · obtain ⟨rfl, rfl⟩ := Prod.mk.inj (Option.some.inj hn)
      exact h.hold hholds (fun _ => hbusy) trivial (.inl hoffer) h.skipped
    · split at hn
      · obtain ⟨rfl, rfl⟩ := Prod.mk.inj (Option.some.inj hn)
        exact h.hold hholds (fun _ => hbusy) (.inl (by simp [Backed, failure])) (.inl hoffer)
          h.skipped
      · split at hn
        · obtain ⟨rfl, rfl⟩ := Prod.mk.inj (Option.some.inj hn)
          exact h.hold hholds (fun _ => hbusy) hsound (.inl hoffer) h.skipped
        · obtain ⟨rfl, rfl⟩ := Prod.mk.inj (Option.some.inj hn)
          exact h.hold hholds (fun _ => hbusy) ⟨hsound, h.skipped⟩ (.inl hoffer) h.skipped
  | checkLoaded force previous state =>
    have hoffer := hsettled (by simp [hi])
    rw [hi] at hn hsound
    obtain ⟨rfl, rfl⟩ := Prod.mk.inj (Option.some.inj hn)
    refine h.hold hholds (fun _ => hbusy) ⟨hsound.1, ?_⟩ (.inl hoffer) h.skipped
    exact (check_skippedVersion L _ _ _ _).trans hsound.2
  | checkFetched previous outcome state =>
    have hoffer := hsettled (by simp [hi])
    rw [hi] at hn hsound
    obtain ⟨rfl, rfl⟩ := Prod.mk.inj (Option.some.inj hn)
    cases hsaves : c.saves with
    | true => exact h.hold hholds (fun _ => hbusy) hsound.1 (.inl hoffer) hsound.2
    | false => exact h.hold hholds (fun _ => hbusy) hsound.1 (.inl hoffer) h.skipped
  | checkSaved previous outcome =>
    have hoffer := hsettled (by simp [hi])
    rw [hi] at hn hsound
    simp only [advance] at hn
    split at hn
    · rename_i status available hfresh
      obtain ⟨rfl, rfl⟩ := Prod.mk.inj (Option.some.inj hn)
      exact h.hold hholds (fun _ => hbusy) (interpret_backed hfresh) (.inl hoffer) h.skipped
    · obtain ⟨rfl, rfl⟩ := Prod.mk.inj (Option.some.inj hn)
      exact h.hold hholds (fun _ => hbusy) (hsound.imp_left noNews_backed) (.inl hoffer) h.skipped
  | checkFresh status available =>
    rw [hi] at hn hsound
    obtain ⟨rfl, rfl⟩ := Prod.mk.inj (Option.some.inj hn)
    exact h.hold hholds (fun _ => hbusy) (.inl hsound) (.inr ⟨status, rfl⟩) h.skipped
  | downloadClaimed u =>
    rw [hi] at hn hsound
    obtain ⟨rfl, rfl⟩ := Prod.mk.inj (Option.some.inj hn)
    refine h.hold hholds (fun _ => hbusy) hsound (.inl (.inl ?_)) h.skipped
    intro t ht
    obtain rfl := Option.some.inj ht
    simp [Backed, downloading, AvailableUpdate.status]
  | downloadSpawned u =>
    have hoffer := hsettled (by simp [hi])
    rw [hi] at hn hsound
    simp only [advance] at hn
    split at hn
    · obtain ⟨rfl, rfl⟩ := Prod.mk.inj (Option.some.inj hn)
      exact h.hold hholds (fun _ => hbusy) trivial (.inl hoffer) h.skipped
    · split at hn
      · obtain ⟨rfl, rfl⟩ := Prod.mk.inj (Option.some.inj hn)
        exact h.hold hholds (fun _ => hbusy) (.inl fun _ => hsound) (.inl hoffer) h.skipped
      · split at hn
        · obtain ⟨rfl, rfl⟩ := Prod.mk.inj (Option.some.inj hn)
          exact h.hold hholds (fun _ => hbusy) (.inl fun _ => hsound) (.inl hoffer) h.skipped
        · obtain ⟨rfl, rfl⟩ := Prod.mk.inj (Option.some.inj hn)
          exact h.hold hholds (fun _ => hbusy) (.inl fun _ => hsound) (.inl hoffer) h.skipped
  | publishing status =>
    rw [hi] at hn hsound
    obtain ⟨rfl, rfl⟩ := Prod.mk.inj (Option.some.inj hn)
    refine h.hold hholds (fun _ => hbusy) trivial (.inl (hsound.imp_left ?_)) h.skipped
    intro hb t ht
    obtain rfl := Option.some.inj ht
    exact hb
  | releasing =>
    have hoffer := hsettled (by simp [hi])
    rw [hi] at hn
    obtain ⟨rfl, rfl⟩ := Prod.mk.inj (Option.some.inj hn)
    exact h.hold hholds (by simp [Phase.holds]) trivial (.inl hoffer) h.skipped
  | _ =>
    rw [hi] at hholds
    cases hholds

/-- The steps of a call that does not hold the guard. -/
theorem aside_inv {c : Choice} {s : Shared} {ph : Phase} (h : w.Inv)
    (hnot : (w.procs i).holds = false) (hC : Apart w (.go i c))
    (hn : advance L w.shared c (w.procs i) = some (s, ph)) : (w.move i s ph).Inv := by
  cases hi : w.procs i with
  | idle =>
    rw [hi] at hn
    cases hn
  | checkAsked force =>
    rw [hi] at hn
    simp only [advance] at hn
    split at hn
    · obtain ⟨rfl, rfl⟩ := Prod.mk.inj (Option.some.inj hn)
      exact h.aside hnot rfl (by rw [hi]; nofun) rfl rfl (fun _ => .inl) (fun _ _ => rfl) h.skipped
    · rename_i hbusy
      obtain ⟨rfl, rfl⟩ := Prod.mk.inj (Option.some.inj hn)
      have hfree : w.shared.busy = false := by simpa using hbusy
      refine h.free hfree (fun _ => rfl) trivial ?_ h.skipped
      exact (h.settled_of_free hfree).imp_right (·.move (by rw [hi]; nofun))
  | downloadAsked =>
    rw [hi] at hn
    simp only [advance] at hn
    split at hn
    all_goals
      obtain ⟨rfl, rfl⟩ := Prod.mk.inj (Option.some.inj hn)
      exact h.aside hnot rfl (by rw [hi]; nofun) rfl rfl (fun _ => .inl) (fun _ _ => rfl) h.skipped
  | downloadRead u =>
    simp only [Apart, hi] at hC
    rw [hi] at hn
    simp only [advance] at hn
    split at hn
    · obtain ⟨rfl, rfl⟩ := Prod.mk.inj (Option.some.inj hn)
      exact h.aside hnot rfl (by rw [hi]; nofun) rfl rfl (fun _ => .inl) (fun _ _ => rfl) h.skipped
    · rename_i hbusy
      obtain ⟨rfl, rfl⟩ := Prod.mk.inj (Option.some.inj hn)
      have hfree : w.shared.busy = false := by simpa using hbusy
      refine h.free hfree (fun _ => rfl) (hC hfree) ?_ h.skipped
      exact (h.settled_of_free hfree).imp_right (·.move (by rw [hi]; nofun))
  | skipAsked =>
    rw [hi] at hn
    obtain ⟨rfl, rfl⟩ := Prod.mk.inj (Option.some.inj hn)
    refine h.aside hnot ?_ (by rw [hi]; nofun) rfl rfl ?_ (fun _ _ => rfl) h.skipped
    · split <;> rfl
    · intro t ht
      exact .inr (Option.some.inj ht).symm
  | skipOffered version =>
    rw [hi] at hn
    obtain ⟨rfl, rfl⟩ := Prod.mk.inj (Option.some.inj hn)
    exact h.aside hnot rfl (by rw [hi]; nofun) rfl rfl (fun _ => .inl) (fun _ _ => rfl) h.skipped
  | skipLoaded version state =>
    simp only [Apart, hi] at hC
    rw [hi] at hn
    simp only [advance] at hn
    split at hn
    · rename_i hsaves
      obtain ⟨rfl, rfl⟩ := Prod.mk.inj (Option.some.inj hn)
      refine h.aside hnot rfl (by rw [hi]; nofun) rfl rfl (fun _ => .inl) ?_ rfl
      intro j hj
      rw [hC hsaves j] at hj
      cases hj
    · obtain ⟨rfl, rfl⟩ := Prod.mk.inj (Option.some.inj hn)
      exact h.aside hnot rfl (by rw [hi]; nofun) rfl rfl (fun _ => .inl) (fun _ _ => rfl) h.skipped
  | skipSaved version =>
    simp only [Apart, hi] at hC
    rw [hi] at hn
    obtain ⟨rfl, rfl⟩ := Prod.mk.inj (Option.some.inj hn)
    exact h.free hC nofun trivial (.inr ⟨i, version, move_self⟩) h.skipped
  | skipTaken version =>
    simp only [Apart, hi] at hC
    rw [hi] at hn
    obtain ⟨rfl, rfl⟩ := Prod.mk.inj (Option.some.inj hn)
    refine h.free hC nofun trivial (.inl ?_) h.skipped
    intro t ht
    obtain rfl := Option.some.inj ht
    simp [Backed, skippedStatus]
  | _ =>
    rw [hi] at hnot
    cases hnot

theorem next_inv {l : Label} {w' : Jobs} (h : w.Inv) (hC : Apart w l)
    (hn : w.next L l = some w') : w'.Inv := by
  cases l with
  | call i c =>
    simp only [Jobs.next] at hn
    split at hn
    · rename_i hidle
      obtain rfl := Option.some.inj hn
      have hi : w.procs i = .idle := by
        cases hp : w.procs i <;> simp [hp, Phase.isIdle] at hidle
        rfl
      exact h.aside (by rw [hi]; rfl) (by cases c <;> rfl) (by rw [hi]; nofun) rfl rfl
        (fun _ => .inl) (fun _ _ => rfl) h.skipped
    · cases hn
  | go i c =>
    simp only [Jobs.next, Option.map_eq_some_iff] at hn
    obtain ⟨⟨s, ph⟩, hadvance, rfl⟩ := hn
    by_cases hholds : (w.procs i).holds = true
    · exact hold_inv L h hholds hadvance
    · exact aside_inv L h (by simpa using hholds) hC hadvance
  | read =>
    obtain rfl := Option.some.inj hn
    refine ⟨h.busy, h.one, ?_, ?_, h.skipped⟩
    · intro i
      exact (h.sound i).keep rfl (fun _ => rfl) id
    · refine h.offer.imp_left fun hbacked t ht => ?_
      obtain rfl := Option.some.inj ht
      exact shown_backed hbacked

theorem start_inv (h : (jobs L).start w) : w.Inv := by
  obtain ⟨-, hstatus, -, hskip, hidle⟩ := h
  refine ⟨?_, ?_, ?_, .inl ?_, hskip.symm⟩
  · intro i hi
    rw [hidle i] at hi
    cases hi
  · intro i j hi _
    rw [hidle i] at hi
    cases hi
  · intro i
    rw [hidle i]
    trivial
  · simp [hstatus]

theorem Jobs.Inv.oneTruth (h : w.Inv) : w.OneTruth := by
  refine ⟨h.one, fun hidle => ?_, h.skipped⟩
  rcases h.offer with hbacked | ⟨i, version, hi⟩ | ⟨i, status, hi⟩
  · exact hbacked
  · rw [hidle i] at hi
    cases hi
  · rw [hidle i] at hi
    cases hi

/-! ## Skips between jobs -/

/-- A skip goes on only while no job runs, and a download is of the update still stashed. -/
def between (w : Jobs) : Label → Bool
  | .go i _ =>
    match w.procs i with
    | .downloadRead u => w.shared.busy ||
      w.shared.stash.map (fun t => t.manifest.version) = some u.manifest.version
    | .skipLoaded _ _ | .skipSaved _ | .skipTaken _ => !w.shared.busy
    | _ => true
  | _ => true

theorem Phase.holds_of_holdsRecord {ph : Phase} (h : ph.holdsRecord = true) : ph.holds = true := by
  cases ph <;> first | rfl | cases h

theorem Jobs.Inv.apart {l : Label} (h : w.Inv) (hl : between w l = true) : Apart w l := by
  cases l with
  | go i c =>
    simp only [between, Apart] at hl ⊢
    split at hl
    · intro hfree
      simpa [hfree] using hl
    · intro _ j
      by_contra hj
      have hbusy := h.busy j (Phase.holds_of_holdsRecord (by simpa using hj))
      rw [hbusy] at hl
      cases hl
    · simpa using hl
    · simpa using hl
    · trivial
  | call i c => trivial
  | read => trivial

theorem along_between {ls : List Label} (h : w.Inv)
    (hls : (jobs L).checked between w ls = true) : (jobs L).Along Apart w ls := by
  induction ls generalizing w with
  | nil => trivial
  | cons l ls ih =>
    rw [System.checked, Bool.and_eq_true] at hls
    have hl := h.apart hls.1
    refine ⟨hl, fun w' hn => ih (next_inv L h hl hn) ?_⟩
    rw [hn] at hls
    exact hls.2

/-! ## One job, one truth -/

/-- **The guard.**  Where no skip crosses a job, one job runs at a time, what is on offer can be
downloaded once everything has ended, and the version skipped last stays on record. -/
theorem jobs_oneTruth {w₀ : Jobs} {ls : List Label} (h₀ : (jobs L).start w₀)
    (hC : (jobs L).Along Apart w₀ ls) (he : (jobs L).exec w₀ ls = some w) : w.OneTruth := by
  have hnext : ∀ s l s', s.Inv → Apart s l → (jobs L).next s l = some s' → s'.Inv :=
    fun s l s' hi hl hn => next_inv L hi hl hn
  exact ((jobs L).exec_induction hnext (start_inv L h₀) hC he).oneTruth

/-- The second release is published, and the first runs. -/
def quietly : Choice where
  pluginVersion := "1.0.0.0"
  reply := secondRelease.reply none
  now := 0

/-- A process takes some steps. -/
def steps (i n : Nat) : List Label := List.replicate n (.go i quietly)

def idleJobs : Jobs where
  shared :=
    { busy := false, status := none, stash := none, file := none, marker := none, lastSkip := none }
  procs _ := .idle

theorem idleJobs_start : (jobs L).start idleJobs := ⟨rfl, rfl, rfl, rfl, fun _ => rfl⟩

/-- The release is offered; a check of its own accord holds the record while the user skips. -/
def skipDuringCheck : List Label :=
  [.call 0 (.startCheck true)] ++ steps 0 10 ++ [.call 0 (.startCheck false)] ++ steps 0 4 ++
    [.call 1 .skipAvailable] ++ steps 1 5 ++ steps 0 5

/-- The check writes the record back as it was before the skip, and shows the offer again. -/
theorem skip_undone : ∃ w, (jobs twoReleases).Reachable w ∧ w.shared.lastSkip = some "2.0.0" ∧
    w.shared.status.map UpdateStatus.state = some .available ∧ w.shared.stash = none ∧
    ¬ w.OneTruth := by
  have h : ((jobs twoReleases).exec idleJobs skipDuringCheck).any (fun w =>
      decide (w.shared.lastSkip = some "2.0.0" ∧
        w.shared.status.map UpdateStatus.state = some .available ∧ w.shared.stash = none ∧
        (UpdateState.load w.shared.file).skippedVersion = none)) = true := by
    decide +kernel
  obtain ⟨w, hw, hfacts⟩ := Option.any_eq_true _ _ |>.mp h
  obtain ⟨hskip, hstatus, hstash, hfile⟩ := of_decide_eq_true hfacts
  refine ⟨w, ⟨_, _, idleJobs_start twoReleases, hw⟩, hskip, hstatus, hstash, fun htruth => ?_⟩
  have hsame := htruth.skipped
  rw [hfile, hskip] at hsame
  cases hsame

/-- The release is offered, skipped and offered no more. -/
def skipBetweenChecks : List Label :=
  [.call 0 (.startCheck true)] ++ steps 0 10 ++ [.call 1 .skipAvailable] ++ steps 1 5 ++
    [.call 0 (.startCheck true)] ++ steps 0 9

theorem jobs_oneTruth_skipBetweenChecks : ∃ w,
    (jobs twoReleases).exec idleJobs skipBetweenChecks = some w ∧
      w.shared.lastSkip = some "2.0.0" ∧
      w.shared.status.map UpdateStatus.state = some .skipped ∧ w.OneTruth := by
  have h : ((jobs twoReleases).exec idleJobs skipBetweenChecks).any (fun w =>
      decide (w.shared.lastSkip = some "2.0.0" ∧
        w.shared.status.map UpdateStatus.state = some .skipped)) = true := by
    decide +kernel
  have hbetween : (jobs twoReleases).checked between idleJobs skipBetweenChecks = true := by
    decide +kernel
  obtain ⟨w, hw, hfacts⟩ := Option.any_eq_true _ _ |>.mp h
  obtain ⟨hskip, hstatus⟩ := of_decide_eq_true hfacts
  have hstart := idleJobs_start twoReleases
  exact ⟨w, hw, hskip, hstatus, jobs_oneTruth twoReleases hstart
    (along_between twoReleases (start_inv twoReleases hstart) hbetween) hw⟩

end Mbrc.Updates
