import MbrcPlugin.Library.Scanner

/-!
# Reported changes

A notification queues what it reports and nudges the scanner, which waits a burst out, takes the
queue and applies it under the reconcile guard.  A batch that meets the guard held goes back on the
queue, merged with what was reported since, and the scanner is nudged again; the nudge keeps one
permit while nobody waits for it.

While the cache stays validated and the host answers, no report is lost: it is on the queue with a
nudge to come, or in the hand of the scanner, or applied by a pass that took the guard after it
(`reports_kept`).  A rating that names no file asks for nothing, and a file that was added or
removed is left to the re-list and its diff against the log.
-/

namespace Mbrc.LibraryEvents

open Cache Reconcile

/-! ## The queue -/

/-- A notification of the host. -/
inductive Report where
  | membershipChanged (path : Option Path)
  | tagsChanged (path : Option Path)
  | ratingChanged (path : Option Path)
  deriving DecidableEq

namespace Report

/-- The file it names. -/
def file : Report → Option Path
  | membershipChanged path | tagsChanged path | ratingChanged path => path

/-- The file whose tags or rating it reports changed. -/
def edited : Report → Option Path
  | membershipChanged _ => none
  | tagsChanged path | ratingChanged path => path

/-- It asks for the library to be listed. -/
def asksRelist : Report → Bool
  | membershipChanged _ | tagsChanged _ => true
  | ratingChanged _ => false

end Report

/-- What a pass has to apply, with what the media categories and the broadcast need of it. -/
structure Reported extends Scanner.Reported where
  /-- An edit named no file. -/
  unnamedEdit : Bool := false
  /-- Files added to or removed from the library. -/
  moved : List Path := []
  deriving DecidableEq

namespace Reported

def add (queued : Reported) : Report → Reported
  | .membershipChanged path =>
    { queued with relist := true, moved := queued.moved ++ path.toList }
  | .tagsChanged (some path) => { queued with tagged := queued.tagged ++ [path] }
  | .tagsChanged none => { queued with relist := true, unnamedEdit := true }
  | .ratingChanged (some path) => { queued with rated := queued.rated ++ [path] }
  | .ratingChanged none => queued

/-- Returns a batch, merged with whatever arrived since. -/
def putBack (queued batch : Reported) : Reported where
  relist := queued.relist || batch.relist
  unnamedEdit := queued.unnamedEdit || batch.unnamedEdit
  tagged := queued.tagged ++ batch.tagged
  rated := queued.rated ++ batch.rated
  moved := queued.moved ++ batch.moved

/-- What the report says is in the batch. -/
def Covers (r : Reported) : Report → Prop
  | .membershipChanged path => r.relist = true ∧ ∀ p ∈ path, p ∈ r.moved
  | .tagsChanged (some path) => path ∈ r.tagged
  | .tagsChanged none => r.relist = true ∧ r.unnamedEdit = true
  | .ratingChanged (some path) => path ∈ r.rated
  | .ratingChanged none => False

theorem covers_add (queued : Reported) {r : Report} (h : r ≠ .ratingChanged none) :
    (queued.add r).Covers r := by
  rcases r with path | (_ | path) | (_ | path)
  · exact ⟨rfl, fun p hp => List.mem_append_right _ (Option.mem_toList.mpr hp)⟩
  · exact ⟨rfl, rfl⟩
  · exact List.mem_append_right _ (List.mem_singleton_self path)
  · exact absurd rfl h
  · exact List.mem_append_right _ (List.mem_singleton_self path)

theorem Covers.add {queued : Reported} {r : Report} (h : queued.Covers r) (new : Report) :
    (queued.add new).Covers r := by
  rcases r with path | (_ | path) | (_ | path) <;>
    rcases new with path' | (_ | path') | (_ | path') <;>
    simp_all [Covers, Reported.add]

/-- **Putting a batch back** keeps what was reported since, and what the batch reports. -/
theorem Covers.putBack {queued batch : Reported} {r : Report}
    (h : queued.Covers r ∨ batch.Covers r) : (queued.putBack batch).Covers r := by
  rcases r with path | (_ | path) | (_ | path)
  · rcases h with h | h
    · exact ⟨by simp [Reported.putBack, h.1], fun p hp => List.mem_append_left _ (h.2 p hp)⟩
    · exact ⟨by simp [Reported.putBack, h.1], fun p hp => List.mem_append_right _ (h.2 p hp)⟩
  · exact h.elim (fun h => by simp [Reported.putBack, Covers, h.1, h.2])
      fun h => by simp [Reported.putBack, Covers, h.1, h.2]
  · exact List.mem_append.mpr h
  · exact h.elim id id
  · exact List.mem_append.mpr h

theorem not_covers_of_isEmpty {queued : Reported} (h : queued.isEmpty = true) (r : Report) :
    ¬ queued.Covers r := by
  simp only [Scanner.Reported.isEmpty, Bool.and_eq_true, Bool.not_eq_true', decide_eq_true_eq] at h
  obtain ⟨⟨hrelist, htagged⟩, hrated⟩ := h
  rcases r with path | (_ | path) | (_ | path) <;> simp [Covers, hrelist, htagged, hrated]

end Reported

/-! ## Passes -/

/-- A pass: what it applies, and the transactions it has committed. -/
structure Pass where
  /-- How many changes were reported when it took the guard. -/
  since : Nat
  batch : Reported
  txns : List Txn

namespace Pass

/-- The tag row of a file dropped, and the file given to the log as edited. -/
def Files (pass : Pass) (path : Path) : Prop :=
  ∃ edited, path ∈ edited ∧ .dropTrackTags edited ∈ pass.txns ∧
    ∃ paths, .recordChanges paths edited ∈ pass.txns

/-- The index replaced by a listing, and the log compared with that. -/
def Relists (pass : Pass) : Prop :=
  ∃ paths edited, .replaceTrackIndex paths ∈ pass.txns ∧
    .recordChanges (some paths) edited ∈ pass.txns

/-- It has applied a report; `named` are the files a report is to be filed by. -/
structure Applies (named : Report → Option Path) (pass : Pass) (r : Report) : Prop where
  files : ∀ path ∈ named r, pass.Files path
  relists : r.asksRelist = true → pass.Relists

end Pass

/-! ## The scanner -/

/-- Where the scanner's loop is. -/
inductive Stage where
  | waiting
  /-- A nudge is taken, and the burst is waited out. -/
  | debouncing
  | taken (batch : Reported)
  /-- The guard was held. -/
  | refused (batch : Reported)
  /-- The batch is back on the queue, and the nudge is to be repeated. -/
  | returned
  | began (pass : Pass)
  /-- `todo` is to be committed, and then the library listed where it is to be. -/
  | passing (pass : Pass) (todo : List Txn) (lists : Bool)

structure Scanner where
  store : Store
  /-- Everything reported so far: no step of the code reads it, nor `passes`. -/
  reports : List Report
  /-- Notifications that are queued and are to nudge the scanner. -/
  nudging : Nat
  queue : Reported
  /-- The permit a nudge leaves. -/
  permit : Bool
  stage : Stage
  /-- A reconcile or a burst of the backfill holds the guard. -/
  guarded : Bool
  /-- The passes that are over. -/
  passes : List Pass

inductive Event where
  | report (r : Report)
  | nudge
  | wake
  | take
  | tryGuard
  | putBack
  | renudge
  /-- The pass looks at the cache; `now` is the time it will stamp. -/
  | plan (now : Int)
  | commit (epoch : Epoch)
  /-- The host lists the library, or fails. -/
  | list (paths : Option (List Path)) (now : Int)
  /-- The pass lets go of the guard. -/
  | finish
  /-- Another holder takes the guard, or lets go of it. -/
  | guard (held : Bool)
  /-- Anything else the plugin does to its store. -/
  | elsewhere (store : Store)

namespace Scanner

variable (lower : String → String)

/-- The pass holds the guard. -/
def passing (s : Scanner) : Bool :=
  match s.stage with
  | .began _ | .passing _ _ _ => true
  | _ => false

def step (s : Scanner) : Event → Option Scanner
  | .report r =>
    some { s with reports := s.reports ++ [r], queue := s.queue.add r, nudging := s.nudging + 1 }
  | .nudge =>
    if 0 < s.nudging then some { s with nudging := s.nudging - 1, permit := true } else none
  | .wake =>
    match s.stage with
    | .waiting => if s.permit then some { s with permit := false, stage := .debouncing } else none
    | _ => none
  | .take =>
    match s.stage with
    | .debouncing =>
      let stage := if s.queue.isEmpty then .waiting else .taken s.queue
      some { s with queue := {}, stage }
    | _ => none
  | .tryGuard =>
    match s.stage with
    | .taken batch =>
      let pass := { since := s.reports.length, batch, txns := [] }
      some { s with stage := if s.guarded then .refused batch else .began pass }
    | _ => none
  | .putBack =>
    match s.stage with
    | .refused batch => some { s with queue := s.queue.putBack batch, stage := .returned }
    | _ => none
  | .renudge =>
    match s.stage with
    | .returned => some { s with permit := true, stage := .waiting }
    | _ => none
  | .plan now =>
    match s.stage with
    | .began pass =>
      let edited := pass.batch.edited
      let todo : List Txn :=
        if !s.store.cache.validated then []
        else if pass.batch.relists then [.dropTrackTags edited, .dropNavLists]
        else if edited = [] then []
        else [.dropTrackTags edited, .recordChanges none edited, .setTracksSyncedAt now]
      some { s with
        stage := .passing pass todo (s.store.cache.validated && pass.batch.relists) }
    | _ => none
  | .commit epoch =>
    match s.stage with
    | .passing pass (txn :: todo) lists =>
      some { s with
        store := s.store.commit lower epoch txn
        stage := .passing { pass with txns := pass.txns ++ [txn] } todo lists }
    | _ => none
  | .list paths now =>
    match s.stage with
    | .passing pass [] true =>
      let todo : List Txn := match paths with
        | some listed => [.replaceTrackIndex listed, .recordChanges paths pass.batch.edited]
        | none => [.recordChanges none pass.batch.edited]
      some { s with stage := .passing pass (todo ++ [.setTracksSyncedAt now]) false }
    | _ => none
  | .finish =>
    match s.stage with
    | .passing pass [] false => some { s with stage := .waiting, passes := s.passes ++ [pass] }
    | _ => none
  | .guard held =>
    if s.passing || s.guarded = held then none else some { s with guarded := held }
  | .elsewhere store => some { s with store }

/-- The plugin has started and nothing was reported yet. -/
def system : Transition.System Scanner Event where
  start s := s.reports = [] ∧ s.nudging = 0 ∧ s.queue = {} ∧ s.stage = .waiting ∧ s.passes = []
  next := step lower

/-- The cache is validated, and the host answers. -/
def Sound (s : Scanner) (event : Event) : Prop :=
  s.store.cache.validated = true ∧ ∀ now, event ≠ .list none now

/-! ## What is promised -/

/-- The scanner is to be nudged, or to take the queue. -/
def NudgeToCome (s : Scanner) : Prop :=
  0 < s.nudging ∨ s.permit = true ∨ s.stage = .debouncing ∨ s.stage = .returned

/-- The `i`-th report is in the hand of the scanner: a pass under way is counted from when it took
the guard. -/
def InHand (s : Scanner) (i : Nat) (r : Report) : Prop :=
  match s.stage with
  | .taken batch | .refused batch => batch.Covers r
  | .began pass | .passing pass _ _ => i < pass.since ∧ pass.batch.Covers r
  | _ => False

/-- **What is promised** of the reports that count. -/
structure Kept (counts : Report → Prop) (named : Report → Option Path) (s : Scanner) : Prop where
  kept : ∀ i r, s.reports[i]? = some r → counts r →
    (s.queue.Covers r ∧ s.NudgeToCome) ∨ s.InHand i r ∨
      ∃ pass ∈ s.passes, i < pass.since ∧ pass.Applies named r
  putBack : ∀ batch r, s.queue.Covers r ∨ batch.Covers r → (s.queue.putBack batch).Covers r
  nudged : s.queue ≠ {} → s.NudgeToCome

/-- As the notifications are meant: a rating that names no file counts for nothing, and the files
that were added or removed are filed by the listing alone. -/
abbrev Keeps : Scanner → Prop := Kept (· ≠ .ratingChanged none) Report.edited

end Scanner

/-! ## A pass applies its batch -/

namespace Reported

theorem mem_edited {r : Reported} {path : Path} :
    path ∈ r.edited ↔ path ∈ r.tagged ∨ path ∈ r.rated := by
  rw [Scanner.Reported.edited, ChangeLog.mem_sortDedup, List.mem_append]

theorem isEmpty_of_edited {r : Reported} (hrelists : r.relists = false) (hedited : r.edited = []) :
    r.isEmpty = true := by
  have hnone : ∀ path, ¬ (path ∈ r.tagged ∨ path ∈ r.rated) := fun path hpath => by
    rw [← mem_edited, hedited] at hpath
    exact List.not_mem_nil hpath
  rw [Scanner.Reported.relists, Bool.or_eq_false_iff] at hrelists
  have hrated := List.eq_nil_iff_forall_not_mem.mpr fun path hpath => hnone path (Or.inr hpath)
  have htagged := List.eq_nil_iff_forall_not_mem.mpr fun path hpath => hnone path (Or.inl hpath)
  simp [Scanner.Reported.isEmpty, hrelists.1, hrated, htagged]

theorem Covers.mem_edited {r : Reported} {report : Report} (h : r.Covers report) {path : Path}
    (hpath : path ∈ report.edited) : path ∈ r.edited := by
  rw [Reported.mem_edited]
  rcases report with path' | (_ | path') | (_ | path') <;>
    simp only [Report.edited, Option.mem_def, Option.some_inj, reduceCtorEq] at hpath
  · exact Or.inl (hpath ▸ h)
  · exact Or.inr (hpath ▸ h)

theorem Covers.relists {r : Reported} {report : Report} (h : r.Covers report)
    (hasks : report.asksRelist = true) : r.relists = true := by
  rw [Scanner.Reported.relists, Bool.or_eq_true]
  rcases report with path | (_ | path) | path
  · exact Or.inl h.1
  · exact Or.inl h.1
  · exact Or.inr (decide_eq_true (List.ne_nil_of_mem h))
  · exact absurd hasks (by simp [Report.asksRelist])

end Reported

namespace Pass

/-- What it has committed and is to commit drops the rows of the edited files and, unless the
library is to be listed first, files them, with the listing where there is to be one. -/
structure Plan (pass : Pass) (todo : List Txn) (lists : Bool) : Prop where
  drops : .dropTrackTags pass.batch.edited ∈ pass.txns ++ todo
  files : lists = false → ∃ paths, .recordChanges paths pass.batch.edited ∈ pass.txns ++ todo ∧
    (pass.batch.relists = true →
      ∃ listed, paths = some listed ∧ .replaceTrackIndex listed ∈ pass.txns ++ todo)

/-- A pass of nothing plans nothing. -/
def Planned (pass : Pass) (todo : List Txn) (lists : Bool) : Prop :=
  pass.batch.isEmpty = true ∨ pass.Plan todo lists

theorem Planned.applies {pass : Pass} (h : pass.Planned [] false) {r : Report}
    (hr : pass.batch.Covers r) : pass.Applies Report.edited r := by
  rcases h with hempty | hplan
  · exact absurd hr (Reported.not_covers_of_isEmpty hempty r)
  · have hdrops := hplan.drops
    obtain ⟨paths, hrecord, hlists⟩ := hplan.files rfl
    rw [List.append_nil] at hdrops hrecord
    refine ⟨fun path hpath => ⟨_, hr.mem_edited hpath, hdrops, paths, hrecord⟩, fun hasks => ?_⟩
    obtain ⟨listed, rfl, hindex⟩ := hlists (hr.relists hasks)
    exact ⟨listed, _, by simpa using hindex, hrecord⟩

end Pass

/-! ## The invariant -/

namespace Scanner

variable {lower : String → String} {s s' : Scanner}

/-- The report is queued, or in hand, or applied. -/
def Known (s : Scanner) (i : Nat) (r : Report) : Prop :=
  s.queue.Covers r ∨ s.InHand i r ∨
    ∃ pass ∈ s.passes, i < pass.since ∧ pass.Applies Report.edited r

structure Inv (s : Scanner) : Prop where
  known : ∀ i r, s.reports[i]? = some r → r ≠ .ratingChanged none → s.Known i r
  nudged : s.queue ≠ {} → s.NudgeToCome
  planned : ∀ pass todo lists, s.stage = .passing pass todo lists → pass.Planned todo lists

theorem Inv.keeps (h : s.Inv) : s.Keeps := by
  refine ⟨fun i r hi hr => ?_, fun _ _ => .putBack, h.nudged⟩
  refine (h.known i r hi hr).imp_left fun hcovers => ⟨hcovers, h.nudged fun hnone => ?_⟩
  exact Reported.not_covers_of_isEmpty rfl r (hnone ▸ hcovers)

/-- A step that reports nothing and ends no pass. -/
theorem Inv.move (h : s.Inv) (hreports : s'.reports = s.reports) (hpasses : s'.passes = s.passes)
    (hknown : ∀ i r, i < s.reports.length → s.queue.Covers r ∨ s.InHand i r →
      s'.queue.Covers r ∨ s'.InHand i r)
    (hnudged : s'.queue ≠ {} → s'.NudgeToCome)
    (hplanned : ∀ pass todo lists, s'.stage = .passing pass todo lists →
      pass.Planned todo lists) : s'.Inv := by
  refine ⟨fun i r hi hr => ?_, hnudged, hplanned⟩
  rw [hreports] at hi
  have hlt : i < s.reports.length := (List.getElem?_eq_some_iff.mp hi).1
  rw [Known, ← or_assoc, hpasses]
  refine Or.imp_left (hknown i r hlt) ?_
  rw [or_assoc]
  exact h.known i r hi hr

/-- A step of anything but the queue and the loop. -/
theorem Inv.frame (h : s.Inv) (hreports : s'.reports = s.reports) (hpasses : s'.passes = s.passes)
    (hqueue : s'.queue = s.queue) (hstage : s'.stage = s.stage) (hnudge : s.NudgeToCome →
      s'.NudgeToCome) : s'.Inv := by
  refine h.move hreports hpasses (fun i r _ hr => ?_) (fun hne => ?_) (hstage ▸ h.planned)
  · rw [hqueue, InHand, hstage]
    exact hr
  · exact hnudge (h.nudged (hqueue ▸ hne))

/-- A step of the loop that leaves the queue alone and neither waits for the queue nor has waited
for it. -/
theorem Inv.advance {stage : Stage} (h : s.Inv)
    (hbusy : s.stage ≠ .debouncing ∧ s.stage ≠ .returned)
    (hhand : ∀ i r, i < s.reports.length → s.InHand i r → InHand { s with stage } i r)
    (hplanned : ∀ pass todo lists, stage = .passing pass todo lists → pass.Planned todo lists)
    (store : Store) : Inv { s with stage, store } := by
  refine h.move rfl rfl (fun i r hlt => Or.imp_right (hhand i r hlt)) (fun hne => ?_) hplanned
  rcases h.nudged hne with hnudge | hpermit | hstage | hstage
  · exact Or.inl hnudge
  · exact Or.inr (Or.inl hpermit)
  · exact absurd hstage hbusy.1
  · exact absurd hstage hbusy.2

theorem Inv.report (h : s.Inv) (r : Report) :
    Inv { s with
      reports := s.reports ++ [r], queue := s.queue.add r, nudging := s.nudging + 1 } := by
  refine ⟨fun i r' hi hr' => ?_, fun _ => Or.inl (Nat.succ_pos _), h.planned⟩
  rcases Nat.lt_trichotomy i s.reports.length with hlt | rfl | hgt
  · rw [List.getElem?_append_left hlt] at hi
    exact (h.known i r' hi hr').imp_left fun hcovers => hcovers.add r
  · obtain rfl : r = r' := by simpa using hi
    exact Or.inl (Reported.covers_add s.queue hr')
  · rw [List.getElem?_eq_none (by simp; omega)] at hi
    cases hi

theorem Inv.plan {now : Int} (h : s.Inv) (hsound : s.Sound (.plan now))
    (hs : s.step lower (.plan now) = some s') : s'.Inv := by
  simp only [step] at hs
  split at hs
  case h_2 => cases hs
  case h_1 pass hstage =>
    obtain rfl := Option.some.inj hs
    rw [hsound.1]
    refine h.advance (by simp [hstage]) (fun i r _ hr => ?_) ?_ s.store
    · rw [InHand, hstage] at hr
      exact hr
    rintro pass' todo lists ⟨⟩
    cases hrelists : pass.batch.relists with
    | true =>
      exact Or.inr ⟨by simp, by simp⟩
    | false =>
      by_cases hedited : pass.batch.edited = []
      · exact Or.inl (Reported.isEmpty_of_edited hrelists hedited)
      · refine Or.inr ⟨by simp [hedited], fun _ => ⟨none, by simp [hedited], ?_⟩⟩
        exact fun hnot => absurd hnot (by simp [hrelists])

theorem Inv.commit {epoch : Epoch} (h : s.Inv) (hs : s.step lower (.commit epoch) = some s') :
    s'.Inv := by
  simp only [step] at hs
  split at hs
  case h_2 => cases hs
  case h_1 pass txn todo lists hstage =>
    obtain rfl := Option.some.inj hs
    refine h.advance (by simp [hstage]) (fun i r _ hr => ?_) ?_ _
    · rw [InHand, hstage] at hr
      exact hr
    rintro pass' todo' lists' ⟨⟩
    refine (h.planned _ _ _ hstage).imp_right fun hplan => ?_
    exact ⟨by simpa using hplan.drops, by simpa using hplan.files⟩

theorem Inv.list {paths : Option (List Path)} {now : Int} (h : s.Inv)
    (hsound : s.Sound (.list paths now)) (hs : s.step lower (.list paths now) = some s') :
    s'.Inv := by
  simp only [step] at hs
  split at hs
  case h_2 => cases hs
  case h_1 pass hstage =>
    obtain rfl := Option.some.inj hs
    cases paths with
    | none => exact absurd rfl (hsound.2 now)
    | some listed =>
      refine h.advance (by simp [hstage]) (fun i r _ hr => ?_) ?_ s.store
      · rw [InHand, hstage] at hr
        exact hr
      rintro pass' todo' lists' ⟨⟩
      refine (h.planned _ _ _ hstage).imp_right fun hplan => ⟨?_, fun _ => ?_⟩
      · exact List.mem_append_left _ (by simpa using hplan.drops)
      · exact ⟨some listed, by simp, fun _ => ⟨listed, rfl, by simp⟩⟩

theorem Inv.finish (h : s.Inv) (hs : s.step lower .finish = some s') : s'.Inv := by
  simp only [step] at hs
  split at hs
  case h_2 => cases hs
  case h_1 pass hstage =>
    obtain rfl := Option.some.inj hs
    refine ⟨fun i r hi hr => ?_, fun hne => ?_, by simp⟩
    · rcases h.known i r hi hr with hcovers | hhand | ⟨done, hdone, happlied⟩
      · exact Or.inl hcovers
      · rw [InHand, hstage] at hhand
        exact Or.inr (Or.inr ⟨pass, by simp, hhand.1,
          (h.planned _ _ _ hstage).applies hhand.2⟩)
      · exact Or.inr (Or.inr ⟨done, List.mem_append_left _ hdone, happlied⟩)
    · rcases h.nudged hne with hnudge | hpermit | hnot | hnot
      · exact Or.inl hnudge
      · exact Or.inr (Or.inl hpermit)
      all_goals
        rw [hstage] at hnot
        cases hnot

theorem inv_step {event : Event} (h : s.Inv) (hsound : s.Sound event)
    (hs : s.step lower event = some s') : s'.Inv := by
  cases event with
  | report r =>
    obtain rfl := Option.some.inj hs
    exact h.report r
  | nudge =>
    simp only [step] at hs
    split at hs
    · obtain rfl := Option.some.inj hs
      exact h.frame rfl rfl rfl rfl fun _ => Or.inr (Or.inl rfl)
    · cases hs
  | wake =>
    simp only [step] at hs
    split at hs
    case h_2 => cases hs
    case h_1 hstage =>
      split at hs
      · obtain rfl := Option.some.inj hs
        refine h.move rfl rfl (fun i r _ hr => hr.imp_right fun hhand => ?_)
          (fun _ => Or.inr (Or.inr (Or.inl rfl))) (by simp)
        rw [InHand, hstage] at hhand
        exact hhand
      · cases hs
  | take =>
    simp only [step] at hs
    split at hs
    case h_2 => cases hs
    case h_1 hstage =>
      obtain rfl := Option.some.inj hs
      refine h.move rfl rfl (fun i r _ hr => Or.inr ?_) (fun hne => absurd rfl hne) ?_
      · rw [InHand, hstage, or_false] at hr
        cases hempty : s.queue.isEmpty with
        | true => exact absurd hr (Reported.not_covers_of_isEmpty hempty r)
        | false => simpa [InHand, hempty] using hr
      · intro pass todo lists hpass
        dsimp only at hpass
        split at hpass <;> cases hpass
  | tryGuard =>
    simp only [step] at hs
    split at hs
    case h_2 => cases hs
    case h_1 batch hstage =>
      obtain rfl := Option.some.inj hs
      refine h.advance (by simp [hstage]) (fun i r hlt hr => ?_) ?_ s.store
      · rw [InHand, hstage] at hr
        cases hg : s.guarded with
        | true => simpa [InHand, hg] using hr
        | false => simpa [InHand, hg] using ⟨hlt, hr⟩
      · intro pass todo lists hpass
        split at hpass <;> cases hpass
  | putBack =>
    simp only [step] at hs
    split at hs
    case h_2 => cases hs
    case h_1 batch hstage =>
      obtain rfl := Option.some.inj hs
      refine h.move rfl rfl (fun i r _ hr => Or.inl (Reported.Covers.putBack ?_))
        (fun _ => Or.inr (Or.inr (Or.inr rfl))) (by simp)
      rw [InHand, hstage] at hr
      exact hr
  | renudge =>
    simp only [step] at hs
    split at hs
    case h_2 => cases hs
    case h_1 hstage =>
      obtain rfl := Option.some.inj hs
      refine h.move rfl rfl (fun i r _ hr => hr.imp_right fun hhand => ?_)
        (fun _ => Or.inr (Or.inl rfl)) (by simp)
      rw [InHand, hstage] at hhand
      exact hhand
  | plan now => exact h.plan hsound hs
  | commit epoch => exact h.commit hs
  | list paths now => exact h.list hsound hs
  | finish => exact h.finish hs
  | guard held =>
    simp only [step] at hs
    split at hs
    · cases hs
    · obtain rfl := Option.some.inj hs
      exact h.frame rfl rfl rfl rfl id
  | elsewhere store =>
    obtain rfl := Option.some.inj hs
    exact h.frame rfl rfl rfl rfl id

theorem Inv.start (h : (system lower).start s) : s.Inv := by
  obtain ⟨hreports, -, hqueue, hstage, -⟩ := h
  exact ⟨by simp [hreports], by simp [hqueue], by simp [hstage]⟩

/-- **No reported change is lost** in any run in which the cache stays validated and the host
answers. -/
theorem reports_kept {s₀ : Scanner} {events : List Event} (h₀ : (system lower).start s₀)
    (hsound : (system lower).Along Sound s₀ events)
    (hrun : (system lower).exec s₀ events = some s) : s.Keeps :=
  ((system lower).exec_induction (fun _ _ _ => inv_step) (Inv.start h₀) hsound hrun).keeps

/-! ## Settled runs -/

/-- The loop waits, and nothing is queued. -/
def resting (s : Scanner) : Bool :=
  match s.stage with
  | .waiting => s.queue.isEmpty
  | _ => false

/-- At rest, every report that counts has been applied. -/
theorem Kept.applied {counts : Report → Prop} {named : Report → Option Path}
    (h : s.Kept counts named) (hrest : s.resting = true) {i : Nat} {r : Report}
    (hi : s.reports[i]? = some r) (hr : counts r) :
    ∃ pass ∈ s.passes, i < pass.since ∧ pass.Applies named r := by
  rw [resting] at hrest
  split at hrest
  case h_2 => cases hrest
  case h_1 hstage =>
    rcases h.kept i r hi hr with ⟨hcovers, -⟩ | hhand | happlied
    · exact absurd hcovers (Reported.not_covers_of_isEmpty hrest r)
    · rw [InHand, hstage] at hhand
      exact hhand.elim
    · exact happlied

def answered : Event → Bool
  | .list paths _ => paths.isSome
  | _ => true

def sound (s : Scanner) (event : Event) : Bool := s.store.cache.validated && answered event

theorem sound_of_sound {event : Event} (h : s.sound event = true) : s.Sound event := by
  obtain ⟨hvalidated, hanswered⟩ := Bool.and_eq_true_iff.mp h
  refine ⟨hvalidated, ?_⟩
  rintro now rfl
  exact Bool.false_ne_true hanswered

/-- A validated cache with nothing in it. -/
def fresh : Scanner where
  store := { Store.initial with cache := { MetadataCache.initial with validated := true } }
  reports := []
  nudging := 0
  queue := {}
  permit := false
  stage := .waiting
  guarded := false
  passes := []

theorem fresh_start : (system lower).start fresh := ⟨rfl, rfl, rfl, rfl, rfl⟩

/-- A file is edited while a reconcile runs, and another is rated before the batch is put back. -/
def editedMeanwhile : List Event :=
  [.guard true, .report (.tagsChanged (some "a.mp3")), .nudge, .wake, .take, .tryGuard,
    .report (.ratingChanged (some "b.mp3")), .putBack, .renudge, .guard false, .wake, .nudge, .take,
    .tryGuard, .plan 7, .commit "", .commit "", .list (some ["a.mp3", "b.mp3"]) 7, .commit "",
    .commit "", .commit "", .finish]

theorem reports_kept_editedMeanwhile : ∃ s,
    (system id).exec fresh editedMeanwhile = some s ∧ s.Keeps ∧ s.resting = true ∧
      s.reports.length = 2 ∧ s.passes.length = 1 := by
  have hrun : ((system id).exec fresh editedMeanwhile).any (fun s =>
      s.resting = true ∧ s.reports.length = 2 ∧ s.passes.length = 1) = true := by decide +kernel
  have hsound : (system id).checked sound fresh editedMeanwhile = true := by decide +kernel
  obtain ⟨s, hexec, hfacts⟩ := (Option.any_eq_true _ _).mp hrun
  exact ⟨s, hexec, reports_kept fresh_start
    ((system id).along_of_checked (fun _ _ => sound_of_sound) hsound) hexec,
    of_decide_eq_true hfacts⟩

/-- A rating changes, and the host does not say of which file. -/
def unnamedRating : List Event := [.report (.ratingChanged none), .nudge, .wake, .take]

/-- A file is added. -/
def added : List Event :=
  [.report (.membershipChanged (some "a.mp3")), .nudge, .wake, .take, .tryGuard, .plan 7,
    .commit "", .commit "", .list (some ["a.mp3"]) 7, .commit "", .commit "", .commit "", .finish]

/-- No row was dropped by the pass. -/
def dropsNothing (pass : Pass) : Bool :=
  pass.txns.all fun
    | .dropTrackTags edited => edited = []
    | _ => true

/-- **What a report does not ask for**: a rating of no file is applied by no pass, and the file that
was added is neither dropped nor given to the log by its name. -/
theorem not_kept_by_name :
    (∃ s, (system id).Along Sound fresh unnamedRating ∧
      (system id).exec fresh unnamedRating = some s ∧ ¬ s.Kept (fun _ => True) Report.file) ∧
    ∃ s, (system id).Along Sound fresh added ∧ (system id).exec fresh added = some s ∧
      ¬ s.Kept (· ≠ .ratingChanged none) Report.file := by
  have hunnamed : ((system id).exec fresh unnamedRating).any (fun s =>
      s.resting = true ∧ s.reports[0]? = some (.ratingChanged none) ∧ s.passes.isEmpty) = true := by
    decide +kernel
  have hunnamed' : (system id).checked sound fresh unnamedRating = true := by decide +kernel
  have hadded : ((system id).exec fresh added).any (fun s =>
      s.resting = true ∧ s.reports[0]? = some (.membershipChanged (some "a.mp3")) ∧
        s.passes.all dropsNothing) = true := by
    decide +kernel
  have hadded' : (system id).checked sound fresh added = true := by decide +kernel
  obtain ⟨s, hexec, hs⟩ := (Option.any_eq_true _ _).mp hunnamed
  obtain ⟨t, hexec', ht⟩ := (Option.any_eq_true _ _).mp hadded
  refine ⟨⟨s, (system id).along_of_checked (fun _ _ => sound_of_sound) hunnamed', hexec, ?_⟩,
    t, (system id).along_of_checked (fun _ _ => sound_of_sound) hadded', hexec', ?_⟩
  · intro hkept
    obtain ⟨hrest, hreport, hnone⟩ := of_decide_eq_true hs
    obtain ⟨pass, hpass, -⟩ := hkept.applied hrest hreport trivial
    exact List.ne_nil_of_mem hpass (List.isEmpty_iff.mp hnone)
  · intro hkept
    obtain ⟨hrest, hreport, hall⟩ := of_decide_eq_true ht
    obtain ⟨pass, hpass, -, happlies⟩ := hkept.applied hrest hreport (by simp)
    obtain ⟨edited, hmem, hdrops, -⟩ := happlies.files "a.mp3" rfl
    have hnone := List.all_eq_true.mp (List.all_eq_true.mp hall pass hpass) _ hdrops
    rw [of_decide_eq_true hnone] at hmem
    exact List.not_mem_nil hmem

end Scanner

end Mbrc.LibraryEvents
