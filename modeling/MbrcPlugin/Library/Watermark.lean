import MbrcPlugin.Library.Scanner

/-!
# The watermark and the edits

An edit is `Applied` when no live row of the log is as old as it and no tag row of its file was
fetched before it, and `Waiting` while its report is on its way, queued or in the hands of the
scanner.  The invariant (`Inv`): every edit is applied, waiting, or one the next start asks for.
A step keeps it when no stop finds an edit waiting that is older than the watermark, and the
watermark is written only where no edit was missed (`Orderly`).
-/

namespace Mbrc.Scanner

open Cache Reconcile

variable (lower : String → String)

/-! ## What is promised -/

/-- No tag row of the path was fetched before the edit of number `i`. -/
def TagsFresh (w : World) (i : Nat) (path : Path) : Prop :=
  w.store.cache.tags.get? path ≠ none → i < w.fetched path

/-- The path's live row in the log is newer than the edit. -/
def LogFresh (log : ChangeLog) (e : Edit) : Prop :=
  ∀ g, log.trackChanges.get? e.path = some (g, true) → e.generation < g

/-- The file was in the library at the edit of number `i`, and ever since. -/
def Stays (w : World) (i : Nat) (path : Path) : Prop := path ∈ w.library ∧ w.joined path ≤ i

/-- A start's pass has completed, and every edit made before that start to a file that stays in
the library is filed and its old tags are gone. -/
def EditsFiled (w : World) : Prop :=
  ∀ p, w.process = some p → p.build = .done → ∀ i e, w.edits[i]? = some e → i < p.seen →
    Stays w i e.path →
      (∃ g, w.store.log.trackChanges.get? e.path = some (g, true) ∧ e.generation < g) ∧
        TagsFresh w i e.path

/-! ## When it holds -/

def Applied (w : World) (i : Nat) (e : Edit) : Prop :=
  LogFresh w.store.log e ∧ TagsFresh w i e.path

/-- The file a report names. -/
def Report.path : Report → Option Path
  | .tagged path | .rated path => some path
  | .moved => none

/-- The reports the scanner has taken and not begun to apply. -/
def Scan.reported : Scan → List Path
  | .taken r | .began r => r.tagged ++ r.rated
  | _ => []

/-- The edits whose tags it has dropped and which it has not filed yet. -/
def Scan.unfiled : Scan → List Path
  | .dropped edited | .listed _ edited | .indexed _ edited | .unlisted edited => edited
  | _ => []

/-- The files that are reported and not taken up yet. -/
def Process.pending (p : Process) : List Path :=
  p.unreported.filterMap Report.path ++ (p.queue.tagged ++ p.queue.rated) ++ p.scan.reported

/-- The edit of number `i` was made in this process, and its report is not filed yet. -/
def Process.Waiting (p : Process) (i : Nat) (path : Path) : Prop :=
  p.seen ≤ i ∧ (path ∈ p.pending ∨ path ∈ p.scan.unfiled)

def Waiting (w : World) (i : Nat) (path : Path) : Prop :=
  ∃ p, w.process = some p ∧ p.Waiting i path

/-- The edit is filed, or its report will be. -/
def Settled (w : World) (i : Nat) (e : Edit) : Prop := Applied w i e ∨ Waiting w i e.path

/-- No edit is missed where a pass of the process writes the watermark: the process was told what
was edited before it, or there is no such edit. -/
def NoneMissed (w : World) (p : Process) : Prop :=
  p.caughtUp = true ∨ ∀ i e, w.edits[i]? = some e → Settled w i e

/-- The condition on a step: a stop finds no edit waiting that is older than the watermark, and
the watermark is written where none is missed. -/
def Orderly (w : World) : Event → Prop
  | .stop => ∀ i e, w.edits[i]? = some e → Waiting w i e.path →
      Applied w i e ∨ w.store.cache.syncedAt ≤ e.time
  | .scan _ _ => ∀ p, w.process = some p → p.scan = .filed → NoneMissed w p
  | .build _ _ _ => ∀ p asked, w.process = some p → p.build = .filed asked → NoneMissed w p
  | _ => True

/-! ## The invariant -/

/-- The listing has every file that stays in the library since before the process. -/
def Lists (w : World) (p : Process) (paths : List Path) : Prop :=
  ∀ i e, w.edits[i]? = some e → i < p.seen → Stays w i e.path → e.path ∈ paths

/-- So has the log. -/
def Holds (w : World) (p : Process) : Prop :=
  ∀ i e, w.edits[i]? = some e → i < p.seen → Stays w i e.path → w.store.log.IsLive e.path

def BuildSound (w : World) (p : Process) : Build → Prop
  | .idle | .began | .ready => True
  | .listed paths => Lists w p paths
  | .told paths edited => Lists w p paths ∧
      ∀ i e, w.edits[i]? = some e → Settled w i e ∨ e.path ∈ edited
  | .dropped paths edited asked | .indexed paths edited asked => Lists w p paths ∧
      (asked = .answered → ∀ i e, w.edits[i]? = some e →
        Settled w i e ∨ (e.path ∈ edited ∧ TagsFresh w i e.path))
  | .filed asked => Holds w p ∧ (asked = .answered → p.caughtUp = true)
  | .done => Holds w p

def ScanSound (w : World) (p : Process) : Scan → Prop
  | .listed paths _ | .indexed paths _ => Lists w p paths
  | _ => True

/-- The phases that are only reached on a validated cache. -/
def Build.isLive : Build → Bool
  | .idle | .began => false
  | _ => true

def Scan.isLive : Scan → Bool
  | .idle | .taken _ | .began _ => false
  | _ => true

/-- What holds of a running process. -/
structure Sound (w : World) (p : Process) : Prop where
  seen_le : p.seen ≤ w.edits.length
  /-- Where the scanner has dropped the tags, those of a later edit are still to be dropped. -/
  unfiled : ∀ i e, w.edits[i]? = some e → e.path ∈ p.scan.unfiled →
    TagsFresh w i e.path ∨ (p.seen ≤ i ∧ e.path ∈ p.pending)
  /-- Before the cache is validated, the watermark is that of an earlier process. -/
  unvalidated : w.store.cache.validated = false → ∀ i e, w.edits[i]? = some e → p.seen ≤ i →
    w.store.cache.syncedAt ≤ e.time
  live : p.caughtUp = true ∨ p.build.isLive = true ∨ p.scan.isLive = true →
    w.store.cache.validated = true
  caught : p.caughtUp = true ∨ p.build = .done → ∀ i e, w.edits[i]? = some e → Settled w i e
  build : BuildSound w p p.build
  scan : ScanSound w p p.scan

structure Inv (w : World) : Prop where
  consistent : w.store.log.Consistent
  synced : w.store.cache.syncedAt ≤ w.clock
  generation : ∀ e ∈ w.edits, e.generation ≤ w.store.log.generation
  covered : ∀ i e, w.edits[i]? = some e → Settled w i e ∨ w.store.cache.syncedAt ≤ e.time
  process : ∀ p, w.process = some p → Sound w p

/-- **The promise** follows. -/
theorem Inv.editsFiled {w : World} (h : Inv w) : EditsFiled w := by
  intro p hp hdone i e he hi hstays
  have hs := h.process p hp
  have hbuild := hs.build
  rw [hdone] at hbuild
  have happlied : Applied w i e := by
    rcases hs.caught (Or.inr hdone) i e he with ha | ⟨q, hq, hle, -⟩
    · exact ha
    · obtain rfl : p = q := Option.some.inj (hp.symm.trans hq)
      omega
  obtain ⟨g, hg⟩ := ChangeLog.isLive_iff.mp (hbuild i e he hi hstays)
  exact ⟨⟨g, hg, happlied.1 g hg⟩, happlied.2⟩

/-! ## Steps that lose nothing -/

/-- Between two states of a running process, nothing that is known of an earlier edit is lost. -/
structure Carries (w w' : World) (p p' : Process) : Prop where
  process : w'.process = some p'
  seen : p'.seen = p.seen
  edits : ∀ i e, w'.edits[i]? = some e →
    w.edits[i]? = some e ∨ (p.seen ≤ i ∧ e.path ∈ p'.pending)
  longer : w.edits.length ≤ w'.edits.length
  tags : ∀ i e, w.edits[i]? = some e → TagsFresh w i e.path → TagsFresh w' i e.path
  log : ∀ (i : Nat) e, w.edits[i]? = some e → LogFresh w.store.log e → LogFresh w'.store.log e
  waiting : ∀ i e, w.edits[i]? = some e → p.Waiting i e.path → Settled w' i e
  stays : ∀ i e, w.edits[i]? = some e → i < p.seen → Stays w' i e.path → Stays w i e.path
  held : ∀ i e, w.edits[i]? = some e → i < p.seen → Stays w i e.path →
    w.store.log.IsLive e.path → w'.store.log.IsLive e.path

section Carries

variable {w w' : World} {p p' : Process}

theorem Carries.settled (h : Carries w w' p p') (hp : w.process = some p) {i : Nat} {e : Edit}
    (he : w.edits[i]? = some e) (hs : Settled w i e) : Settled w' i e := by
  rcases hs with ⟨hlog, htags⟩ | ⟨q, hq, hw⟩
  · exact Or.inl ⟨h.log i e he hlog, h.tags i e he htags⟩
  · obtain rfl : p = q := Option.some.inj (hp.symm.trans hq)
    exact h.waiting i e he hw

/-- A new edit is waiting. -/
theorem Carries.new (h : Carries w w' p p') {i : Nat} {e : Edit} (hi : p.seen ≤ i)
    (hpending : e.path ∈ p'.pending) : Settled w' i e :=
  Or.inr ⟨p', h.process, h.seen ▸ hi, Or.inl hpending⟩

theorem Carries.allSettled (h : Carries w w' p p') (hp : w.process = some p)
    (hall : ∀ i e, w.edits[i]? = some e → Settled w i e) :
    ∀ i e, w'.edits[i]? = some e → Settled w' i e := by
  intro i e he
  rcases h.edits i e he with hold | ⟨hi, hpending⟩
  · exact h.settled hp hold (hall i e hold)
  · exact h.new hi hpending

theorem Carries.old (h : Carries w w' p p') {i : Nat} {e : Edit} (he : w'.edits[i]? = some e)
    (hi : i < p.seen) : w.edits[i]? = some e :=
  (h.edits i e he).resolve_right fun hno => by omega

theorem Carries.lists (h : Carries w w' p p') {paths : List Path} (hl : Lists w p paths) :
    Lists w' p' paths := by
  intro i e he hi hstays
  rw [h.seen] at hi
  exact hl i e (h.old he hi) hi (h.stays i e (h.old he hi) hi hstays)

theorem Carries.holds (h : Carries w w' p p') (hl : Holds w p) : Holds w' p' := by
  intro i e he hi hstays
  rw [h.seen] at hi
  have hold := h.old he hi
  have hstays' := h.stays i e hold hi hstays
  exact h.held i e hold hi hstays' (hl i e hold hi hstays')

theorem Carries.told (h : Carries w w' p p') (hp : w.process = some p) {edited : List Path}
    (ht : ∀ i e, w.edits[i]? = some e → Settled w i e ∨ (e.path ∈ edited ∧ TagsFresh w i e.path)) :
    ∀ i e, w'.edits[i]? = some e →
      Settled w' i e ∨ (e.path ∈ edited ∧ TagsFresh w' i e.path) := by
  intro i e he
  rcases h.edits i e he with hold | ⟨hi, hpending⟩
  · exact (ht i e hold).imp (h.settled hp hold) fun ⟨hm, hf⟩ => ⟨hm, h.tags i e hold hf⟩
  · exact Or.inl (h.new hi hpending)

/-- A step of others leaves a reconcile where it stands. -/
theorem Carries.build (h : Carries w w' p p') (hp : w.process = some p)
    (hbuild : p'.build = p.build) (hcaught : p'.caughtUp = p.caughtUp)
    (hs : BuildSound w p p.build) : BuildSound w' p' p'.build := by
  rw [hbuild]
  cases hb : p.build with
  | idle | began | ready => trivial
  | listed paths =>
    rw [hb] at hs
    exact h.lists hs
  | told paths edited =>
    rw [hb] at hs
    refine ⟨h.lists hs.1, fun i e he => ?_⟩
    rcases h.edits i e he with hold | ⟨hi, hpending⟩
    · exact (hs.2 i e hold).imp_left (h.settled hp hold)
    · exact Or.inl (h.new hi hpending)
  | dropped paths edited asked | indexed paths edited asked =>
    rw [hb] at hs
    exact ⟨h.lists hs.1, fun hasked => h.told hp (hs.2 hasked)⟩
  | filed asked =>
    rw [hb] at hs
    exact ⟨h.holds hs.1, fun hasked => hcaught.trans (hs.2 hasked)⟩
  | done =>
    rw [hb] at hs
    exact h.holds hs

theorem Carries.scan (h : Carries w w' p p') (hscan : p'.scan = p.scan)
    (hs : ScanSound w p p.scan) : ScanSound w' p' p'.scan := by
  rw [hscan]
  cases hb : p.scan with
  | listed paths _ | indexed paths _ =>
    rw [hb] at hs
    exact h.lists hs
  | _ => trivial

end Carries

/-! ## Steps of the process -/

/-- What a step of the process, or one beside it, has to show. -/
theorem Inv.carry {w w' : World} {p p' : Process} (h : Inv w) (hp : w.process = some p)
    (hc : Carries w w' p p') (hconsistent : w'.store.log.Consistent)
    (hgeneration : ∀ e ∈ w'.edits, e.generation ≤ w'.store.log.generation)
    (hsynced : w'.store.cache.syncedAt = w.store.cache.syncedAt) (hclock : w.clock ≤ w'.clock)
    (htime : ∀ (i : Nat) (e : Edit), w'.edits[i]? = some e →
      w.edits[i]? = some e ∨ w.store.cache.syncedAt ≤ e.time)
    (hvalid : w.store.cache.validated = true → w'.store.cache.validated = true)
    (hunfiled : ∀ i e, w'.edits[i]? = some e → e.path ∈ p'.scan.unfiled →
      TagsFresh w' i e.path ∨ (p'.seen ≤ i ∧ e.path ∈ p'.pending))
    (hlive : p'.caughtUp = true ∨ p'.build.isLive = true ∨ p'.scan.isLive = true →
      w'.store.cache.validated = true)
    (hcaught : p'.caughtUp = true ∨ p'.build = .done → ∀ i e, w'.edits[i]? = some e →
      Settled w' i e)
    (hbuild : BuildSound w' p' p'.build) (hscan : ScanSound w' p' p'.scan) : Inv w' where
  consistent := hconsistent
  synced := by
    have := h.synced
    rw [hsynced]
    omega
  generation := hgeneration
  covered i e he := by
    rw [hsynced]
    rcases hc.edits i e he with hold | ⟨hi, hpending⟩
    · exact (h.covered i e hold).imp_left (hc.settled hp hold)
    · exact Or.inl (hc.new hi hpending)
  process q hq := by
    obtain rfl : p' = q := Option.some.inj (hc.process.symm.trans hq)
    refine ⟨?_, hunfiled, fun hno i e he hi => ?_, hlive, hcaught, hbuild, hscan⟩
    · rw [hc.seen]
      exact (h.process p hp).seen_le.trans hc.longer
    · rw [hsynced]
      rw [hc.seen] at hi
      rcases htime i e he with hold | ht
      · refine (h.process p hp).unvalidated ?_ i e hold hi
        by_contra hv
        rw [hvalid (Bool.eq_true_of_not_eq_false hv)] at hno
        exact Bool.noConfusion hno
      · exact ht

/-- What the scanner has dropped stays so, where its phase and the reports stay. -/
theorem Carries.unfiled {w w' : World} {p p' : Process} (hc : Carries w w' p p') (hs : Sound w p)
    (hscan : ∀ path ∈ p'.scan.unfiled, path ∈ p.scan.unfiled)
    (hpending : ∀ path ∈ p.pending, path ∈ p'.pending) :
    ∀ i e, w'.edits[i]? = some e → e.path ∈ p'.scan.unfiled →
      TagsFresh w' i e.path ∨ (p'.seen ≤ i ∧ e.path ∈ p'.pending) := by
  intro i e he hm
  rw [hc.seen]
  rcases hc.edits i e he with hold | hnew
  · exact (hs.unfiled i e hold (hscan _ hm)).imp (hc.tags i e hold)
      fun ⟨hi, hp⟩ => ⟨hi, hpending _ hp⟩
  · exact Or.inr hnew

/-- A step of the process alone, on the same store or one that was written to. -/
theorem carries_store {w : World} {p p' : Process} {store : Store} (hseen : p'.seen = p.seen)
    (htags : ∀ path, store.cache.tags.get? path ≠ none → w.store.cache.tags.get? path ≠ none)
    (hlog : ∀ e ∈ w.edits, LogFresh w.store.log e → LogFresh store.log e)
    (hheld : ∀ i e, w.edits[i]? = some e → i < p.seen → Stays w i e.path →
      w.store.log.IsLive e.path → store.log.IsLive e.path)
    (hwaiting : ∀ i e, w.edits[i]? = some e → p.Waiting i e.path →
      Settled { w with store, process := some p' } i e) :
    Carries w { w with store, process := some p' } p p' where
  process := rfl
  seen := hseen
  edits _ _ he := Or.inl he
  longer := le_rfl
  tags _ _ _ hf hrow := hf (htags _ hrow)
  log _ e he := hlog e (List.mem_of_getElem? he)
  waiting := hwaiting
  stays _ _ _ _ hs := hs
  held := hheld

/-- A step that writes nothing a later step looks at. -/
theorem Inv.step_process {w : World} {p p' : Process} (h : Inv w) (hp : w.process = some p)
    (hseen : p'.seen = p.seen)
    (hwaiting : ∀ i path, p.Waiting i path → p'.Waiting i path)
    (hscan : ∀ path ∈ p'.scan.unfiled, path ∈ p.scan.unfiled)
    (hpending : ∀ path ∈ p.pending, path ∈ p'.pending)
    (hcaught : p'.caughtUp = p.caughtUp) (hbuild : p'.build = p.build)
    (hlive : p'.scan.isLive = true → p.scan.isLive = true)
    (hsound : ScanSound w p' p'.scan) : Inv { w with process := some p' } := by
  have hs := h.process p hp
  have hc : Carries w { w with process := some p' } p p' :=
    carries_store hseen (fun _ h => h) (fun _ _ h => h) (fun _ _ _ _ _ h => h)
      fun i e _ hw => Or.inr ⟨p', rfl, hwaiting i e.path hw⟩
  apply h.carry hp hc h.consistent h.generation rfl le_rfl (fun _ _ he => Or.inl he) (fun h => h)
    (hc.unfiled hs hscan hpending)
  · rw [hcaught, hbuild]
    exact fun hor => hs.live (hor.imp_right (Or.imp_right hlive))
  · rw [hcaught, hbuild]
    exact fun hor => hc.allSettled hp (hs.caught hor)
  · exact hc.build hp hbuild hcaught hs.build
  · cases hb : p'.scan with
    | listed paths _ | indexed paths _ =>
      rw [hb] at hsound
      exact hsound
    | _ => trivial

theorem mem_pending_iff {p : Process} {path : Path} : path ∈ p.pending ↔
    path ∈ p.unreported.filterMap Report.path ∨ path ∈ p.queue.tagged ∨ path ∈ p.queue.rated ∨
      path ∈ p.scan.reported := by
  simp [Process.pending]

theorem queued_add (r : Reported) (report : Report) (path : Path) :
    (path ∈ (r.add report).tagged ∨ path ∈ (r.add report).rated) ↔
      (path ∈ r.tagged ∨ path ∈ r.rated) ∨ report.path = some path := by
  cases report <;> simp [Reported.add, Report.path, or_assoc, or_comm, or_left_comm, eq_comm]

section Queue

variable {w w' : World} {p : Process}

theorem Inv.notify {n : Nat} {report : Report} (h : Inv w) (hp : w.process = some p)
    (hr : p.unreported[n]? = some report) :
    Inv { w with
      process := some { p with
        unreported := p.unreported.eraseIdx n, queue := p.queue.add report } } := by
  have hpending : ∀ path, path ∈ p.pending → path ∈ Process.pending { p with
      unreported := p.unreported.eraseIdx n, queue := p.queue.add report } := by
    intro path hm
    rw [mem_pending_iff] at hm ⊢
    have hq := queued_add p.queue report path
    rcases hm with hm | hm
    · obtain ⟨r, hmem, hpath⟩ := List.mem_filterMap.mp hm
      by_cases hrr : r = report
      · subst hrr
        have := hq.mpr (Or.inr hpath)
        tauto
      · refine Or.inl (List.mem_filterMap.mpr ⟨r, ?_, hpath⟩)
        obtain ⟨k, hk⟩ := List.getElem?_of_mem hmem
        rw [List.mem_eraseIdx_iff_getElem?]
        refine ⟨k, ?_, hk⟩
        rintro rfl
        exact hrr (Option.some.inj (hk.symm.trans hr))
    · have := @hq.mpr
      tauto
  refine h.step_process hp rfl (fun i path hw => ⟨hw.1, hw.2.imp_left (hpending path)⟩)
    (fun _ hm => hm) hpending rfl rfl (fun hl => hl) (h.process p hp).scan

theorem Inv.take (h : Inv w) (hp : w.process = some p) (hidle : p.scan = .idle) :
    Inv { w with process := some { p with queue := {}, scan := .taken p.queue } } := by
  have hpending : ∀ path, path ∈ p.pending →
      path ∈ Process.pending { p with queue := {}, scan := .taken p.queue } := by
    intro path hm
    rw [mem_pending_iff] at hm ⊢
    simp only [hidle, Scan.reported, List.mem_append, List.not_mem_nil, or_false] at hm ⊢
    tauto
  refine h.step_process hp rfl (fun i path hw => ⟨hw.1, ?_⟩) (by simp [Scan.unfiled]) hpending rfl
    rfl (by simp [Scan.isLive]) trivial
  rcases hw.2 with hm | hm
  · exact Or.inl (hpending path hm)
  · simp [hidle, Scan.unfiled] at hm

theorem Inv.putBack {r : Reported} (h : Inv w) (hp : w.process = some p)
    (htaken : p.scan = .taken r) :
    Inv { w with process := some { p with queue := p.queue.putBack r, scan := .idle } } := by
  have hpending : ∀ path, path ∈ p.pending →
      path ∈ Process.pending { p with queue := p.queue.putBack r, scan := .idle } := by
    intro path hm
    rw [mem_pending_iff] at hm ⊢
    simp only [htaken, Scan.reported, Reported.putBack, List.mem_append, List.not_mem_nil,
      or_false] at hm ⊢
    tauto
  refine h.step_process hp rfl (fun i path hw => ⟨hw.1, ?_⟩) (by simp [Scan.unfiled]) hpending rfl
    rfl (by simp [Scan.isLive]) trivial
  rcases hw.2 with hm | hm
  · exact Or.inl (hpending path hm)
  · simp [htaken, Scan.unfiled] at hm

theorem Inv.begin {r : Reported} (h : Inv w) (hp : w.process = some p)
    (htaken : p.scan = .taken r) :
    Inv { w with process := some { p with scan := .began r } } := by
  have hpending : ∀ path, path ∈ p.pending →
      path ∈ Process.pending { p with scan := .began r } := by
    intro path hm
    rw [mem_pending_iff] at hm ⊢
    simpa only [htaken, Scan.reported] using hm
  refine h.step_process hp rfl (fun i path hw => ⟨hw.1, ?_⟩) (by simp [Scan.unfiled]) hpending rfl
    rfl (by simp [Scan.isLive]) trivial
  rcases hw.2 with hm | hm
  · exact Or.inl (hpending path hm)
  · simp [htaken, Scan.unfiled] at hm

end Queue

/-! ## Writes that file nothing -/

/-- A write that leaves the log and the watermark alone and brings no tag row. -/
structure Quiet (s s' : Store) : Prop where
  log : s'.log = s.log
  syncedAt : s'.cache.syncedAt = s.cache.syncedAt
  validated : s.cache.validated = true → s'.cache.validated = true
  tags : ∀ path, s'.cache.tags.get? path ≠ none → s.cache.tags.get? path ≠ none

theorem Quiet.refl (s : Store) : Quiet s s := ⟨rfl, rfl, fun h => h, fun _ h => h⟩

theorem Quiet.commit {lower : String → String} {epoch : Epoch} (s : Store) {txn : Txn}
    (hrecord : ∀ paths edited, txn ≠ .recordChanges paths edited)
    (hwatermark : ∀ ts, txn ≠ .setTracksSyncedAt ts) : Quiet s (s.commit lower epoch txn) :=
  have htrims := commit_trims txn hwatermark
  ⟨commit_log txn hrecord, htrims.syncedAt, htrims.validated.trans, htrims.tags⟩

section Quiet

variable {w : World} {p p' : Process} {store : Store}

theorem Quiet.carries (hq : Quiet w.store store) (hseen : p'.seen = p.seen)
    (hwaiting : ∀ i path, p.Waiting i path → p'.Waiting i path) :
    Carries w { w with store, process := some p' } p p' :=
  carries_store hseen hq.tags (fun _ _ h => by rwa [hq.log]) (fun _ _ _ _ _ h => by rwa [hq.log])
    fun i e _ hw => Or.inr ⟨p', rfl, hwaiting i e.path hw⟩

theorem Inv.quiet (h : Inv w) (hp : w.process = some p) (hq : Quiet w.store store)
    (hseen : p'.seen = p.seen) (hwaiting : ∀ i path, p.Waiting i path → p'.Waiting i path)
    (hunfiled : ∀ i e, w.edits[i]? = some e → e.path ∈ p'.scan.unfiled →
      TagsFresh { w with store, process := some p' } i e.path ∨
        (p'.seen ≤ i ∧ e.path ∈ p'.pending))
    (hlive : p'.caughtUp = true ∨ p'.build.isLive = true ∨ p'.scan.isLive = true →
      store.cache.validated = true)
    (hcaught : p'.caughtUp = true ∨ p'.build = .done → p.caughtUp = true ∨ p.build = .done)
    (hbuild : BuildSound { w with store, process := some p' } p' p'.build)
    (hscan : ScanSound { w with store, process := some p' } p' p'.scan) :
    Inv { w with store, process := some p' } := by
  have hc := hq.carries hseen hwaiting
  refine h.carry hp hc ?_ ?_ hq.syncedAt le_rfl (fun _ _ he => Or.inl he) hq.validated hunfiled
    hlive (fun hor => hc.allSettled hp ((h.process p hp).caught (hcaught hor))) hbuild hscan
  · show store.log.Consistent
    rw [hq.log]
    exact h.consistent
  · show ∀ e ∈ w.edits, e.generation ≤ store.log.generation
    rw [hq.log]
    exact h.generation

end Quiet

end Mbrc.Scanner
