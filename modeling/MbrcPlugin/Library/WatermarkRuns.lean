import MbrcPlugin.Library.Watermark

/-!
# Runs of the watermark

The steps of the scanner, of a start's pass and of what happens around the process keep the
invariant of `Watermark`, so an orderly run leaves every edit filed that was made before a
completed start (`edits_filed`).  The stop that finds an edit waiting behind the watermark is where
the code loses one (`lostEdit`).
-/

namespace Mbrc.Scanner

open Cache Reconcile

variable (lower : String → String)

/-! ## The scanner -/

section ScanSteps

variable {lower} {w : World} {p : Process} {paths : Option (List Path)} {epoch : Epoch}

theorem samePaths_iff {l l' : List Path} :
    samePaths l l' = true ↔ ∀ path, path ∈ l ↔ path ∈ l' := by
  simp only [samePaths, Bool.and_eq_true, List.all_eq_true, decide_eq_true_eq]
  exact ⟨fun h path => ⟨h.1 path, h.2 path⟩, fun h => ⟨fun p hp => (h p).mp hp,
    fun p hp => (h p).mpr hp⟩⟩

/-- A listing of the library has every file that stays in it. -/
theorem lists_of_samePaths {l : List Path} (h : samePaths l w.library = true) (p : Process) :
    Lists w p l :=
  fun _ e _ _ hstays => (samePaths_iff.mp h e.path).mpr hstays.1

theorem mem_edited {r : Reported} {path : Path} :
    path ∈ r.edited ↔ path ∈ r.tagged ++ r.rated := ChangeLog.mem_sortDedup

/-- The pass of an unvalidated cache loses its reports: the watermark is older than them. -/
theorem Inv.scanNothing {r : Reported} (h : Inv w) (hp : w.process = some p)
    (hbegan : p.scan = .began r)
    (hno : (!w.store.cache.validated || (!r.relists && r.edited = [])) = true) :
    Inv { w with process := some { p with scan := .idle } } := by
  have hs := h.process p hp
  cases hv : w.store.cache.validated with
  | true =>
    have hnone : r.tagged ++ r.rated = [] := by
      rw [List.eq_nil_iff_forall_not_mem]
      intro path hm
      have hnil : r.edited = [] := by simp [hv] at hno; exact hno.2
      rw [← mem_edited, hnil] at hm
      exact List.not_mem_nil hm
    have hpending : ∀ path, path ∈ p.pending →
        path ∈ Process.pending { p with scan := .idle } := by
      intro path hm
      rw [mem_pending_iff] at hm ⊢
      simpa only [hbegan, Scan.reported, hnone] using hm
    refine h.step_process hp rfl (fun i path hw => ⟨hw.1, ?_⟩) (by simp [Scan.unfiled]) hpending
      rfl rfl (by simp [Scan.isLive]) trivial
    rcases hw.2 with hm | hm
    · exact Or.inl (hpending path hm)
    · simp [hbegan, Scan.unfiled] at hm
  | false =>
    have hdead : ¬ (p.caughtUp = true ∨ p.build.isLive = true ∨ p.scan.isLive = true) :=
      fun hl => by simp [hs.live hl] at hv
    simp only [not_or, Bool.not_eq_true] at hdead
    refine ⟨h.consistent, h.synced, h.generation, fun i e he => ?_, fun q hq => ?_⟩
    · rcases h.covered i e he with (ha | ⟨q, hq, hw⟩) | ht
      · exact Or.inl (Or.inl ha)
      · obtain rfl : p = q := Option.some.inj (hp.symm.trans hq)
        exact Or.inr (hs.unvalidated hv i e he hw.1)
      · exact Or.inr ht
    · obtain rfl : _ = q := Option.some.inj hq
      refine ⟨hs.seen_le, by simp [Scan.unfiled], hs.unvalidated, ?_, ?_, ?_, trivial⟩
      · rintro (hc | hb | hl)
        · simp [hdead.1] at hc
        · simp [hdead.2.1] at hb
        · simp [Scan.isLive] at hl
      · rintro (hc | hb)
        · simp [hdead.1] at hc
        · have hb' : p.build = .done := hb
          simp [hb', Build.isLive] at hdead
      · show BuildSound _ _ p.build
        cases hb : p.build <;> simp [hb, Build.isLive] at hdead <;> trivial

/-- The tags of the reported files are dropped. -/
theorem Inv.scanDrop {r : Reported} {scan : Scan} (h : Inv w) (hp : w.process = some p)
    (hbegan : p.scan = .began r) (hv : w.store.cache.validated = true)
    (hscan : scan = .dropped r.edited ∨ scan = .unlisted r.edited) :
    Inv { w with
      store := w.store.commit lower epoch (.dropTrackTags r.edited)
      process := some { p with scan } } := by
  have hs := h.process p hp
  have hq : Quiet w.store (w.store.commit lower epoch (.dropTrackTags r.edited)) :=
    Quiet.commit _ (by simp) (by simp)
  have hunfiled : scan.unfiled = r.edited := by rcases hscan with rfl | rfl <;> rfl
  have hreported : scan.reported = [] := by rcases hscan with rfl | rfl <;> rfl
  have hwaiting : ∀ i path, p.Waiting i path →
      Process.Waiting { p with scan } i path := by
    rintro i path ⟨hi, hm⟩
    refine ⟨hi, ?_⟩
    rw [mem_pending_iff] at hm ⊢
    simp only [hbegan, Scan.reported, Scan.unfiled, List.not_mem_nil, or_false] at hm
    rw [← mem_edited] at hm
    simp only [hunfiled]
    tauto
  have hseen : Process.seen { p with scan } = p.seen := rfl
  have hc := hq.carries hseen hwaiting
  apply h.quiet hp hq hseen hwaiting
  · intro i e _ hm
    refine Or.inl fun hrow => absurd ?_ hrow
    show (w.store.cache.dropTrackTags r.edited).tags.get? e.path = none
    rw [MetadataCache.dropTrackTags, if_pos hv, Table.get?_eraseAll, if_pos (hunfiled ▸ hm)]
  · exact fun _ => (commit_trims _ (by simp)).validated.trans hv
  · exact fun hor => hor
  · exact hc.build hp rfl rfl hs.build
  · rcases hscan with rfl | rfl <;> trivial

/-- A step of the scanner that writes no report off. -/
theorem Inv.scanQuiet {store : Store} {scan : Scan} (h : Inv w) (hp : w.process = some p)
    (hq : Quiet w.store store) (hunfiled : scan.unfiled = p.scan.unfiled)
    (hreported : scan.reported = p.scan.reported)
    (hlive : p.scan.isLive = true)
    (hscan : ∀ paths edited, scan = .listed paths edited ∨ scan = .indexed paths edited →
      Lists w p paths) :
    Inv { w with store, process := some { p with scan } } := by
  have hs := h.process p hp
  have hpending : Process.pending { p with scan } = p.pending := by
    simp only [Process.pending, hreported]
  have hwaiting : ∀ i path, p.Waiting i path → Process.Waiting { p with scan } i path := by
    rintro i path ⟨hi, hm⟩
    refine ⟨hi, ?_⟩
    rw [hpending]
    show _ ∨ path ∈ scan.unfiled
    rwa [hunfiled]
  have hseen : Process.seen { p with scan } = p.seen := rfl
  have hc := hq.carries hseen hwaiting
  apply h.quiet hp hq hseen hwaiting
  · exact hc.unfiled hs (by simp [hunfiled]) (by simp [hpending])
  · exact fun _ => hq.validated (hs.live (Or.inr (Or.inr hlive)))
  · exact fun hor => hor
  · exact hc.build hp rfl rfl hs.build
  · show ScanSound _ _ scan
    cases scan with
    | listed paths edited => exact hc.lists (hscan paths edited (Or.inl rfl))
    | indexed paths edited => exact hc.lists (hscan paths edited (Or.inr rfl))
    | _ => trivial

end ScanSteps

/-! ## Filing and the watermark -/

section Filing

variable {lower} {w : World} {p p' : Process} {epoch : Epoch} {edited : List Path}

theorem logFresh_record {log : ChangeLog} (h : log.Consistent) {e : Edit}
    (hgen : e.generation ≤ log.generation) (paths : Option (List Path))
    (hor : LogFresh log e ∨ e.path ∈ edited) : LogFresh (log.record epoch paths edited).1 e := by
  intro g hrow
  rcases ChangeLog.record_row h epoch paths edited hrow with rfl | ⟨hold, hnot⟩
  · omega
  · exact (hor.resolve_right hnot) g hold

theorem commit_record (hv : w.store.cache.validated = true) (paths : Option (List Path)) :
    w.store.commit lower epoch (.recordChanges paths edited) =
      { w.store with log := (w.store.log.record epoch paths edited).1 } := by
  rw [Store.commit, if_pos hv]

/-- A pass that files its edits: what it listed stays live, and what it names becomes fresh. -/
theorem Inv.carries_record (h : Inv w) (epoch : Epoch) (edited : List Path)
    {paths : Option (List Path)} (hseen : p'.seen = p.seen)
    (hlisted : ∀ l, paths = some l → Lists w p l)
    (hwaiting : ∀ i e, w.edits[i]? = some e → p.Waiting i e.path →
      Settled { w with
        store := { w.store with log := (w.store.log.record epoch paths edited).1 }
        process := some p' } i e) :
    Carries w { w with
      store := { w.store with log := (w.store.log.record epoch paths edited).1 }
      process := some p' } p p' := by
  refine carries_store hseen (fun _ hrow => hrow) (fun e he hf => ?_)
    (fun i e he hi hstays hl => ?_) hwaiting
  · exact logFresh_record h.consistent (h.generation e he) paths (Or.inl hf)
  · show (w.store.log.record epoch paths edited).1.IsLive e.path
    cases paths with
    | none => exact ChangeLog.record_none_live h.consistent epoch edited hl
    | some l =>
      exact (ChangeLog.record_live h.consistent epoch l edited e.path).mpr
        (hlisted l rfl i e he hi hstays)

/-- The invariant after a pass has filed its edits. -/
theorem Inv.file (h : Inv w) (hp : w.process = some p) {paths : Option (List Path)}
    (hc : Carries w { w with
      store := { w.store with log := (w.store.log.record epoch paths edited).1 }
      process := some p' } p p')
    (hv : w.store.cache.validated = true)
    (hscan : ∀ path ∈ p'.scan.unfiled, path ∈ p.scan.unfiled)
    (hpending : ∀ path ∈ p.pending, path ∈ p'.pending)
    (hcaught : p'.caughtUp = true ∨ p'.build = .done → ∀ i e, w.edits[i]? = some e →
      Settled { w with
        store := { w.store with log := (w.store.log.record epoch paths edited).1 }
        process := some p' } i e)
    (hbuild : BuildSound { w with
      store := { w.store with log := (w.store.log.record epoch paths edited).1 }
      process := some p' } p' p'.build)
    (hsound : ScanSound { w with
      store := { w.store with log := (w.store.log.record epoch paths edited).1 }
      process := some p' } p' p'.scan) :
    Inv { w with
      store := { w.store with log := (w.store.log.record epoch paths edited).1 }
      process := some p' } :=
  h.carry hp hc (ChangeLog.record_consistent h.consistent epoch paths edited)
    (fun e he => (h.generation e he).trans (ChangeLog.record_generation epoch paths edited)) rfl
    le_rfl (fun _ _ he => Or.inl he) (fun hv => hv)
    (hc.unfiled (h.process p hp) hscan hpending) (fun _ => hv) hcaught hbuild hsound

/-- The scanner files its edits. -/
theorem Inv.scanFile (h : Inv w) (hp : w.process = some p) {paths : Option (List Path)}
    (hlive : p.scan.isLive = true) (hunfiled : p.scan.unfiled = edited)
    (hreported : p.scan.reported = []) (hlisted : ∀ l, paths = some l → Lists w p l) :
    Inv { w with
      store := w.store.commit lower epoch (.recordChanges paths edited)
      process := some { p with scan := .filed } } := by
  have hs := h.process p hp
  have hv := hs.live (Or.inr (Or.inr hlive))
  rw [commit_record hv]
  have hpending : Process.pending { p with scan := .filed } = p.pending := by
    simp only [Process.pending, hreported]
    rfl
  have hseen : Process.seen { p with scan := .filed } = p.seen := rfl
  have hc := h.carries_record epoch edited hseen hlisted
    (fun i e he hw => ?_)
  · refine h.file hp hc hv (by simp [Scan.unfiled]) (by simp [hpending])
      (fun hor => hc.allSettled hp (hs.caught hor)) (hc.build hp rfl rfl hs.build) trivial
  · have hwait : e.path ∈ p.pending → Settled { w with
        store := { w.store with log := (w.store.log.record epoch paths edited).1 }
        process := some { p with scan := .filed } } i e := fun hm =>
      Or.inr ⟨_, rfl, hw.1, Or.inl (hpending ▸ hm)⟩
    rcases hw.2 with hm | hm
    · exact hwait hm
    · rcases hs.unfiled i e he hm with hf | ⟨-, hm'⟩
      · exact Or.inl ⟨logFresh_record h.consistent (h.generation e (List.mem_of_getElem? he)) paths
          (Or.inr (hunfiled ▸ hm)), hf⟩
      · exact hwait hm'

/-- The watermark is written where no edit was missed. -/
theorem Inv.watermark (h : Inv w) (hp : w.process = some p) (hv : w.store.cache.validated = true)
    (hmissed : NoneMissed w p) (hseen : p'.seen = p.seen)
    (hpending : ∀ path ∈ p.pending, path ∈ p'.pending)
    (hunfiled : ∀ path, path ∈ p'.scan.unfiled ↔ path ∈ p.scan.unfiled)
    (hbuild : ∀ w', Carries w w' p p' → BuildSound w' p' p'.build)
    (hscan : ∀ w', Carries w w' p p' → ScanSound w' p' p'.scan) :
    Inv { w with
      store := w.store.commit lower epoch (.setTracksSyncedAt w.clock)
      process := some p' } := by
  have hs := h.process p hp
  have hall : ∀ i e, w.edits[i]? = some e → Settled w i e :=
    hmissed.elim (fun hcaught => hs.caught (Or.inl hcaught)) id
  have hc : Carries w { w with
      store := w.store.commit lower epoch (.setTracksSyncedAt w.clock)
      process := some p' } p p' := by
    refine carries_store hseen (fun _ hrow => hrow) (fun _ _ hf => hf) (fun _ _ _ _ _ hl => hl) ?_
    intro i e _ hw
    exact Or.inr ⟨p', rfl, hseen ▸ hw.1, hw.2.imp (hpending _) (hunfiled _).mpr⟩
  have hall' := hc.allSettled hp hall
  refine ⟨h.consistent, le_rfl, h.generation, fun i e he => Or.inl (hall' i e he), fun q hq => ?_⟩
  obtain rfl : p' = q := Option.some.inj hq
  refine ⟨?_, hc.unfiled hs (fun _ hm => (hunfiled _).mp hm) hpending, fun hno => ?_,
    fun _ => hv, fun _ => hall', hbuild _ hc, hscan _ hc⟩
  · rw [hseen]
    exact hs.seen_le
  · exact absurd (hv.symm.trans hno) (by simp)

end Filing

/-! ## The pass of a start -/

section BuildSteps

variable {lower} {w : World} {p : Process} {epoch : Epoch}

/-- A step of the pass that files nothing. -/
theorem Inv.buildQuiet {store : Store} {build : Build} (h : Inv w) (hp : w.process = some p)
    (hq : Quiet w.store store) (hlive : build.isLive = true → store.cache.validated = true)
    (hdone : build ≠ .done)
    (hbuild : ∀ w', Carries w w' p { p with build } → w'.store = store →
      BuildSound w' { p with build } build) :
    Inv { w with store, process := some { p with build } } := by
  have hs := h.process p hp
  have hseen : Process.seen { p with build } = p.seen := rfl
  have hc := hq.carries hseen (fun _ _ hw => hw)
  apply h.quiet hp hq hseen (fun _ _ hw => hw)
  · exact hc.unfiled hs (fun _ hm => hm) (fun _ hm => hm)
  · rintro (hcaught | hb | hscan)
    · exact hq.validated (hs.live (Or.inl hcaught))
    · exact hlive hb
    · exact hq.validated (hs.live (Or.inr (Or.inr hscan)))
  · exact fun hor => hor.imp_right fun hb => absurd hb hdone
  · exact hbuild _ hc rfl
  · exact hc.scan rfl hs.scan

/-- The pass of a start files its edits. -/
theorem Inv.buildFile {paths edited : List Path} {asked : Asked} (h : Inv w)
    (hp : w.process = some p) (hindexed : p.build = .indexed paths edited asked) :
    Inv { w with
      store := w.store.commit lower epoch (.recordChanges (some paths) edited)
      process := some { p with
        build := .filed asked, caughtUp := p.caughtUp || asked = .answered } } := by
  have hs := h.process p hp
  have hv := hs.live (Or.inr (Or.inl (by rw [hindexed]; rfl)))
  rw [commit_record hv]
  have hb := hs.build
  rw [hindexed] at hb
  have hseen : Process.seen { p with
      build := .filed asked, caughtUp := p.caughtUp || asked = .answered } = p.seen := rfl
  have hc := h.carries_record epoch edited hseen
    (fun l (hl : some paths = some l) => (Option.some.inj hl) ▸ hb.1)
    (fun i e _ hw => Or.inr ⟨_, rfl, hw⟩)
  refine h.file hp hc hv (fun _ hm => hm) (fun _ hm => hm) ?_ ?_ (hc.scan rfl hs.scan)
  · rintro (hcaught | hdone) i e he
    · by_cases hcu : p.caughtUp = true
      · exact hc.settled hp he (hs.caught (Or.inl hcu) i e he)
      · have hasked : asked = .answered := by simpa [hcu] using hcaught
        rcases hb.2 hasked i e he with hset | ⟨hm, hf⟩
        · exact hc.settled hp he hset
        · exact Or.inl ⟨logFresh_record h.consistent (h.generation e (List.mem_of_getElem? he)) _
            (Or.inr hm), hf⟩
    · exact Build.noConfusion hdone
  · refine ⟨fun i e he hi hstays => ?_, fun hasked => by simp [hasked]⟩
    exact (ChangeLog.record_live h.consistent epoch paths edited e.path).mpr (hb.1 i e he hi hstays)

end BuildSteps

/-! ## What happens around the process -/

section Around

variable {w w' : World}

/-- A process that got a report, or none. -/
def Process.reported (p : Process) (reports : List Report) : Process :=
  { p with unreported := p.unreported ++ reports }

theorem Process.pending_reported {p : Process} {reports : List Report} {path : Path} :
    path ∈ (p.reported reports).pending ↔
      path ∈ p.pending ∨ path ∈ reports.filterMap Report.path := by
  rw [mem_pending_iff, mem_pending_iff]
  simp only [Process.reported, List.filterMap_append, List.mem_append]
  tauto

/-- A step of the host, of a reader or of the clock. -/
theorem Inv.around (h : Inv w) (reports : List Report)
    (hprocess : w'.process = w.process.map (·.reported reports))
    (hedits : ∀ (i : Nat) (e : Edit), w'.edits[i]? = some e → w.edits[i]? = some e ∨
      (w.edits.length ≤ i ∧ e.path ∈ reports.filterMap Report.path ∧ e.time = w.clock ∧
        e.generation ≤ w.store.log.generation))
    (hlonger : w.edits.length ≤ w'.edits.length) (hlog : w'.store.log = w.store.log)
    (hsynced : w'.store.cache.syncedAt = w.store.cache.syncedAt)
    (hvalid : w'.store.cache.validated = w.store.cache.validated) (hclock : w.clock ≤ w'.clock)
    (htags : ∀ i e, w.edits[i]? = some e → TagsFresh w i e.path → TagsFresh w' i e.path)
    (hstays : ∀ i path, i < w.edits.length → Stays w' i path → Stays w i path) : Inv w' := by
  have hgeneration : ∀ e ∈ w'.edits, e.generation ≤ w'.store.log.generation := by
    intro e he
    rw [hlog]
    obtain ⟨i, hi⟩ := List.getElem?_of_mem he
    rcases hedits i e hi with hold | ⟨-, -, -, hg⟩
    · exact h.generation e (List.mem_of_getElem? hold)
    · exact hg
  have htime : ∀ (i : Nat) (e : Edit), w'.edits[i]? = some e →
      w.edits[i]? = some e ∨ w.store.cache.syncedAt ≤ e.time := by
    intro i e he
    refine (hedits i e he).imp_right fun ⟨_, _, ht, _⟩ => ?_
    rw [ht]
    exact h.synced
  cases hp : w.process with
  | none =>
    rw [hp] at hprocess
    refine ⟨hlog ▸ h.consistent, ?_, hgeneration, fun i e he => ?_, fun q hq => ?_⟩
    · rw [hsynced]
      have := h.synced
      omega
    · rw [hsynced]
      rcases htime i e he with hold | ht
      · refine (h.covered i e hold).imp_left fun hs => ?_
        rcases hs with ⟨hlf, htf⟩ | ⟨q, hq, -⟩
        · exact Or.inl ⟨by rwa [hlog], htags i e hold htf⟩
        · simp [hp] at hq
      · exact Or.inr ht
    · simp [hprocess] at hq
  | some p =>
    have hs := h.process p hp
    rw [hp] at hprocess
    have hpending : ∀ path ∈ p.pending, path ∈ (p.reported reports).pending :=
      fun path hm => Process.pending_reported.mpr (Or.inl hm)
    have hc : Carries w w' p (p.reported reports) := by
      refine ⟨hprocess, rfl, fun i e he => ?_, hlonger, htags, fun _ _ _ hf => by rwa [hlog],
        fun i e _ hw => ?_, fun i e he _ => hstays i e.path (List.getElem?_eq_some_iff.mp he).1,
        fun _ _ _ _ _ hl => by rwa [hlog]⟩
      · refine (hedits i e he).imp_right fun ⟨hi, hm, _⟩ => ⟨hs.seen_le.trans hi, ?_⟩
        exact Process.pending_reported.mpr (Or.inr hm)
      · exact Or.inr ⟨_, hprocess, hw.1, hw.2.imp_left (hpending e.path)⟩
    refine h.carry hp hc (hlog ▸ h.consistent) hgeneration hsynced hclock htime
      (fun hv => hvalid.trans hv) (hc.unfiled hs (fun _ hm => hm) hpending)
      (fun hor => hvalid.trans (hs.live hor)) (fun hor => hc.allSettled hp (hs.caught hor))
      (hc.build hp rfl rfl hs.build) (hc.scan rfl hs.scan)

theorem Inv.tick (h : Inv w) : Inv { w with clock := w.clock + 1 } :=
  h.around [] (by simp [Process.reported]) (fun _ _ he => Or.inl he) le_rfl rfl rfl rfl
    (Nat.le_succ _) (fun _ _ _ hf => hf) fun _ _ _ hs => hs

theorem Inv.edit (h : Inv w) (path : Path) (rating : Bool) :
    Inv (World.report
      { w with
        edits := w.edits ++ [{ path, time := w.clock, generation := w.store.log.generation }] }
      (if rating then .rated path else .tagged path)) := by
  refine h.around [if rating then .rated path else .tagged path] rfl (fun i e he => ?_)
    (by simp [World.report]) rfl rfl rfl le_rfl (fun _ _ _ hf => hf) fun _ _ _ hs => hs
  have he' : (w.edits ++ [⟨path, w.clock, w.store.log.generation⟩])[i]? = some e := he
  rcases Nat.lt_or_ge i w.edits.length with hi | hi
  · rw [List.getElem?_append_left hi] at he'
    exact Or.inl he'
  · rw [List.getElem?_append_right hi] at he'
    obtain ⟨_, he''⟩ := List.getElem?_eq_some_iff.mp he'
    have hedit : e = ⟨path, w.clock, w.store.log.generation⟩ := by
      simpa using he''.symm
    refine Or.inr ⟨hi, ?_, by rw [hedit], by rw [hedit]⟩
    rw [hedit]
    cases rating <;> simp [Report.path]

theorem Inv.add (h : Inv w) (path : Path) :
    Inv (World.report
      { w with
        library := path :: w.library, joined := Function.update w.joined path w.edits.length }
      .moved) := by
  refine h.around [.moved] rfl (fun _ _ he => Or.inl he) le_rfl rfl rfl rfl le_rfl
    (fun _ _ _ hf => hf) fun i q hi ⟨hlib, hjoin⟩ => ?_
  have hjoin' : Function.update w.joined path w.edits.length q ≤ i := hjoin
  by_cases hq : q = path
  · subst hq
    rw [Function.update_self] at hjoin'
    omega
  · rw [Function.update_of_ne hq] at hjoin'
    exact ⟨(List.mem_cons.mp hlib).resolve_left hq, hjoin'⟩

theorem Inv.remove (h : Inv w) (path : Path) :
    Inv (World.report { w with library := w.library.filter (· ≠ path) } .moved) :=
  h.around [.moved] rfl (fun _ _ he => Or.inl he) le_rfl rfl rfl rfl le_rfl
    (fun _ _ _ hf => hf) fun _ _ _ hs => ⟨List.mem_of_mem_filter hs.1, hs.2⟩

/-- A row that is put is as new as any edit. -/
theorem putTrackTags_get? {c : MetadataCache} {tracks : List CachedTags} {path : String}
    (hv : c.validated = true) (hnot : path ∉ tracks.map (·.src)) :
    (c.putTrackTags tracks).tags.get? path = c.tags.get? path := by
  rw [MetadataCache.putTrackTags, if_pos hv]
  exact Table.get?_foldl_insert CachedTags.src id hnot c.tags

theorem Inv.fill (h : Inv w) (tracks : List CachedTags) :
    Inv { w with
      store := { w.store with cache := w.store.cache.putTrackTags tracks }
      fetched := fun path =>
        if w.store.cache.validated ∧ path ∈ tracks.map (·.src) then w.edits.length
        else w.fetched path } := by
  have hsame : (w.store.cache.putTrackTags tracks).validated = w.store.cache.validated ∧
      (w.store.cache.putTrackTags tracks).syncedAt = w.store.cache.syncedAt := by
    unfold MetadataCache.putTrackTags
    split <;> exact ⟨rfl, rfl⟩
  refine h.around [] (by simp [Process.reported]) (fun _ _ he => Or.inl he) le_rfl rfl hsame.2
    hsame.1 le_rfl (fun i e he hf => ?_) fun _ _ _ hs => hs
  intro hrow
  show i < if w.store.cache.validated ∧ e.path ∈ tracks.map (·.src) then w.edits.length
    else w.fetched e.path
  have hrow' : (w.store.cache.putTrackTags tracks).tags.get? e.path ≠ none := hrow
  split
  · exact (List.getElem?_eq_some_iff.mp he).1
  · rename_i hno
    refine hf ?_
    by_cases hv : w.store.cache.validated = true
    · rwa [putTrackTags_get? hv fun hm => hno ⟨hv, hm⟩] at hrow'
    · rwa [MetadataCache.putTrackTags, if_neg hv] at hrow'

/-! ## Starts and stops -/

theorem Inv.start (h : Inv w) (hp : w.process = none) :
    Inv { w with
      process := some
        { seen := w.edits.length, unreported := [], queue := {}, scan := .idle, build := .idle
          caughtUp := false } } := by
  refine ⟨h.consistent, h.synced, h.generation, fun i e he => ?_, fun q hq => ?_⟩
  · refine (h.covered i e he).imp_left fun hs => Or.inl ?_
    rcases hs with ha | ⟨q, hq, -⟩
    · exact ha
    · simp [hp] at hq
  · obtain rfl : _ = q := Option.some.inj hq
    refine ⟨le_rfl, by simp [Scan.unfiled], fun _ i e he hi => ?_,
      by simp [Build.isLive, Scan.isLive],
      by simp, trivial, trivial⟩
    exact absurd (List.getElem?_eq_some_iff.mp he).1 (Nat.not_lt.mpr hi)

theorem Inv.stop (h : Inv w) (ho : Orderly w .stop) :
    Inv { w with store := w.store.reopen, process := none } := by
  refine ⟨h.consistent, h.synced, h.generation, fun i e he => ?_, fun q hq => by simp at hq⟩
  rcases h.covered i e he with (ha | hw) | ht
  · exact Or.inl (Or.inl ha)
  · exact (ho i e he hw).imp_left Or.inl
  · exact Or.inr ht

end Around

/-! ## Every run -/

section Steps

variable {lower} {w : World} {p : Process} {epoch : Epoch}

/-- One step of the scanner. -/
theorem Inv.scanStep {paths : Option (List Path)} {store : Store} {p' : Process} (h : Inv w)
    (hp : w.process = some p) (ho : p.scan = .filed → NoneMissed w p)
    (hs : scanStep lower w p paths epoch = some (store, p')) :
    Inv { w with store, process := some p' } := by
  unfold Scanner.scanStep at hs
  have hsound := (h.process p hp).scan
  have hvalid := (h.process p hp).live
  cases hscan : p.scan with
  | idle | taken r => simp [hscan] at hs
  | began r =>
    simp only [hscan] at hs
    split at hs
    · rename_i hno
      obtain ⟨rfl, rfl⟩ := Prod.mk.inj (Option.some.inj hs)
      exact h.scanNothing hp hscan hno
    · rename_i hno
      obtain ⟨rfl, rfl⟩ := Prod.mk.inj (Option.some.inj hs)
      simp only [Bool.or_eq_true, Bool.not_eq_true', not_or, Bool.not_eq_false] at hno
      refine h.scanDrop hp hscan hno.1 ?_
      cases r.relists <;> simp
  | dropped edited =>
    rw [hscan] at hvalid
    simp only [hscan] at hs
    cases paths with
    | none =>
      obtain ⟨rfl, rfl⟩ := Prod.mk.inj (Option.some.inj hs)
      exact h.scanQuiet hp (Quiet.refl _) (by rw [hscan]; rfl) (by rw [hscan]; rfl)
        (by rw [hscan]; rfl) (by simp)
    | some l =>
      dsimp only at hs
      split at hs
      · rename_i hsame
        obtain ⟨rfl, rfl⟩ := Prod.mk.inj (Option.some.inj hs)
        refine h.scanQuiet hp (Quiet.refl _) (by rw [hscan]; rfl) (by rw [hscan]; rfl)
          (by rw [hscan]; rfl) fun l' edited' hl => ?_
        obtain rfl : l = l' := by simp at hl; exact hl.1
        exact lists_of_samePaths hsame p
      · simp at hs
  | listed l edited =>
    rw [hscan] at hsound
    simp only [hscan] at hs
    obtain ⟨rfl, rfl⟩ := Prod.mk.inj (Option.some.inj hs)
    refine h.scanQuiet hp (Quiet.commit _ (by simp) (by simp)) (by rw [hscan]; rfl)
      (by rw [hscan]; rfl) (by rw [hscan]; rfl) fun l' edited' hl => ?_
    obtain rfl : l = l' := by simp at hl; exact hl.1
    exact hsound
  | indexed l edited =>
    rw [hscan] at hsound
    simp only [hscan] at hs
    obtain ⟨rfl, rfl⟩ := Prod.mk.inj (Option.some.inj hs)
    exact h.scanFile hp (by rw [hscan]; rfl) (by rw [hscan]; rfl) (by rw [hscan]; rfl)
      fun l' hl => (Option.some.inj hl) ▸ hsound
  | unlisted edited =>
    simp only [hscan] at hs
    obtain ⟨rfl, rfl⟩ := Prod.mk.inj (Option.some.inj hs)
    exact h.scanFile hp (by rw [hscan]; rfl) (by rw [hscan]; rfl) (by rw [hscan]; rfl)
      fun l' hl => by simp at hl
  | filed =>
    simp only [hscan] at hs
    obtain ⟨rfl, rfl⟩ := Prod.mk.inj (Option.some.inj hs)
    have hpending : Process.pending { p with scan := .idle } = p.pending := by
      simp only [Process.pending, hscan]
      rfl
    exact h.watermark hp (hvalid (Or.inr (Or.inr (by rw [hscan]; rfl)))) (ho hscan) rfl
      (by simp [hpending]) (by simp [hscan, Scan.unfiled])
      (fun w' hc => hc.build hp rfl rfl (h.process p hp).build) fun _ _ => trivial

/-- One step of the pass of a start. -/
theorem Inv.buildStep {paths : Option (List Path)} {delta : Option (List Path × List Path)}
    {store : Store} {p' : Process} (h : Inv w) (hp : w.process = some p)
    (ho : ∀ asked, p.build = .filed asked → NoneMissed w p)
    (hs : buildStep lower w p paths delta epoch = some (store, p')) :
    Inv { w with store, process := some p' } := by
  unfold Scanner.buildStep at hs
  have hsound := (h.process p hp).build
  have hv : p.build.isLive = true → w.store.cache.validated = true :=
    fun hl => (h.process p hp).live (Or.inr (Or.inl hl))
  cases hbuild : p.build with
  | idle | began | done => simp [hbuild] at hs
  | ready =>
    rw [hbuild] at hv
    simp only [hbuild] at hs
    cases paths with
    | none =>
      obtain ⟨rfl, rfl⟩ := Prod.mk.inj (Option.some.inj hs)
      exact h.buildQuiet hp (Quiet.refl _) (fun hl => by simp [Build.isLive] at hl) (by simp)
        fun _ _ _ => trivial
    | some l =>
      dsimp only at hs
      split at hs
      · rename_i hsame
        obtain ⟨rfl, rfl⟩ := Prod.mk.inj (Option.some.inj hs)
        exact h.buildQuiet hp (Quiet.refl _) (fun _ => hv rfl) (by simp)
          fun _ hc _ => hc.lists (lists_of_samePaths hsame p)
      · simp at hs
  | listed l =>
    rw [hbuild] at hv hsound
    simp only [hbuild] at hs
    -- no answer names no edit, and none is promised then
    have hunasked : ∀ asked, asked ≠ .answered → ∀ w', Carries w w' p
        { p with build := .dropped l [] asked } → w'.store = w.store →
        BuildSound w' { p with build := .dropped l [] asked } (.dropped l [] asked) :=
      fun asked hno w' hc _ => ⟨hc.lists hsound, fun hasked => absurd hasked hno⟩
    split at hs
    · cases delta with
      | none =>
        obtain ⟨rfl, rfl⟩ := Prod.mk.inj (Option.some.inj hs)
        exact h.buildQuiet hp (Quiet.refl _) (fun _ => hv rfl) (by simp)
          (hunasked .failed (by simp))
      | some answer =>
        obtain ⟨updated, deleted⟩ := answer
        dsimp only at hs
        split at hs
        · rename_i hsame
          obtain ⟨rfl, rfl⟩ := Prod.mk.inj (Option.some.inj hs)
          refine h.buildQuiet hp (Quiet.refl _) (fun _ => hv rfl) (by simp)
            fun w' hc _ => ⟨hc.lists hsound, fun i e he => ?_⟩
          rcases hc.edits i e he with hold | ⟨hi, hm⟩
          · refine (h.covered i e hold).imp (hc.settled hp hold) fun ht => ?_
            refine (samePaths_iff.mp hsame e.path).mpr (List.mem_map.mpr ⟨e, ?_, rfl⟩)
            exact List.mem_filter.mpr ⟨List.mem_of_getElem? hold, decide_eq_true ht⟩
          · exact Or.inl (hc.new hi hm)
        · simp at hs
    · obtain ⟨rfl, rfl⟩ := Prod.mk.inj (Option.some.inj hs)
      exact h.buildQuiet hp (Quiet.refl _) (fun _ => hv rfl) (by simp)
        (hunasked .notAsked (by simp))
  | told l edited =>
    rw [hbuild] at hv hsound
    simp only [hbuild] at hs
    obtain ⟨rfl, rfl⟩ := Prod.mk.inj (Option.some.inj hs)
    refine h.buildQuiet hp (Quiet.commit _ (by simp) (by simp))
      (fun _ => (commit_trims _ (by simp)).validated.trans (hv rfl)) (by simp)
      fun w' hc hstore => ⟨hc.lists hsound.1, fun _ i e he => ?_⟩
    rcases hc.edits i e he with hold | ⟨hi, hm⟩
    · refine (hsound.2 i e hold).imp (hc.settled hp hold) fun hm => ⟨hm, fun hrow => ?_⟩
      rw [hstore] at hrow
      refine absurd ?_ hrow
      show (w.store.cache.dropTrackTags edited).tags.get? e.path = none
      rw [MetadataCache.dropTrackTags, if_pos (hv rfl), Table.get?_eraseAll, if_pos hm]
    · exact Or.inl (hc.new hi hm)
  | dropped l edited asked =>
    rw [hbuild] at hv hsound
    simp only [hbuild] at hs
    obtain ⟨rfl, rfl⟩ := Prod.mk.inj (Option.some.inj hs)
    exact h.buildQuiet hp (Quiet.commit _ (by simp) (by simp))
      (fun _ => (commit_trims _ (by simp)).validated.trans (hv rfl)) (by simp)
      fun w' hc _ => ⟨hc.lists hsound.1, fun hasked => hc.told hp (hsound.2 hasked)⟩
  | indexed l edited asked =>
    simp only [hbuild] at hs
    obtain ⟨rfl, rfl⟩ := Prod.mk.inj (Option.some.inj hs)
    exact h.buildFile hp hbuild
  | filed asked =>
    rw [hbuild] at hv hsound
    simp only [hbuild] at hs
    obtain ⟨rfl, rfl⟩ := Prod.mk.inj (Option.some.inj hs)
    refine h.watermark hp (hv rfl) (ho asked hbuild) rfl (fun _ hm => hm) (fun _ => Iff.rfl) ?_
      fun w' hc => hc.scan rfl (h.process p hp).scan
    intro w' hc
    show BuildSound _ _ (if asked = .failed then .idle else .done)
    split
    · trivial
    · exact hc.holds hsound.1

theorem step_inv {w' : World} {event : Event} (h : Inv w) (ho : Orderly w event)
    (hs : step lower w event = some w') : Inv w' := by
  cases event with
  | tick =>
    obtain rfl := Option.some.inj hs
    exact h.tick
  | edit path rating =>
    obtain rfl := Option.some.inj hs
    exact h.edit path rating
  | add path =>
    simp only [step] at hs
    split at hs
    · simp at hs
    · obtain rfl := Option.some.inj hs
      exact h.add path
  | remove path =>
    obtain rfl := Option.some.inj hs
    exact h.remove path
  | fill tracks =>
    obtain rfl := Option.some.inj hs
    exact h.fill tracks
  | start =>
    simp only [step] at hs
    split at hs
    · simp at hs
    · rename_i hnone
      obtain rfl := Option.some.inj hs
      exact h.start (by simpa using hnone)
  | stop =>
    simp only [step, Option.map_eq_some_iff] at hs
    obtain ⟨p, -, rfl⟩ := hs
    exact h.stop ho
  | notify n =>
    simp only [step, Option.bind_eq_bind, Option.bind_eq_some_iff] at hs
    obtain ⟨p, hp, report, hr, hs⟩ := hs
    obtain rfl := Option.some.inj hs
    exact h.notify hp hr
  | take =>
    simp only [step, Option.bind_eq_bind, Option.bind_eq_some_iff] at hs
    obtain ⟨p, hp, hs⟩ := hs
    split at hs
    · rename_i hidle
      obtain rfl := Option.some.inj hs
      exact h.take hp hidle.1
    · simp at hs
  | putBack =>
    simp only [step, Option.bind_eq_bind, Option.bind_eq_some_iff] at hs
    obtain ⟨p, hp, hs⟩ := hs
    split at hs
    · rename_i r htaken
      split at hs
      · simp at hs
      · obtain rfl := Option.some.inj hs
        exact h.putBack hp htaken
    · simp at hs
  | begin =>
    simp only [step, Option.bind_eq_bind, Option.bind_eq_some_iff] at hs
    obtain ⟨p, hp, hs⟩ := hs
    split at hs
    · rename_i r htaken
      split at hs
      · obtain rfl := Option.some.inj hs
        exact h.begin hp htaken
      · simp at hs
    · simp at hs
  | scan paths epoch =>
    simp only [step, Option.bind_eq_bind, Option.bind_eq_some_iff] at hs
    obtain ⟨p, hp, ⟨store, p'⟩, hstep, hs⟩ := hs
    obtain rfl := Option.some.inj hs
    exact h.scanStep hp (ho p hp) hstep
  | beginReconcile =>
    simp only [step, Option.bind_eq_bind, Option.bind_eq_some_iff] at hs
    obtain ⟨p, hp, hs⟩ := hs
    split at hs
    · obtain rfl := Option.some.inj hs
      exact h.buildQuiet hp (Quiet.refl _) (fun hl => by simp [Build.isLive] at hl) (by simp)
        fun _ _ _ => trivial
    · simp at hs
  | reconcile txn =>
    simp only [step, Option.bind_eq_bind, Option.bind_eq_some_iff] at hs
    obtain ⟨p, hp, hs⟩ := hs
    split at hs
    · rename_i htxn
      obtain rfl := Option.some.inj hs
      have hq : Quiet w.store (w.store.commit lower "" txn) := by
        apply Quiet.commit
        · rintro paths edited rfl
          simp [isReconcileTxn] at htxn
        · rintro ts rfl
          simp [isReconcileTxn] at htxn
      have hsound := h.process p hp
      have hc := hq.carries (rfl : p.seen = p.seen) fun _ _ hw => hw
      have hkept := h.quiet hp hq (rfl : p.seen = p.seen) (fun _ _ hw => hw)
        (hc.unfiled hsound (fun _ hm => hm) fun _ hm => hm)
        (fun hor => hq.validated (hsound.live hor)) (fun hor => hor)
        (hc.build hp rfl rfl hsound.build) (hc.scan rfl hsound.scan)
      rwa [← hp] at hkept
    · simp at hs
  | setValidated =>
    simp only [step, Option.bind_eq_bind, Option.bind_eq_some_iff] at hs
    obtain ⟨p, hp, hs⟩ := hs
    split at hs
    · obtain rfl := Option.some.inj hs
      exact h.buildQuiet hp ⟨rfl, rfl, fun _ => rfl, fun _ hrow => hrow⟩ (fun _ => rfl) (by simp)
        fun _ _ _ => trivial
    · simp at hs
  | build paths delta epoch =>
    simp only [step, Option.bind_eq_bind, Option.bind_eq_some_iff] at hs
    obtain ⟨p, hp, ⟨store, p'⟩, hstep, hs⟩ := hs
    obtain rfl := Option.some.inj hs
    exact h.buildStep hp (fun asked => ho p asked hp) hstep

theorem initial_inv (library : List Path) : Inv (initial library) where
  consistent := ChangeLog.empty_consistent
  synced := le_rfl
  generation := by simp [initial]
  covered := by simp [initial]
  process := by simp [initial]

end Steps

/-- **The watermark passes no edit that is lost.** In a run whose stops find no edit waiting behind
the watermark, and whose passes write the watermark where no edit was missed, a start whose host
calls all work leaves every earlier edit to a file of the library filed under a newer generation,
and its old tags gone. -/
theorem edits_filed {lower : String → String} {library : List Path} {events : List Event}
    {w : World} (hC : (system lower).Along Orderly (initial library) events)
    (hexec : (system lower).exec (initial library) events = some w) : EditsFiled w := by
  have h : Inv w := (system lower).exec_induction
    (fun _ _ _ hi ho hs => step_inv hi ho hs) (initial_inv library) hC hexec
  exact h.editsFiled

/-- A check that is enough for a step to be orderly: nothing is edited yet, or the process was told
of the edits before it. -/
def calm (w : World) : Event → Bool
  | .stop => w.edits.isEmpty
  | .scan _ _ => w.edits.isEmpty || w.process.all (·.caughtUp)
  | .build _ _ _ =>
    w.edits.isEmpty || w.process.all fun p => p.caughtUp || !(p.build matches .filed _)
  | _ => true

theorem orderly_of_calm (w : World) (event : Event) (h : calm w event = true) :
    Orderly w event := by
  cases event with
  | stop =>
    intro i e he
    simp [List.isEmpty_iff.mp h] at he
  | scan =>
    intro p hp _
    rw [calm, hp, Bool.or_eq_true, List.isEmpty_iff] at h
    exact h.symm.imp id fun hnil i e he => by simp [hnil] at he
  | build =>
    intro p asked hp hfiled
    rw [calm, hp, Bool.or_eq_true, List.isEmpty_iff] at h
    refine h.symm.imp (fun hor => ?_) fun hnil i e he => by simp [hnil] at he
    simpa [hfiled] using hor
  | _ => trivial

/-- The library is listed by a first start, one of its files is edited while the plugin does not
run, and a second start is told of it. -/
def editWhileDown : List Event :=
  [.tick, .start, .beginReconcile, .reconcile .storeTagsSchema, .setValidated,
    .build (some ["a", "b"]) none "e", .build none none "e", .build none none "e",
    .build none none "e", .build none none "e",
    .fill [{ src := "b", genre := "Jazz" }], .stop, .tick, .edit "b" false,
    .start, .beginReconcile, .setValidated,
    .build (some ["a", "b"]) none "e", .build none (some (["b"], [])) "e", .build none none "e",
    .build none none "e", .build none none "e", .build none none "e"]

/-- The second start files the edit. -/
theorem edits_filed_editWhileDown :
    ∃ w, (system id).exec (initial ["a", "b"]) editWhileDown = some w ∧
      w.process.map (·.build) = some .done ∧ EditsFiled w := by
  have hrun : ((system id).exec (initial ["a", "b"]) editWhileDown).any
      (fun w => w.process.map (·.build) = some .done) = true := by decide +kernel
  have hcalm : (system id).checked calm (initial ["a", "b"]) editWhileDown = true := by
    decide +kernel
  obtain ⟨w, hexec, hdone⟩ := (Option.any_eq_true _ _).mp hrun
  exact ⟨w, hexec, of_decide_eq_true hdone,
    edits_filed ((system id).along_of_checked orderly_of_calm hcalm) hexec⟩

/-! ## An edit that is lost -/

/-- One file is rated and its pass begins; another is edited while the pass runs, and the process
stops before its report is applied.  The next start asks for the edits since a later second. -/
def lostEdit : List Event :=
  [.tick, .start, .beginReconcile, .reconcile .storeTagsSchema, .setValidated,
    .build (some ["a", "b"]) none "e", .build none none "e", .build none none "e",
    .build none none "e", .build none none "e",
    .fill [{ src := "b", genre := "Jazz" }], .tick, .edit "a" true, .notify 0, .take, .begin,
    .scan none "e", .edit "b" false, .notify 0, .tick, .scan none "e", .scan none "e", .stop,
    .start, .beginReconcile, .setValidated,
    .build (some ["a", "b"]) none "e", .build none (some ([], [])) "e", .build none none "e",
    .build none none "e", .build none none "e", .build none none "e"]

/-- The edit of `b` is not filed, and its old tags stay. -/
theorem edit_behind_watermark :
    ¬ ∀ library events w, (system id).exec (initial library) events = some w → EditsFiled w := by
  intro hall
  have hrun : ((system id).exec (initial ["a", "b"]) lostEdit).any (fun w =>
      (w.process.map fun p => (p.build, p.seen)) = some (.done, 2) ∧
      w.edits[1]? = some ⟨"b", 2, 1⟩ ∧ "b" ∈ w.library ∧ w.joined "b" = 0 ∧
      w.store.log.trackChanges.get? "b" = some (1, true)) = true := by decide +kernel
  obtain ⟨w, hexec, hfacts⟩ := (Option.any_eq_true _ _).mp hrun
  obtain ⟨hprocess, hedit, hlib, hjoined, hrow⟩ := of_decide_eq_true hfacts
  obtain ⟨p, hp, hpair⟩ := Option.map_eq_some_iff.mp hprocess
  obtain ⟨hdone, hseen⟩ := Prod.mk.inj hpair
  obtain ⟨⟨g, hg, hlt⟩, -⟩ := hall _ _ w hexec p hp hdone 1 _ hedit (by omega)
    ⟨hlib, (le_of_eq hjoined).trans (by decide)⟩
  rw [hrow] at hg
  obtain rfl : 1 = g := by simpa using hg
  exact absurd hlt (by decide)

end Mbrc.Scanner
