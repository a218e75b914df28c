import MbrcPlugin.Library.ChangeLogCounts

/-!
# The generations a pass answers

A pass computes the new generation inside its write transaction and hands it out through a variable
the closure captured; what becomes of the transaction is swallowed by the store.  A generation that
is answered is the committed one exactly where no commit fails behind a pass that filed something
(`announced_iff`).  What `library_changed` carries is read from the committed log.
-/

namespace Mbrc

/-! ## Write transactions -/

/-- How far a write transaction comes. -/
inductive Fate where
  /-- Persistence is off. -/
  | off
  | notBegun
  /-- A step of the closure fails, and the transaction is dropped. -/
  | stepFailed
  | notCommitted
  | committed
  deriving DecidableEq

/-- `Db::write`, with the variable that the closure assigns last: any failure is swallowed. -/
def dbWrite {S V : Type} (fate : Fate) (body : S → S × V) (s : S) (captured : V) : S × V :=
  match fate with
  | .off | .notBegun | .stepFailed => (s, captured)
  | .notCommitted => (s, (body s).2)
  | .committed => body s

namespace ChangeLog

/-! ## Calls of `record` -/

structure RecordCall where
  fate : Fate
  newEpoch : Epoch
  paths : Option (List Path)
  updated : List Path

/-- `ChangeLog::record` on a store whose transactions may fail. -/
def recordCall (c : ChangeLog) (call : RecordCall) : ChangeLog × Option Nat :=
  dbWrite call.fate (fun c => c.record call.newEpoch call.paths call.updated) c none

/-- The log after some calls. -/
def afterCalls (c : ChangeLog) (calls : List RecordCall) : ChangeLog :=
  calls.foldl (fun c call => (c.recordCall call).1) c

/-- The cursor that `library_changed` carries. -/
def broadcastLibraryChanged (c : ChangeLog) : Option Cursor := c.head

/-! ## What is promised -/

/-- No table of the log is touched, and none of its numbers; a first listing of nothing still names
the epoch. -/
structure Untouched (c c' : ChangeLog) : Prop where
  trackChanges : c'.trackChanges = c.trackChanges
  changeLog : c'.changeLog = c.changeLog
  numbers : c'.generation = c.generation ∧ c'.floor = c.floor ∧ c'.tombstones = c.tombstones ∧
    c'.live = c.live
  epoch : c.epoch.isSome → c'.epoch = c.epoch

/-- The generation that is answered is the committed head, and no answer says that nothing moved. -/
def Announced (c : ChangeLog) (call : RecordCall) : Prop :=
  (∀ g, (c.recordCall call).2 = some g →
    (c.recordCall call).1.head.map (·.generation) = some g) ∧
  ((c.recordCall call).2 = none → c.Untouched (c.recordCall call).1)

/-- A client that was told a generation can read up to it, however many passes follow. -/
def ReadableAfter (c : ChangeLog) (calls : List RecordCall) : Prop :=
  ∀ told ∈ c.broadcastLibraryChanged, ∃ head : Cursor, head.epoch = told.epoch ∧
    told.generation ≤ head.generation ∧
    ∀ limit, ∃ total changes next,
      (c.afterCalls calls).read .start limit = some (.changes head total changes next)

/-- It holds of every call of a sequence. -/
def AllAnnounced (c : ChangeLog) : List RecordCall → Prop
  | [] => True
  | call :: calls =>
    c.Announced call ∧ (∀ more, (c.recordCall call).1.ReadableAfter more) ∧
      (c.recordCall call).1.AllAnnounced calls

/-! ## When it holds -/

/-- The pass is let in, and it has something to file. -/
def Files (c : ChangeLog) (call : RecordCall) : Prop :=
  (c.epoch.isSome ∨ call.paths.isSome) ∧ c.filings call.paths call.updated ≠ []

instance (c : ChangeLog) (call : RecordCall) : Decidable (c.Files call) := by
  unfold Files
  infer_instance

/-- No commit fails behind a pass that files something. -/
def AllCommitted (c : ChangeLog) : List RecordCall → Prop
  | [] => True
  | call :: calls =>
    ¬ (call.fate = .notCommitted ∧ c.Files call) ∧ (c.recordCall call).1.AllCommitted calls

/-! ## One call -/

theorem head_fileAll (c : ChangeLog) (moved : List (Path × Bool)) :
    (c.fileAll moved).head =
      c.epoch.map fun epoch => { epoch, generation := c.generation + 1 } := by
  unfold fileAll head
  dsimp only
  split <;> rfl

theorem record_of_files {c : ChangeLog} {call : RecordCall} (h : c.Files call) :
    (c.record call.newEpoch call.paths call.updated).2 = some (c.generation + 1) ∧
      (c.record call.newEpoch call.paths call.updated).1.head.map (·.generation) =
        some (c.generation + 1) := by
  obtain ⟨hin, hmoved⟩ := h
  have hopen : ¬ (c.epoch.isNone && call.paths.isNone) = true := by
    rw [Bool.and_eq_true, Option.isNone_iff_eq_none, Option.isNone_iff_eq_none]
    rintro ⟨hepoch, hpaths⟩
    rw [hepoch, hpaths] at hin
    exact absurd hin (by decide)
  have hfilings : ¬ (filings { c with epoch := some (c.epoch.getD call.newEpoch) } call.paths
      call.updated).isEmpty = true := by
    rw [List.isEmpty_iff]
    exact hmoved
  unfold record
  rw [if_neg hopen]
  dsimp only
  rw [if_neg hfilings]
  exact ⟨rfl, by rw [head_fileAll]; rfl⟩

theorem record_of_not_files {c : ChangeLog} {call : RecordCall} (h : ¬ c.Files call) :
    (c.record call.newEpoch call.paths call.updated).2 = none ∧
      c.Untouched (c.record call.newEpoch call.paths call.updated).1 := by
  unfold record
  split
  · exact ⟨rfl, rfl, rfl, ⟨rfl, rfl, rfl, rfl⟩, fun _ => rfl⟩
  · rename_i hopen
    have hin : c.epoch.isSome ∨ call.paths.isSome := by
      rw [Bool.and_eq_true, not_and_or] at hopen
      simpa [Option.isSome_iff_ne_none] using hopen
    have hnone : filings { c with epoch := some (c.epoch.getD call.newEpoch) } call.paths
        call.updated = [] := by
      by_contra hmoved
      exact h ⟨hin, hmoved⟩
    dsimp only
    rw [if_pos (List.isEmpty_iff.mpr hnone)]
    refine ⟨rfl, rfl, rfl, ⟨rfl, rfl, rfl, rfl⟩, fun hnamed => ?_⟩
    obtain ⟨epoch, hepoch⟩ := Option.isSome_iff_exists.mp hnamed
    simp [hepoch]

theorem Untouched.refl (c : ChangeLog) : c.Untouched c :=
  ⟨rfl, rfl, ⟨rfl, rfl, rfl, rfl⟩, fun _ => rfl⟩

/-- A call keeps its promise unless its commit fails behind what it filed. -/
theorem announced_call_iff (c : ChangeLog) (call : RecordCall) :
    c.Announced call ↔ ¬ (call.fate = .notCommitted ∧ c.Files call) := by
  obtain ⟨fate, newEpoch, paths, updated⟩ := call
  have hunchanged (h : c.recordCall ⟨fate, newEpoch, paths, updated⟩ = (c, none)) :
      c.Announced ⟨fate, newEpoch, paths, updated⟩ := by
    unfold Announced
    rw [h]
    exact ⟨fun g hg => (by cases hg), fun _ => .refl c⟩
  by_cases hfiles : c.Files ⟨fate, newEpoch, paths, updated⟩
  · obtain ⟨hanswer, hhead⟩ := record_of_files hfiles
    cases fate with
    | off | notBegun | stepFailed =>
      exact iff_of_true (hunchanged rfl) fun h => by cases h.1
    | notCommitted =>
      refine iff_of_false (fun h => ?_) fun h => h ⟨rfl, hfiles⟩
      have hcommitted : c.head.map (·.generation) = some (c.generation + 1) := h.1 _ hanswer
      unfold head at hcommitted
      cases hepoch : c.epoch with
      | none => simp [hepoch] at hcommitted
      | some epoch => simp [hepoch] at hcommitted
    | committed =>
      refine iff_of_true ⟨fun g hg => ?_, fun hnone => ?_⟩ fun h => by cases h.1
      · rw [← hg]
        exact hhead.trans hanswer.symm
      · cases hanswer.symm.trans hnone
  · obtain ⟨hanswer, huntouched⟩ := record_of_not_files hfiles
    refine iff_of_true ?_ fun h => hfiles h.2
    cases fate with
    | off | notBegun | stepFailed => exact hunchanged rfl
    | notCommitted =>
      exact ⟨fun g hg => (by cases hanswer.symm.trans hg), fun _ => .refl c⟩
    | committed => exact ⟨fun g hg => (by cases hanswer.symm.trans hg), fun _ => huntouched⟩

/-! ## What a client can read -/

theorem record_epoch {c : ChangeLog} {epoch : Epoch} (h : c.epoch = some epoch) (newEpoch : Epoch)
    (paths : Option (List Path)) (updated : List Path) :
    (c.record newEpoch paths updated).1.epoch = some epoch := by
  unfold record
  split
  · exact h
  · dsimp only
    split
    · simp [h]
    · unfold fileAll
      dsimp only
      split <;> simp [h]

/-- A committed head is behind no later one of its epoch. -/
theorem recordCall_head {c : ChangeLog} {told : Cursor} (h : c.head = some told)
    (call : RecordCall) : ∃ head : Cursor, (c.recordCall call).1.head = some head ∧
      head.epoch = told.epoch ∧ told.generation ≤ head.generation := by
  obtain ⟨epoch, hepoch, rfl⟩ := Option.map_eq_some_iff.mp h
  unfold recordCall dbWrite
  cases call.fate with
  | committed =>
    refine ⟨{ epoch, generation := (c.record call.newEpoch call.paths call.updated).1.generation },
      ?_, rfl, record_generation call.newEpoch call.paths call.updated⟩
    dsimp only
    rw [head, record_epoch hepoch]
    rfl
  | off | notBegun | stepFailed | notCommitted => exact ⟨_, h, rfl, Nat.le_refl _⟩

theorem afterCalls_head {c : ChangeLog} {told : Cursor} (h : c.head = some told)
    (calls : List RecordCall) : ∃ head : Cursor, (c.afterCalls calls).head = some head ∧
      head.epoch = told.epoch ∧ told.generation ≤ head.generation := by
  induction calls generalizing c told with
  | nil => exact ⟨told, h, rfl, Nat.le_refl _⟩
  | cons call calls ih =>
    obtain ⟨head, hhead, hepoch, hle⟩ := recordCall_head h call
    obtain ⟨last, hlast, hepoch', hle'⟩ := ih hhead
    exact ⟨last, hlast, hepoch'.trans hepoch, hle.trans hle'⟩

theorem read_start {c : ChangeLog} {head : Cursor} (h : c.head = some head) (limit : Nat) :
    ∃ total changes next, c.read .start limit = some (.changes head total changes next) := by
  obtain ⟨epoch, hepoch, rfl⟩ := Option.map_eq_some_iff.mp h
  unfold read
  rw [hepoch, Option.map_some]
  simp only [window, foreign, unanswerable, Option.any_none, Bool.or_false, Bool.false_eq_true,
    if_false]
  cases c.changeLog with
  | none => exact ⟨_, _, _, rfl⟩
  | some log => exact ⟨_, _, _, rfl⟩

theorem readableAfter (c : ChangeLog) (calls : List RecordCall) : c.ReadableAfter calls := by
  intro told htold
  obtain ⟨head, hhead, hepoch, hle⟩ := afterCalls_head htold calls
  exact ⟨head, hepoch, hle, read_start hhead⟩

/-- **Announced generations exist**, over every sequence of passes on a store that may fail, exactly
where no commit fails behind a pass that files something. -/
theorem announced_iff (c : ChangeLog) (calls : List RecordCall) :
    c.AllAnnounced calls ↔ c.AllCommitted calls := by
  induction calls generalizing c with
  | nil => exact Iff.rfl
  | cons call calls ih =>
    refine and_congr (c.announced_call_iff call) ?_
    rw [ih]
    exact and_iff_right fun more => readableAfter _ more

/-- The first listing of a library of one, whose commit fails. -/
def lostListing : RecordCall :=
  { fate := .notCommitted, newEpoch := "e", paths := some ["a"], updated := [] }

/-- **A commit that fails** leaves no log, and the pass answers its first generation. -/
theorem generation_unannounced :
    (empty.recordCall lostListing).2 = some 1 ∧ (empty.recordCall lostListing).1.head = none ∧
      ¬ empty.AllAnnounced [lostListing] := by
  have hanswer : (empty.recordCall lostListing).2 = some 1 := by decide +kernel
  refine ⟨hanswer, rfl, fun h => ?_⟩
  exact absurd (h.1.1 1 hanswer) (by decide)

end ChangeLog

end Mbrc
