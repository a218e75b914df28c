import MbrcPlugin.Lib.Transition
import Mathlib.Data.List.Perm.Basic
import Mathlib.Data.List.Nodup

/-!
# The capture session

A capture raises the log level and is recorded in `capture.json` while it runs.  An operation
changes the session under the lock, and the level and the record in steps that come after it, which
the steps of other operations may come between.  In a run where each of them finds a session running
or ended, as its own operation left it, the level and the record follow the session whenever no
operation is under way (`level_follows_capture`).
-/

namespace Mbrc.CaptureSession

open Transition

/-! ## The module's state -/

/-- `MAX_CAPTURE`, in milliseconds. -/
def maxCapture : Nat := 30 * 60 * 1000

inductive LogLevel where
  | info | debug | trace
  deriving DecidableEq

/-- The level `raise_level` sets. -/
def LogLevel.raised : LogLevel → LogLevel
  | .trace => .trace
  | _ => .debug

/-- `capture.json`. -/
structure Persisted where
  startedUnixMs : Int
  logOffset : Nat
  hostEnvironment : List (String × String)
  deriving DecidableEq

structure Session extends Persisted where
  generation : Nat
  deriving DecidableEq

/-- What an operation has still to do once it let go of the lock. -/
inductive Tail where
  | raiseLevel (generation remaining : Nat)
  | spawnWatchdog (generation remaining : Nat)
  | restoreLevel
  | clearPersisted
  /-- `resume_after_restart` is to look for a session. -/
  | check
  | readPersisted
  | resume (session : Session) (remaining : Nat)
  deriving DecidableEq

structure Watchdog where
  generation : Nat
  deadline : Nat
  /-- The deadline was found passed. -/
  due : Bool := false
  deriving DecidableEq

/-- `began` and `ended` are there for the statement: the generations of the sessions, and what each
watchdog that ended one was started for, with the session it ended. -/
structure State where
  config : LogLevel
  level : LogLevel
  /-- The file, and what it says where it can be read. -/
  record : Option (Option Persisted)
  session : Option Session := none
  generation : Nat := 0
  instant : Nat := 0
  tails : List Tail := [.check]
  watchdogs : List Watchdog := []
  began : List Nat := []
  ended : List (Nat × Nat) := []

namespace State

variable (s : State)

/-- `start`, up to the end of the lock. -/
def start (now : Int) (logLen : Nat) (environment : List (String × String)) : State :=
  match s.session with
  | some _ => s
  | none =>
    let generation := s.generation + 1
    let persisted := { startedUnixMs := now, logOffset := logLen, hostEnvironment := environment }
    { s with
      generation
      record := some (some persisted)
      session := some { persisted with generation }
      tails := s.tails ++ [.raiseLevel generation maxCapture]
      began := s.began ++ [generation] }

/-- `stop` and `cancel`, up to the end of the lock. -/
def finish : State :=
  match s.session with
  | none => s
  | some _ => { s with session := none, tails := s.tails ++ [.restoreLevel] }

/-- A step after the lock. -/
def tail (now : Int) : Tail → State
  | .raiseLevel generation remaining =>
    { s with
      level := s.config.raised
      tails := s.tails ++ [.spawnWatchdog generation remaining] }
  | .spawnWatchdog generation remaining =>
    { s with
      watchdogs := s.watchdogs ++ [{ generation, deadline := s.instant + remaining }] }
  | .restoreLevel => { s with level := s.config, tails := s.tails ++ [.clearPersisted] }
  | .clearPersisted => { s with record := none }
  | .check => if s.session.isSome then s else { s with tails := s.tails ++ [.readPersisted] }
  | .readPersisted =>
    match s.record with
    | none => s
    -- a record that cannot be read is removed
    | some none => { s with tails := s.tails ++ [.clearPersisted] }
    | some (some persisted) =>
      let remaining := maxCapture - (now - persisted.startedUnixMs).toNat
      if remaining = 0 then { s with tails := s.tails ++ [.clearPersisted] }
      else
        let generation := s.generation + 1
        { s with
          generation
          tails := s.tails ++ [.resume { persisted with generation } remaining] }
  | .resume session remaining =>
    { s with
      session := some session
      tails := s.tails ++ [.raiseLevel session.generation remaining]
      began := s.began ++ [session.generation] }

/-- The watchdog's own session runs. -/
def guarded (w : Watchdog) : Bool := s.session.any fun session => session.generation = w.generation

/-- `expire`: without a core the level and the record stay as they are. -/
def expire (w : Watchdog) (core : Bool) : State :=
  match s.session with
  | none => s
  | some session =>
    if session.generation = w.generation then
      { s with
        session := none
        tails := s.tails ++ (if core then [.restoreLevel] else [])
        ended := s.ended ++ [(w.generation, session.generation)] }
    else s

end State

inductive Event where
  | tick (ms : Nat)
  | start (now : Int) (logLen : Nat) (environment : List (String × String))
  | stop
  | cancel
  | resumeAfterRestart
  | tail (i : Nat) (now : Int)
  /-- A watchdog wakes. -/
  | wake (i : Nat)
  | expire (i : Nat) (core : Bool)
  deriving DecidableEq

def next (s : State) : Event → Option State
  | .tick ms => some { s with instant := s.instant + ms }
  | .start now logLen environment => some (s.start now logLen environment)
  | .stop | .cancel => some s.finish
  | .resumeAfterRestart => some { s with tails := s.tails ++ [.check] }
  | .tail i now =>
    s.tails[i]?.map fun t => { s with tails := s.tails.eraseIdx i }.tail now t
  | .wake i =>
    s.watchdogs[i]?.map fun w =>
      if !s.guarded w then { s with watchdogs := s.watchdogs.eraseIdx i }
      else if w.deadline ≤ s.instant then
        { s with watchdogs := s.watchdogs.set i { w with due := true } }
      else s
  | .expire i core =>
    s.watchdogs[i]?.bind fun w =>
      if w.due then some ({ s with watchdogs := s.watchdogs.eraseIdx i }.expire w core) else none

/-- The plugin starts, with whatever the last process left in `capture.json`, and looks for it. -/
def system : System State Event where
  start s := ∃ config record, s = { config, level := config, record }
  next := next

/-! ## What is promised -/

/-- The level the log is to have. -/
def State.target (s : State) : LogLevel := if s.session.isSome then s.config.raised else s.config

/-- The level and the record follow the session. -/
structure Follows (s : State) : Prop where
  level : s.level = s.target
  record : s.record.isSome = s.session.isSome

/-- No two sessions have one generation, and a watchdog ends the session it was started for. -/
structure OwnWatchdogs (s : State) : Prop where
  distinct : s.began.Nodup
  own : ∀ e ∈ s.ended, e.1 = e.2

/-! ## When it holds -/

/-- The level is raised while a session runs, and restored or the record removed while none does; a
session is resumed while there still is a record; and a watchdog that ends one finds a core. -/
def Undisturbed (s : State) : Event → Prop
  | .tail i _ =>
    match s.tails[i]? with
    | some (.raiseLevel _ _) => s.session.isSome = true
    | some .restoreLevel | some .clearPersisted => s.session = none
    | some (.resume _ _) => s.record.isSome = true
    | _ => True
  | .expire _ core => core = true
  | _ => True

instance (s : State) (e : Event) : Decidable (Undisturbed s e) := by
  unfold Undisturbed
  split
  · split <;> infer_instance
  · infer_instance
  · infer_instance

/-! ## The level and the record -/

def Tail.raises : Tail → Bool
  | .raiseLevel _ _ => true
  | _ => false

/-- With no session running, the record goes or a session is resumed from it. -/
def Tail.settles : Tail → Bool
  | .raiseLevel _ _ | .spawnWatchdog _ _ => false
  | _ => true

/-- What an operation leaves undone is still to come. -/
structure Inv (s : State) : Prop where
  level : s.level = s.target ∨ (s.session.isSome = true ∧ ∃ t ∈ s.tails, t.raises = true) ∨
    (s.session = none ∧ .restoreLevel ∈ s.tails)
  running : s.session.isSome = true → s.record.isSome = true
  resting : s.session = none → s.record = none ∨ ∃ t ∈ s.tails, t.settles = true

theorem Inv.follows {s : State} (h : Inv s) (hidle : s.tails = []) : Follows s where
  level := by
    rcases h.level with hlevel | ⟨-, t, ht, -⟩ | ⟨-, ht⟩
    · exact hlevel
    · rw [hidle] at ht
      cases ht
    · rw [hidle] at ht
      cases ht
  record := by
    cases hsession : s.session with
    | some session => exact h.running (by rw [hsession]; rfl)
    | none =>
      rcases h.resting hsession with hrecord | ⟨t, ht, -⟩
      · rw [hrecord]
        rfl
      · rw [hidle] at ht
        cases ht

/-- A step that changes neither the level nor the session. -/
theorem Inv.of_level {s s' : State} (h : Inv s) (hconfig : s'.config = s.config)
    (hlevel : s'.level = s.level) (hsession : s'.session = s.session)
    (htails : ∀ t ∈ s.tails, t.raises = true ∨ t = .restoreLevel → t ∈ s'.tails)
    (hrunning : s'.session.isSome = true → s'.record.isSome = true)
    (hresting : s.session = none → s'.record = none ∨ ∃ t ∈ s'.tails, t.settles = true) :
    Inv s' where
  level := by
    unfold State.target
    rw [hlevel, hsession, hconfig]
    rcases h.level with hlevel | ⟨hrun, t, ht, hraises⟩ | ⟨hrest, ht⟩
    · exact Or.inl hlevel
    · exact Or.inr (Or.inl ⟨hrun, t, htails t ht (Or.inl hraises), hraises⟩)
    · exact Or.inr (Or.inr ⟨hrest, htails _ ht (Or.inr rfl)⟩)
  running := hrunning
  resting hrest := hresting (hsession ▸ hrest)

theorem Inv.start {s : State} (h : Inv s) (now : Int) (logLen : Nat)
    (environment : List (String × String)) : Inv (s.start now logLen environment) := by
  unfold State.start
  split
  · exact h
  · refine ⟨Or.inr (Or.inl ⟨rfl, _, List.mem_append_right _ (List.mem_singleton.mpr rfl), rfl⟩),
      fun _ => rfl, fun hrest => by cases hrest⟩

/-- A session ends, and its level is to be restored. -/
theorem Inv.ended {s : State} (hsession : s.session = none)
    (htails : .restoreLevel ∈ s.tails) : Inv s where
  level := Or.inr (Or.inr ⟨hsession, htails⟩)
  running hrun := by rw [hsession] at hrun; cases hrun
  resting _ := Or.inr ⟨_, htails, rfl⟩

theorem Inv.finish {s : State} (h : Inv s) : Inv s.finish := by
  unfold State.finish
  split
  · exact h
  · exact Inv.ended rfl (List.mem_append_right _ (List.mem_singleton.mpr rfl))

/-- A tail is the one that steps, or stays. -/
theorem mem_tails {s : State} {i : Nat} {t : Tail} (hi : s.tails[i]? = some t) {u : Tail}
    (hu : u ∈ s.tails) : u = t ∨ u ∈ s.tails.eraseIdx i := by
  obtain ⟨hlt, rfl⟩ := List.getElem?_eq_some_iff.mp hi
  exact List.mem_cons.mp ((List.getElem_cons_eraseIdx_perm hlt).mem_iff.mpr hu)

/-- The tails that move the level, where another one steps. -/
theorem level_tails {s : State} {i : Nat} {t : Tail} (hi : s.tails[i]? = some t)
    (hraises : t.raises = false) (hne : t ≠ .restoreLevel) :
    ∀ u ∈ s.tails, u.raises = true ∨ u = .restoreLevel → u ∈ s.tails.eraseIdx i := by
  intro u hu hkind
  rcases mem_tails hi hu with rfl | hin
  · rcases hkind with hkind | hkind
    · rw [hraises] at hkind
      cases hkind
    · exact absurd hkind hne
  · exact hin

theorem Inv.tail {s : State} (h : Inv s) {i : Nat} {t : Tail} (hi : s.tails[i]? = some t)
    (now : Int) (hguard : Undisturbed s (.tail i now)) :
    Inv ({ s with tails := s.tails.eraseIdx i }.tail now t) := by
  simp only [Undisturbed, hi] at hguard
  cases t with
  | raiseLevel generation remaining =>
    refine ⟨Or.inl ?_, fun _ => h.running hguard, fun hrest => ?_⟩
    · exact (if_pos hguard).symm
    · rw [show s.session = none from hrest] at hguard
      cases hguard
  | spawnWatchdog generation remaining =>
    refine h.of_level rfl rfl rfl (level_tails hi rfl (by simp)) h.running fun hrest => ?_
    refine (h.resting hrest).imp id ?_
    rintro ⟨u, hu, hsettles⟩
    rcases mem_tails hi hu with rfl | hin
    · cases hsettles
    · exact ⟨u, hin, hsettles⟩
  | restoreLevel =>
    refine ⟨Or.inl ?_, fun hrun => ?_, fun _ => Or.inr ⟨.clearPersisted, ?_, rfl⟩⟩
    · unfold State.target
      exact (if_neg (by rw [show _ = none from hguard]; exact Bool.false_ne_true)).symm
    · rw [show _ = none from hguard] at hrun
      cases hrun
    · exact List.mem_append_right _ (List.mem_singleton.mpr rfl)
  | clearPersisted =>
    refine h.of_level rfl rfl rfl (level_tails hi rfl (by simp)) (fun hrun => ?_)
      fun _ => Or.inl rfl
    rw [show _ = none from hguard] at hrun
    cases hrun
  | check =>
    unfold State.tail
    dsimp only
    split
    · rename_i hrun
      refine h.of_level rfl rfl rfl (level_tails hi rfl (by simp)) h.running fun hrest => ?_
      rw [hrest] at hrun
      cases hrun
    · refine h.of_level rfl rfl rfl (fun u hu hkind => List.mem_append_left _
        (level_tails hi rfl (by simp) u hu hkind)) h.running fun _ => ?_
      exact Or.inr ⟨.readPersisted, List.mem_append_right _ (List.mem_singleton.mpr rfl), rfl⟩
  | readPersisted =>
    have hkeep (u : Tail) : ∀ v ∈ s.tails, v.raises = true ∨ v = .restoreLevel →
        v ∈ s.tails.eraseIdx i ++ [u] := fun v hv hkind =>
      List.mem_append_left _ (level_tails hi rfl (by simp) v hv hkind)
    have hlast (u : Tail) : u ∈ s.tails.eraseIdx i ++ [u] :=
      List.mem_append_right _ (List.mem_singleton.mpr rfl)
    unfold State.tail
    dsimp only
    split
    · rename_i hrecord
      exact h.of_level rfl rfl rfl (level_tails hi rfl (by simp)) h.running
        fun _ => Or.inl hrecord
    · exact h.of_level rfl rfl rfl (hkeep _) h.running fun _ => Or.inr ⟨_, hlast _, rfl⟩
    · split
      · exact h.of_level rfl rfl rfl (hkeep _) h.running fun _ => Or.inr ⟨_, hlast _, rfl⟩
      · exact h.of_level rfl rfl rfl (hkeep _) h.running fun _ => Or.inr ⟨_, hlast _, rfl⟩
  | resume session remaining =>
    refine ⟨Or.inr (Or.inl ⟨rfl, .raiseLevel session.generation remaining, ?_, rfl⟩),
      fun _ => hguard, fun hrest => by cases hrest⟩
    exact List.mem_append_right _ (List.mem_singleton.mpr rfl)

theorem Inv.expire {s : State} (h : Inv s) (w : Watchdog) : Inv (s.expire w true) := by
  unfold State.expire
  split
  · exact h
  · split
    · exact Inv.ended rfl (List.mem_append_right _ (List.mem_singleton.mpr rfl))
    · exact h

/-- Other watchdogs change nothing. -/
theorem Inv.watchdogs {s : State} (h : Inv s) (watchdogs : List Watchdog) :
    Inv { s with watchdogs } := ⟨h.level, h.running, h.resting⟩

theorem Inv.next {s s' : State} {e : Event} (h : Inv s) (hguard : Undisturbed s e)
    (hnext : system.next s e = some s') : Inv s' := by
  cases e with
  | tick ms =>
    obtain rfl := Option.some.inj hnext
    exact ⟨h.level, h.running, h.resting⟩
  | start now logLen environment =>
    obtain rfl := Option.some.inj hnext
    exact h.start now logLen environment
  | stop =>
    obtain rfl := Option.some.inj hnext
    exact h.finish
  | cancel =>
    obtain rfl := Option.some.inj hnext
    exact h.finish
  | resumeAfterRestart =>
    obtain rfl := Option.some.inj hnext
    exact h.of_level rfl rfl rfl (fun t ht _ => List.mem_append_left _ ht) h.running
      fun _ => Or.inr ⟨.check, List.mem_append_right _ (List.mem_singleton.mpr rfl), rfl⟩
  | tail i now =>
    obtain ⟨t, hi, rfl⟩ := Option.map_eq_some_iff.mp hnext
    exact h.tail hi now hguard
  | wake i =>
    obtain ⟨w, -, rfl⟩ := Option.map_eq_some_iff.mp hnext
    split
    · exact h.watchdogs _
    · split
      · exact h.watchdogs _
      · exact h
  | expire i core =>
    obtain ⟨w, -, hnext⟩ := Option.bind_eq_some_iff.mp hnext
    simp only [Option.ite_none_right_eq_some, Option.some.injEq] at hnext
    obtain ⟨-, rfl⟩ := hnext
    rw [show core = true from hguard]
    exact (h.watchdogs _).expire w

/-! ## The watchdogs -/

/-- The number of a session that is about to be resumed. -/
def Tail.number : Tail → Option Nat
  | .resume session _ => some session.generation
  | _ => none

/-- The numbers that were given out. -/
def State.numbers (s : State) : List Nat := s.began ++ s.tails.filterMap Tail.number

structure Numbered (s : State) : Prop where
  distinct : s.numbers.Nodup
  le : ∀ g ∈ s.numbers, g ≤ s.generation
  own : ∀ e ∈ s.ended, e.1 = e.2

theorem Numbered.of_perm {s s' : State} (h : Numbered s) (hperm : s'.numbers.Perm s.numbers)
    (hgeneration : s'.generation = s.generation) (hended : s'.ended = s.ended) : Numbered s' where
  distinct := hperm.nodup_iff.mpr h.distinct
  le g hg := by
    rw [hgeneration]
    exact h.le g (hperm.mem_iff.mp hg)
  own := hended ▸ h.own

/-- The next number is new. -/
theorem Numbered.of_new {s s' : State} (h : Numbered s)
    (hperm : s'.numbers.Perm ((s.generation + 1) :: s.numbers))
    (hgeneration : s'.generation = s.generation + 1) (hended : s'.ended = s.ended) :
    Numbered s' where
  distinct := by
    refine hperm.nodup_iff.mpr (List.nodup_cons.mpr ⟨fun hin => ?_, h.distinct⟩)
    have hle := h.le _ hin
    omega
  le g hg := by
    rw [hgeneration]
    rcases List.mem_cons.mp (hperm.mem_iff.mp hg) with rfl | hin
    · exact Nat.le_refl _
    · exact Nat.le_succ_of_le (h.le g hin)
  own := hended ▸ h.own

theorem numbers_erase {s : State} {i : Nat} {t : Tail} (hi : s.tails[i]? = some t) :
    (s.tails.filterMap Tail.number).Perm
      (t.number.toList ++ (s.tails.eraseIdx i).filterMap Tail.number) := by
  obtain ⟨hlt, rfl⟩ := List.getElem?_eq_some_iff.mp hi
  have hperm := ((List.getElem_cons_eraseIdx_perm hlt).filterMap Tail.number).symm
  refine hperm.trans ?_
  rw [List.filterMap_cons]
  cases (s.tails[i]).number with
  | none => exact List.Perm.refl _
  | some g => exact List.Perm.refl _

/-- A tail without a number steps, and the tails that come after it have none. -/
theorem Numbered.of_unnumbered {s s' : State} (h : Numbered s) {i : Nat} {t : Tail}
    (hi : s.tails[i]? = some t) (hnumber : t.number = none) (more : List Tail)
    (hmore : more.filterMap Tail.number = []) (hbegan : s'.began = s.began)
    (htails : s'.tails = s.tails.eraseIdx i ++ more) (hgeneration : s'.generation = s.generation)
    (hended : s'.ended = s.ended) : Numbered s' := by
  refine h.of_perm ?_ hgeneration hended
  unfold State.numbers
  rw [hbegan, htails, List.filterMap_append, hmore, List.append_nil]
  have herase := numbers_erase hi
  rw [hnumber, Option.toList_none, List.nil_append] at herase
  exact (herase.append_left s.began).symm

theorem Numbered.tail {s : State} (h : Numbered s) {i : Nat} {t : Tail}
    (hi : s.tails[i]? = some t) (now : Int) :
    Numbered ({ s with tails := s.tails.eraseIdx i }.tail now t) := by
  cases t with
  | raiseLevel generation remaining =>
    exact h.of_unnumbered hi rfl [.spawnWatchdog generation remaining] rfl rfl rfl rfl rfl
  | spawnWatchdog generation remaining =>
    exact h.of_unnumbered hi rfl [] rfl rfl (List.append_nil _).symm rfl rfl
  | restoreLevel => exact h.of_unnumbered hi rfl [.clearPersisted] rfl rfl rfl rfl rfl
  | clearPersisted => exact h.of_unnumbered hi rfl [] rfl rfl (List.append_nil _).symm rfl rfl
  | check =>
    unfold State.tail
    dsimp only
    split
    · exact h.of_unnumbered hi rfl [] rfl rfl (List.append_nil _).symm rfl rfl
    · exact h.of_unnumbered hi rfl [.readPersisted] rfl rfl rfl rfl rfl
  | readPersisted =>
    have herase := numbers_erase hi
    unfold State.tail
    dsimp only
    split
    · exact h.of_unnumbered hi rfl [] rfl rfl (List.append_nil _).symm rfl rfl
    · exact h.of_unnumbered hi rfl [.clearPersisted] rfl rfl rfl rfl rfl
    · split
      · exact h.of_unnumbered hi rfl [.clearPersisted] rfl rfl rfl rfl rfl
      · refine h.of_new ?_ rfl rfl
        unfold State.numbers
        rw [List.filterMap_append, ← List.append_assoc]
        exact (List.perm_append_singleton _ _).trans
          ((herase.append_left s.began).symm.cons _)
  | resume session remaining =>
    refine h.of_perm ?_ rfl rfl
    have herase := (numbers_erase hi).append_left s.began
    refine List.Perm.trans ?_ herase.symm
    unfold State.numbers State.tail
    rw [List.filterMap_append, List.append_assoc]
    exact List.Perm.append_left _ (List.Perm.append_left _ (List.append_nil _ ▸ List.Perm.refl _))

theorem Numbered.start {s : State} (h : Numbered s) (now : Int) (logLen : Nat)
    (environment : List (String × String)) : Numbered (s.start now logLen environment) := by
  unfold State.start
  split
  · exact h
  · refine h.of_new ?_ rfl rfl
    have hmore : (s.tails ++ [Tail.raiseLevel (s.generation + 1) maxCapture]).filterMap
        Tail.number = s.tails.filterMap Tail.number := by
      rw [List.filterMap_append]
      exact List.append_nil _
    unfold State.numbers
    rw [hmore, List.append_assoc]
    exact List.perm_middle

/-- What a watchdog ends has its number. -/
theorem Numbered.expire {s : State} (h : Numbered s) (w : Watchdog) (core : Bool) :
    Numbered (s.expire w core) := by
  unfold State.expire
  split
  · exact h
  · split
    · rename_i session _ hsame
      have hnumbers : State.numbers { s with
          session := none
          tails := s.tails ++ (if core then [.restoreLevel] else [])
          ended := s.ended ++ [(w.generation, session.generation)] } = s.numbers := by
        unfold State.numbers
        rw [List.filterMap_append]
        cases core <;> exact congrArg _ (List.append_nil _)
      refine ⟨hnumbers ▸ h.distinct, fun g hg => h.le g (hnumbers ▸ hg), fun e he => ?_⟩
      rcases List.mem_append.mp he with hold | hnew
      · exact h.own e hold
      · rw [List.mem_singleton.mp hnew]
        exact hsame.symm
    · exact h

/-- Tails without a number begin. -/
theorem Numbered.of_more {s s' : State} (h : Numbered s) (more : List Tail)
    (hmore : more.filterMap Tail.number = []) (hbegan : s'.began = s.began)
    (htails : s'.tails = s.tails ++ more) (hgeneration : s'.generation = s.generation)
    (hended : s'.ended = s.ended) : Numbered s' := by
  refine h.of_perm ?_ hgeneration hended
  unfold State.numbers
  rw [hbegan, htails, List.filterMap_append, hmore, List.append_nil]

theorem Numbered.finish {s : State} (h : Numbered s) : Numbered s.finish := by
  unfold State.finish
  split
  · exact h
  · exact h.of_more [.restoreLevel] rfl rfl rfl rfl rfl

theorem Numbered.watchdogs {s : State} (h : Numbered s) (watchdogs : List Watchdog) :
    Numbered { s with watchdogs } := ⟨h.distinct, h.le, h.own⟩

theorem Numbered.next {s s' : State} {e : Event} (h : Numbered s)
    (hnext : system.next s e = some s') : Numbered s' := by
  cases e with
  | tick ms =>
    obtain rfl := Option.some.inj hnext
    exact ⟨h.distinct, h.le, h.own⟩
  | start now logLen environment =>
    obtain rfl := Option.some.inj hnext
    exact h.start now logLen environment
  | stop =>
    obtain rfl := Option.some.inj hnext
    exact h.finish
  | cancel =>
    obtain rfl := Option.some.inj hnext
    exact h.finish
  | resumeAfterRestart =>
    obtain rfl := Option.some.inj hnext
    exact h.of_more [.check] rfl rfl rfl rfl rfl
  | tail i now =>
    obtain ⟨t, hi, rfl⟩ := Option.map_eq_some_iff.mp hnext
    exact h.tail hi now
  | wake i =>
    obtain ⟨w, -, rfl⟩ := Option.map_eq_some_iff.mp hnext
    split
    · exact h.watchdogs _
    · split
      · exact h.watchdogs _
      · exact h
  | expire i core =>
    obtain ⟨w, -, hnext⟩ := Option.bind_eq_some_iff.mp hnext
    simp only [Option.ite_none_right_eq_some, Option.some.injEq] at hnext
    obtain ⟨-, rfl⟩ := hnext
    exact (h.watchdogs _).expire w core

/-! ## Runs -/

theorem initial {s : State} (h : system.start s) : Inv s ∧ Numbered s := by
  obtain ⟨config, record, rfl⟩ := h
  refine ⟨⟨Or.inl rfl, fun hrun => (by cases hrun), fun _ => Or.inr ⟨.check, ?_, rfl⟩⟩,
    List.nodup_nil, fun g hg => (by cases hg), fun e he => (by cases he)⟩
  exact List.mem_singleton.mpr rfl

/-- **The log level follows the capture** in every run whose level and record steps find the session
as their operations left it: with no operation under way, the log has the level of the session and
there is a record exactly where one runs; and no watchdog ever ends another session than its own. -/
theorem level_follows_capture {s₀ s : State} {events : List Event} (hstart : system.start s₀)
    (hrun : system.exec s₀ events = some s) (hguard : system.Along Undisturbed s₀ events) :
    (s.tails = [] → Follows s) ∧ OwnWatchdogs s := by
  obtain ⟨hinv₀, hnumbered₀⟩ := initial hstart
  have hinv : Inv s := system.exec_induction
    (fun _ _ _ h hundisturbed hs => h.next hundisturbed hs) hinv₀ hguard hrun
  have hnumbered : Numbered s := system.exec_induction
    (fun _ _ _ h _ hs => h.next hs) hnumbered₀ hguard hrun
  exact ⟨hinv.follows, List.Nodup.of_append_left hnumbered.distinct, hnumbered.own⟩

/-- The plugin starts with no record. -/
def fresh : State := { config := .info, level := .info, record := none }

/-- A capture nobody stops. -/
def forgotten : List Event :=
  [.tail 0 0, .tail 0 0, .start 0 0 [], .tail 0 0, .tail 0 0, .tick maxCapture, .wake 0,
    .expire 0 true, .tail 0 0, .tail 0 0]

theorem level_follows_capture_forgotten : ∃ s, system.exec fresh forgotten = some s ∧
    s.ended = [(1, 1)] ∧ (s.tails = [] → Follows s) ∧ OwnWatchdogs s := by
  have hrun : (system.exec fresh forgotten).any (fun s => decide (s.ended = [(1, 1)])) = true := by
    decide +kernel
  obtain ⟨s, hexec, hs⟩ := (Option.any_eq_true _ _).mp hrun
  have hguard : system.checked (fun s e => decide (Undisturbed s e)) fresh forgotten = true := by
    decide +kernel
  exact ⟨s, hexec, of_decide_eq_true hs, level_follows_capture ⟨.info, none, rfl⟩ hexec
    (system.along_of_checked (fun _ _ h => of_decide_eq_true h) hguard)⟩

/-- A capture that is stopped before it raised the level. -/
def raisedLate : List Event :=
  [.tail 0 0, .tail 0 0, .start 0 0 [], .stop, .tail 1 0, .tail 0 0, .tail 0 0, .tail 0 0]

/-- A capture that starts before the one before it removed its record. -/
def removedLate : List Event :=
  [.tail 0 0, .tail 0 0, .start 0 0 [], .cancel, .start 0 0 [], .tail 1 0, .tail 0 0, .tail 0 0,
    .tail 0 0, .tail 0 0, .tail 0 0]

/-- The level stays raised with no session, and a session runs without a record. -/
theorem capture_unfollowed :
    (∃ s, system.Reachable s ∧ s.tails = [] ∧ s.session = none ∧ s.level = .debug ∧ ¬ Follows s) ∧
      ∃ s, system.Reachable s ∧ s.tails = [] ∧ s.session.isSome = true ∧ s.record = none ∧
        ¬ Follows s := by
  have hlate : (system.exec fresh raisedLate).any (fun s =>
      decide (s.tails = [] ∧ s.session = none ∧ s.config = .info ∧ s.level = .debug)) = true := by
    decide +kernel
  have hremoved : (system.exec fresh removedLate).any (fun s =>
      decide (s.tails = [] ∧ s.session.isSome = true ∧ s.record = none)) = true := by
    decide +kernel
  constructor
  · obtain ⟨s, hexec, hs⟩ := (Option.any_eq_true _ _).mp hlate
    obtain ⟨hidle, hsession, hconfig, hlevel⟩ := of_decide_eq_true hs
    refine ⟨s, ⟨fresh, raisedLate, ⟨.info, none, rfl⟩, hexec⟩, hidle, hsession, hlevel, fun h => ?_⟩
    have htarget := h.level
    rw [State.target, hsession, hconfig, hlevel] at htarget
    cases htarget
  · obtain ⟨s, hexec, hs⟩ := (Option.any_eq_true _ _).mp hremoved
    obtain ⟨hidle, hsession, hrecord⟩ := of_decide_eq_true hs
    refine ⟨s, ⟨fresh, removedLate, ⟨.info, none, rfl⟩, hexec⟩, hidle, hsession, hrecord,
      fun h => ?_⟩
    have hboth := h.record
    rw [hrecord, hsession] at hboth
    cases hboth

end Mbrc.CaptureSession
