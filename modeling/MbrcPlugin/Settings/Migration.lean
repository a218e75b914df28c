import MbrcPlugin.Lib.FileWrites
import MbrcPlugin.Lib.Transition
import MbrcPlugin.Settings.Keys
import MbrcPlugin.Settings.Legacy

/-!
# The migration of the 1.x settings

Each start of the core writes `core_settings.json` from `settings.xml` where the file is missing,
loads the file, and then sweeps: it removes `settings.xml` once the file has something in it.  The
write is not atomic, a process can stop at any point, and starts overlap.  `migration_keeps` says
under what condition on the sweeps the settings survive.
-/

namespace Mbrc.Settings.Migration

open Files Transition

abbrev Bytes := List UInt8

/-- Where a start of the core is. -/
inductive Phase where
  | begun
  /-- The file was missing. -/
  | checked
  /-- `settings.xml` was read. -/
  | creating
  | writing (written : Nat)
  /-- The migration is over, one way or another. -/
  | migrated
  /-- The settings the start runs on, nothing where it fell back to the defaults. -/
  | loaded (ran : Option Config)
  /-- The file was seen with something in it. -/
  | sweeping (ran : Option Config)
  | done (ran : Option Config)
  | stopped
  deriving DecidableEq

namespace Phase

/-- Between the check for the file and the end of its write. -/
def Writes : Phase → Prop
  | checked | creating | writing _ => True
  | _ => False

instance (p : Phase) : Decidable p.Writes := by
  unfold Writes
  split <;> infer_instance

/-- Past a load that fell back to the defaults. -/
def OnDefaults (p : Phase) : Prop := p = loaded none ∨ p = sweeping none ∨ p = done none

instance (p : Phase) : Decidable p.OnDefaults := inferInstanceAs (Decidable (_ ∨ _ ∨ _))

end Phase

/-- How the settings are written as JSON and read. -/
abbrev Json := Codec Config UInt8

/-- The two files: whether `settings.xml` is there, and `core_settings.json`. -/
structure Disk where
  legacy : Bool := true
  file : Option Bytes := none
  deriving DecidableEq

/-- The core's file has something in it. -/
def Disk.hasText (d : Disk) : Bool := d.file.any (0 < ·.length)

/-- What a start does next; `ok` where the system lets it. -/
inductive Action where
  /-- Whether the new file exists. -/
  | check
  | readXml
  /-- The file is created, or truncated. -/
  | create (ok : Bool)
  | write (n : Nat)
  /-- The text is written, or a write failed. -/
  | endWrite
  | load
  /-- Whether the file has something in it. -/
  | measure
  | remove (ok : Bool)
  /-- The process stops. -/
  | stop
  deriving DecidableEq

structure World where
  disk : Disk := {}
  starts : List Phase := []
  deriving DecidableEq

inductive Event where
  | begin
  | act (i : Nat) (action : Action)
  deriving DecidableEq

section Step

variable (J : Json) (xml : String)

/-- What the migration writes. -/
def text : Bytes := J.print (configFromLegacyXml xml)

def act (d : Disk) : Action → Phase → Option (Phase × Disk)
  | .check, .begun => some (if d.file.isSome then .migrated else .checked, d)
  | .readXml, .checked => some (if d.legacy then .creating else .migrated, d)
  | .create true, .creating => some (.writing 0, { d with file := some [] })
  | .create false, .creating => some (.migrated, d)
  | .write n, .writing written =>
    let piece := ((text J xml).drop written).take n
    some (.writing (written + piece.length),
      { d with file := some (writeAt 0 (d.file.getD []) written piece) })
  | .endWrite, .writing _ => some (.migrated, d)
  | .load, .migrated => some (.loaded (d.file.bind J.read), d)
  | .measure, .loaded ran => some (if d.hasText then .sweeping ran else .done ran, d)
  | .remove ok, .sweeping ran => some (.done ran, { d with legacy := d.legacy && !ok })
  | .stop, _ => some (.stopped, d)
  | _, _ => none

def step (w : World) : Event → Option World
  | .begin => some { w with starts := w.starts ++ [.begun] }
  | .act i action => do
    let (next, disk) ← act J xml w.disk action (← w.starts[i]?)
    return { disk, starts := w.starts.set i next }

def system : System World Event where
  start w := w = {}
  next := step J xml

/-- The file reads back as what the migration built. -/
def ReadsBack (d : Disk) : Prop := d.file.bind J.read = some (configFromLegacyXml xml)

/-- The settings are still there, and a start that has completed runs on the defaults only while
`settings.xml` is. -/
structure Kept (w : World) : Prop where
  settings : w.disk.legacy = true ∨ ReadsBack J xml w.disk
  starts : .done none ∈ w.starts → w.disk.legacy = true

/-- A sweep finds the file with something in it only when it is the whole file, when no start is
still about to write it, and when none has fallen back to the defaults. -/
def InOrder (w : World) : Event → Prop
  | .act _ .measure => w.disk.hasText = true → ReadsBack J xml w.disk ∧
      ∀ p ∈ w.starts, ¬ p.Writes ∧ ¬ p.OnDefaults
  | _ => True

instance (d : Disk) : Decidable (ReadsBack J xml d) := inferInstanceAs (Decidable (_ = _))

instance (w : World) (e : Event) : Decidable (InOrder J xml w e) := by
  unfold InOrder
  split <;> infer_instance

end Step

/-! ## The invariant -/

variable {J : Json} {xml : String} {w w' : World} {e : Event}

theorem step_act {i : Nat} {action : Action} (hs : step J xml w (.act i action) = some w') :
    ∃ p next disk, w.starts[i]? = some p ∧ act J xml w.disk action p = some (next, disk) ∧
      w' = { disk, starts := w.starts.set i next } := by
  simp only [step, Option.bind_eq_bind, Option.bind_eq_some_iff] at hs
  obtain ⟨p, hp, ⟨next, disk⟩, hact, heq⟩ := hs
  exact ⟨p, next, disk, hp, hact, (Option.some.inj heq).symm⟩

/-- The file is whole, nobody will write it, and nobody runs on the defaults. -/
structure Settled (J : Json) (xml : String) (w : World) : Prop where
  readsBack : ReadsBack J xml w.disk
  starts : ∀ p ∈ w.starts, ¬ p.Writes ∧ ¬ p.OnDefaults

/-- Once a sweep has seen the file, or has removed the other one. -/
structure Inv (J : Json) (xml : String) (w : World) : Prop where
  swept : ∀ ran, .sweeping ran ∈ w.starts → Settled J xml w
  removed : w.disk.legacy = false → Settled J xml w

/-- A start that is clear of the file and of the defaults stays so, and leaves the file. -/
theorem act_settled {d d' : Disk} {action : Action} {p next : Phase} (hd : ReadsBack J xml d)
    (hp : ¬ p.Writes ∧ ¬ p.OnDefaults) (h : act J xml d action p = some (next, d')) :
    d'.file = d.file ∧ ¬ next.Writes ∧ ¬ next.OnDefaults := by
  obtain ⟨bytes, hfile, hread⟩ := Option.bind_eq_some_iff.mp hd
  unfold act at h
  split at h
  case h_1 =>
    obtain ⟨rfl, rfl⟩ := Prod.mk.inj (Option.some.inj h)
    rw [hfile]
    exact ⟨rfl, id, by simp [Phase.OnDefaults]⟩
  case h_2 => exact absurd trivial hp.1
  case h_3 => exact absurd trivial hp.1
  case h_4 => exact absurd trivial hp.1
  case h_5 => exact absurd trivial hp.1
  case h_6 => exact absurd trivial hp.1
  case h_7 =>
    obtain ⟨rfl, rfl⟩ := Prod.mk.inj (Option.some.inj h)
    rw [hd]
    exact ⟨rfl, id, by simp [Phase.OnDefaults]⟩
  case h_8 ran =>
    obtain ⟨rfl, rfl⟩ := Prod.mk.inj (Option.some.inj h)
    have hran : ran ≠ none := by
      rintro rfl
      exact hp.2 (.inl rfl)
    split
    · exact ⟨rfl, id, by simp [Phase.OnDefaults, hran]⟩
    · exact ⟨rfl, id, by simp [Phase.OnDefaults, hran]⟩
  case h_9 ok ran =>
    obtain ⟨rfl, rfl⟩ := Prod.mk.inj (Option.some.inj h)
    have hran : ran ≠ none := by
      rintro rfl
      exact hp.2 (.inr (.inl rfl))
    exact ⟨rfl, id, by simp [Phase.OnDefaults, hran]⟩
  case h_10 =>
    obtain ⟨rfl, rfl⟩ := Prod.mk.inj (Option.some.inj h)
    exact ⟨rfl, id, by simp [Phase.OnDefaults]⟩
  case h_11 => cases h

/-- What is settled stays settled. -/
theorem settled_step (h : Settled J xml w) (hs : step J xml w e = some w') :
    Settled J xml w' := by
  cases e with
  | begin =>
    obtain rfl := Option.some.inj hs
    refine ⟨h.readsBack, fun q hq => ?_⟩
    rcases List.mem_append.mp hq with hq | hq
    · exact h.starts q hq
    · obtain rfl := List.mem_singleton.mp hq
      exact ⟨id, by simp [Phase.OnDefaults]⟩
  | act i action =>
    obtain ⟨p, next, disk, hp, hact, rfl⟩ := step_act hs
    obtain ⟨hfile, hnext⟩ := act_settled h.readsBack (h.starts p (List.mem_of_getElem? hp)) hact
    refine ⟨?_, fun q hq => ?_⟩
    · show disk.file.bind J.read = _
      rw [hfile]
      exact h.readsBack
    · rcases List.mem_or_eq_of_mem_set hq with hq | rfl
      · exact h.starts q hq
      · exact hnext

/-- Only a sweep that has seen the file removes the other one, and only a measure that finds
something in the file leads to a sweep. -/
theorem act_cases {d d' : Disk} {action : Action} {p next : Phase}
    (h : act J xml d action p = some (next, d')) :
    (d'.legacy = d.legacy ∨ ∃ ran, p = .sweeping ran) ∧
      (∀ ran, next = .sweeping ran → action = .measure ∧ d.hasText = true) := by
  unfold act at h
  split at h
  case h_8 ran =>
    obtain ⟨rfl, rfl⟩ := Prod.mk.inj (Option.some.inj h)
    refine ⟨.inl rfl, fun ran' hnext => ⟨rfl, ?_⟩⟩
    split at hnext
    · assumption
    · cases hnext
  case h_9 ok ran =>
    obtain ⟨rfl, rfl⟩ := Prod.mk.inj (Option.some.inj h)
    exact ⟨.inr ⟨ran, rfl⟩, fun ran' hnext => by cases hnext⟩
  case h_1 | h_2 =>
    obtain ⟨rfl, rfl⟩ := Prod.mk.inj (Option.some.inj h)
    refine ⟨.inl rfl, fun ran' hnext => ?_⟩
    split at hnext <;> cases hnext
  case h_11 => cases h
  all_goals
    obtain ⟨rfl, rfl⟩ := Prod.mk.inj (Option.some.inj h)
    exact ⟨.inl rfl, fun ran' hnext => by cases hnext⟩

theorem inv_step (h : Inv J xml w) (hg : InOrder J xml w e) (hs : step J xml w e = some w') :
    Inv J xml w' := by
  cases e with
  | begin =>
    refine ⟨fun ran hran => ?_, fun hremoved => ?_⟩
    · obtain rfl := Option.some.inj hs
      rcases List.mem_append.mp hran with hran | hran
      · exact settled_step (h.swept ran hran) hs
      · cases List.mem_singleton.mp hran
    · obtain rfl := Option.some.inj hs
      exact settled_step (h.removed hremoved) hs
  | act i action =>
    obtain ⟨p, next, disk, hp, hact, rfl⟩ := step_act hs
    obtain ⟨hlegacy, hsweeps⟩ := act_cases hact
    refine ⟨fun ran hran => ?_, fun hremoved => ?_⟩
    · rcases List.mem_or_eq_of_mem_set hran with hran | hran
      · exact settled_step (h.swept ran hran) hs
      · obtain ⟨rfl, htext⟩ := hsweeps ran hran.symm
        obtain ⟨hreads, hstarts⟩ := hg htext
        exact settled_step ⟨hreads, hstarts⟩ hs
    · rcases hlegacy with hsame | ⟨ran, rfl⟩
      · exact settled_step (h.removed (hsame ▸ hremoved)) hs
      · exact settled_step (h.swept ran (List.mem_of_getElem? hp)) hs

/-- **The settings survive the migration**, in every run whose sweeps are in order. -/
theorem migration_keeps (J : Json) (xml : String) {w : World} {events : List Event}
    (hg : (system J xml).Along (InOrder J xml) {} events)
    (hrun : (system J xml).exec {} events = some w) : Kept J xml w := by
  have hstart : Inv J xml {} := ⟨fun ran h => absurd h (by simp), fun h => absurd h (by decide)⟩
  have hinv : Inv J xml w :=
    (system J xml).exec_induction (fun _ _ _ h hg hs => inv_step h hg hs) hstart hg hrun
  refine ⟨?_, fun hdone => ?_⟩
  · cases hlegacy : w.disk.legacy with
    | true => exact .inl rfl
    | false => exact .inr (hinv.removed hlegacy).readsBack
  · cases hlegacy : w.disk.legacy with
    | true => rfl
    | false => exact absurd (.inr (.inr rfl)) ((hinv.removed hlegacy).starts _ hdone).2

/-! ## Two starts -/

/-- Serde on the defaults and on every beginning of their text. -/
def defaultsJson : Json where
  print := pretty
  read bytes := if bytes = pretty {} then some {} else none

def plainXml : String := "<mbremote></mbremote>"

/-- A first start, and a second one that overlaps its sweep. -/
def quietRun : List Event :=
  [.begin, .act 0 .check, .act 0 .readXml, .act 0 (.create true), .act 0 (.write 400),
    .act 0 (.write 4096), .act 0 .endWrite, .act 0 .load, .begin, .act 0 .measure, .act 1 .check,
    .act 1 .load, .act 0 (.remove true), .act 1 .measure, .act 1 (.remove false)]

theorem migration_keeps_defaults :
    ∃ w, (system defaultsJson plainXml).exec {} quietRun = some w ∧ Kept defaultsJson plainXml w ∧
      w.disk.legacy = false ∧ w.starts = [.done (some {}), .done (some {})] := by
  have hrun : ((system defaultsJson plainXml).exec {} quietRun).any (fun w =>
      w.disk.legacy = false ∧ w.starts = [.done (some {}), .done (some {})]) = true := by
    decide +kernel
  have hg : (system defaultsJson plainXml).checked
      (fun w e => decide (InOrder defaultsJson plainXml w e)) {} quietRun = true := by
    decide +kernel
  obtain ⟨w, hexec, hend⟩ := (Option.any_eq_true _ _).mp hrun
  have halong := (system defaultsJson plainXml).along_of_checked
    (fun _ _ h => of_decide_eq_true h) hg
  exact ⟨w, hexec, migration_keeps _ _ halong hexec, of_decide_eq_true hend⟩

/-- A start that stops with the first 400 bytes written, and the next one. -/
def cutRun : List Event :=
  [.begin, .act 0 .check, .act 0 .readXml, .act 0 (.create true), .act 0 (.write 400),
    .act 0 .stop, .begin, .act 1 .check, .act 1 .load, .act 1 .measure, .act 1 (.remove true)]

/-- The settings of 1.x are gone, and the core runs on the defaults. -/
theorem cut_write_loses_settings :
    ∃ w, (system defaultsJson plainXml).exec {} cutRun = some w ∧
      ¬ Kept defaultsJson plainXml w ∧ w.disk.legacy = false ∧ w.starts[1]? = some (.done none) ∧
      w.disk.file.bind defaultsJson.read = none := by
  have hrun : ((system defaultsJson plainXml).exec {} cutRun).any (fun w => w.disk.legacy = false ∧
      w.starts[1]? = some (.done none) ∧ w.disk.file.bind defaultsJson.read = none) = true := by
    decide +kernel
  obtain ⟨w, hexec, hend⟩ := (Option.any_eq_true _ _).mp hrun
  obtain ⟨hlegacy, hdone, hread⟩ := of_decide_eq_true hend
  refine ⟨w, hexec, fun hkept => ?_, hlegacy, hdone, hread⟩
  have hstill := hkept.starts (List.mem_of_getElem? hdone)
  rw [hlegacy] at hstill
  cases hstill

end Mbrc.Settings.Migration
