import MbrcPlugin.Lib.FileWrites
import MbrcPlugin.Lib.Transition
import MbrcPlugin.Settings.Keys
import Mathlib.Data.List.Pairwise

/-!
# Settings writes

A write loads the stored settings, merges its patch over them, validates the result and writes the
file in place.  Nothing keeps two writes apart, a text that does not read loads as the defaults, and
the process may stop with a part of the text written.  `writes_kept` says when every write that
returned is in the file, and nothing else.
-/

namespace Mbrc.Settings.Writes

open Files Transition

/-- Where a write is. -/
inductive Phase where
  | begun
  | loaded (base : Config)
  /-- Merged and validated. -/
  | merged (config : Config)
  | writing (config : Config) (written : Nat)
  | returned (ok : Bool)
  | stopped
  deriving DecidableEq

namespace Phase

/-- Between the load and the end of the write. -/
def UnderWay : Phase → Prop
  | loaded _ | merged _ | writing _ _ => True
  | _ => False

instance (p : Phase) : Decidable p.UnderWay := by
  unfold UnderWay
  split <;> infer_instance

/-- The process stops. -/
def halt : Phase → Phase
  | returned ok => returned ok
  | _ => stopped

end Phase

structure Write where
  patch : Patch
  phase : Phase := .begun

inductive Action where
  /-- Whether the file can be read. -/
  | load (readable : Bool)
  /-- Merge and validate. -/
  | merge
  /-- The file is truncated, or cannot be opened. -/
  | create (ok : Bool)
  | write (n : Nat)
  | finish
  /-- The rest cannot be written. -/
  | fail
  deriving DecidableEq

inductive Event where
  | begin (patch : Patch)
  | act (i : Nat) (action : Action)
  | stop

structure World (α : Type) where
  file : Option (List α) := none
  writes : List Write := []

section Step

variable {α : Type} (zero : α) (J : Codec Config α)

/-- `Config::load`: the defaults where the file is missing, or does not read. -/
def load (readable : Bool) (file : Option (List α)) : Config :=
  if readable then (file.bind J.read).getD {} else {}

/-- One step of `write_settings_bytes`. -/
def act (patch : Patch) (file : Option (List α)) :
    Action → Phase → Option (Phase × Option (List α))
  | .load readable, .begun => some (.loaded (load J readable file), file)
  | .merge, .loaded base =>
    match writeSettings base patch with
    | some config => some (.merged config, file)
    | none => some (.returned false, file)
  | .create true, .merged config => some (.writing config 0, some [])
  | .create false, .merged _ => some (.returned false, file)
  | .write n, .writing config written =>
    let piece := ((J.print config).drop written).take n
    some (.writing config (written + piece.length),
      some (writeAt zero (file.getD []) written piece))
  | .finish, .writing config written =>
    if written = (J.print config).length then some (.returned true, file) else none
  | .fail, .writing config written =>
    if written < (J.print config).length then some (.returned false, file) else none
  | _, _ => none

def step (w : World α) : Event → Option (World α)
  | .begin patch => some { w with writes := w.writes ++ [{ patch }] }
  | .act i action => do
    let x ← w.writes[i]?
    let (phase, file) ← act zero J x.patch w.file action x.phase
    return { file, writes := w.writes.set i { x with phase } }
  | .stop => some { w with writes := w.writes.map fun x => { x with phase := x.phase.halt } }

def system : System (World α) Event where
  start w := w.writes = []
  next := step zero J

end Step

/-! ## What is promised -/

section Promise

variable {α : Type} (J : Codec Config α)

/-- No key is named by both. -/
def Apart (x y : Write) : Prop := ∀ key, x.patch.get key = none ∨ y.patch.get key = none

instance (x y : Write) : Decidable (Apart x y) := inferInstanceAs (Decidable (∀ _, _ ∨ _))

instance : Std.Symm Apart := ⟨fun _ _ h key => (h key).symm⟩

/-- What the file holds after the patches of a list, the last of which left these settings. -/
def Stored (before : Option (List α)) (log : List Patch) (base : Config)
    (file : Option (List α)) : Prop :=
  if log = [] then file = before else file = some (J.print base)

/-- The file holds what the writes that returned say, whole, and nothing else. -/
structure Kept (before : Option (List α)) (w : World α) : Prop where
  written : ∀ x ∈ w.writes, x.phase = .returned true → ∀ key value,
    x.patch.get key = some value → (load J true w.file).get key = value
  unnamed : ∀ key, (∀ x ∈ w.writes, x.phase ≠ .returned false → x.patch.get key = none) →
    (load J true w.file).get key = (load J true before).get key
  /-- A stopped write is in the file with all its keys, or with none. -/
  stopped : ∀ x ∈ w.writes, x.phase = .stopped →
    (∀ key value, x.patch.get key = some value → (load J true w.file).get key = value) ∨
      ∀ key, (x.patch.get key).isSome →
        (load J true w.file).get key = (load J true before).get key
  /-- A refused write has no part in the file. -/
  file : ∃ log base, (∀ patch ∈ log, ∃ x ∈ w.writes, x.patch = patch ∧
      (x.phase = .returned true ∨ x.phase = .stopped)) ∧
    mergeAll (load J true before) log = some base ∧ Stored J before log base w.file

/-- No part of the text is missing. -/
def Phase.Whole : Phase → Prop
  | .writing config written => written = (J.print config).length
  | _ => True

instance (p : Phase) : Decidable (p.Whole J) := by
  unfold Phase.Whole
  split <;> infer_instance

/-- A load finds no other write under way, and a file that is missing or reads; once the file is
truncated, its text is written to the end. -/
def InTurn (w : World α) : Event → Prop
  | .act _ (.load readable) => (∀ x ∈ w.writes, ¬ x.phase.UnderWay) ∧
      (w.file = none ∨ readable = true ∧ (w.file.bind J.read).isSome)
  | .act _ .fail => False
  | .stop => ∀ x ∈ w.writes, x.phase.Whole J
  | _ => True

instance (w : World α) (e : Event) : Decidable (InTurn J w e) := by
  unfold InTurn
  split <;> infer_instance

end Promise

/-! ## The invariant -/

variable {α : Type} {zero : α} {J : Codec Config α} {before : Option (List α)}
  {log : List Patch} {base : Config} {w w' : World α} {i : Nat} {x : Write}

/-- What a write under way has made of the settings of the file. -/
def Fits (J : Codec Config α) (base : Config) (file : Option (List α)) (x : Write) : Prop :=
  match x.phase with
  | .loaded loaded => loaded = base
  | .merged config => mergeSettings base x.patch = some config
  | .writing config written => mergeSettings base x.patch = some config ∧
      written ≤ (J.print config).length ∧ file = some ((J.print config).take written)
  | _ => True

/-- The patches in the file, and the settings they make. -/
structure Inv (J : Codec Config α) (before : Option (List α)) (log : List Patch) (base : Config)
    (w : World α) : Prop where
  merged : mergeAll (load J true before) log = some base
  stored : (∀ x ∈ w.writes, ∀ config written, x.phase ≠ .writing config written) →
    Stored J before log base w.file
  returned : ∀ x ∈ w.writes, x.phase = .returned true → x.patch ∈ log
  logged : ∀ patch ∈ log, ∃ x ∈ w.writes, x.patch = patch ∧
    (x.phase = .returned true ∨ x.phase = .stopped)
  alone : ∀ (i j : Nat) (x y : Write), w.writes[i]? = some x → w.writes[j]? = some y →
    x.phase.UnderWay → y.phase.UnderWay → i = j
  fits : ∀ x ∈ w.writes, Fits J base w.file x

theorem fits_of_not_underWay {file : Option (List α)} (h : ¬ x.phase.UnderWay) :
    Fits J base file x := by
  unfold Fits
  split
  · rename_i hphase
    rw [hphase] at h
    exact absurd trivial h
  · rename_i hphase
    rw [hphase] at h
    exact absurd trivial h
  · rename_i hphase
    rw [hphase] at h
    exact absurd trivial h
  · trivial

/-- What was stored loads again. -/
theorem load_stored (hJ : J.Lawful) {file : Option (List α)} (h : Stored J before log base file)
    (hmerged : mergeAll (load J true before) log = some base) : load J true file = base := by
  unfold Stored at h
  split at h
  · rename_i hnil
    subst hnil
    rw [h]
    exact Option.some.inj hmerged
  · rw [h]
    simp [load, hJ base]

/-- A write after a step is the one that moved, or stands at another place. -/
theorem mem_set {x' y : Write} (h : y ∈ w.writes.set i x') :
    y = x' ∨ ∃ j, j ≠ i ∧ w.writes[j]? = some y := by
  obtain ⟨j, hj⟩ := List.mem_iff_getElem?.mp h
  by_cases hij : i = j
  · subst hij
    rw [List.getElem?_set_self'] at hj
    obtain ⟨z, -, rfl⟩ := Option.map_eq_some_iff.mp hj
    exact .inl rfl
  · rw [List.getElem?_set_ne hij] at hj
    exact .inr ⟨j, Ne.symm hij, hj⟩

namespace Inv

/-- A write moves on without an end: it is under way, or nobody is and it leaves the file. -/
theorem move (h : Inv J before log base w) (hx : w.writes[i]? = some x) {phase : Phase}
    {file : Option (List α)} (hopen : x.phase ≠ .returned true ∧ x.phase ≠ .stopped)
    (hnext : phase ≠ .returned true)
    (halone : x.phase.UnderWay ∨ (∀ y ∈ w.writes, ¬ y.phase.UnderWay) ∧ file = w.file)
    (hfits : Fits J base file { x with phase })
    (hstored : (∀ config written, phase ≠ .writing config written) → file = w.file ∧
      ∀ config written, x.phase ≠ .writing config written) :
    Inv J before log base { file, writes := w.writes.set i { x with phase } } where
  merged := h.merged
  stored := by
    intro hnone
    have hlt : i < w.writes.length := (List.getElem?_eq_some_iff.mp hx).1
    obtain ⟨hfile, hold⟩ := hstored (hnone { x with phase } (List.mem_set hlt _))
    rw [hfile]
    refine h.stored fun y hy => ?_
    obtain ⟨j, hj⟩ := List.mem_iff_getElem?.mp hy
    by_cases hij : i = j
    · subst hij
      obtain rfl := Option.some.inj (hx.symm.trans hj)
      exact hold
    · refine hnone y (List.mem_of_getElem? (i := j) ?_)
      rw [List.getElem?_set_ne hij]
      exact hj
  returned := by
    intro y hy hphase
    rcases mem_set hy with rfl | ⟨j, -, hj⟩
    · exact absurd hphase hnext
    · exact h.returned y (List.mem_of_getElem? hj) hphase
  logged := by
    intro patch hmem
    obtain ⟨y, hy, hpatch, hphase⟩ := h.logged patch hmem
    refine ⟨y, ?_, hpatch, hphase⟩
    obtain ⟨j, hj⟩ := List.mem_iff_getElem?.mp hy
    have hij : i ≠ j := by
      rintro rfl
      obtain rfl := Option.some.inj (hx.symm.trans hj)
      exact hphase.elim hopen.1 hopen.2
    refine List.mem_of_getElem? (i := j) ?_
    rw [List.getElem?_set_ne hij]
    exact hj
  alone := by
    have hplace (j : Nat) (y : Write) (hj : (w.writes.set i { x with phase })[j]? = some y)
        (hy : y.phase.UnderWay) : j = i := by
      by_contra hij
      rw [List.getElem?_set_ne (Ne.symm hij)] at hj
      rcases halone with hunder | ⟨hnone, -⟩
      · exact hij (h.alone j i y x hj hx hy hunder)
      · exact hnone y (List.mem_of_getElem? hj) hy
    intro j k y z hj hk hy hz
    rw [hplace j y hj hy, hplace k z hk hz]
  fits := by
    intro y hy
    rcases mem_set hy with rfl | ⟨j, hj, hget⟩
    · exact hfits
    · rcases halone with hunder | ⟨hnone, hfile⟩
      · refine fits_of_not_underWay fun hother => hj ?_
        exact h.alone j i y x hget hx hother hunder
      · exact fits_of_not_underWay (hnone y (List.mem_of_getElem? hget))

/-- The whole text of a write is in the file. -/
theorem whole (h : Inv J before log base w) (hx : x ∈ w.writes) {config : Config} {written : Nat}
    (hphase : x.phase = .writing config written) (hwhole : written = (J.print config).length) :
    mergeAll (load J true before) (log ++ [x.patch]) = some config ∧
      Stored J before (log ++ [x.patch]) config w.file := by
  have hfits := h.fits x hx
  rw [Fits, hphase] at hfits
  obtain ⟨hmerge, -, hfile⟩ := hfits
  refine ⟨?_, ?_⟩
  · rw [mergeAll_concat, h.merged]
    exact hmerge
  · rw [Stored, if_neg (by simp), hfile, hwhole, List.take_length]

theorem finish (h : Inv J before log base w) (hx : w.writes[i]? = some x) {config : Config}
    {written : Nat} (hphase : x.phase = .writing config written)
    (hwhole : written = (J.print config).length) :
    Inv J before (log ++ [x.patch]) config
      { w with writes := w.writes.set i { x with phase := .returned true } } := by
  have hlt : i < w.writes.length := (List.getElem?_eq_some_iff.mp hx).1
  have hunder : x.phase.UnderWay := by
    rw [hphase]
    trivial
  obtain ⟨hmerged, hfile⟩ := h.whole (List.mem_of_getElem? hx) hphase hwhole
  have hplace (j : Nat) (y : Write)
      (hj : (w.writes.set i { x with phase := .returned true })[j]? = some y) :
      ¬ y.phase.UnderWay := by
    intro hy
    by_cases hij : i = j
    · subst hij
      rw [List.getElem?_set_self hlt] at hj
      obtain rfl := Option.some.inj hj
      exact hy
    · rw [List.getElem?_set_ne hij] at hj
      exact hij (h.alone i j x y hx hj hunder hy)
  refine ⟨hmerged, fun _ => hfile, ?_, ?_, ?_, ?_⟩
  · intro y hy hreturned
    rcases mem_set hy with rfl | ⟨j, -, hj⟩
    · simp
    · exact List.mem_append_left _ (h.returned y (List.mem_of_getElem? hj) hreturned)
  · intro patch hmem
    rcases List.mem_append.mp hmem with hmem | hmem
    · obtain ⟨y, hy, hpatch, hend⟩ := h.logged patch hmem
      obtain ⟨j, hj⟩ := List.mem_iff_getElem?.mp hy
      have hij : i ≠ j := by
        rintro rfl
        obtain rfl := Option.some.inj (hx.symm.trans hj)
        simp [hphase] at hend
      refine ⟨y, List.mem_of_getElem? (i := j) ?_, hpatch, hend⟩
      rw [List.getElem?_set_ne hij]
      exact hj
    · obtain rfl := List.mem_singleton.mp hmem
      exact ⟨_, List.mem_set hlt _, rfl, .inl rfl⟩
  · intro j k y z hj _ hy _
    exact absurd hy (hplace j y hj)
  · intro y hy
    obtain ⟨j, hj⟩ := List.mem_iff_getElem?.mp hy
    exact fits_of_not_underWay (hplace j y hj)

/-- One step of one write. -/
theorem act (hJ : J.Lawful) (h : Inv J before log base w) {action : Action} {phase : Phase}
    {file : Option (List α)} (hx : w.writes[i]? = some x)
    (hact : Writes.act zero J x.patch w.file action x.phase = some (phase, file))
    (hturn : InTurn J w (.act i action)) :
    ∃ log base, Inv J before log base { file, writes := w.writes.set i { x with phase } } := by
  have hfits := h.fits x (List.mem_of_getElem? hx)
  unfold Fits at hfits
  unfold Writes.act at hact
  split at hact
  case h_1 readable hphase =>
    obtain ⟨rfl, rfl⟩ := Prod.mk.inj (Option.some.inj hact)
    obtain ⟨hnone, hfile⟩ := hturn
    have hstored : Stored J before log base w.file := by
      refine h.stored fun y hy config written hwriting => hnone y hy ?_
      rw [hwriting]
      trivial
    have hload : load J readable w.file = base := by
      rw [← load_stored hJ hstored h.merged]
      rcases hfile with hmissing | ⟨hreadable, -⟩
      · rw [hmissing]
        cases readable <;> rfl
      · rw [hreadable]
    refine ⟨log, base, h.move hx (by simp [hphase]) (by simp) (.inr ⟨hnone, rfl⟩) hload ?_⟩
    exact fun _ => ⟨rfl, by simp [hphase]⟩
  case h_2 loaded hphase =>
    rw [hphase] at hfits
    obtain rfl : loaded = base := hfits
    have hunder : x.phase.UnderWay := by
      rw [hphase]
      trivial
    split at hact
    case h_1 config hwrite =>
      obtain ⟨rfl, rfl⟩ := Prod.mk.inj (Option.some.inj hact)
      refine ⟨log, loaded, h.move hx (by simp [hphase]) (by simp) (.inl hunder)
        (writeSettings_validate hwrite).1 fun _ => ⟨rfl, by simp [hphase]⟩⟩
    case h_2 =>
      obtain ⟨rfl, rfl⟩ := Prod.mk.inj (Option.some.inj hact)
      exact ⟨log, loaded, h.move hx (by simp [hphase]) (by simp) (.inl hunder) trivial
        fun _ => ⟨rfl, by simp [hphase]⟩⟩
  case h_3 config hphase =>
    obtain ⟨rfl, rfl⟩ := Prod.mk.inj (Option.some.inj hact)
    rw [hphase] at hfits
    have hunder : x.phase.UnderWay := by
      rw [hphase]
      trivial
    refine ⟨log, base, h.move hx (by simp [hphase]) (by simp) (.inl hunder)
      ⟨hfits, Nat.zero_le _, rfl⟩ fun hnone => absurd rfl (hnone config 0)⟩
  case h_4 config hphase =>
    obtain ⟨rfl, rfl⟩ := Prod.mk.inj (Option.some.inj hact)
    have hunder : x.phase.UnderWay := by
      rw [hphase]
      trivial
    exact ⟨log, base, h.move hx (by simp [hphase]) (by simp) (.inl hunder) trivial
      fun _ => ⟨rfl, by simp [hphase]⟩⟩
  case h_5 n config written hphase =>
    obtain ⟨rfl, rfl⟩ := Prod.mk.inj (Option.some.inj hact)
    rw [hphase] at hfits
    obtain ⟨hmerge, hle, hfile⟩ := hfits
    have hunder : x.phase.UnderWay := by
      rw [hphase]
      trivial
    refine ⟨log, base, h.move hx (by simp [hphase]) (by simp) (.inl hunder)
      ⟨hmerge, ?_, ?_⟩ fun hnone => absurd rfl (hnone config _)⟩
    · rw [List.length_take, List.length_drop]
      omega
    · rw [hfile, Option.getD_some, writeAt_take zero _ hle n]
  case h_6 config written hphase =>
    split at hact
    · rename_i hwhole
      obtain ⟨rfl, rfl⟩ := Prod.mk.inj (Option.some.inj hact)
      exact ⟨_, _, h.finish hx hphase hwhole⟩
    · cases hact
  case h_7 => exact hturn.elim
  case h_8 => cases hact

theorem begin (h : Inv J before log base w) (patch : Patch) :
    Inv J before log base { w with writes := w.writes ++ [{ patch }] } := by
  have hold (j : Nat) (y : Write) (hj : (w.writes ++ [({ patch } : Write)])[j]? = some y)
      (hy : y.phase.UnderWay) : w.writes[j]? = some y := by
    rcases Nat.lt_or_ge j w.writes.length with hlt | hge
    · rwa [List.getElem?_append_left hlt] at hj
    · rw [List.getElem?_append_right hge] at hj
      obtain rfl := List.mem_singleton.mp (List.mem_of_getElem? hj)
      exact hy.elim
  refine ⟨h.merged, fun hnone => ?_, fun y hy hphase => ?_, fun p hp => ?_, ?_, fun y hy => ?_⟩
  · exact h.stored fun y hy => hnone y (List.mem_append_left _ hy)
  · rcases List.mem_append.mp hy with hy | hy
    · exact h.returned y hy hphase
    · obtain rfl := List.mem_singleton.mp hy
      cases hphase
  · obtain ⟨y, hy, hpatch, hend⟩ := h.logged p hp
    exact ⟨y, List.mem_append_left _ hy, hpatch, hend⟩
  · intro j k y z hj hk hy hz
    exact h.alone j k y z (hold j y hj hy) (hold k z hk hz) hy hz
  · rcases List.mem_append.mp hy with hy | hy
    · exact h.fits y hy
    · obtain rfl := List.mem_singleton.mp hy
      trivial

/-- A process that stops takes every write under way with it. -/
theorem stop (h : Inv J before log base w)
    (hwhole : ∀ x ∈ w.writes, x.phase.Whole J) :
    ∃ log base, Inv J before log base
      { w with writes := w.writes.map fun x => { x with phase := x.phase.halt } } := by
  have hover (y : Write) (hy : y ∈ w.writes.map fun x => { x with phase := x.phase.halt }) :
      ¬ y.phase.UnderWay := by
    obtain ⟨x, -, rfl⟩ := List.mem_map.mp hy
    cases x.phase <;> simp [Phase.halt, Phase.UnderWay]
  have hends {x : Write} (hx : x ∈ w.writes)
      (hend : x.phase = .returned true ∨ x.phase = .stopped) :
      ∃ y ∈ w.writes.map fun x => { x with phase := x.phase.halt }, y.patch = x.patch ∧
        (y.phase = .returned true ∨ y.phase = .stopped) := by
    refine ⟨_, List.mem_map_of_mem hx, rfl, ?_⟩
    rcases hend with hend | hend <;> simp [hend, Phase.halt]
  have hreturned (y : Write) (hy : y ∈ w.writes.map fun x => { x with phase := x.phase.halt })
      (hphase : y.phase = .returned true) : y.patch ∈ log := by
    obtain ⟨x, hx, rfl⟩ := List.mem_map.mp hy
    refine h.returned x hx ?_
    cases hx : x.phase <;> simp_all [Phase.halt]
  by_cases hwriting : ∃ x ∈ w.writes, ∃ config written, x.phase = .writing config written
  · obtain ⟨x, hx, config, written, hphase⟩ := hwriting
    have hlength : written = (J.print config).length := by
      have hx := hwhole x hx
      rwa [hphase] at hx
    obtain ⟨hmerged, hfile⟩ := h.whole hx hphase hlength
    refine ⟨log ++ [x.patch], config, hmerged, fun _ => hfile, ?_, ?_, ?_, ?_⟩
    · exact fun y hy hy' => List.mem_append_left _ (hreturned y hy hy')
    · intro p hp
      rcases List.mem_append.mp hp with hp | hp
      · obtain ⟨y, hy, rfl, hend⟩ := h.logged p hp
        exact hends hy hend
      · obtain rfl := List.mem_singleton.mp hp
        exact ⟨_, List.mem_map_of_mem hx, rfl, .inr (by rw [hphase]; rfl)⟩
    · exact fun j k y z hj _ hy _ => absurd hy (hover y (List.mem_of_getElem? hj))
    · exact fun y hy => fits_of_not_underWay (hover y hy)
  · refine ⟨log, base, h.merged, fun _ => h.stored fun x hx config written hphase => ?_, hreturned,
      fun p hp => ?_, ?_, ?_⟩
    · exact hwriting ⟨x, hx, config, written, hphase⟩
    · obtain ⟨y, hy, rfl, hend⟩ := h.logged p hp
      exact hends hy hend
    · exact fun j k y z hj _ hy _ => absurd hy (hover y (List.mem_of_getElem? hj))
    · exact fun y hy => fits_of_not_underWay (hover y hy)

theorem step (hJ : J.Lawful) (h : Inv J before log base w) {e : Event} (hturn : InTurn J w e)
    (hs : Writes.step zero J w e = some w') : ∃ log base, Inv J before log base w' := by
  unfold Writes.step at hs
  cases e with
  | begin patch =>
    obtain rfl := Option.some.inj hs
    exact ⟨log, base, h.begin patch⟩
  | act i action =>
    obtain ⟨x, hx, hs⟩ := Option.bind_eq_some_iff.mp hs
    obtain ⟨⟨phase, file⟩, hact, hs⟩ := Option.bind_eq_some_iff.mp hs
    obtain rfl := Option.some.inj hs
    exact h.act hJ hx hact hturn
  | stop =>
    obtain rfl := Option.some.inj hs
    exact h.stop hturn

/-- The patches in the file name no key twice. -/
theorem one (h : Inv J before log base w) (hapart : w.writes.Pairwise Apart) {patch : Patch}
    (hx : x ∈ w.writes) (hpatch : x.patch = patch) {key : Key} {value : KeyValue}
    (hvalue : patch.get key = some value) :
    ∀ p ∈ log, p = patch ∨ p.get key = none := by
  intro p hp
  obtain ⟨y, hy, rfl, -⟩ := h.logged p hp
  by_cases hxy : x = y
  · subst hxy
    exact .inl hpatch
  · refine .inr ?_
    rcases hapart.forall hx hy hxy key with hnone | hnone
    · rw [hpatch, hvalue] at hnone
      cases hnone
    · exact hnone

theorem kept (hJ : J.Lawful) (h : Inv J before log base w) (hapart : w.writes.Pairwise Apart)
    (hover : ∀ x ∈ w.writes, ¬ x.phase.UnderWay) : Kept J before w := by
  have hstored : Stored J before log base w.file := by
    refine h.stored fun y hy config written hwriting => hover y hy ?_
    rw [hwriting]
    trivial
  have hload := load_stored hJ hstored h.merged
  have hnamed {x : Write} (hx : x ∈ w.writes) (hmem : x.patch ∈ log) (key : Key)
      (value : KeyValue) (hvalue : x.patch.get key = some value) :
      (load J true w.file).get key = value := by
    rw [hload]
    refine get_of_named h.merged hmem hvalue fun p hp => ?_
    rcases h.one hapart hx rfl hvalue p hp with rfl | hnone
    · exact .inr hvalue
    · exact .inl hnone
  refine ⟨fun x hx hphase => hnamed hx (h.returned x hx hphase), fun key hnone => ?_, ?_, ?_⟩
  · rw [hload]
    refine get_of_unnamed h.merged fun p hp => ?_
    obtain ⟨y, hy, rfl, hend⟩ := h.logged p hp
    exact hnone y hy (by rcases hend with hend | hend <;> simp [hend])
  · intro x hx hphase
    by_cases hmem : x.patch ∈ log
    · exact .inl (hnamed hx hmem)
    · refine .inr fun key hsome => ?_
      obtain ⟨value, hvalue⟩ := Option.isSome_iff_exists.mp hsome
      rw [hload]
      refine get_of_unnamed h.merged fun p hp => ?_
      rcases h.one hapart hx rfl hvalue p hp with rfl | hnone
      · exact absurd hp hmem
      · exact hnone
  · exact ⟨log, base, h.logged, h.merged, hstored⟩

end Inv

/-- **No settings write loses another**, in every run whose writes come in turn: once none is under
way, the file holds what they said. -/
theorem writes_kept {α : Type} (zero : α) {J : Codec Config α} (hJ : J.Lawful) {w₀ w : World α}
    {events : List Event} (hstart : (system zero J).start w₀)
    (hturn : (system zero J).Along (InTurn J) w₀ events)
    (hrun : (system zero J).exec w₀ events = some w) (hapart : w.writes.Pairwise Apart)
    (hover : ∀ x ∈ w.writes, ¬ x.phase.UnderWay) : Kept J w₀.file w := by
  have hinv : ∃ log base, Inv J w₀.file log base w₀ := by
    have hnil : w₀.writes = [] := hstart
    refine ⟨[], _, rfl, fun _ => rfl, ?_, ?_, ?_, ?_⟩ <;> simp [hnil]
  have hstep (s : World α) (e : Event) (s' : World α)
      (h : ∃ log base, Inv J w₀.file log base s) (hturn : InTurn J s e)
      (hs : (system zero J).next s e = some s') : ∃ log base, Inv J w₀.file log base s' := by
    obtain ⟨log, base, h⟩ := h
    exact h.step hJ hturn hs
  obtain ⟨log, base, h⟩ := (system zero J).exec_induction hstep hinv hturn hrun
  exact h.kept hJ hapart hover

/-! ## Two writes -/

def debugSettings : Config := { partyModeEnabled := true, logLevel := .debug }

def shownSettings : List Config :=
  [{}, { partyModeEnabled := true }, { logLevel := .debug }, debugSettings]

/-- Serde on some settings, and a sign of their own for the others. -/
def shownJson : Codec Config (UInt8 ⊕ Config) where
  print c := if c ∈ shownSettings then (pretty c).map .inl else [.inr c]
  read
    | [.inr c] => if c ∈ shownSettings then none else some c
    | text => shownSettings.find? fun c => (pretty c).map .inl = text

def zeroByte : UInt8 ⊕ Config := .inl 0

theorem shownJson_lawful : shownJson.Lawful := by
  intro c
  by_cases hc : c ∈ shownSettings
  · have hall : ∀ c ∈ shownSettings, shownJson.read (shownJson.print c) = some c := by
      decide +kernel
    exact hall c hc
  · simp [shownJson, hc]

def stored : World (UInt8 ⊕ Config) where
  file := some (shownJson.print {})

/-- Party Mode is switched on, the log is turned up, a port is refused, and the process stops. -/
def turnRun : List Event :=
  [.begin { partyModeEnabled := some true }, .begin { logLevel := some "debug" },
    .act 0 (.load true), .act 0 .merge, .act 0 (.create true), .act 0 (.write 4096), .act 0 .finish,
    .act 1 (.load true), .act 1 .merge, .act 1 (.create true), .act 1 (.write 100),
    .act 1 (.write 4096), .act 1 .finish, .begin { port := some 0 }, .act 2 (.load true),
    .act 2 .merge, .begin { webEnabled := some false }, .act 3 (.load true), .stop]

theorem writes_kept_turns :
    ∃ w, (system zeroByte shownJson).exec stored turnRun = some w ∧
      Kept shownJson stored.file w ∧ load shownJson true w.file = debugSettings := by
  have hrun : ((system zeroByte shownJson).exec stored turnRun).any (fun w =>
      load shownJson true w.file = debugSettings ∧ w.writes.Pairwise Apart ∧
      ∀ x ∈ w.writes, ¬ x.phase.UnderWay) := by
    decide +kernel
  have hturn : (system zeroByte shownJson).checked (fun w e => decide (InTurn shownJson w e)) stored
      turnRun = true := by
    decide +kernel
  obtain ⟨w, hexec, hend⟩ := (Option.any_eq_true _ _).mp hrun
  obtain ⟨hload, hapart, hover⟩ := of_decide_eq_true hend
  have halong := (system zeroByte shownJson).along_of_checked
    (fun _ _ h => of_decide_eq_true h) hturn
  have hstart : (system zeroByte shownJson).start stored := rfl
  exact ⟨w, hexec, writes_kept zeroByte shownJson_lawful hstart halong hexec hapart hover, hload⟩

/-- Both load before either writes. -/
def overlapRun : List Event :=
  [.begin { partyModeEnabled := some true }, .begin { logLevel := some "debug" },
    .act 0 (.load true), .act 1 (.load true), .act 0 .merge, .act 0 (.create true),
    .act 0 (.write 4096), .act 0 .finish, .act 1 .merge, .act 1 (.create true),
    .act 1 (.write 4096), .act 1 .finish]

/-- Both writes returned, and Party Mode is off. -/
theorem overlap_loses_party_mode :
    ∃ w, (system zeroByte shownJson).exec stored overlapRun = some w ∧
      w.writes.Pairwise Apart ∧ w.writes.map Write.phase = [.returned true, .returned true] ∧
      (load shownJson true w.file).partyModeEnabled = false ∧ ¬ Kept shownJson stored.file w := by
  have hrun : ((system zeroByte shownJson).exec stored overlapRun).any (fun w =>
      w.writes.Pairwise Apart ∧ w.writes.map Write.phase = [.returned true, .returned true] ∧
      (w.writes.map fun x => x.patch.get .partyModeEnabled) = [some (.flag true), none] ∧
      (load shownJson true w.file).partyModeEnabled = false) := by
    decide +kernel
  obtain ⟨w, hexec, hend⟩ := (Option.any_eq_true _ _).mp hrun
  obtain ⟨hapart, hphases, hpatches, hparty⟩ := of_decide_eq_true hend
  have hlost : ¬ Kept shownJson stored.file w := by
    intro hkept
    obtain ⟨x, rest, hwrites⟩ := List.exists_cons_of_ne_nil (l := w.writes) (by
      intro hnil
      rw [hnil] at hphases
      cases hphases)
    rw [hwrites, List.map_cons, List.cons.injEq] at hphases hpatches
    have hvalue := hkept.written x (by simp [hwrites]) hphases.1 .partyModeEnabled _ hpatches.1
    rw [Config.get, hparty] at hvalue
    cases hvalue
  exact ⟨w, hexec, hapart, hphases, hparty, hlost⟩

end Mbrc.Settings.Writes
