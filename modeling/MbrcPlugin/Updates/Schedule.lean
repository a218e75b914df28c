import Mathlib.Tactic.Linarith
import MbrcPlugin.Lib.Transition
import MbrcPlugin.Updates.Sessions

/-!
# How often updates are asked for

A check asks GitHub, whose limits the checks must stay under: an automatic one is carried out
only when it is due, after the interval of the settings or, while checks fail, after a delay that
doubles.  The user may ask for one at any time, or skip a version, which writes the same record.  In
every run whose records are saved, the checks keep these distances (`spaced`), and in any stretch of
time there are only as many automatic ones as fit (`rate_limited`).
-/

namespace Mbrc.Updates.Schedule

open Transition

/-! ## The checks -/

/-- A check that was carried out. -/
structure Made where
  time : Int
  failed : Bool
  forced : Bool
  deriving DecidableEq

structure World where
  file : Option UpdateState := none
  /-- The latest first. -/
  made : List Made := []

inductive Event where
  /-- A check, asked for by the user or not; the record may not be saved. -/
  | check (force : Bool) (now : Int) (reply : Option String → Except UpdateError Fetched)
    (saved : Bool)
  | skip (version : String) (saved : Bool)

/-- Whether a check came to ask anything. -/
def asked : Except UpdateError CheckOutcome → Bool
  | .ok .disabled | .ok .notDue => false
  | _ => true

section

variable {V : Type} [LinearOrder V] (L : Library V) (p : Preferences) (pluginVersion : String)

def step (w : World) : Event → World
  | .check force now reply saved =>
    let r := checkForUpdate L reply p pluginVersion force w.file now
    { file := if saved then r.2.or w.file else w.file
      made := if asked r.1 then ⟨now, !r.1.isOk, force⟩ :: w.made else w.made }
  | .skip version saved =>
    { w with
      file := if saved then some { UpdateState.load w.file with skippedVersion := some version }
        else w.file }

def system : System World Event where
  start w := w.made = [] ∧ (UpdateState.load w.file).consecutiveFailures = 0
  next w e := some (step L p pluginVersion w e)

/-- The record is saved, the clock goes on, and its times can be written. -/
def Regular (w : World) : Event → Prop
  | .check _ now _ saved => saved = true ∧ (∀ last, w.made.head? = some last → last.time ≤ now) ∧
      (L.showTime now).bind L.readTime = some now
  | .skip _ _ => True

end

/-! ## Distances -/

/-- How many of the latest checks have failed. -/
def streak (made : List Made) : Nat := (made.takeWhile Made.failed).length

/-- The distance after this many failures. -/
def distance (hours : Int) (failures : Nat) : Int :=
  ({ consecutiveFailures := failures } : UpdateState).wait hours

/-- The least one. -/
def leastDistance (hours : Int) : Int :=
  min (UpdateState.firstRetryMinutes * UpdateState.minute) (hours * UpdateState.hour)

/-- Automatic checks keep their distance from the check before, and the clock goes on. -/
def Spaced (hours : Int) : List Made → Prop
  | [] => True
  | [_] => True
  | next :: last :: earlier =>
    last.time ≤ next.time ∧
      (next.forced = false → distance hours (streak (last :: earlier)) ≤ next.time - last.time) ∧
      Spaced hours (last :: earlier)

/-- The automatic checks since a time. -/
def automatic (since : Int) (made : List Made) : List Made :=
  made.filter fun m => !m.forced && decide (since ≤ m.time)

theorem leastDistance_le (hours : Int) (failures : Nat) :
    leastDistance hours ≤ distance hours failures := by
  unfold leastDistance distance UpdateState.wait
  split
  · exact min_le_right _ _
  · refine min_le_min_right _ ?_
    have hpow : (1 : Int) ≤ 2 ^ (min (failures - 1) UpdateState.maxRetryDoublings) :=
      one_le_pow₀ (by decide)
    have hpos : (0 : Int) ≤ UpdateState.firstRetryMinutes := by decide
    have hminute : (0 : Int) ≤ UpdateState.minute := by decide
    exact mul_le_mul_of_nonneg_right (le_mul_of_one_le_right hpos hpow) hminute

/-- More failures than are counted make no difference. -/
theorem distance_min (hours : Int) (n : Nat) :
    distance hours (min n (2 ^ 32 - 1)) = distance hours n := by
  have hzero : min n (2 ^ 32 - 1) = 0 ↔ n = 0 := by omega
  have hcount : min (min n (2 ^ 32 - 1) - 1) UpdateState.maxRetryDoublings =
      min (n - 1) UpdateState.maxRetryDoublings := by
    unfold UpdateState.maxRetryDoublings
    omega
  simp only [distance, UpdateState.wait, hzero, hcount]

theorem time_le_head {hours : Int} {last : Made} {earlier : List Made}
    (h : Spaced hours (last :: earlier)) : ∀ m ∈ earlier, m.time ≤ last.time := by
  induction earlier generalizing last with
  | nil => exact fun m hm => by cases hm
  | cons m earlier ih =>
    obtain ⟨hle, -, hrest⟩ := h
    intro m' hm'
    rcases List.mem_cons.mp hm' with rfl | hm'
    · exact hle
    · exact (ih hrest m' hm').trans hle

/-- **No more than fit.** -/
theorem automatic_le {hours since : Int} (hnonneg : 0 ≤ leastDistance hours) {last : Made}
    {earlier : List Made} (h : Spaced hours (last :: earlier)) (hsince : since ≤ last.time) :
    (automatic since (last :: earlier)).length * leastDistance hours ≤
      last.time - since + leastDistance hours := by
  induction earlier generalizing last with
  | nil =>
    have hcount : ((automatic since [last]).length : Int) ≤ 1 := by
      exact_mod_cast List.length_filter_le _ _
    nlinarith
  | cons m earlier ih =>
    obtain ⟨hle, hgap, hrest⟩ := h
    by_cases hm : since ≤ m.time
    · have hrec := ih hrest hm
      by_cases hforced : last.forced = true
      · have hskip : automatic since (last :: m :: earlier) = automatic since (m :: earlier) :=
          List.filter_cons_of_neg (by simp [hforced])
        rw [hskip]
        linarith
      · have hcons : automatic since (last :: m :: earlier) =
            last :: automatic since (m :: earlier) :=
          List.filter_cons_of_pos (by simp [hforced, hsince])
        have hdistance := (leastDistance_le hours (streak (m :: earlier))).trans
          (hgap (by simpa using hforced))
        rw [hcons, List.length_cons]
        push_cast
        linarith
    · have hnone : automatic since (m :: earlier) = [] := by
        refine List.filter_eq_nil_iff.mpr fun m' hm' => ?_
        have hle' : m'.time ≤ m.time := by
          rcases List.mem_cons.mp hm' with rfl | hm'
          · exact le_rfl
          · exact time_le_head hrest m' hm'
        simp [show ¬ since ≤ m'.time by omega]
      have hcount : ((automatic since (last :: m :: earlier)).length : Int) ≤ 1 := by
        have hsplit : automatic since (last :: m :: earlier) =
            automatic since [last] ++ automatic since (m :: earlier) :=
          List.filter_append [last] (m :: earlier)
        rw [hsplit, hnone, List.append_nil]
        exact_mod_cast List.length_filter_le _ _
      nlinarith

/-! ## One check -/

section

variable {V : Type} [LinearOrder V] {L : Library V} {p : Preferences} {pluginVersion : String}

theorem run_ok {reply : Option String → Except UpdateError Fetched} {o : CheckOptions}
    {s s' : UpdateState} {now : Int} {outcome : CheckOutcome}
    (h : run L reply o s now = .ok (outcome, s')) :
    asked (.ok outcome) = true ∧ s'.lastCheck = L.showTime now := by
  simp only [run, Interaction.bind_eq_ok] at h
  obtain ⟨current, -, fetched, -, h⟩ := h
  cases fetched with
  | notModified =>
    obtain ⟨rfl, rfl⟩ := Prod.mk.inj (Except.ok.inj h)
    exact ⟨rfl, rfl⟩
  | release etag update =>
    simp only [Interaction.bind_eq_ok] at h
    obtain ⟨latest, -, h⟩ := h
    split at h
    · obtain ⟨rfl, rfl⟩ := Prod.mk.inj (Except.ok.inj h)
      exact ⟨rfl, rfl⟩
    split at h
    · obtain ⟨rfl, rfl⟩ := Prod.mk.inj (Except.ok.inj h)
      exact ⟨rfl, rfl⟩
    · obtain ⟨rfl, rfl⟩ := Prod.mk.inj (Except.ok.inj h)
      exact ⟨rfl, rfl⟩

/-- What a check leaves in the record: all as it was, or that it was carried out. -/
structure Recorded (o : CheckOptions) (s : UpdateState) (now : Int)
    (r : Except UpdateError CheckOutcome × UpdateState) : Prop where
  asked : asked r.1 = true
  due : o.force = true ∨ s.isDue L now o.intervalHours = true
  time : r.2.lastCheck = L.showTime now
  failures : r.2.consecutiveFailures =
    if r.1.isOk then 0 else min (s.consecutiveFailures + 1) (2 ^ 32 - 1)

theorem check_cases (reply : Option String → Except UpdateError Fetched) (o : CheckOptions)
    (s : UpdateState) (now : Int) :
    check L reply o s now = (.ok .notDue, s) ∨
      Recorded (L := L) o s now (check L reply o s now) := by
  unfold check
  split
  · exact .inl rfl
  next hdue =>
    right
    have hdue' : o.force = true ∨ s.isDue L now o.intervalHours = true := by
      cases hforce : o.force with
      | true => exact .inl rfl
      | false => exact .inr (by simpa [hforce] using hdue)
    split
    next outcome s' hrun =>
      obtain ⟨hasked, htime⟩ := run_ok hrun
      exact ⟨hasked, hdue', htime, rfl⟩
    next e hrun => exact ⟨rfl, hdue', rfl, rfl⟩

/-! ## Every run -/

variable (L p) in
/-- The record tells of the checks, and they keep their distances. -/
structure Inv (w : World) : Prop where
  failures : (UpdateState.load w.file).consecutiveFailures = min (streak w.made) (2 ^ 32 - 1)
  last : ∀ m, w.made.head? = some m →
    (UpdateState.load w.file).lastCheck.bind L.readTime = some m.time
  spaced : Spaced p.updateCheckIntervalHours w.made

theorem streak_cons (m : Made) (made : List Made) :
    streak (m :: made) = if m.failed = true then streak made + 1 else 0 := by
  unfold streak
  rw [List.takeWhile_cons]
  split <;> simp

omit [LinearOrder V] in
/-- A due check keeps its distance. -/
theorem distance_of_due {w : World} {now : Int} (hi : Inv L p w) {last : Made}
    (hlast : w.made.head? = some last) (hclock : last.time ≤ now)
    (hdue : (UpdateState.load w.file).isDue L now p.updateCheckIntervalHours = true) :
    distance p.updateCheckIntervalHours (streak w.made) ≤ now - last.time := by
  have hwait : (UpdateState.load w.file).wait p.updateCheckIntervalHours =
      distance p.updateCheckIntervalHours (streak w.made) := by
    rw [← distance_min, ← hi.failures]
    rfl
  rw [UpdateState.isDue, hi.last last hlast] at hdue
  simp only [Bool.or_eq_true, decide_eq_true_eq] at hdue
  rw [← hwait]
  exact hdue.resolve_left (by omega)

omit [LinearOrder V] in
/-- A record of a check that was carried out. -/
theorem inv_made {w : World} {m : Made} {s : UpdateState} (hi : Inv L p w)
    (htime : s.lastCheck.bind L.readTime = some m.time)
    (hfailures : s.consecutiveFailures = if m.failed = true then
      min ((UpdateState.load w.file).consecutiveFailures + 1) (2 ^ 32 - 1) else 0)
    (hclock : ∀ last, w.made.head? = some last → last.time ≤ m.time)
    (hdue : m.forced = false →
      (UpdateState.load w.file).isDue L m.time p.updateCheckIntervalHours = true) :
    Inv L p { file := some s, made := m :: w.made } := by
  refine ⟨?_, ?_, ?_⟩
  · show s.consecutiveFailures = _
    rw [hfailures, streak_cons, hi.failures]
    split <;> omega
  · intro m' hm'
    obtain rfl := Option.some.inj hm'
    exact htime
  · cases hmade : w.made with
    | nil => trivial
    | cons last earlier =>
      have hhead : w.made.head? = some last := by rw [hmade]; rfl
      refine ⟨hclock last hhead, fun hauto => ?_, hmade ▸ hi.spaced⟩
      rw [← hmade]
      exact distance_of_due hi hhead (hclock last hhead) (hdue hauto)

theorem inv_check {w : World} {force : Bool} {now : Int}
    {reply : Option String → Except UpdateError Fetched} {saved : Bool} (hi : Inv L p w)
    (hr : Regular L w (.check force now reply saved)) :
    Inv L p (step L p pluginVersion w (.check force now reply saved)) := by
  obtain ⟨rfl, hclock, htime⟩ := hr
  by_cases hdisabled : (!p.updateCheckEnabled && !force) = true
  · simp only [step, checkForUpdate, hdisabled, if_true, asked]
    exact hi
  simp only [step, checkForUpdate, hdisabled, if_true]
  rcases check_cases (L := L) reply (checkOptions L p pluginVersion force)
    (UpdateState.load w.file) now with hnot | hmade
  · rw [hnot]
    exact ⟨hi.failures, hi.last, hi.spaced⟩
  generalize check L reply (checkOptions L p pluginVersion force) (UpdateState.load w.file) now = r
    at hmade
  obtain ⟨hasked, hdue, hlast, hfailures⟩ := hmade
  simp only [Bool.false_eq_true, if_false, hasked, if_true, Option.some_or]
  refine inv_made hi (by rw [hlast]; exact htime) ?_ hclock fun hauto => ?_
  · rw [hfailures]
    cases r.1 <;> rfl
  · have hauto' : (checkOptions L p pluginVersion force).force = false := hauto
    rw [hauto'] at hdue
    exact hdue.resolve_left Bool.false_ne_true

theorem inv_step {w : World} {e : Event} (hi : Inv L p w) (hr : Regular L w e) :
    Inv L p (step L p pluginVersion w e) := by
  cases e with
  | check force now reply saved => exact inv_check hi hr
  | skip version saved =>
    cases saved with
    | true => exact ⟨hi.failures, hi.last, hi.spaced⟩
    | false => exact ⟨hi.failures, hi.last, hi.spaced⟩

/-- **The checks keep their distances**, in every run whose records are saved. -/
theorem inv_run {w₀ w : World} {events : List Event}
    (h₀ : (system L p pluginVersion).start w₀)
    (hr : (system L p pluginVersion).Along (Regular L) w₀ events)
    (he : (system L p pluginVersion).exec w₀ events = some w) : Inv L p w := by
  have hstep : ∀ w e w', Inv L p w → Regular L w e →
      (system L p pluginVersion).next w e = some w' → Inv L p w' := by
    intro w e w' hi hr hn
    obtain rfl := Option.some.inj hn
    exact inv_step hi hr
  refine (system L p pluginVersion).exec_induction hstep ⟨?_, ?_, ?_⟩ hr he
  · rw [h₀.1, h₀.2]
    rfl
  · intro m hm
    rw [h₀.1] at hm
    cases hm
  · rw [h₀.1]
    trivial

/-- **Never too often.**  In every run whose records are saved: an automatic check is at least the
distance of the failures so far away from the check before it, and from any time until the last
check there are at most as many automatic ones as fit. -/
theorem rate_limited (hhours : 0 ≤ p.updateCheckIntervalHours) {w₀ w : World} {events : List Event}
    (h₀ : (system L p pluginVersion).start w₀)
    (hr : (system L p pluginVersion).Along (Regular L) w₀ events)
    (he : (system L p pluginVersion).exec w₀ events = some w) :
    Spaced p.updateCheckIntervalHours w.made ∧
      ∀ since last, w.made.head? = some last → since ≤ last.time →
        (automatic since w.made).length * leastDistance p.updateCheckIntervalHours ≤
          last.time - since + leastDistance p.updateCheckIntervalHours := by
  have hspaced := (inv_run h₀ hr he).spaced
  refine ⟨hspaced, fun since last hlast hsince => ?_⟩
  have hnonneg : 0 ≤ leastDistance p.updateCheckIntervalHours :=
    le_min (by decide) (mul_nonneg hhours (by decide))
  cases hmade : w.made with
  | nil =>
    rw [hmade] at hlast
    cases hlast
  | cons m earlier =>
    rw [hmade] at hlast hspaced
    obtain rfl := Option.some.inj hlast
    exact automatic_le hnonneg hspaced hsince

end

/-! ## A network that is down -/

/-- Four times and their texts. -/
def times : List (String × Int) :=
  [("00:00", 0), ("00:15", 15 * UpdateState.minute), ("00:20", 20 * UpdateState.minute),
    ("00:45", 45 * UpdateState.minute)]

def fourTimes : Library Nat :=
  { twoReleases with
    readTime := fun text => (times.find? fun t => t.1 = text).map Prod.snd
    showTime := fun time => (times.find? fun t => t.2 = time).map Prod.fst }

def daily : Preferences where
  updateCheckEnabled := true
  updateChannel := .stable
  updateCheckIntervalHours := 24

instance (w : World) (e : Event) : Decidable (Regular fourTimes w e) :=
  match e with
  | .check _ now _ saved => inferInstanceAs (Decidable (saved = true ∧
      (∀ last ∈ w.made.head?, last.time ≤ now) ∧
      (fourTimes.showTime now).bind fourTimes.readTime = some now))
  | .skip _ _ => inferInstanceAs (Decidable True)

def timesOut (now : Int) : Event := .check false now (fun _ => .error (.network "timeout")) true

/-- After a quarter of an hour, and half an hour more; five minutes are not enough. -/
theorem rate_limited_timesOut : ∃ w : World,
    w.made.map Made.time = [45 * UpdateState.minute, 15 * UpdateState.minute, 0] ∧
    Spaced 24 w.made ∧ (automatic 0 w.made).length * leastDistance 24 ≤
      45 * UpdateState.minute + leastDistance 24 := by
  have hrun : ((system fourTimes daily "1.0.0").exec {} (times.map fun t => timesOut t.2)).any
      (fun w => w.made.map Made.time =
        [45 * UpdateState.minute, 15 * UpdateState.minute, 0]) = true := by
    decide +kernel
  have hregular : (system fourTimes daily "1.0.0").checked
      (fun w e => decide (Regular fourTimes w e)) {} (times.map fun t => timesOut t.2) = true := by
    decide +kernel
  obtain ⟨w, hw, hmade⟩ := (Option.any_eq_true _ _).mp hrun
  have htimes := of_decide_eq_true hmade
  have halong := (system fourTimes daily "1.0.0").along_of_checked (C := Regular fourTimes)
    (fun _ _ h => of_decide_eq_true h) hregular
  obtain ⟨hspaced, hcount⟩ := rate_limited (p := daily) (by decide) ⟨rfl, rfl⟩ halong hw
  refine ⟨w, htimes, hspaced, ?_⟩
  cases hlist : w.made with
  | nil =>
    rw [hlist] at htimes
    cases htimes
  | cons last earlier =>
    have htime : last.time = 45 * UpdateState.minute := by
      rw [hlist] at htimes
      exact (List.cons.inj htimes).1
    have hlast : w.made.head? = some last := by rw [hlist]; rfl
    have hall := hcount 0 last hlast (by rw [htime]; decide)
    rw [htime, sub_zero, hlist] at hall
    exact hall

end Mbrc.Updates.Schedule
