import MbrcPlugin.Diagnostics.RollingLog

/-!
# The window of a capture

Lines are written, the log is rolled and its generations are compressed, MusicBee is restarted, and
one capture begins and ends somewhere in between.  Where no generation is rolled while another one
is being compressed and the clock is not behind the start of the capture, the bundle has the whole
window exactly when the log was not rolled, or is still shorter than it was when the capture began
(`bundle_whole_iff`).
-/

namespace Mbrc.LogWindow

open RollingLog

/-- A capture, with the lines of its window and the rotations since it began. -/
structure Capture where
  startedUnixMs : Int
  logOffset : Nat
  running : Bool := true
  window : List Line := []
  rolls : Nat := 0
  /-- Those of the rotations that fell between its start and its stop. -/
  rollsDuring : Nat := 0

structure St where
  storage : Storage
  /-- What the writer has counted. -/
  written : Nat
  /-- The threads that have yet to compress the rolled file, and then to remove it. -/
  compressing : Nat := 0
  compressed : Nat := 0
  capture : Option Capture := none

inductive Event where
  /-- `write_line`. -/
  | line (l : Line)
  | gzip (modified : Option Int)
  | cleared
  /-- MusicBee is closed and opened, and the writer with it. -/
  | restart
  | start (nowUnixMs : Int)
  | stop

def Capture.saw (c : Capture) (l : Line) : Capture :=
  if c.running then { c with window := c.window ++ [l] } else c

def Capture.sawRotation (c : Capture) : Capture :=
  { c with
    rolls := c.rolls + 1
    rollsDuring := if c.running then c.rollsDuring + 1 else c.rollsDuring }

namespace St

variable (s : St)

def append (l : Line) : St :=
  { s with
    storage := { s.storage with active := s.storage.active ++ [l] }
    written := s.written + l.bytes.length
    capture := s.capture.map (·.saw l) }

def rotate : St :=
  { s with
    storage := s.storage.rotate
    written := 0
    compressing := s.compressing + 1
    capture := s.capture.map Capture.sawRotation }

/-- The rolled file is compressed. -/
def zipped (modified : Option Int) : St :=
  { s with
    storage := s.storage.gzip modified
    compressing := s.compressing - 1
    compressed := s.compressed + 1 }

/-- The file that was compressed is removed. -/
def cleared : St :=
  { s with
    storage := { s.storage with rolling := none }
    compressed := s.compressed - 1 }

/-- No generation is being compressed. -/
def Idle : Prop := s.compressing = 0 ∧ s.compressed = 0

end St

section

variable (maxBytes : Nat)

/-- The file is rolled once this line is written. -/
def rollsAfter (s : St) (l : Line) : Bool :=
  decide (maxBytes ≤ s.written + l.bytes.length) && l.bytes.getLast? == some newline

def writeLine (s : St) (l : Line) : St :=
  if rollsAfter maxBytes s l then (s.append l).rotate else s.append l

/-- `open`: the threads of the process that was closed are gone. -/
def reopen (s : St) : St :=
  let s := { s with compressing := 0, compressed := 0, written := s.storage.logLen }
  if maxBytes ≤ s.written then s.rotate else s

def step (s : St) : Event → Option St
  | .line l => some (writeLine maxBytes s l)
  | .gzip modified =>
    if s.compressing = 0 then none else some (s.zipped modified)
  | .cleared => if s.compressed = 0 then none else some s.cleared
  | .restart => some (reopen maxBytes s)
  | .start nowUnixMs =>
    match s.capture with
    | some _ => none
    | none => some { s with
        capture := some { startedUnixMs := nowUnixMs, logOffset := s.storage.logLen } }
  | .stop =>
    match s.capture with
    | some c =>
      if c.running then some { s with capture := some { c with running := false } } else none
    | none => none

/-- Any logs, before the capture. -/
def system : Transition.System St Event where
  start s := s.Idle ∧ s.capture = none
  next := step maxBytes

/-- A file is rolled while no other is being compressed, and is compressed at a time that is not
before the capture began. -/
def InTurn (s : St) : Event → Prop
  | .line l => rollsAfter maxBytes s l = true → s.Idle
  | .restart => s.Idle
  | .gzip modified => ∀ c ∈ s.capture, touchedSince c.startedUnixMs ⟨[], modified⟩ = true
  | _ => True

/-! ## What the bundle should have -/

/-- A line is in the bundle. -/
def Held (b : Bundle) (l : Line) : Prop :=
  l.bytes <:+: b.captureLog ∨ ∃ source ∈ b.logs, l ∈ source.2.lines

/-- The end of a file does not begin inside a line. -/
def BeginsAtLine (file rest : List UInt8) : Prop :=
  rest = [] ∨ ∃ before, before ++ rest = file ∧ (before = [] ∨ before.getLast? = some newline)

/-- The bundle of a capture. -/
def bundleOf (s : St) (c : Capture) : Bundle := write s.storage c.logOffset c.startedUnixMs

/-- The bundle has every line of the window, begins at a line and says where the log was rolled. -/
structure Whole (s : St) (c : Capture) : Prop where
  lines : ∀ l ∈ c.window, Held (bundleOf s c) l
  begins : BeginsAtLine (bytesOf s.storage.active) (bundleOf s c).captureLog
  noted : 0 < c.rollsDuring → (bundleOf s c).note = some rotatedNote

/-- The file was not rolled, or is shorter than it was, or was rolled after the stop only and has a
line that begins, or its end, where the capture began. -/
def OffsetHolds (s : St) (c : Capture) : Prop :=
  c.rolls = 0 ∨ s.storage.logLen < c.logOffset ∨
    c.rollsDuring = 0 ∧
      BeginsAtLine (bytesOf s.storage.active) ((bytesOf s.storage.active).drop c.logOffset)

end

/-! ## Where a line of the window is -/

/-- A line is in the file that is being compressed or in a generation the bundle takes. -/
def Aside (s : St) (c : Capture) (l : Line) : Prop :=
  (s.compressing = 1 ∧ ∃ lines, s.storage.rolling = some lines ∧ l ∈ lines) ∨
    ∃ n file, 1 ≤ n ∧ n ≤ c.rolls ∧ s.storage.rolled n = some file ∧
      touchedSince c.startedUnixMs file = true ∧ l ∈ file.lines

/-- The logs of a capture that was rolled no more often than generations are kept. -/
structure Tracked (s : St) (c : Capture) : Prop where
  during_le : c.rollsDuring ≤ c.rolls
  during_eq : c.running = true → c.rollsDuring = c.rolls
  unrolled : c.rolls = 0 → ∃ before after, s.storage.active = before ++ c.window ++ after ∧
    (bytesOf before).length = c.logOffset ∧ (c.running = true → after = [])
  kept : ∀ l ∈ c.window, l ∈ s.storage.active ∨ Aside s c l
  rolledLater : 0 < c.rolls → c.rollsDuring = 0 → ∀ l ∈ c.window, Aside s c l

structure Inv (s : St) : Prop where
  one : s.compressing + s.compressed ≤ 1
  free : s.compressing = 1 → s.storage.rolled 1 = none
  tracked : ∀ c ∈ s.capture, c.rolls ≤ keepGenerations → Tracked s c

theorem Aside.append {s : St} {c : Capture} {l : Line} (h : Aside s c l) (m : Line) :
    Aside (s.append m) (c.saw m) l := by
  unfold Capture.saw
  split <;> exact h

theorem Tracked.append {s : St} {c : Capture} (h : Tracked s c) (m : Line) :
    Tracked (s.append m) (c.saw m) := by
  have hrunning : (c.saw m).running = c.running := by unfold Capture.saw; split <;> rfl
  have hrolls : (c.saw m).rolls = c.rolls := by unfold Capture.saw; split <;> rfl
  have hduring : (c.saw m).rollsDuring = c.rollsDuring := by unfold Capture.saw; split <;> rfl
  have hoffset : (c.saw m).logOffset = c.logOffset := by unfold Capture.saw; split <;> rfl
  have hold : ∀ l ∈ c.window, l ∈ (s.append m).storage.active ∨ Aside (s.append m) (c.saw m) l :=
    fun l hl => (h.kept l hl).imp (List.mem_append_left _) (·.append m)
  constructor
  · rw [hduring, hrolls]
    exact h.during_le
  · rw [hrunning, hduring, hrolls]
    exact h.during_eq
  · rw [hrolls, hoffset, hrunning]
    intro hzero
    obtain ⟨before, after, hactive, hlength, hafter⟩ := h.unrolled hzero
    cases hrun : c.running with
    | true =>
      refine ⟨before, [], ?_, hlength, fun _ => rfl⟩
      simp [St.append, Capture.saw, hrun, hactive, hafter hrun]
    | false =>
      refine ⟨before, after ++ [m], ?_, hlength, fun h => by cases h⟩
      simp [St.append, Capture.saw, hrun, hactive]
  · intro l hl
    cases hrun : c.running with
    | true =>
      rw [Capture.saw, if_pos hrun] at hl
      rcases List.mem_append.mp hl with hl | hl
      · exact hold l hl
      · exact .inl (List.mem_append_right _ hl)
    | false =>
      rw [Capture.saw, hrun] at hl
      exact hold l hl
  · rw [hrolls, hduring]
    intro hpos hzero l hl
    cases hrun : c.running with
    | true =>
      have := h.during_eq hrun
      omega
    | false =>
      rw [Capture.saw, hrun] at hl
      exact (h.rolledLater hpos hzero l hl).append m

theorem Inv.append {s : St} (h : Inv s) (m : Line) : Inv (s.append m) := by
  refine ⟨h.one, h.free, fun c hc hle => ?_⟩
  obtain ⟨c, hbefore, rfl⟩ := Option.map_eq_some_iff.mp hc
  refine (h.tracked c hbefore ?_).append m
  unfold Capture.saw at hle
  split at hle <;> exact hle

/-! ## Rolling -/

/-- What was active is being compressed, and the generations are one further. -/
theorem rotate_aside {s : St} {c : Capture} (hidle : s.Idle) (hle : c.rolls + 1 ≤ keepGenerations)
    {l : Line} (h : l ∈ s.storage.active ∨ Aside s c l) : Aside s.rotate c.sawRotation l := by
  rcases h with hactive | ⟨hone, -⟩ | ⟨n, file, hfirst, hlast, hfile, htouched, hl⟩
  · left
    have hcount : s.rotate.compressing = 1 := by
      simp [St.rotate, hidle.1]
    exact ⟨hcount, s.storage.active, rfl, hactive⟩
  · rw [hidle.1] at hone
    cases hone
  · right
    refine ⟨n + 1, file, by omega, Nat.succ_le_succ hlast, ?_, htouched, hl⟩
    have hmoved := s.storage.rotate_rolled (n := n + 1) (by omega) (by omega)
    rw [if_neg (by omega), Nat.add_sub_cancel, hfile] at hmoved
    exact hmoved

theorem Tracked.rotate {s : St} {c : Capture} (hidle : s.Idle)
    (hle : c.rolls + 1 ≤ keepGenerations) (h : Tracked s c) :
    Tracked s.rotate c.sawRotation := by
  constructor
  · have := h.during_le
    change (if c.running then c.rollsDuring + 1 else c.rollsDuring) ≤ c.rolls + 1
    split <;> omega
  · intro hrun
    have hrun' : c.running = true := hrun
    simp [Capture.sawRotation, hrun', h.during_eq hrun']
  · intro hzero
    cases hzero
  · exact fun l hl => .inr (rotate_aside hidle hle (h.kept l hl))
  · exact fun _ _ l hl => rotate_aside hidle hle (h.kept l hl)

theorem Inv.rotate {s : St} (hidle : s.Idle) (h : Inv s) : Inv s.rotate := by
  constructor
  · have := hidle.1
    have := hidle.2
    change s.compressing + 1 + s.compressed ≤ 1
    omega
  · intro _
    exact s.storage.rotate_rolled (n := 1) le_rfl (by decide)
  · intro c hc hle
    obtain ⟨c, hbefore, rfl⟩ := Option.map_eq_some_iff.mp hc
    exact (h.tracked c hbefore (Nat.le_of_succ_le hle)).rotate hidle hle

/-! ## Compressing -/

theorem Aside.zipped {s : St} {c : Capture} {l : Line} {modified : Option Int}
    (hfree : s.storage.rolled 1 = none) (hrolls : 0 < c.rolls)
    (htime : touchedSince c.startedUnixMs ⟨[], modified⟩ = true) (h : Aside s c l) :
    Aside (s.zipped modified) c l := by
  right
  rcases h with ⟨-, lines, hrolling, hl⟩ | ⟨n, file, hfirst, hlast, hfile, htouched, hl⟩
  · refine ⟨1, ⟨lines, modified⟩, le_rfl, hrolls, ?_, htime, hl⟩
    simp [St.zipped, Storage.gzip, hrolling]
  · have hne : n ≠ 1 := by
      rintro rfl
      rw [hfree] at hfile
      cases hfile
    refine ⟨n, file, hfirst, hlast, ?_, htouched, hl⟩
    change (s.storage.gzip modified).rolled n = some file
    unfold Storage.gzip
    split
    · exact hfile
    · exact (Function.update_of_ne hne _ _).trans hfile

/-- A line that has not been rolled is still active. -/
theorem Tracked.mem_active {s : St} {c : Capture} (h : Tracked s c) (hzero : c.rolls = 0) {l : Line}
    (hl : l ∈ c.window) : l ∈ s.storage.active := by
  obtain ⟨before, after, hactive, -, -⟩ := h.unrolled hzero
  rw [hactive]
  exact List.mem_append_left _ (List.mem_append_right _ hl)

theorem gzip_active (s : Storage) (modified : Option Int) :
    (s.gzip modified).active = s.active := by
  unfold Storage.gzip
  split <;> rfl

theorem Inv.zipped {s : St} {modified : Option Int} (h : Inv s) (hpos : s.compressing ≠ 0)
    (htime : ∀ c ∈ s.capture, touchedSince c.startedUnixMs ⟨[], modified⟩ = true) :
    Inv (s.zipped modified) := by
  have hone : s.compressing = 1 := by
    have := h.one
    omega
  refine ⟨?_, ?_, fun c hc hle => ?_⟩
  · have := h.one
    change s.compressing - 1 + (s.compressed + 1) ≤ 1
    omega
  · intro hagain
    change s.compressing - 1 = 1 at hagain
    omega
  · have hold := h.tracked c hc hle
    have hactive : (s.zipped modified).storage.active = s.storage.active :=
      gzip_active _ _
    have haside : 0 < c.rolls → ∀ l, Aside s c l → Aside (s.zipped modified) c l :=
      fun hrolls _ => Aside.zipped (h.free hone) hrolls (htime c hc)
    refine ⟨hold.during_le, hold.during_eq, ?_, fun l hl => ?_,
      fun hrolls hzero l hl => haside hrolls l (hold.rolledLater hrolls hzero l hl)⟩
    · rw [hactive]
      exact hold.unrolled
    · rw [hactive]
      rcases Nat.eq_zero_or_pos c.rolls with hzero | hrolls
      · exact .inl (hold.mem_active hzero hl)
      · exact (hold.kept l hl).imp_right (haside hrolls l)

theorem Inv.cleared {s : St} (h : Inv s) (hpos : s.compressed ≠ 0) : Inv (s.cleared) := by
  have hnone : s.compressing = 0 := by
    have := h.one
    omega
  refine ⟨?_, ?_, fun c hc hle => ?_⟩
  · have := h.one
    change s.compressing + (s.compressed - 1) ≤ 1
    omega
  · intro hone
    change s.compressing = 1 at hone
    omega
  · have hold := h.tracked c hc hle
    have haside : ∀ l, Aside s c l → Aside (s.cleared) c l := by
      rintro l (⟨hone, -⟩ | hrolled)
      · omega
      · exact .inr hrolled
    exact ⟨hold.during_le, hold.during_eq, hold.unrolled,
      fun l hl => (hold.kept l hl).imp_right (haside l),
      fun hrolls hzero l hl => haside l (hold.rolledLater hrolls hzero l hl)⟩

/-! ## Steps and runs -/

/-- **A step** in turn keeps the lines of the window in place. -/
theorem Inv.step {maxBytes : Nat} {s s' : St} {e : Event} (h : Inv s) (hturn : InTurn maxBytes s e)
    (hs : LogWindow.step maxBytes s e = some s') : Inv s' := by
  cases e with
  | line l =>
    obtain rfl := Option.some.inj hs
    unfold writeLine
    split
    · rename_i hrolls
      exact (h.append l).rotate (hturn hrolls)
    · exact h.append l
  | gzip modified =>
    simp only [LogWindow.step] at hs
    split at hs
    · cases hs
    · rename_i hpos
      obtain rfl := Option.some.inj hs
      exact h.zipped hpos hturn
  | cleared =>
    simp only [LogWindow.step] at hs
    split at hs
    · cases hs
    · rename_i hpos
      obtain rfl := Option.some.inj hs
      exact h.cleared hpos
  | restart =>
    obtain rfl := Option.some.inj hs
    have hidle : s.Idle := hturn
    have hopen : Inv { s with compressing := 0, compressed := 0, written := s.storage.logLen } := by
      refine ⟨by simp, by simp, fun c hc hle => ?_⟩
      have hold := h.tracked c hc hle
      have haside : ∀ l, Aside s c l → Aside { s with
          compressing := 0, compressed := 0, written := s.storage.logLen } c l := by
        rintro l (⟨hone, -⟩ | hrolled)
        · rw [hidle.1] at hone
          cases hone
        · exact .inr hrolled
      exact ⟨hold.during_le, hold.during_eq, hold.unrolled,
        fun l hl => (hold.kept l hl).imp_right (haside l),
        fun hrolls hzero l hl => haside l (hold.rolledLater hrolls hzero l hl)⟩
    unfold reopen
    dsimp only
    split
    · exact hopen.rotate ⟨rfl, rfl⟩
    · exact hopen
  | start now =>
    simp only [LogWindow.step] at hs
    split at hs
    · cases hs
    · obtain rfl := Option.some.inj hs
      refine ⟨h.one, h.free, fun c hc _ => ?_⟩
      obtain rfl := Option.some.inj hc
      exact ⟨le_rfl, fun _ => rfl, fun _ => ⟨s.storage.active, [], by simp, rfl, fun _ => rfl⟩,
        fun l hl => absurd hl (List.not_mem_nil), fun hpos => absurd hpos (Nat.lt_irrefl 0)⟩
  | stop =>
    simp only [LogWindow.step] at hs
    split at hs
    · rename_i c hc
      split at hs
      · obtain rfl := Option.some.inj hs
        refine ⟨h.one, h.free, fun c' hc' hle => ?_⟩
        obtain rfl := Option.some.inj hc'
        have hold := h.tracked c hc hle
        refine ⟨hold.during_le, (fun h => by cases h), fun hzero => ?_, hold.kept, hold.rolledLater⟩
        obtain ⟨before, after, hactive, hlength, -⟩ := hold.unrolled hzero
        exact ⟨before, after, hactive, hlength, (fun h => by cases h)⟩
      · cases hs
    · cases hs

/-- **A run** in turn keeps the lines of the window in place. -/
theorem Inv.run {maxBytes : Nat} {s₀ s : St} {events : List Event}
    (hstart : (system maxBytes).start s₀)
    (hturn : (system maxBytes).Along (InTurn maxBytes) s₀ events)
    (hrun : (system maxBytes).exec s₀ events = some s) : Inv s := by
  refine (system maxBytes).exec_induction (fun _ _ _ h hturn hs => h.step hturn hs) ?_ hturn hrun
  obtain ⟨⟨hcompressing, hcompressed⟩, hcapture⟩ := hstart
  refine ⟨by omega, fun hone => by omega, fun c hc => ?_⟩
  rw [hcapture] at hc
  cases hc

/-! ## The bundle -/

theorem held_of_aside {s : St} {c : Capture} (hidle : s.Idle) (hle : c.rolls ≤ keepGenerations)
    {l : Line} (h : Aside s c l) : Held (bundleOf s c) l := by
  rcases h with ⟨hone, -⟩ | ⟨n, file, hfirst, hlast, hfile, htouched, hl⟩
  · rw [hidle.1] at hone
    cases hone
  · exact .inr ⟨_, mem_logs hfirst (hlast.trans hle) hfile htouched c.logOffset, hl⟩

/-- A log that was not rolled has the window from the offset on. -/
theorem whole_of_unrolled {s : St} {c : Capture} (h : Tracked s c) (hzero : c.rolls = 0) :
    Whole s c := by
  obtain ⟨before, after, hactive, hlength, -⟩ := h.unrolled hzero
  have hbytes : bytesOf s.storage.active = bytesOf before ++ bytesOf (c.window ++ after) := by
    rw [hactive, List.append_assoc, bytesOf_append]
  have hlog : (bundleOf s c).captureLog = bytesOf (c.window ++ after) := by
    have hle : c.logOffset ≤ s.storage.logLen := by
      rw [Storage.logLen, hbytes, List.length_append]
      omega
    rw [bundleOf, (write_of_le hle _).1, hbytes, ← hlength, List.drop_left]
  refine ⟨fun l hl => .inl ?_, .inr ⟨bytesOf before, ?_, ?_⟩, fun hpos => ?_⟩
  · rw [hlog]
    exact infix_bytesOf (List.mem_append_left _ hl)
  · rw [hlog, hbytes]
  · by_cases hnil : bytesOf before = []
    · exact .inl hnil
    · exact .inr (getLast?_bytesOf hnil)
  · have := h.during_le
    omega

/-- A log that is shorter than it was is there whole. -/
theorem whole_of_shorter {s : St} {c : Capture} (h : Tracked s c) (hidle : s.Idle)
    (hle : c.rolls ≤ keepGenerations) (hlt : s.storage.logLen < c.logOffset) : Whole s c := by
  obtain ⟨hlog, hnote⟩ := write_of_lt hlt c.startedUnixMs
  refine ⟨fun l hl => ?_, .inr ⟨[], ?_, .inl rfl⟩, fun _ => hnote⟩
  · rcases h.kept l hl with hactive | haside
    · left
      rw [bundleOf, hlog]
      exact infix_bytesOf hactive
    · exact held_of_aside hidle hle haside
  · rw [bundleOf, hlog, List.nil_append]

/-- **The bundle of a capture** has its whole window exactly where the offset still holds. -/
theorem Tracked.whole_iff {s : St} {c : Capture} (h : Tracked s c) (hidle : s.Idle)
    (hle : c.rolls ≤ keepGenerations) : Whole s c ↔ OffsetHolds s c := by
  constructor
  · intro hwhole
    by_cases hlt : s.storage.logLen < c.logOffset
    · exact .inr (.inl hlt)
    · obtain ⟨hlog, hnote⟩ := write_of_le (Nat.not_lt.mp hlt) c.startedUnixMs
      have hduring : c.rollsDuring = 0 := by
        by_contra hne
        have hnoted := hwhole.noted (Nat.pos_of_ne_zero hne)
        rw [bundleOf, hnote] at hnoted
        cases hnoted
      have hbegins := hwhole.begins
      rw [bundleOf, hlog] at hbegins
      exact .inr (.inr ⟨hduring, hbegins⟩)
  · rintro (hzero | hlt | ⟨hduring, hbegins⟩)
    · exact whole_of_unrolled h hzero
    · exact whole_of_shorter h hidle hle hlt
    · rcases Nat.eq_zero_or_pos c.rolls with hzero | hpos
      · exact whole_of_unrolled h hzero
      · by_cases hlt : s.storage.logLen < c.logOffset
        · exact whole_of_shorter h hidle hle hlt
        · obtain ⟨hlog, -⟩ := write_of_le (Nat.not_lt.mp hlt) c.startedUnixMs
          refine ⟨fun l hl => held_of_aside hidle hle (h.rolledLater hpos hduring l hl), ?_,
            fun hpos => by omega⟩
          rw [bundleOf, hlog]
          exact hbegins

/-- **A bundle has its whole window** exactly if the log was not rolled since the capture began, or
is shorter than it was then, or was rolled after the stop alone and has a line begin there; where no
generation is rolled while another is being compressed and the clock is not set back. -/
theorem bundle_whole_iff {maxBytes : Nat} {s₀ s : St} {events : List Event} {c : Capture}
    (hstart : (system maxBytes).start s₀)
    (hturn : (system maxBytes).Along (InTurn maxBytes) s₀ events)
    (hrun : (system maxBytes).exec s₀ events = some s) (hcapture : s.capture = some c)
    (hidle : s.Idle) (hle : c.rolls ≤ keepGenerations) : Whole s c ↔ OffsetHolds s c :=
  ((Inv.run hstart hturn hrun).tracked c hcapture hle).whole_iff hidle hle

/-! ## A capture that began early in the log -/

def lineOf (bytes : List UInt8) : Line := ⟨bytes ++ [newline], by simp⟩

/-- No log yet. -/
def fresh : St where
  storage := { active := [], rolled := fun _ => none, rolling := none, beside := fun _ => none }
  written := 0

def firstLine : Line := lineOf [105, 110, 102, 111]

def lastLine : Line := lineOf [97, 98, 99, 100, 101, 102]

/-- Enough to roll the log. -/
def longLine (length : Nat) : Line := lineOf (List.replicate length 65)

/-- The log is rolled during the capture, and another line is written. -/
def captured (length : Nat) (last : Line) : List Event :=
  [.line firstLine, .start 1000, .line (longLine length), .gzip (some 2000), .cleared, .line last,
    .stop]

instance (s : St) : Decidable s.Idle := by
  unfold St.Idle
  infer_instance

instance (maxBytes : Nat) (s : St) (e : Event) : Decidable (InTurn maxBytes s e) := by
  unfold InTurn
  split <;> infer_instance

/-- A log that is rolled and shorter afterwards. -/
theorem bundle_whole_of_shorter :
    ∃ s c, (system 8).exec fresh (captured 7 (lineOf [])) = some s ∧ s.capture = some c ∧
      c.rollsDuring = 1 ∧ Whole s c := by
  have hrun : ((system 8).exec fresh (captured 7 (lineOf []))).any (fun s =>
      s.capture.any fun c => decide (c.rollsDuring = 1 ∧ s.Idle ∧ c.rolls ≤ keepGenerations ∧
        s.storage.logLen < c.logOffset)) = true := by decide +kernel
  obtain ⟨s, hs, hcapture⟩ := (Option.any_eq_true _ _).mp hrun
  obtain ⟨c, hc, hchecked⟩ := (Option.any_eq_true _ _).mp hcapture
  obtain ⟨hduring, hidle, hle, hlt⟩ := of_decide_eq_true hchecked
  have hin : (system 8).checked (fun s e => decide (InTurn 8 s e)) fresh
      (captured 7 (lineOf [])) = true := by decide +kernel
  have hturn := (system 8).along_of_checked (fun _ _ h => of_decide_eq_true h) hin
  exact ⟨s, c, hs, hc, hduring,
    (bundle_whole_iff ⟨⟨rfl, rfl⟩, rfl⟩ hturn hs hc hidle hle).mpr (.inr (.inl hlt))⟩

theorem longLine_length (length : Nat) : (longLine length).bytes.length = length + 1 := by
  simp [longLine, lineOf]

theorem rollsAfter_longLine (s : St) : rollsAfter maxLogBytes s (longLine maxLogBytes) = true := by
  have hle : maxLogBytes ≤ s.written + (longLine maxLogBytes).bytes.length := by
    rw [longLine_length]
    omega
  simp [rollsAfter, hle, (longLine maxLogBytes).ended]

theorem not_rollsAfter {s : St} (hwritten : s.written = 0) {l : Line}
    (hshort : l.bytes.length < maxLogBytes) : rollsAfter maxLogBytes s l = false := by
  have hnot : ¬maxLogBytes ≤ s.written + l.bytes.length := by omega
  rw [rollsAfter, decide_eq_false hnot, Bool.false_and]

/-- The capture of the one line in the log has begun. -/
def begun : St :=
  { fresh.append firstLine with
    capture := some { startedUnixMs := 1000, logOffset := firstLine.bytes.length } }

/-- The log is rolled and compressed. -/
def rolledOver : St :=
  ((begun.append (longLine maxLogBytes)).rotate.zipped (some 2000)).cleared

def ended : Capture :=
  { startedUnixMs := 1000, logOffset := firstLine.bytes.length, running := false
    window := [longLine maxLogBytes, lastLine], rolls := 1, rollsDuring := 1 }

/-- The capture has ended. -/
def regrown : St := { rolledOver.append lastLine with capture := some ended }

theorem next_line_of_rolls {maxBytes : Nat} {s : St} {l : Line}
    (h : rollsAfter maxBytes s l = true) :
    (system maxBytes).next s (.line l) = some (s.append l).rotate := congrArg some (if_pos h)

theorem next_line_of_not {maxBytes : Nat} {s : St} {l : Line}
    (h : rollsAfter maxBytes s l = false) :
    (system maxBytes).next s (.line l) = some (s.append l) :=
  congrArg some (if_neg (by rw [h]; exact Bool.false_ne_true))

theorem captured_regrown :
    (system maxLogBytes).exec fresh (captured maxLogBytes lastLine) = some regrown := by
  have hfirst := next_line_of_not (s := fresh) (not_rollsAfter rfl (l := firstLine)
    (by decide +kernel))
  have hstart : (system maxLogBytes).next (fresh.append firstLine) (.start 1000) = some begun := rfl
  have hlong := next_line_of_rolls (rollsAfter_longLine begun)
  have hgzip : (system maxLogBytes).next (begun.append (longLine maxLogBytes)).rotate
      (.gzip (some 2000)) =
        some ((begun.append (longLine maxLogBytes)).rotate.zipped (some 2000)) := rfl
  have hcleared : (system maxLogBytes).next
      ((begun.append (longLine maxLogBytes)).rotate.zipped (some 2000)) .cleared =
        some rolledOver := rfl
  have hlast := next_line_of_not (s := rolledOver) (not_rollsAfter rfl (l := lastLine)
    (by decide +kernel))
  have hstop : (system maxLogBytes).next (rolledOver.append lastLine) .stop = some regrown := rfl
  rw [captured, Transition.System.exec_of_next _ hfirst, Transition.System.exec_of_next _ hstart,
    Transition.System.exec_of_next _ hlong, Transition.System.exec_of_next _ hgzip,
    Transition.System.exec_of_next _ hcleared, Transition.System.exec_of_next _ hlast,
    Transition.System.exec_of_next _ hstop, Transition.System.exec_nil]

/-- **The window is cut.**  A log of one line is rolled during the capture and has another line
before it ends: the bundle has neither that line nor a note, and begins inside it. -/
theorem bundle_cut_short :
    ∃ s c, (system maxLogBytes).exec fresh (captured maxLogBytes lastLine) = some s ∧
      s.capture = some c ∧ s.Idle ∧ c.rolls ≤ keepGenerations ∧
      ¬Held (bundleOf s c) lastLine ∧
      ¬BeginsAtLine (bytesOf s.storage.active) (bundleOf s c).captureLog ∧
      (0 < c.rollsDuring ∧ (bundleOf s c).note = none) := by
  have hlog : (bundleOf regrown ended).captureLog = [102, newline] := by decide +kernel
  have hnote : (bundleOf regrown ended).note = none := by decide +kernel
  have hlogs : (bundleOf regrown ended).logs.map Prod.snd =
      [⟨[firstLine, longLine maxLogBytes], some 2000⟩] := rfl
  refine ⟨regrown, ended, captured_regrown, rfl, ⟨rfl, rfl⟩, by decide, ?_, ?_, Nat.one_pos, hnote⟩
  · rintro (hpart | ⟨source, hsource, hl⟩)
    · exact absurd (hpart.length_le.trans_eq (congrArg List.length hlog)) (by decide +kernel)
    · have hfile := List.mem_map_of_mem (f := Prod.snd) hsource
      rw [hlogs, List.mem_singleton] at hfile
      rw [hfile] at hl
      rcases List.mem_pair.mp hl with hl | hl
      · exact absurd (congrArg (·.bytes.length) hl) (by decide +kernel)
      · have hlength : lastLine.bytes.length = maxLogBytes + 1 := by rw [hl, longLine_length]
        exact absurd hlength (by decide +kernel)
  · rintro (hnil | ⟨before, hbefore, hends⟩)
    · exact absurd (hlog.symm.trans hnil) (by decide)
    · have hbytes : before ++ [102, newline] = [97, 98, 99, 100, 101] ++ [102, newline] :=
        (hlog ▸ hbefore).trans (by decide +kernel)
      rw [List.append_cancel_right hbytes] at hends
      exact absurd hends (by decide)

end Mbrc.LogWindow
