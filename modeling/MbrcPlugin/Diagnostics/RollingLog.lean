import MbrcPlugin.Lib.Transition
import Mathlib.Data.List.Infix
import Mathlib.Logic.Function.Basic

/-!
# The rolling log and the bundle of a capture

The core's log is one file that is rolled aside once it is large enough, compressed on a thread of
its own and kept for a few generations.  A capture remembers how long the file was, and its bundle
holds what the file has from there on, unless the file is shorter: then it is taken to have been
rolled, and goes in whole.
-/

namespace Mbrc.RollingLog

def newline : UInt8 := 10

/-- A line as the formatter hands it to the writer. -/
structure Line where
  bytes : List UInt8
  ended : bytes.getLast? = some newline

/-- What a file holds that has these lines. -/
def bytesOf (lines : List Line) : List UInt8 := lines.flatMap Line.bytes

@[simp] theorem bytesOf_nil : bytesOf [] = [] := rfl

@[simp] theorem bytesOf_append (lines more : List Line) :
    bytesOf (lines ++ more) = bytesOf lines ++ bytesOf more := List.flatMap_append

@[simp] theorem bytesOf_singleton (l : Line) : bytesOf [l] = l.bytes := by simp [bytesOf]

theorem infix_bytesOf {l : Line} {lines : List Line} (h : l ∈ lines) :
    l.bytes <:+: bytesOf lines := by
  obtain ⟨before, after, rfl⟩ := List.append_of_mem h
  exact ⟨bytesOf before, bytesOf after, by simp [bytesOf]⟩

/-- A log ends with its last line. -/
theorem getLast?_bytesOf {lines : List Line} (h : bytesOf lines ≠ []) :
    (bytesOf lines).getLast? = some newline := by
  rcases List.eq_nil_or_concat lines with rfl | ⟨before, l, rfl⟩
  · exact absurd rfl h
  · have hl : l.bytes ≠ [] := fun hnil => by
      have := l.ended
      simp [hnil] at this
    rw [List.concat_eq_append, bytesOf_append, bytesOf_singleton,
      List.getLast?_append_of_ne_nil _ hl, l.ended]

/-! ## The files -/

/-- A log file that is not written any more; when it last was, in Unix milliseconds, where that can
be read. -/
structure LogFile where
  lines : List Line
  modified : Option Int

/-- `KEEP_GENERATIONS`. -/
def keepGenerations : Nat := 3

/-- `MAX_LOG_BYTES`. -/
def maxLogBytes : Nat := 10 * 1024 * 1024

/-- The logs of a storage directory. -/
structure Storage where
  active : List Line
  /-- The compressed generations. -/
  rolled : Nat → Option LogFile
  /-- `mbrc-core.rolling.log`. -/
  rolling : Option (List Line)
  /-- The logs of the host and the helper. -/
  beside : String → Option LogFile

def rolledLogName (n : Nat) : String := "mbrc-core." ++ toString n ++ ".log.gz"

/-- A generation moves up by one; one that is not there leaves the next where it is. -/
def moveUp (rolled : Nat → Option LogFile) (n : Nat) : Nat → Option LogFile :=
  match rolled n with
  | none => rolled
  | some file => Function.update (Function.update rolled (n + 1) (some file)) n none

namespace Storage

variable (s : Storage)

/-- `rotate`, up to the compression of what was rolled. -/
def rotate : Storage :=
  let kept := Function.update s.rolled keepGenerations none
  { s with
    rolled := (List.range' 1 (keepGenerations - 1)).reverse.foldl moveUp kept
    rolling := some s.active
    active := [] }

/-- `gzip_file`. -/
def gzip (modified : Option Int) : Storage :=
  match s.rolling with
  | none => s
  | some lines => { s with rolled := Function.update s.rolled 1 (some { lines, modified }) }

/-- `log_len`. -/
def logLen : Nat := (bytesOf s.active).length

/-- Every generation is the next one after a rotation, but for the last, and the first is free. -/
theorem rotate_rolled {n : Nat} (hfirst : 1 ≤ n) (hlast : n ≤ keepGenerations) :
    s.rotate.rolled n = if n = 1 then none else s.rolled (n - 1) := by
  have hn : n = 1 ∨ n = 2 ∨ n = 3 := by
    unfold keepGenerations at hlast
    omega
  have hrolled : s.rotate.rolled = moveUp (moveUp (Function.update s.rolled 3 none) 2) 1 := rfl
  rw [hrolled]
  cases htwo : s.rolled 2 <;> cases hone : s.rolled 1 <;>
    rcases hn with rfl | rfl | rfl <;> simp [moveUp, htwo, hone]

end Storage

/-! ## The bundle -/

/-- `ROTATED_NOTE`. -/
def rotatedNote : String :=
  "The active log rotated during this capture, so capture.log holds the whole current log file " ++
  "rather than only the captured window. The earlier part of the window is in the rolled " ++
  "generations under logs/.\r\n"

/-- `capture_window`: what the active log has from the offset on, all of it where it is shorter, and
whether it was. -/
def captureWindow (file : Option (List UInt8)) (offset : Nat) : List UInt8 × Bool :=
  match file with
  | none => ([], false)
  | some file =>
    let rotated := decide (file.length < offset)
    (file.drop (if rotated then 0 else offset), rotated)

/-- `touched_since`: a time that cannot be read, or is before the epoch, counts. -/
def touchedSince (startedUnixMs : Int) (file : LogFile) : Bool :=
  match file.modified with
  | none => true
  | some ms => decide (ms < 0) || decide (startedUnixMs ≤ ms)

/-- `extra_logs`. -/
def extraLogs (s : Storage) (startedUnixMs : Int) : List (String × LogFile) :=
  let generations := (List.range' 1 keepGenerations).filterMap fun n =>
    (s.rolled n).map (rolledLogName n, ·)
  let beside := ["mbrc-bootstrap.log", "mbrc.log", "mbrc-helper.log"].filterMap fun name =>
    (s.beside name).map (name, ·)
  (generations ++ beside).filter fun source => touchedSince startedUnixMs source.2

/-- The logs in a bundle; the report stands beside them. -/
structure Bundle where
  captureLog : List UInt8
  /-- `capture.log.note.txt`. -/
  note : Option String
  logs : List (String × LogFile)

/-- `write`. -/
def write (s : Storage) (logOffset : Nat) (startedUnixMs : Int) : Bundle :=
  let (window, rotated) := captureWindow (some (bytesOf s.active)) logOffset
  { captureLog := window
    note := if rotated then some rotatedNote else none
    logs := (extraLogs s startedUnixMs).map fun source => ("logs/" ++ source.1, source.2) }

/-- A generation that was rolled since the capture began is in the bundle. -/
theorem mem_logs {s : Storage} {n : Nat} {file : LogFile} {startedUnixMs : Int} (hfirst : 1 ≤ n)
    (hlast : n ≤ keepGenerations) (hfile : s.rolled n = some file)
    (htouched : touchedSince startedUnixMs file = true) (offset : Nat) :
    ("logs/" ++ rolledLogName n, file) ∈ (write s offset startedUnixMs).logs := by
  refine List.mem_map.mpr ⟨(rolledLogName n, file), List.mem_filter.mpr ⟨?_, htouched⟩, rfl⟩
  refine List.mem_append_left _ (List.mem_filterMap.mpr ⟨n, ?_, by rw [hfile]; rfl⟩)
  rw [List.mem_range'_1]
  omega

/-- Of a log that is no shorter than the offset, the bundle has what comes after it. -/
theorem write_of_le {s : Storage} {offset : Nat} (h : offset ≤ s.logLen) (startedUnixMs : Int) :
    (write s offset startedUnixMs).captureLog = (bytesOf s.active).drop offset ∧
      (write s offset startedUnixMs).note = none := by
  have hnot : ¬(bytesOf s.active).length < offset := Nat.not_lt.mpr h
  simp [write, captureWindow, hnot]

/-- A shorter log is there whole, and said to have been rolled. -/
theorem write_of_lt {s : Storage} {offset : Nat} (h : s.logLen < offset) (startedUnixMs : Int) :
    (write s offset startedUnixMs).captureLog = bytesOf s.active ∧
      (write s offset startedUnixMs).note = some rotatedNote := by
  have hlt : (bytesOf s.active).length < offset := h
  simp [write, captureWindow, hlt]

end Mbrc.RollingLog
