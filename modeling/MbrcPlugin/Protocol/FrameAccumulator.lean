import MbrcPlugin.Lib.Lines

/-!
# The frame accumulator

What a connection reads comes in chunks.  The accumulator keeps the bytes of a frame that has not
ended, looks for the terminator in what it has not scanned yet, and drops a frame that outgrows its
bound.  `read_eq`: as long as no frame does, the chunks are read as the lines of the whole stream.
-/

namespace Mbrc.Wire

open Lines (lines)

def newline : UInt8 := 10

def carriageReturn : UInt8 := 13

def defaultMaxFrameBytes : Nat := 16 * 1024 * 1024

structure FrameAccumulator where
  acc : List UInt8 := []
  /-- How much of `acc` is known to hold no terminator. -/
  scanned : Nat := 0
  maxFrame : Nat := defaultMaxFrameBytes
  overflow : Bool := false
  deriving DecidableEq

/-- Without the carriage return of a legacy line. -/
def stripReturn (frame : List UInt8) : List UInt8 :=
  if frame.getLast? = some carriageReturn then frame.dropLast else frame

namespace FrameAccumulator

def withMaxFrameBytes (maxFrame : Nat) : FrameAccumulator := { maxFrame }

def pushBytes (a : FrameAccumulator) (bytes : List UInt8) : FrameAccumulator :=
  { a with acc := a.acc ++ bytes }

section

variable (lossy : List UInt8 → String)

/-- The text of a frame; `lossy` is what is made of bytes that are not UTF-8. -/
def decode (frame : List UInt8) : String :=
  let frame := stripReturn frame
  (Text.ofBytes frame).getD (lossy frame)

def nextFrame (a : FrameAccumulator) : Option String × FrameAccumulator :=
  match ((a.acc.drop a.scanned).findIdx? (· = newline)).map (a.scanned + ·) with
  | some idx =>
    (some (decode lossy (a.acc.take idx)), { a with acc := a.acc.drop (idx + 1), scanned := 0 })
  | none =>
    if a.maxFrame < a.acc.length then
      (none, { a with acc := [], scanned := 0, overflow := true })
    else (none, { a with scanned := a.acc.length })

/-- A frame takes its terminator with it. -/
theorem nextFrame_length {a b : FrameAccumulator} {frame : String}
    (h : a.nextFrame lossy = (some frame, b)) : b.acc.length < a.acc.length := by
  unfold nextFrame at h
  split at h
  · rename_i idx hidx
    obtain ⟨i, hi, hidx⟩ := Option.map_eq_some_iff.mp hidx
    rw [List.findIdx?_eq_some_iff_getElem] at hi
    obtain ⟨hlt, -⟩ := hi
    rw [List.length_drop] at hlt
    rw [← (Prod.mk.inj h).2, List.length_drop]
    omega
  · split at h <;> cases (Prod.mk.inj h).1

/-- Every frame that has arrived. -/
def drain (a : FrameAccumulator) : List String × FrameAccumulator :=
  match _h : a.nextFrame lossy with
  | (some frame, b) => (frame :: (drain b).1, (drain b).2)
  | (none, b) => ([], b)
termination_by a.acc.length
decreasing_by all_goals exact nextFrame_length lossy _h

/-- A reader: it drains the accumulator after each chunk. -/
def read (a : FrameAccumulator) : List (List UInt8) → List String × FrameAccumulator
  | [] => ([], a)
  | chunk :: chunks =>
    let (frames, a) := (a.pushBytes chunk).drain lossy
    let (more, a) := a.read chunks
    (frames ++ more, a)

/-! ## Lines -/

variable {a : FrameAccumulator}

theorem nextFrame_line {l rest : List UInt8} (hacc : a.acc = l ++ newline :: rest)
    (hl : newline ∉ l) (hscanned : a.scanned ≤ l.length) :
    a.nextFrame lossy = (some (decode lossy l), { a with acc := rest, scanned := 0 }) := by
  have hfound : (a.acc.drop a.scanned).findIdx? (· = newline) = some (l.length - a.scanned) := by
    have hnone : (l.drop a.scanned).findIdx? (· = newline) = none := by
      rw [List.findIdx?_eq_none_iff]
      intro b hb
      rw [decide_eq_false_iff_not]
      rintro rfl
      exact hl (List.mem_of_mem_drop hb)
    rw [hacc, List.drop_append_of_le_length hscanned, List.findIdx?_append, hnone,
      List.findIdx?_cons]
    simp
  have hidx : a.scanned + (l.length - a.scanned) = l.length := by omega
  unfold nextFrame
  rw [hfound, Option.map_some, hidx]
  simp [hacc]

theorem nextFrame_unended (hacc : newline ∉ a.acc) (hroom : a.acc.length ≤ a.maxFrame) :
    a.nextFrame lossy = (none, { a with scanned := a.acc.length }) := by
  have hnone : (a.acc.drop a.scanned).findIdx? (· = newline) = none := by
    rw [List.findIdx?_eq_none_iff]
    intro b hb
    rw [decide_eq_false_iff_not]
    rintro rfl
    exact hacc (List.mem_of_mem_drop hb)
  unfold nextFrame
  rw [hnone, Option.map_none, if_neg (by omega)]

theorem drain_some {frame : String} {b : FrameAccumulator}
    (h : a.nextFrame lossy = (some frame, b)) :
    a.drain lossy = (frame :: (b.drain lossy).1, (b.drain lossy).2) := by
  rw [drain]
  split
  · rename_i frame' b' h'
    rw [h] at h'
    obtain ⟨hframe, rfl⟩ := Prod.mk.inj h'
    rw [Option.some.inj hframe]
  · rename_i h'
    rw [h] at h'
    cases (Prod.mk.inj h').1

theorem drain_none {b : FrameAccumulator} (h : a.nextFrame lossy = (none, b)) :
    a.drain lossy = ([], b) := by
  rw [drain]
  split
  · rename_i h'
    rw [h] at h'
    cases (Prod.mk.inj h').1
  · rename_i b' h'
    rw [h] at h'
    rw [(Prod.mk.inj h').2]

/-- What has been scanned holds no terminator. -/
def Scanned (a : FrameAccumulator) : Prop :=
  a.scanned ≤ a.acc.length ∧ newline ∉ a.acc.take a.scanned

/-- **Draining** gives the lines that are there and keeps the rest. -/
theorem drain_eq (hscanned : a.Scanned) (hroom : (lines newline a.acc).2.length ≤ a.maxFrame) :
    a.drain lossy = ((lines newline a.acc).1.map (decode lossy),
      { a with acc := (lines newline a.acc).2, scanned := (lines newline a.acc).2.length }) := by
  induction hn : a.acc.length using Nat.strongRecOn generalizing a with
  | ind n ih =>
    by_cases hmem : newline ∈ a.acc
    · obtain ⟨l, rest, hacc, hl⟩ := List.eq_append_cons_of_mem hmem
      have hle : a.scanned ≤ l.length := by
        by_contra hlt
        apply hscanned.2
        rw [hacc, List.take_append, List.mem_append]
        right
        obtain ⟨k, hk⟩ : ∃ k, a.scanned - l.length = k + 1 :=
          ⟨a.scanned - l.length - 1, by omega⟩
        rw [hk, List.take_succ_cons]
        exact List.mem_cons_self
      have hlines := Lines.lines_line hl rest
      rw [← hacc] at hlines
      have hdrain := drain_some lossy (nextFrame_line lossy hacc hl hle)
      rw [hlines] at hroom
      have hlen : rest.length < n := by
        rw [← hn, hacc, List.length_append, List.length_cons]
        omega
      have hrest := ih rest.length hlen (a := { a with acc := rest, scanned := 0 })
        ⟨Nat.zero_le _, by simp⟩ hroom rfl
      rw [hdrain, hrest, hlines]
      rfl
    · have hlines := Lines.lines_of_not_mem hmem
      rw [hlines] at hroom
      rw [drain_none lossy (nextFrame_unended lossy hmem hroom), hlines]
      rfl

/-- **A reader** gets the lines of the stream, however it comes, if what it has of a line is never
more than the bound when it looks. -/
theorem read_eq {chunks : List (List UInt8)} (hscanned : a.Scanned) (hacc : newline ∉ a.acc)
    (hroom : ∀ n, (lines newline (a.acc ++ (chunks.take n).flatten)).2.length ≤ a.maxFrame) :
    (a.read lossy chunks).1 = (lines newline (a.acc ++ chunks.flatten)).1.map (decode lossy) ∧
      (a.read lossy chunks).2.overflow = a.overflow := by
  induction chunks generalizing a with
  | nil =>
    rw [List.flatten_nil, List.append_nil, Lines.lines_of_not_mem hacc]
    exact ⟨rfl, rfl⟩
  | cons chunk chunks ih =>
    have hpushed : (a.pushBytes chunk).Scanned := by
      refine ⟨?_, ?_⟩
      · show a.scanned ≤ (a.acc ++ chunk).length
        rw [List.length_append]
        exact hscanned.1.trans (Nat.le_add_right _ _)
      · show newline ∉ (a.acc ++ chunk).take a.scanned
        rw [List.take_append_of_le_length hscanned.1]
        exact hscanned.2
    have hfirst : (lines newline (a.pushBytes chunk).acc).2.length ≤ a.maxFrame := by
      have := hroom 1
      rwa [List.take_succ_cons, List.take_zero, List.flatten_singleton] at this
    have hdrain := drain_eq lossy hpushed hfirst
    have hrest := Lines.not_mem_rest newline (a.pushBytes chunk).acc
    have happend : ∀ more, lines newline (a.acc ++ (chunk ++ more)) =
        ((lines newline (a.pushBytes chunk).acc).1 ++
            (lines newline ((lines newline (a.pushBytes chunk).acc).2 ++ more)).1,
          (lines newline ((lines newline (a.pushBytes chunk).acc).2 ++ more)).2) := by
      intro more
      rw [← List.append_assoc]
      exact Lines.lines_append _ _
    obtain ⟨hframes, hoverflow⟩ := ih (a := { a.pushBytes chunk with
        acc := (lines newline (a.pushBytes chunk).acc).2
        scanned := (lines newline (a.pushBytes chunk).acc).2.length })
      ⟨le_refl _, by rw [List.take_length]; exact hrest⟩ hrest fun n => by
        have := hroom (n + 1)
        rw [List.take_succ_cons, List.flatten_cons, happend] at this
        exact this
    rw [read, hdrain]
    dsimp only at hframes hoverflow ⊢
    rw [hframes, hoverflow, List.flatten_cons, happend, List.map_append]
    exact ⟨rfl, rfl⟩

end

end FrameAccumulator

end Mbrc.Wire
