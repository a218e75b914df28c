import MbrcPlugin.Diagnostics.SessionLog
import MbrcPlugin.Protocol.FrameAccumulator

/-!
# V6 frames on the wire

The frames each side builds, one JSON object a line, and what the other side makes of them.  JSON is
printed and read by given functions; of these `framing_round_trip` asks that what is printed has no
raw line break and is read back, for the frames at hand.
-/

namespace Mbrc.WireV6

open SessionLog (Request RequestError parseRequest responseOk errorFrame)
open Wire (FrameAccumulator newline)
open Lines (lines unlines)

/-! ## Building -/

inductive ErrorCode where
  | malformedFrame | unsupportedVersion | missingField | invalidField | unknownOp | unauthorized
  | notAllowed | forbidden | invalidToken | staleList | staleTrack | internal | notFound
  | unavailable
  deriving DecidableEq

def ErrorCode.asStr : ErrorCode → String
  | malformedFrame => "malformed_frame"
  | unsupportedVersion => "unsupported_version"
  | missingField => "missing_field"
  | invalidField => "invalid_field"
  | unknownOp => "unknown_op"
  | unauthorized => "unauthorized"
  | notAllowed => "not_allowed"
  | forbidden => "forbidden"
  | invalidToken => "invalid_token"
  | staleList => "stale_list"
  | staleTrack => "stale_track"
  | internal => "internal_error"
  | notFound => "not_found"
  | unavailable => "unavailable"

/-- A frame by its builder and what it is built from. -/
inductive Frame where
  | request (id : UInt64) (op : String) (data : Value)
  | responseOk (id : UInt64) (data : Value)
  | responseError (id : UInt64) (code : ErrorCode) (message : String)
  | responseErrorField (id : UInt64) (code : ErrorCode) (message field : String)
  | event (event : String) (data : Value)

def request (id : Nat) (op : String) (data : Value) : Value :=
  .object [("id", .int id), ("kind", .string "request"), ("op", .string op), ("data", data)]

def event (event : String) (data : Value) : Value :=
  .object [("kind", .string "event"), ("event", .string event), ("data", data)]

def Frame.value : Frame → Value
  | .request id op data => WireV6.request id.toNat op data
  | .responseOk id data => SessionLog.responseOk id.toNat data
  | .responseError id code message => errorFrame id.toNat code.asStr message none
  | .responseErrorField id code message field =>
    errorFrame id.toNat code.asStr message (some field)
  | .event name data => WireV6.event name data

def frameLine (line : String) : String := line ++ "\n"

/-! ## Reading a response -/

structure WireError where
  code : String
  message : String
  field : Option String
  deriving DecidableEq

structure IncomingResponse where
  id : Nat
  result : Except WireError Value

def textOf (v : Value) (key : String) : String := ((v.get key).bind Value.asStr).getD ""

def parseResponse (value : Option Value) : Option IncomingResponse :=
  match value with
  | some (.object fields) =>
    let v := Value.object fields
    if (v.get "kind").bind Value.asStr = some "response" then
      ((v.get "id").bind Installations.asU64).map fun id =>
        { id
          result := match v.get "error" with
            | some err => .error
              { code := textOf err "code", message := textOf err "message"
                field := (err.get "field").bind Value.asStr }
            | none => .ok ((v.get "data").getD .null) }
    else none
  | _ => none

/-- What the other side makes of a frame: a request or a response is what it was built from, an
event is neither. -/
def Frame.GivenBack (value : Option Value) : Frame → Prop
  | .request id op data => parseRequest value = .ok { id := id.toNat, op, data }
  | .responseOk id data => parseResponse value = some { id := id.toNat, result := .ok data }
  | .responseError id code message =>
    parseResponse value = some
      { id := id.toNat, result := .error { code := code.asStr, message, field := none } }
  | .responseErrorField id code message field =>
    parseResponse value = some
      { id := id.toNat, result := .error { code := code.asStr, message, field := some field } }
  | .event _ _ =>
    parseRequest value = .error (.missingField 0 "id") ∧ (parseResponse value).isNone = true

theorem asU64_int {id : Nat} (h : id < 2 ^ 64) : Installations.asU64 (.int id) = some id := by
  have hcast : (id : Int).toNat = id := Int.toNat_natCast id
  rw [Value.int, if_pos (Int.natCast_nonneg id), hcast]
  exact congrArg some (UInt64.toNat_ofNat_of_lt h)

theorem Frame.givenBack (f : Frame) : f.GivenBack (some f.value) := by
  cases f with
  | request id op data =>
    simp [GivenBack, value, WireV6.request, parseRequest, Value.get, List.lookup_cons, Value.asStr,
      asU64_int id.toNat_lt]
  | responseOk id data =>
    simp [GivenBack, value, SessionLog.responseOk, parseResponse, Value.get, List.lookup_cons,
      Value.asStr, asU64_int id.toNat_lt]
  | responseError id code message =>
    simp [GivenBack, value, errorFrame, parseResponse, textOf, Value.get, List.lookup_cons,
      Value.asStr, asU64_int id.toNat_lt]
  | responseErrorField id code message field =>
    simp [GivenBack, value, errorFrame, parseResponse, textOf, Value.get, List.lookup_cons,
      Value.asStr, asU64_int id.toNat_lt]
  | event name data => exact ⟨rfl, rfl⟩

/-! ## The round trip -/

/-- What is sent of a frame, without its terminator. -/
def sent (print : Value → String) (f : Frame) : List UInt8 := Text.bytes (print f.value)

theorem bytes_frameLine (line : String) :
    Text.bytes (frameLine line) = Text.bytes line ++ [newline] := by
  rw [frameLine, Text.bytes_eq_flatMap, String.toList_append, List.flatMap_append,
    ← Text.bytes_eq_flatMap]
  rfl

section

variable {print : Value → String} {lossy : List UInt8 → String}

/-- A frame without raw line breaks is decoded as it was printed. -/
theorem decode_bytes {line : String} (h : '\r' ∉ line.toList) :
    FrameAccumulator.decode lossy (Text.bytes line) = line := by
  have hlast : (Text.bytes line).getLast? ≠ some Wire.carriageReturn := by
    intro hlast
    exact Text.not_mem_bytes (by decide) h (List.mem_of_getLast? hlast)
  rw [FrameAccumulator.decode, Wire.stripReturn, if_neg hlast]
  simp

variable {frames : List Frame} {chunks : List (List UInt8)} {maxFrame : Nat}

/-- The bytes of frames and their terminators. -/
def stream (print : Value → String) (frames : List Frame) : List UInt8 :=
  frames.flatMap fun f => Text.bytes (frameLine (print f.value))

theorem stream_eq : stream print frames = unlines newline (frames.map (sent print)) := by
  rw [unlines, List.flatMap_map, stream]
  exact List.flatMap_congr fun f _ => bytes_frameLine _

theorem newline_not_mem_sent
    (hbreaks : ∀ f ∈ frames, '\n' ∉ (print f.value).toList ∧ '\r' ∉ (print f.value).toList) :
    ∀ line ∈ frames.map (sent print), newline ∉ line := by
  intro line hline
  obtain ⟨f, hf, rfl⟩ := List.mem_map.mp hline
  exact Text.not_mem_bytes (by decide) (hbreaks f hf).1

theorem flatten_take_isPrefix (chunks : List (List UInt8)) (n : Nat) :
    (chunks.take n).flatten <+: chunks.flatten := by
  conv_rhs => rw [← List.take_append_drop n chunks, List.flatten_append]
  exact List.prefix_append _ _

/-- However much of the stream has come, in whatever chunks, its lines are read and no frame
overflows. -/
theorem read_within
    (hbreaks : ∀ f ∈ frames, '\n' ∉ (print f.value).toList ∧ '\r' ∉ (print f.value).toList)
    (hcap : ∀ f ∈ frames, (sent print f).length ≤ maxFrame)
    (hcut : chunks.flatten <+: stream print frames) :
    ((FrameAccumulator.withMaxFrameBytes maxFrame).read lossy chunks).1 =
        (lines newline chunks.flatten).1.map (FrameAccumulator.decode lossy) ∧
      ((FrameAccumulator.withMaxFrameBytes maxFrame).read lossy chunks).2.overflow = false := by
  refine FrameAccumulator.read_eq lossy ⟨le_refl _, List.not_mem_nil⟩ List.not_mem_nil fun n => ?_
  obtain ⟨more, hmore⟩ := (flatten_take_isPrefix chunks n).trans hcut
  rw [stream_eq] at hmore
  show (lines newline (chunks.take n).flatten).2.length ≤ maxFrame
  rcases Lines.rest_prefix (newline_not_mem_sent hbreaks) hmore with hnil | ⟨line, hline, hprefix⟩
  · rw [hnil]
    exact Nat.zero_le _
  · obtain ⟨f, hf, rfl⟩ := List.mem_map.mp hline
    exact hprefix.length_le.trans (hcap f hf)

/-- **The framing round trip.**  `lossy` is never called on. -/
theorem framing_round_trip (print : Value → String) (read : String → Option Value)
    (lossy : List UInt8 → String) (maxFrame : Nat) (frames : List Frame)
    (chunks : List (List UInt8))
    (hbreaks : ∀ f ∈ frames, '\n' ∉ (print f.value).toList ∧ '\r' ∉ (print f.value).toList)
    (hread : ∀ f ∈ frames, read (print f.value) = some f.value)
    (hcap : ∀ f ∈ frames, (Text.bytes (print f.value)).length ≤ maxFrame)
    (hcut : chunks.flatten = frames.flatMap fun f => Text.bytes (frameLine (print f.value))) :
    ((FrameAccumulator.withMaxFrameBytes maxFrame).read lossy chunks).1 =
        frames.map (fun f => print f.value) ∧
      (∀ n, ((FrameAccumulator.withMaxFrameBytes maxFrame).read lossy
        (chunks.take n)).2.overflow = false) ∧
      ∀ f ∈ frames, f.GivenBack (read (print f.value)) := by
  have hstream : chunks.flatten = stream print frames := hcut
  refine ⟨?_, fun n => ?_, fun f hf => ?_⟩
  · have hwhole : chunks.flatten <+: stream print frames := by rw [hstream]
    rw [(read_within hbreaks hcap hwhole).1, hstream, stream_eq,
      Lines.lines_unlines (newline_not_mem_sent hbreaks), List.map_map]
    refine List.map_congr_left fun f hf => ?_
    exact decode_bytes (hbreaks f hf).2
  · refine (read_within hbreaks hcap ?_).2
    rw [← hstream]
    exact flatten_take_isPrefix chunks n
  · rw [hread f hf]
    exact f.givenBack

end

/-! ## Two frames -/

/-- One of the parsers gives back what the frame was built from. -/
def Frame.Returned (value : Option Value) : Frame → Prop
  | .event _ data =>
    (∃ r, parseRequest value = .ok r ∧ r.data = data) ∨
      ∃ r, parseResponse value = some r ∧ r.result = .ok data
  | f => f.GivenBack value

def ping : Frame := .request 7 "ping" (.string "☃")

def volumeChanged : Frame := .event "volume_changed" (.object [("volume", .int 40)])

/-- Reads the two frames back, and nothing else. -/
def readBack (text : String) : Option Value :=
  [ping.value, volumeChanged.value].find? fun v => v.render = text

/-- An event is read by neither parser. -/
theorem event_not_returned : readBack volumeChanged.value.render = some volumeChanged.value ∧
    ¬ volumeChanged.Returned (readBack volumeChanged.value.render) := by
  have hread : readBack volumeChanged.value.render = some volumeChanged.value := by rfl
  refine ⟨hread, ?_⟩
  rw [hread]
  rintro (⟨r, hr, -⟩ | ⟨r, hr, -⟩) <;> cases hr

/-- The two frames in three chunks, one cut inside a character. -/
theorem framing_round_trip_three_chunks : ∃ chunks : List (List UInt8), chunks.length = 3 ∧
    ((FrameAccumulator.withMaxFrameBytes 64).read (fun _ => "") chunks).1 =
      [ping, volumeChanged].map (fun f => f.value.render) := by
  have hcut : [(stream Value.render [ping, volumeChanged]).take 47,
      ((stream Value.render [ping, volumeChanged]).drop 47).take 20,
      ((stream Value.render [ping, volumeChanged]).drop 47).drop 20].flatten =
        stream Value.render [ping, volumeChanged] := by
    rw [List.flatten_cons, List.flatten_cons, List.flatten_singleton, List.take_append_drop,
      List.take_append_drop]
  refine ⟨_, rfl, (framing_round_trip Value.render readBack (fun _ => "") 64
    [ping, volumeChanged] _ ?_ ?_ ?_ hcut).1⟩
  · decide +kernel
  · intro f hf
    rcases List.mem_cons.mp hf with rfl | hf
    · rfl
    · rw [List.mem_singleton.mp hf]
      rfl
  · decide +kernel

end Mbrc.WireV6
