import MbrcPlugin.Capture.Scrubber
import MbrcPlugin.Diagnostics.Redaction

/-!
# Trimmed captures

`trim_capture`: the frames of a capture by connection, the connections by platform and protocol, and
of each such bucket the frames that are kept, with the library strings replaced.
-/

namespace Mbrc

/-! ## Equal values -/

mutual

/-- `Value::eq`. -/
def Value.same : Value → Value → Bool
  | .null, .null => true
  | .bool a, .bool b => a = b
  | .number m, .number n => m = n
  | .string s, .string t => s = t
  | .array items, .array others => sameItems items others
  | .object fields, .object others => sameFields fields others
  | _, _ => false

def sameItems : List Value → List Value → Bool
  | [], [] => true
  | v :: rest, w :: others => v.same w && sameItems rest others
  | _, _ => false

def sameFields : List (String × Value) → List (String × Value) → Bool
  | [], [] => true
  | (key, v) :: rest, (other, w) :: others => key = other && v.same w && sameFields rest others
  | _, _ => false

end

mutual

theorem Value.same_iff (v w : Value) : v.same w = true ↔ v = w := by
  cases v with
  | array items =>
    cases w with
    | array others =>
      rw [Value.same, sameItems_iff items others]
      simp
    | _ => simp [Value.same]
  | object fields =>
    cases w with
    | object others =>
      rw [Value.same, sameFields_iff fields others]
      simp
    | _ => simp [Value.same]
  | _ => cases w <;> simp [Value.same]

theorem sameItems_iff (items others : List Value) :
    sameItems items others = true ↔ items = others := by
  cases items with
  | nil => cases others <;> simp [sameItems]
  | cons v rest =>
    cases others with
    | nil => simp [sameItems]
    | cons w others => simp [sameItems, v.same_iff w, sameItems_iff rest others]

theorem sameFields_iff (fields others : List (String × Value)) :
    sameFields fields others = true ↔ fields = others := by
  match fields, others with
  | [], [] => simp [sameFields]
  | [], _ :: _ => simp [sameFields]
  | _ :: _, [] => simp [sameFields]
  | (key, v) :: rest, (other, w) :: others =>
    simp [sameFields, v.same_iff w, sameFields_iff rest others, and_assoc]

end

namespace Capture

/-! ## Records -/

/-- A captured wire frame. -/
structure Frame where
  connId : UInt32
  seq : Nat
  ts : String
  dir : String
  elapsedMs : Nat
  replyTo : Option Nat
  /-- The frame as it crossed the wire. -/
  raw : String
  /-- What the text parses to. -/
  frame : Option Value

/-- The lines of a capture that parse. -/
inductive Record where
  | frame (f : Frame)
  | «meta» (m : Value)

namespace Frame

def context (f : Frame) : Option String := ((f.frame.bind (·.get "context")).bind Value.asStr)

def data (f : Frame) : Option Value := f.frame.bind (·.get "data")

end Frame

/-- `Map::insert` of a key that is there. -/
def setEntry (key : String) (val : Value) : List (String × Value) → List (String × Value)
  | [] => []
  | (k, w) :: rest => if k = key then (k, val) :: rest else (k, w) :: setEntry key val rest

/-- A field of an object, set. -/
def setField (key : String) (val : Value) : Value → Value
  | .object fields => .object (setEntry key val fields)
  | other => other

/-! ## Placeholders -/

def placeholderPng : String :=
  "iVBORw0KGgoAAAANSUhEUgAAAAEAAAABCAQAAAC1HAwCAAAAC0lEQVR42mNgAAIAAAUAAeIVWUMAAAAASUVORK5CYII="

def placeholderLyrics : String :=
  "Lorem ipsum dolor sit amet, consectetur adipiscing elit.\nSed do eiusmod tempor incididunt " ++
    "ut labore et dolore magna aliqua.\nUt enim ad minim veniam, quis nostrud exercitation " ++
    "ullamco laboris."

def rewriteText (replacement : String) (threshold : Nat) (s : String) : String :=
  if threshold < s.utf8ByteSize then replacement else s

/-- `rewrite_long_string_field`, at one field. -/
def rewriteField (field replacement : String) (threshold : Nat) (entry : String × Value) :
    String × Value :=
  match entry with
  | (key, .string s) =>
    if key = field then (key, .string (rewriteText replacement threshold s)) else entry
  | _ => entry

/-- `rewrite_cover` and `rewrite_lyrics`: the value or its field, where it is a longer string. -/
def rewriteLong (field replacement : String) (threshold : Nat) : Value → Value
  | .string s => .string (rewriteText replacement threshold s)
  | .object fields => .object (fields.map (rewriteField field replacement threshold))
  | val => val

def rewriteCover : Value → Value := rewriteLong "cover" placeholderPng 200

def rewriteLyrics : Value → Value := rewriteLong "lyrics" placeholderLyrics 80

/-- The texts of a kind of frame that are never kept. -/
def rewriteFor (context : Option String) : Value → Value :=
  match context with
  | some "libraryalbumcover" | some "nowplayingcover" => rewriteCover
  | some "nowplayinglyrics" => rewriteLyrics
  | _ => id

/-- `rewrite_placeholders`. -/
def rewritePlaceholders (rec : Frame) : StateM Scrubber Frame :=
  match rec.frame, rec.data with
  | some frame, some data => do
    let scrubbed ← scrubValue (truncateArrays (rewriteFor rec.context data))
    let frame := setField "data" scrubbed frame
    -- the raw text no longer matches a frame that changed
    let raw := if scrubbed.same data then rec.raw else frame.render
    return { rec with frame := some frame, raw := raw }
  | _, _ => return rec

/-! ## Connections -/

structure Handshake where
  clientType : Option String := none
  protocolVersion : Option Int := none

/-- The connection of a handshake record, and what it says of it. -/
def handshakeOf (m : Value) : Option (UInt32 × Handshake) :=
  match (m.get "event").bind Value.asStr, m.get "conn_id" with
  | some "handshake", some (.number (.posInt id)) =>
    some (id.toUInt32, {
      clientType := (m.get "client_type").bind Value.asStr
      protocolVersion := (m.get "protocol_version").bind Value.asI64 })
  | _, _ => none

def Record.handshake : Record → Option (UInt32 × Handshake)
  | .meta m => handshakeOf m
  | .frame _ => none

/-- The last handshake record of a connection. -/
def handshake (capture : List Record) (id : UInt32) : Handshake :=
  ((capture.filterMap Record.handshake).reverse.lookup id).getD {}

def extractProtocolVersion (data : Value) : Option Int :=
  data.asI64.or ((data.get "protocol_version").bind Value.asI64)

/-- The data of the first frame of a client with a context, by a reading. -/
def sniff {α : Type} (context : String) (read : Value → Option α) (frames : List Frame) :
    Option α :=
  (frames.filter fun f => f.context = some context && f.dir = "c2s").findSome? fun f =>
    f.data.bind read

/-- `classify`. -/
def classify (said : Handshake) (frames : List Frame) : Handshake where
  clientType := said.clientType.or (sniff "player" Value.asStr frames)
  protocolVersion :=
    said.protocolVersion.or ((sniff "protocol" some frames).bind extractProtocolVersion)

def platform : Option String → String
  | some client =>
    if client = "Android" then "android" else if client = "iOS" then "ios" else "other"
  | none => "apidebugger"

/-- `bucket_name`. -/
def bucketName (hs : Handshake) : String :=
  match hs.protocolVersion with
  | some v =>
    if v = 2 ∨ v = 3 then "legacy-v" ++ toString v
    else "legacy-v" ++ toString v ++ "-" ++ platform hs.clientType
  | none => "legacy-unknown-" ++ platform hs.clientType

/-- A bucket that the server has no use for. -/
def preV4 (bucket : String) : Bool :=
  "legacy-v2".toList.isPrefixOf bucket.toList || "legacy-v3".toList.isPrefixOf bucket.toList

mutual

/-- `shape_only`. -/
def shapeOnly : Value → String
  | .null => "null"
  | .bool _ => "bool"
  | .number _ => "num"
  | .string _ => "str"
  | .array [] => "arr[]"
  | .array (item :: _) => "arr[" ++ shapeOnly item ++ "]"
  | .object fields => "\x7b" ++ ",".intercalate (fieldShapes fields) ++ "\x7d"

def fieldShapes : List (String × Value) → List String
  | [] => []
  | (key, val) :: rest => (key ++ ":" ++ shapeOnly val) :: fieldShapes rest

end

/-- `connection_pattern`. -/
def connectionPattern (frames : List Frame) : String :=
  String.join (frames.map fun f =>
    f.dir ++ ":" ++ f.context.getD "RAW" ++ ":" ++ (f.data.map shapeOnly).getD "" ++ "\n")

/-! ## Trimming -/

/-- The record as JSON, without what differs from one repetition to the next; the order of the
fields is not the one of the code. -/
def dedupSignature (f : Frame) : String :=
  (Value.object (
    [("type", .string "frame"), ("conn_id", .int f.connId.toNat), ("dir", .string f.dir)] ++
    (f.replyTo.map fun seq => ("reply_to", Value.int seq)).toList ++ [("raw", .string f.raw)] ++
    (f.frame.map fun frame => ("frame", frame)).toList)).render

/-- The frames of a connection, without the repeated ones. -/
def keepFrames (id : UInt32) : List Frame → List String → StateM Scrubber (List Frame)
  | [], _ => return []
  | rec :: rest, seen => do
    let rewritten ← rewritePlaceholders rec
    let rewritten := { rewritten with connId := id }
    let key := dedupSignature rewritten
    if key ∈ seen then keepFrames id rest seen
    else return rewritten :: (← keepFrames id rest (key :: seen))

/-- The frames of a bucket, without the reconnects that look alike. -/
def keepConnections : List (List Frame) → List String → UInt32 → StateM Scrubber (List Frame)
  | [], _, _ => return []
  | frames :: rest, patterns, id => do
    let pattern := connectionPattern frames
    if pattern ∈ patterns then keepConnections rest patterns id
    else
      let kept ← keepFrames id frames []
      return kept ++ (← keepConnections rest (pattern :: patterns) (id + 1))

def maxPerContext : Nat := 8

/-- `cap_per_context`; `kept` are the frames before. -/
def capPerContext : List Frame → List Frame → List Frame
  | [], _ => []
  | rec :: rest, before =>
    let alike := before.countP fun f => f.dir = rec.dir && f.context.getD "" = rec.context.getD ""
    if alike < maxPerContext then rec :: capPerContext rest (rec :: before)
    else capPerContext rest (rec :: before)

/-- The elements by key, the keys in the order in which they are first seen. -/
def grouped {α κ : Type} [DecidableEq κ] (key : α → κ) (elements : List α) : List (κ × List α) :=
  (elements.map key).eraseDups.map fun k => (k, elements.filter fun a => key a = k)

def frames (capture : List Record) : List Frame :=
  capture.filterMap fun
    | .frame f => some f
    | .meta _ => none

/-- The connections, with the bucket each belongs in. -/
def connections (capture : List Record) : List (String × List Frame) :=
  (grouped Frame.connId (frames capture)).map fun (id, frames) =>
    (bucketName (classify (handshake capture id) frames), frames)

/-- The buckets, without those of protocols before V4. -/
def buckets (capture : List Record) : List (String × List (List Frame)) :=
  (grouped Prod.fst ((connections capture).filter fun c => !preV4 c.1)).map fun (name, conns) =>
    (name, conns.map Prod.snd)

/-- `trim_capture`. -/
def trimCapture (capture : List Record) : List (String × List Frame) :=
  (buckets capture).map fun (name, conns) =>
    (name, capPerContext ((keepConnections conns [] 0).run {}).1 [])

end Capture

end Mbrc
