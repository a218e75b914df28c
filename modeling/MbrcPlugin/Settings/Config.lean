import Mathlib.Tactic.Common

/-!
# The settings of the core

`core_settings.json` as the core reads it, the check every write makes, and the write itself: a
patch is merged over the stored settings, key by key, and the result is validated and stored.
-/

namespace Mbrc.Settings

/-- Which clients may connect. -/
inductive FilterMode where
  | all | range | specific
  deriving DecidableEq

/-- How verbose the log is. -/
inductive LogLevel where
  | info | debug | trace
  deriving DecidableEq

inductive UpdateChannel where
  | stable | testing
  deriving DecidableEq

/-- As the file and the panel spell it. -/
def FilterMode.text : FilterMode → String
  | all => "all"
  | range => "range"
  | specific => "specific"

def FilterMode.ofText : String → Option FilterMode
  | "all" => some all
  | "range" => some range
  | "specific" => some specific
  | _ => none

def LogLevel.text : LogLevel → String
  | info => "info"
  | debug => "debug"
  | trace => "trace"

def LogLevel.ofText : String → Option LogLevel
  | "info" => some info
  | "debug" => some debug
  | "trace" => some trace
  | _ => none

def UpdateChannel.text : UpdateChannel → String
  | stable => "stable"
  | testing => "testing"

def UpdateChannel.ofText : String → Option UpdateChannel
  | "stable" => some stable
  | "testing" => some testing
  | _ => none

theorem FilterMode.text_of_ofText {t : String} {m : FilterMode} (h : ofText t = some m) :
    m.text = t := by
  unfold ofText at h
  split at h <;> simp at h <;> subst h <;> rfl

theorem LogLevel.text_of_ofText {t : String} {l : LogLevel} (h : ofText t = some l) :
    l.text = t := by
  unfold ofText at h
  split at h <;> simp at h <;> subst h <;> rfl

theorem UpdateChannel.text_of_ofText {t : String} {c : UpdateChannel} (h : ofText t = some c) :
    c.text = t := by
  unfold ofText at h
  split at h <;> simp at h <;> subst h <;> rfl

@[simp] theorem FilterMode.ofText_text (m : FilterMode) : ofText m.text = some m := by
  cases m <;> rfl

@[simp] theorem LogLevel.ofText_text (l : LogLevel) : ofText l.text = some l := by
  cases l <;> rfl

@[simp] theorem UpdateChannel.ofText_text (c : UpdateChannel) : ofText c.text = some c := by
  cases c <;> rfl

theorem FilterMode.text_injective {m n : FilterMode} (h : m.text = n.text) : m = n := by
  have := ofText_text m
  rw [h, ofText_text] at this
  exact (Option.some.inj this).symm

theorem LogLevel.text_injective {l k : LogLevel} (h : l.text = k.text) : l = k := by
  have := ofText_text l
  rw [h, ofText_text] at this
  exact (Option.some.inj this).symm

theorem UpdateChannel.text_injective {c d : UpdateChannel} (h : c.text = d.text) : c = d := by
  have := ofText_text c
  rw [h, ofText_text] at this
  exact (Option.some.inj this).symm

/-- The settings neither the panel nor the wizard knows. -/
structure Tuning where
  bindAddress : String := "0.0.0.0"
  pingIntervalSecs : Nat := 15
  unhandshakedTimeoutSecs : Nat := 60
  maxConnsPerClient : Nat := 20
  maxConnsPerIp : Nat := 40
  auxIdleTimeoutSecs : Nat := 300
  tcpKeepaliveSecs : Nat := 45
  updateCheckIntervalHours : Nat := 24
  proxyOverride : String := ""
  deriving DecidableEq

/-- A port is a `u16`. -/
instance port_neZero : @NeZero Nat Zero.ofOfNat0 65536 := ⟨by decide⟩

/-- An octet bound is a `u32`. -/
instance lastOctet_neZero : @NeZero Nat Zero.ofOfNat0 4294967296 := ⟨by decide⟩

/-- The runtime configuration. -/
structure Config where
  port : Fin 65536 := 3000
  filterMode : FilterMode := .all
  baseIp : String := ""
  lastOctetMax : Fin 4294967296 := 254
  allowedAddresses : List String := []
  updateFirewall : Bool := false
  logLevel : LogLevel := .info
  mdnsEnabled : Bool := true
  webEnabled : Bool := true
  webAuthRequired : Bool := false
  partyModeEnabled : Bool := false
  updateCheckEnabled : Bool := false
  updateChannel : UpdateChannel := .stable
  setupVersion : Nat := 0
  tuning : Tuning := {}
  deriving DecidableEq

/-- One part of a dotted address: a decimal number up to 255 with no leading zero. -/
def isOctet (digits : List Char) : Bool :=
  digits ≠ [] && digits.all Char.isDigit && (digits.length = 1 || digits.head? ≠ some '0') &&
    digits.length ≤ 3 && (String.ofList digits).toNat?.any (· ≤ 255)

/-- `str::parse::<Ipv4Addr>` succeeds. -/
def isIpv4 (s : String) : Bool :=
  let parts := s.toList.splitOn '.'
  parts.length = 4 && parts.all isOctet

namespace Config

/-- `Config::validate`. -/
def validate (c : Config) : Bool :=
  c.port ≠ 0 && (c.filterMode ≠ .range || isIpv4 c.baseIp) && c.lastOctetMax.val ≤ 255

theorem validate_port {c : Config} (h : c.validate = true) : 1 ≤ c.port.val := by
  simp only [validate, Bool.and_eq_true, decide_eq_true_eq] at h
  have hne := h.1.1
  have : c.port.val ≠ 0 := fun h0 => hne (Fin.ext h0)
  omega

theorem validate_lastOctetMax {c : Config} (h : c.validate = true) : c.lastOctetMax.val ≤ 255 := by
  simp only [validate, Bool.and_eq_true, decide_eq_true_eq] at h
  exact h.2

end Config

/-! ## The write -/

/-- A settings payload: the keys it names, with what it says for them. -/
structure Patch where
  port : Option Int := none
  filterMode : Option String := none
  baseIp : Option String := none
  lastOctetMax : Option Int := none
  allowedAddresses : Option (List String) := none
  updateFirewall : Option Bool := none
  logLevel : Option String := none
  mdnsEnabled : Option Bool := none
  webEnabled : Option Bool := none
  webAuthRequired : Option Bool := none
  partyModeEnabled : Option Bool := none
  updateCheckEnabled : Option Bool := none
  updateChannel : Option String := none
  setupVersion : Option Nat := none

/-- A number read as an unsigned one below `n`. -/
def unsigned (n : Nat) (i : Int) : Option (Fin n) :=
  if h : i.toNat < n ∧ 0 ≤ i then some ⟨i.toNat, h.1⟩ else none

theorem unsigned_val {n : Nat} {i : Int} {f : Fin n} (h : unsigned n i = some f) :
    (f.val : Int) = i := by
  unfold unsigned at h
  split at h
  · rename_i hi
    obtain rfl := Option.some.inj h
    show ((i.toNat : Nat) : Int) = i
    omega
  · simp at h

/-- A key of the patch wins; a key it leaves out keeps its value. -/
def takes {α β : Type} (named : Option α) (kept : β) (read : α → Option β) : Option β :=
  match named with
  | none => some kept
  | some a => read a

/-- `merge_settings`: nothing, when a value does not deserialize. -/
def mergeSettings (base : Config) (patch : Patch) : Option Config := do
  let port ← takes patch.port base.port (unsigned 65536)
  let filterMode ← takes patch.filterMode base.filterMode FilterMode.ofText
  let lastOctetMax ← takes patch.lastOctetMax base.lastOctetMax (unsigned 4294967296)
  let logLevel ← takes patch.logLevel base.logLevel LogLevel.ofText
  let updateChannel ← takes patch.updateChannel base.updateChannel UpdateChannel.ofText
  some
    { port, filterMode, lastOctetMax, logLevel, updateChannel
      baseIp := patch.baseIp.getD base.baseIp
      allowedAddresses := patch.allowedAddresses.getD base.allowedAddresses
      updateFirewall := patch.updateFirewall.getD base.updateFirewall
      mdnsEnabled := patch.mdnsEnabled.getD base.mdnsEnabled
      webEnabled := patch.webEnabled.getD base.webEnabled
      webAuthRequired := patch.webAuthRequired.getD base.webAuthRequired
      partyModeEnabled := patch.partyModeEnabled.getD base.partyModeEnabled
      updateCheckEnabled := patch.updateCheckEnabled.getD base.updateCheckEnabled
      setupVersion := patch.setupVersion.getD base.setupVersion
      tuning := base.tuning }

/-- `write_settings_bytes`: what the file holds after a write that goes through. -/
def writeSettings (file : Config) (patch : Patch) : Option Config :=
  (mergeSettings file patch).filter Config.validate

theorem writeSettings_validate {file file' : Config} {patch : Patch}
    (h : writeSettings file patch = some file') :
    mergeSettings file patch = some file' ∧ file'.validate = true := by
  exact Option.filter_eq_some_iff.mp h

end Mbrc.Settings
