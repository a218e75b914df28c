import MbrcPlugin.Lib.Text
import MbrcPlugin.Settings.Config

/-!
# The settings window

The record the host reads the settings into, what the window shows of it, and what the window
makes of its inputs again when the user saves.
-/

namespace Mbrc.Settings

open Text

/-- `CoreSettings`: the host's reflection of the settings it knows. -/
structure CoreSettings where
  port : Int := 3000
  filterMode : String := "all"
  baseIp : String := ""
  lastOctetMax : Int := 254
  allowedAddresses : List String := []
  updateFirewall : Bool := false
  logLevel : String := "info"
  mdnsEnabled : Bool := true
  webEnabled : Bool := true
  webAuthRequired : Bool := false
  updateCheckEnabled : Bool := false
  updateChannel : String := "stable"
  deriving DecidableEq

namespace CoreSettings

/-- What the host reads of the serialized configuration. -/
def ofConfig (c : Config) : CoreSettings :=
  { port := c.port.val
    filterMode := c.filterMode.text
    baseIp := c.baseIp
    lastOctetMax := c.lastOctetMax.val
    allowedAddresses := c.allowedAddresses
    updateFirewall := c.updateFirewall
    logLevel := c.logLevel.text
    mdnsEnabled := c.mdnsEnabled
    webEnabled := c.webEnabled
    webAuthRequired := c.webAuthRequired
    updateCheckEnabled := c.updateCheckEnabled
    updateChannel := c.updateChannel.text }

/-- What the host sends for the record: every key it has. -/
def toPatch (r : CoreSettings) : Patch :=
  { port := some r.port
    filterMode := some r.filterMode
    baseIp := some r.baseIp
    lastOctetMax := some r.lastOctetMax
    allowedAddresses := some r.allowedAddresses
    updateFirewall := some r.updateFirewall
    logLevel := some r.logLevel
    mdnsEnabled := some r.mdnsEnabled
    webEnabled := some r.webEnabled
    webAuthRequired := some r.webAuthRequired
    updateCheckEnabled := some r.updateCheckEnabled
    updateChannel := some r.updateChannel }

/-- The keys that decide what the listener binds and admits and what starts with it. -/
def listener (r : CoreSettings) :
    Int × String × String × Int × Bool × Bool × Bool × List String :=
  (r.port, r.filterMode, r.baseIp, r.lastOctetMax, r.mdnsEnabled, r.webEnabled,
    r.webAuthRequired, r.allowedAddresses)

end CoreSettings

/-- `PluginHost.NeedsRestart`. -/
def needsRestart (a b : CoreSettings) : Bool :=
  a.port ≠ b.port || a.filterMode ≠ b.filterMode || a.baseIp ≠ b.baseIp ||
    a.lastOctetMax ≠ b.lastOctetMax || a.mdnsEnabled ≠ b.mdnsEnabled ||
    a.webEnabled ≠ b.webEnabled || a.webAuthRequired ≠ b.webAuthRequired ||
    a.allowedAddresses ≠ b.allowedAddresses

theorem needsRestart_iff (a b : CoreSettings) :
    needsRestart a b = true ↔ a.listener ≠ b.listener := by
  simp only [needsRestart, CoreSettings.listener, Bool.or_eq_true, decide_eq_true_eq, ne_eq,
    Prod.mk.injEq]
  tauto

/-- A record that was written reads back as it was sent. -/
theorem ofConfig_of_merge {base c : Config} {r : CoreSettings}
    (h : mergeSettings base r.toPatch = some c) : CoreSettings.ofConfig c = r := by
  simp only [mergeSettings, CoreSettings.toPatch, takes, Option.bind_eq_bind,
    Option.bind_eq_some_iff, Option.some.injEq] at h
  obtain ⟨port, hport, mode, hmode, octet, hoctet, level, hlevel, channel, hchannel, rfl⟩ := h
  simp only [CoreSettings.ofConfig, unsigned_val hport, unsigned_val hoctet,
    FilterMode.text_of_ofText hmode, LogLevel.text_of_ofText hlevel,
    UpdateChannel.text_of_ofText hchannel, Option.getD_some]

/-- The keys the record has no field for stay as they were. -/
theorem merge_unknown_keys {base c : Config} {r : CoreSettings}
    (h : mergeSettings base r.toPatch = some c) :
    c.partyModeEnabled = base.partyModeEnabled ∧ c.setupVersion = base.setupVersion ∧
      c.tuning = base.tuning := by
  simp only [mergeSettings, CoreSettings.toPatch, takes, Option.bind_eq_bind,
    Option.bind_eq_some_iff, Option.some.injEq] at h
  obtain ⟨port, -, mode, -, octet, -, level, -, channel, -, rfl⟩ := h
  exact ⟨rfl, rfl, rfl⟩

/-! ## The inputs -/

/-- The lines of a multi-line text box. -/
def lines (text : String) : List String :=
  (text.toList.splitOnP fun c => c = '\r' || c = '\n').map String.ofList

/-- The inputs of the settings window. -/
structure Inputs where
  port : Int
  filterMode : Int
  baseIp : String
  lastOctet : Int
  allowedAddresses : String
  logLevel : Int
  firewall : Bool
  mdns : Bool
  webEnabled : Bool
  webAuth : Bool
  autoCheck : Bool
  deriving DecidableEq

def clamp (value min max : Int) : Int :=
  if value < min then min else if value > max then max else value

def filterModeToIndex : String → Int
  | "range" => 1
  | "specific" => 2
  | _ => 0

def indexToFilterMode : Int → String
  | 1 => "range"
  | 2 => "specific"
  | _ => "all"

def logLevels : List String := ["info", "debug", "trace"]

def logLevelToIndex (level : String) : Int :=
  let value := (trim level).toLower
  if value ∈ logLevels then (logLevels.idxOf value : Int) else 0

def indexToLogLevel (index : Int) : String :=
  if 0 ≤ index then logLevels.getD index.toNat "info" else "info"

/-- `SettingsDialog.LoadFromCore`. -/
def loadFromCore (r : CoreSettings) : Inputs :=
  { port := clamp r.port 1 65535
    filterMode := filterModeToIndex r.filterMode
    baseIp := r.baseIp
    lastOctet := clamp r.lastOctetMax 0 255
    allowedAddresses := "\r\n".intercalate r.allowedAddresses
    logLevel := logLevelToIndex r.logLevel
    firewall := r.updateFirewall
    mdns := r.mdnsEnabled
    webEnabled := r.webEnabled
    webAuth := r.webAuthRequired
    autoCheck := r.updateCheckEnabled }

/-- The address list a text box stands for: its lines, trimmed, without the blank ones. -/
def addressList (text : String) : List String :=
  ((lines text).map trim).filter (·.length > 0)

/-- `SettingsDialog.Collect`: the record has no input for the update channel. -/
def collect (i : Inputs) : CoreSettings :=
  { port := i.port
    filterMode := indexToFilterMode i.filterMode
    baseIp := trim i.baseIp
    lastOctetMax := i.lastOctet
    allowedAddresses := addressList i.allowedAddresses
    updateFirewall := i.firewall
    mdnsEnabled := i.mdns
    webEnabled := i.webEnabled
    webAuthRequired := i.webAuth
    logLevel := indexToLogLevel i.logLevel
    updateCheckEnabled := i.autoCheck }

theorem indexToFilterMode_text (m : FilterMode) :
    indexToFilterMode (filterModeToIndex m.text) = m.text := by
  cases m <;> rfl

theorem indexToLogLevel_text (l : LogLevel) :
    indexToLogLevel (logLevelToIndex l.text) = l.text := by
  cases l <;> decide +kernel

theorem clamp_of_le {value min max : Int} (h : min ≤ value) (h' : value ≤ max) :
    clamp value min max = value := by
  unfold clamp
  split
  · omega
  · split <;> omega

end Mbrc.Settings
