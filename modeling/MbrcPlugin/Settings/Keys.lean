import MbrcPlugin.Settings.Saved
import Mathlib.Data.List.Induction
import Mathlib.Data.Fintype.Basic

/-!
# The settings key by key

A patch names some of the keys, and a merge takes these and keeps the others (`get_mergeSettings`).
Several merges take what each of them names, when no two name the same key (`get_of_named`,
`get_of_unnamed`).
-/

namespace Mbrc.Settings

instance : Fintype Key :=
  Fintype.ofList
    [.port, .filterMode, .baseIp, .lastOctetMax, .allowedAddresses, .updateFirewall, .logLevel,
      .mdnsEnabled, .webEnabled, .webAuthRequired, .partyModeEnabled, .updateCheckEnabled,
      .updateChannel, .setupVersion, .tuning]
    fun key => by cases key <;> decide

/-- What may stand under a key. -/
inductive KeyValue where
  | number (number : Int)
  | text (text : String)
  | texts (texts : List String)
  | flag (flag : Bool)
  | tuning (tuning : Tuning)
  deriving DecidableEq

def Config.get (c : Config) : Key → KeyValue
  | .port => .number c.port.val
  | .filterMode => .text c.filterMode.text
  | .baseIp => .text c.baseIp
  | .lastOctetMax => .number c.lastOctetMax.val
  | .allowedAddresses => .texts c.allowedAddresses
  | .updateFirewall => .flag c.updateFirewall
  | .logLevel => .text c.logLevel.text
  | .mdnsEnabled => .flag c.mdnsEnabled
  | .webEnabled => .flag c.webEnabled
  | .webAuthRequired => .flag c.webAuthRequired
  | .partyModeEnabled => .flag c.partyModeEnabled
  | .updateCheckEnabled => .flag c.updateCheckEnabled
  | .updateChannel => .text c.updateChannel.text
  | .setupVersion => .number c.setupVersion
  | .tuning => .tuning c.tuning

/-- What a patch says for a key, nothing where it does not name it. -/
def Patch.get (patch : Patch) : Key → Option KeyValue
  | .port => patch.port.map .number
  | .filterMode => patch.filterMode.map .text
  | .baseIp => patch.baseIp.map .text
  | .lastOctetMax => patch.lastOctetMax.map .number
  | .allowedAddresses => patch.allowedAddresses.map .texts
  | .updateFirewall => patch.updateFirewall.map .flag
  | .logLevel => patch.logLevel.map .text
  | .mdnsEnabled => patch.mdnsEnabled.map .flag
  | .webEnabled => patch.webEnabled.map .flag
  | .webAuthRequired => patch.webAuthRequired.map .flag
  | .partyModeEnabled => patch.partyModeEnabled.map .flag
  | .updateCheckEnabled => patch.updateCheckEnabled.map .flag
  | .updateChannel => patch.updateChannel.map .text
  | .setupVersion => patch.setupVersion.map fun n : Nat => .number n
  | .tuning => none

/-! ## One merge -/

/-- What is taken reads as the patch says. -/
theorem get_takes {α β : Type} {named : Option α} {kept taken : β} {read : α → Option β}
    {said : α → KeyValue} (held : β → KeyValue)
    (hread : ∀ a b, read a = some b → held b = said a) (h : takes named kept read = some taken) :
    held taken = (named.map said).getD (held kept) := by
  cases named with
  | none =>
    obtain rfl := Option.some.inj h
    rfl
  | some a => exact hread a taken h

theorem held_getD {α : Type} (named : Option α) (kept : α) (held : α → KeyValue) :
    held (named.getD kept) = (named.map held).getD (held kept) := by
  cases named <;> rfl

/-- **The keys a patch names win; the others keep their value.** -/
theorem get_mergeSettings {base merged : Config} {patch : Patch}
    (h : mergeSettings base patch = some merged) (key : Key) :
    merged.get key = (patch.get key).getD (base.get key) := by
  simp only [mergeSettings, Option.bind_eq_bind, Option.bind_eq_some_iff] at h
  obtain ⟨port, hport, mode, hmode, max, hmax, level, hlevel, channel, hchannel, heq⟩ := h
  obtain rfl := Option.some.inj heq
  cases key with
  | port =>
    exact get_takes (fun port : Fin 65536 => .number port.val)
      (fun i port hi => by rw [unsigned_val hi]) hport
  | filterMode =>
    exact get_takes (fun mode : FilterMode => .text mode.text)
      (fun t mode ht => by rw [FilterMode.text_of_ofText ht]) hmode
  | lastOctetMax =>
    exact get_takes (fun max : Fin 4294967296 => .number max.val)
      (fun i max hi => by rw [unsigned_val hi]) hmax
  | logLevel =>
    exact get_takes (fun level : LogLevel => .text level.text)
      (fun t level ht => by rw [LogLevel.text_of_ofText ht]) hlevel
  | updateChannel =>
    exact get_takes (fun channel : UpdateChannel => .text channel.text)
      (fun t channel ht => by rw [UpdateChannel.text_of_ofText ht]) hchannel
  | baseIp => exact held_getD _ _ .text
  | allowedAddresses => exact held_getD _ _ .texts
  | updateFirewall | mdnsEnabled | webEnabled | webAuthRequired | partyModeEnabled
  | updateCheckEnabled => exact held_getD _ _ .flag
  | setupVersion => exact held_getD _ _ fun n : Nat => .number n
  | tuning => rfl

/-! ## Several merges -/

/-- The settings after several patches. -/
def mergeAll (base : Config) (patches : List Patch) : Option Config :=
  patches.foldlM mergeSettings base

theorem mergeAll_concat (base : Config) (patches : List Patch) (patch : Patch) :
    mergeAll base (patches ++ [patch]) =
      (mergeAll base patches).bind fun c => mergeSettings c patch := by
  simp [mergeAll, List.foldlM_append]

theorem get_of_unnamed {base c : Config} {patches : List Patch} {key : Key}
    (h : mergeAll base patches = some c) (hnone : ∀ patch ∈ patches, patch.get key = none) :
    c.get key = base.get key := by
  induction patches using List.reverseRecOn generalizing c with
  | nil =>
    obtain rfl := Option.some.inj h
    rfl
  | append_singleton patches patch ih =>
    rw [mergeAll_concat] at h
    obtain ⟨mid, hmid, hmerge⟩ := Option.bind_eq_some_iff.mp h
    rw [get_mergeSettings hmerge, hnone patch (by simp)]
    exact ih hmid fun p hp => hnone p (by simp [hp])

/-- The one value that is said for a key is what it has. -/
theorem get_of_named {base c : Config} {patches : List Patch} {patch : Patch} {key : Key}
    {value : KeyValue} (h : mergeAll base patches = some c) (hmem : patch ∈ patches)
    (hvalue : patch.get key = some value)
    (hone : ∀ p ∈ patches, p.get key = none ∨ p.get key = some value) :
    c.get key = value := by
  induction patches using List.reverseRecOn generalizing c with
  | nil => cases hmem
  | append_singleton patches last ih =>
    rw [mergeAll_concat] at h
    obtain ⟨mid, hmid, hmerge⟩ := Option.bind_eq_some_iff.mp h
    rw [get_mergeSettings hmerge]
    rcases hone last (by simp) with hnone | hsome
    · rw [hnone]
      have hne : patch ≠ last := by
        rintro rfl
        rw [hnone] at hvalue
        cases hvalue
      have hmem : patch ∈ patches := by simpa [hne] using hmem
      exact ih hmid hmem fun p hp => hone p (by simp [hp])
    · rw [hsome]
      rfl

/-! ## As text -/

/-- The list of addresses, an item a line. -/
def addressLines (addresses : List String) : List String :=
  if addresses = [] then ["  \"allowed_addresses\": [],"]
  else "  \"allowed_addresses\": [" ::
    addresses.dropLast.map ("    \"" ++ · ++ "\",") ++
    addresses.getLast?.toList.map ("    \"" ++ · ++ "\"") ++ ["  ],"]

/-- `to_string_pretty`, line by line, where no text needs an escape. -/
def prettyLines (c : Config) : List String :=
  ["\x7b", "  \"port\": " ++ toString c.port.val ++ ",",
    "  \"bind_address\": \"" ++ c.tuning.bindAddress ++ "\",",
    "  \"filter_mode\": \"" ++ c.filterMode.text ++ "\",",
    "  \"base_ip\": \"" ++ c.baseIp ++ "\",",
    "  \"last_octet_max\": " ++ toString c.lastOctetMax.val ++ ","] ++
  addressLines c.allowedAddresses ++
  ["  \"update_firewall\": " ++ toString c.updateFirewall ++ ",",
    "  \"log_level\": \"" ++ c.logLevel.text ++ "\",",
    "  \"ping_interval_secs\": " ++ toString c.tuning.pingIntervalSecs ++ ",",
    "  \"unhandshaked_timeout_secs\": " ++ toString c.tuning.unhandshakedTimeoutSecs ++ ",",
    "  \"max_conns_per_client\": " ++ toString c.tuning.maxConnsPerClient ++ ",",
    "  \"max_conns_per_ip\": " ++ toString c.tuning.maxConnsPerIp ++ ",",
    "  \"aux_idle_timeout_secs\": " ++ toString c.tuning.auxIdleTimeoutSecs ++ ",",
    "  \"tcp_keepalive_secs\": " ++ toString c.tuning.tcpKeepaliveSecs ++ ",",
    "  \"mdns_enabled\": " ++ toString c.mdnsEnabled ++ ",",
    "  \"web_enabled\": " ++ toString c.webEnabled ++ ",",
    "  \"web_auth_required\": " ++ toString c.webAuthRequired ++ ",",
    "  \"party_mode_enabled\": " ++ toString c.partyModeEnabled ++ ",",
    "  \"update_check_enabled\": " ++ toString c.updateCheckEnabled ++ ",",
    "  \"update_channel\": \"" ++ c.updateChannel.text ++ "\",",
    "  \"update_check_interval_hours\": " ++ toString c.tuning.updateCheckIntervalHours ++ ",",
    "  \"proxy_override\": \"" ++ c.tuning.proxyOverride ++ "\",",
    "  \"setup_version\": " ++ toString c.setupVersion, "\x7d"]

def pretty (c : Config) : List UInt8 :=
  [10].intercalate ((prettyLines c).map fun line => line.toUTF8.data.toList)

end Mbrc.Settings
