import MbrcPlugin.Settings.AddressFilter

/-!
# The settings of the 1.x plugin

`config_from_legacy_xml`: what the core makes of `settings.xml`, node by node, each with a default
of its own.  The result is written as it is, while every later write checks the whole record; the
texts for which the check passes are the `Sane` ones (`migrated_accepted_iff`).
-/

namespace Mbrc.Settings

open Text Net

/-- What stands before and after the first `pattern`. -/
def splitFirst (pattern : List Char) : List Char → Option (List Char × List Char)
  | [] => if pattern = [] then some ([], []) else none
  | c :: cs =>
    if pattern.isPrefixOf (c :: cs) then some ([], (c :: cs).drop pattern.length)
    else (splitFirst pattern cs).map fun p => (c :: p.1, p.2)

/-- Inner text of the first `<tag>...</tag>`, trimmed. -/
def xmlTag (xml tag : String) : Option String := do
  let (_, rest) ← splitFirst ("<" ++ tag ++ ">").toList xml.toList
  let (inner, _) ← splitFirst ("</" ++ tag ++ ">").toList rest
  return trim (String.ofList inner)

def eqIgnoreAsciiCase (s t : String) : Bool :=
  s.toList.map Char.toLower = t.toList.map Char.toLower

/-- A missing node is false. -/
def xmlBool (xml tag : String) : Bool := (xmlTag xml tag).any (eqIgnoreAsciiCase · "true")

/-- `str::split` at commas. -/
def splitCommas (s : String) : List String := (s.toList.splitOn ',').map String.ofList

/-! ## Node by node -/

def xmlPort (xml : String) : Option (Fin 65536) := (xmlTag xml "port").bind (parseUnsigned 65536)

def xmlSelection (xml : String) : FilterMode :=
  match xmlTag xml "selection" with
  | some "Range" => .range
  | some "Specific" => .specific
  | _ => .all

/-- The parts of `values`, none when the node is missing. -/
def xmlValues (xml : String) : List String :=
  match xmlTag xml "values" with
  | some values => splitCommas values
  | none => []

/-- The base of the range: nothing where there is no `values`. -/
def xmlBase (xml : String) : Option String := (xmlValues xml).head?.map trim

/-- The end of the range: nothing where it does not read as a number. -/
def xmlMax (xml : String) : Option (Fin (2 ^ 32)) :=
  (xmlValues xml)[1]?.bind fun part => parseUnsigned (2 ^ 32) (trim part)

def configFromLegacyXml (xml : String) : Config :=
  let config : Config := {}
  let config := { config with port := (xmlPort xml).getD config.port }
  let config := { config with filterMode := xmlSelection xml }
  let config := match config.filterMode with
    | .range =>
      { config with
        baseIp := (xmlBase xml).getD config.baseIp
        lastOctetMax := (xmlMax xml).getD config.lastOctetMax }
    | .specific =>
      { config with allowedAddresses := ((xmlValues xml).map trim).filter (· ≠ "") }
    | .all => config
  { config with
    logLevel := if xmlBool xml "logs_enabled" then .debug else .info
    updateFirewall := xmlBool xml "update_firewall" }

/-! ## What is written is what is accepted -/

/-- The texts whose nodes pass the check: no port 0, and a range with a base and an end of its
last octet. -/
structure Sane (xml : String) : Prop where
  port : xmlPort xml ≠ some 0
  base : xmlSelection xml = .range → ∃ base, xmlBase xml = some base ∧ isIpv4 base = true
  max : xmlSelection xml = .range → ∀ max, xmlMax xml = some max → max.val ≤ 255

/-- Each value that the patch names is one that the setting can take: a mode `range` comes with its
base, and a base that is no address with a mode that ignores it. -/
structure Patch.NamesValid (patch : Patch) : Prop where
  port : ∀ port, patch.port = some port → 1 ≤ port ∧ port < 65536
  filterMode : ∀ mode, patch.filterMode = some mode → (FilterMode.ofText mode).isSome
  range : patch.filterMode = some "range" → patch.baseIp.isSome
  baseIp : ∀ base, patch.baseIp = some base → isIpv4 base = true ∨
    ∃ mode, patch.filterMode = some mode ∧ mode ≠ "range"
  lastOctetMax : ∀ max, patch.lastOctetMax = some max → 0 ≤ max ∧ max ≤ 255
  logLevel : ∀ level, patch.logLevel = some level → (LogLevel.ofText level).isSome
  updateChannel : ∀ channel, patch.updateChannel = some channel →
    (UpdateChannel.ofText channel).isSome

/-- The file after the writes: one that is refused leaves it as it was. -/
def afterWrites (file : Config) (patches : List Patch) : Config :=
  patches.foldl (fun file patch => (writeSettings file patch).getD file) file

/-- The settings are valid, and no write that names valid values is refused, now or later. -/
def Accepted (file : Config) : Prop :=
  file.validate = true ∧ ∀ (patches : List Patch) (patch : Patch), patch.NamesValid →
    (writeSettings (afterWrites file patches) patch).isSome

theorem validate_iff (c : Config) : c.validate = true ↔ c.port ≠ 0 ∧
    (c.filterMode = .range → isIpv4 c.baseIp = true) ∧ c.lastOctetMax.val ≤ 255 := by
  simp only [Config.validate, Bool.and_eq_true, Bool.or_eq_true, decide_eq_true_eq]
  rw [and_assoc]
  refine and_congr_right fun _ => and_congr_left fun _ => ?_
  exact ⟨fun h hmode => h.resolve_left fun hne => hne hmode, fun h => or_iff_not_imp_left.mpr
    fun hne => h (not_not.mp hne)⟩

/-- The settings of a text pass the check when its nodes do. -/
theorem validate_configFromLegacyXml (xml : String) :
    (configFromLegacyXml xml).validate = true ↔ Sane xml := by
  have hport : (xmlPort xml).getD 3000 ≠ 0 ↔ xmlPort xml ≠ some 0 := by
    cases xmlPort xml with
    | none => decide
    | some port => simp
  rw [validate_iff]
  cases hmode : xmlSelection xml with
  | all =>
    simp only [configFromLegacyXml, hmode]
    rw [hport]
    constructor
    · intro h
      exact ⟨h.1, by simp [hmode], by simp [hmode]⟩
    · intro h
      exact ⟨h.port, by simp, by decide⟩
  | specific =>
    simp only [configFromLegacyXml, hmode]
    rw [hport]
    constructor
    · intro h
      exact ⟨h.1, by simp [hmode], by simp [hmode]⟩
    · intro h
      exact ⟨h.port, by simp, by decide⟩
  | range =>
    simp only [configFromLegacyXml, hmode]
    rw [hport]
    constructor
    · rintro ⟨hp, hbase, hmax⟩
      refine ⟨hp, fun _ => ?_, fun _ max hm => ?_⟩
      · have hbase := hbase trivial
        cases hb : xmlBase xml with
        | none =>
          rw [hb] at hbase
          exact absurd hbase (by decide)
        | some base =>
          rw [hb] at hbase
          exact ⟨base, rfl, hbase⟩
      · rw [hm] at hmax
        exact hmax
    · rintro ⟨hp, hbase, hmax⟩
      obtain ⟨base, hb, hvalid⟩ := hbase hmode
      refine ⟨hp, fun _ => by rw [hb]; exact hvalid, ?_⟩
      cases hm : xmlMax xml with
      | none => decide
      | some max => exact hmax hmode max hm

/-- What a key takes that is named, with a value it can take. -/
theorem takes_of_named {α β : Type} {P : β → Prop} {named : Option α} {kept : β}
    {read : α → Option β} (hkept : P kept)
    (h : ∀ a, named = some a → ∃ b, read a = some b ∧ P b) :
    ∃ b, takes named kept read = some b ∧ P b := by
  cases named with
  | none => exact ⟨kept, rfl, hkept⟩
  | some a => exact h a rfl

theorem unsigned_of_lt {n : Nat} {i : Int} (h0 : 0 ≤ i) (hn : i < n) :
    ∃ f : Fin n, unsigned n i = some f ∧ (f.val : Int) = i := by
  have hlt : i.toNat < n := by omega
  refine ⟨⟨i.toNat, hlt⟩, ?_, ?_⟩
  · rw [unsigned, dif_pos ⟨hlt, h0⟩]
  · show ((i.toNat : Nat) : Int) = i
    omega

/-- A valid file takes every patch that names valid values. -/
theorem writeSettings_of_namesValid {file : Config} (hfile : file.validate = true) {patch : Patch}
    (hpatch : patch.NamesValid) : (writeSettings file patch).isSome := by
  obtain ⟨hport, hbase, hmax⟩ := (validate_iff file).mp hfile
  obtain ⟨port, hp, hport'⟩ : ∃ port, takes patch.port file.port (unsigned 65536) = some port ∧
      port ≠ 0 := by
    refine takes_of_named hport fun i hi => ?_
    obtain ⟨hlow, hhigh⟩ := hpatch.port i hi
    obtain ⟨port, hread, hval⟩ := unsigned_of_lt (n := 65536) (by omega) hhigh
    refine ⟨port, hread, ?_⟩
    rintro rfl
    have hzero : ((0 : Fin 65536).val : Int) = 0 := rfl
    omega
  obtain ⟨mode, hm, hmode⟩ : ∃ mode, takes patch.filterMode file.filterMode FilterMode.ofText =
      some mode ∧ (mode = .range → isIpv4 (patch.baseIp.getD file.baseIp) = true) := by
    cases hnamed : patch.filterMode with
    | none =>
      refine ⟨file.filterMode, rfl, fun hrange => ?_⟩
      cases hb : patch.baseIp with
      | none => exact hbase hrange
      | some base =>
        refine (hpatch.baseIp base hb).resolve_right ?_
        rintro ⟨mode, hmode, -⟩
        rw [hnamed] at hmode
        cases hmode
    | some text =>
      obtain ⟨mode, hread⟩ := Option.isSome_iff_exists.mp (hpatch.filterMode text hnamed)
      refine ⟨mode, hread, ?_⟩
      rintro rfl
      obtain rfl : text = "range" := (FilterMode.text_of_ofText hread).symm
      obtain ⟨base, hb⟩ := Option.isSome_iff_exists.mp (hpatch.range hnamed)
      rw [hb]
      refine (hpatch.baseIp base hb).resolve_right ?_
      rintro ⟨mode, hmode, hne⟩
      rw [hnamed] at hmode
      exact hne (Option.some.inj hmode).symm
  obtain ⟨max, hx, hmax'⟩ : ∃ max, takes patch.lastOctetMax file.lastOctetMax
      (unsigned 4294967296) = some max ∧ max.val ≤ 255 := by
    refine takes_of_named hmax fun i hi => ?_
    obtain ⟨hlow, hhigh⟩ := hpatch.lastOctetMax i hi
    obtain ⟨max, hread, hval⟩ := unsigned_of_lt (n := 4294967296) hlow (by omega)
    exact ⟨max, hread, by omega⟩
  obtain ⟨level, hl, -⟩ : ∃ level, takes patch.logLevel file.logLevel LogLevel.ofText =
      some level ∧ True :=
    takes_of_named trivial fun t ht =>
      (Option.isSome_iff_exists.mp (hpatch.logLevel t ht)).imp fun _ h => ⟨h, trivial⟩
  obtain ⟨channel, hc, -⟩ : ∃ channel, takes patch.updateChannel file.updateChannel
      UpdateChannel.ofText = some channel ∧ True :=
    takes_of_named trivial fun t ht =>
      (Option.isSome_iff_exists.mp (hpatch.updateChannel t ht)).imp fun _ h => ⟨h, trivial⟩
  rw [writeSettings, mergeSettings, hp, hm, hx, hl, hc]
  refine Option.isSome_iff_exists.mpr ⟨_, Option.filter_eq_some_iff.mpr ⟨rfl, ?_⟩⟩
  exact (validate_iff _).mpr ⟨hport', hmode, hmax'⟩

theorem validate_afterWrites {file : Config} (h : file.validate = true) (patches : List Patch) :
    (afterWrites file patches).validate = true := by
  unfold afterWrites
  induction patches generalizing file with
  | nil => exact h
  | cons patch patches ih =>
    refine ih ?_
    show ((writeSettings file patch).getD file).validate = true
    cases hwrite : writeSettings file patch with
    | none => exact h
    | some file' => exact (writeSettings_validate hwrite).2

/-- **When the settings of the 1.x plugin are settings**: exactly when no node is out of range. -/
theorem migrated_accepted_iff (xml : String) : Accepted (configFromLegacyXml xml) ↔ Sane xml := by
  rw [← validate_configFromLegacyXml]
  refine ⟨And.left, fun h => ⟨h, fun patches patch hpatch => ?_⟩⟩
  exact writeSettings_of_namesValid (validate_afterWrites h patches) hpatch

/-- A node that says port 0: the log level cannot be turned up any more. -/
theorem migrated_port_zero :
    ¬ Accepted (configFromLegacyXml "<mbremote><port>0</port></mbremote>") ∧
      writeSettings (configFromLegacyXml "<mbremote><port>0</port></mbremote>")
        { logLevel := some "debug" } = none := by
  have hport : (configFromLegacyXml "<mbremote><port>0</port></mbremote>").port = 0 := by
    decide +kernel
  have hinvalid : (configFromLegacyXml "<mbremote><port>0</port></mbremote>").validate ≠ true :=
    fun h => ((validate_iff _).mp h).1 hport
  exact ⟨fun h => hinvalid h.1, by decide +kernel⟩

end Mbrc.Settings
