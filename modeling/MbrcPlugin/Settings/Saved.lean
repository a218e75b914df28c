import MbrcPlugin.Lib.Transition
import MbrcPlugin.Settings.Panel

/-!
# Saved settings

Three copies of the settings: the file, the configuration the core was initialized with, and the
one networking was started with.  A settings session reads the core's copy into the window,
writes what the window collects over the file, and reloads the core when the record it sent asks
for it by `needsRestart`; finishing the setup wizard writes its choices and compares two reads.
`saved_settings_iff` says which of these steps keep the window, the file and networking together.
-/

namespace Mbrc.Settings

open Text

/-- `SetupChoices`, what the wizard asked. -/
structure SetupChoices where
  webEnabled : Bool
  webAuthRequired : Bool
  updateCheckEnabled : Bool
  updateChannel : String

/-- `CURRENT_SETUP_VERSION`. -/
def currentSetupVersion : Nat := 1

/-- `completion_patch`. -/
def completionPatch : Option SetupChoices → Patch
  | none => { setupVersion := some currentSetupVersion }
  | some choices =>
    { setupVersion := some currentSetupVersion
      webEnabled := some choices.webEnabled
      webAuthRequired := some choices.webAuthRequired
      updateCheckEnabled := some choices.updateCheckEnabled
      updateChannel := some choices.updateChannel }

/-- The file, the core's configuration and live Party Mode switch, and what networking runs
under. -/
structure State where
  file : Config
  memory : Config
  partyMode : Bool
  networking : Config
  deriving DecidableEq

/-- What happens: `writable` says whether the file could be written. -/
inductive Event where
  | session (edit : Inputs → Inputs) (writable : Bool)
  | completeSetup (choices : Option SetupChoices) (writable : Bool)
  | setPartyMode (enabled : Bool) (writable : Bool)

namespace State

/-- `read_settings_bytes`: the core's copy, not the file. -/
def readSettings (s : State) : CoreSettings :=
  .ofConfig { s.memory with partyModeEnabled := s.partyMode }

/-- `write_settings_bytes`. -/
def write (s : State) (patch : Patch) (writable : Bool) : Option Config :=
  if writable then writeSettings s.file patch else none

/-- `NativeBridge.Reload`: the core and networking start again from the file. -/
def reload (s : State) : State :=
  { s with memory := s.file, partyMode := s.file.partyModeEnabled, networking := s.file }

/-- `PluginHost.ApplySettings`. -/
def applySettings (s : State) (updated : CoreSettings) (writable : Bool) : State :=
  let current := s.readSettings
  match s.write updated.toPatch writable with
  | none => s
  | some file =>
    if needsRestart current updated then { s with file }.reload else { s with file }

/-- `PluginHost.CompleteSetup`. -/
def completeSetup (s : State) (choices : Option SetupChoices) (writable : Bool) : State :=
  let current := s.readSettings
  match s.write (completionPatch choices) writable with
  | none => s
  | some file =>
    if choices.isNone then { s with file }
    else
      let updated := { s with file }.readSettings
      if needsRestart current updated then { s with file }.reload else { s with file }

/-- `set_party_mode`: live, and persisted for the next start. -/
def setPartyMode (s : State) (enabled writable : Bool) : State :=
  match s.write { partyModeEnabled := some enabled } writable with
  | none => { s with partyMode := enabled }
  | some file => { s with file, partyMode := enabled }

/-- The inputs as the window opens. -/
def shown (s : State) : Inputs := loadFromCore s.readSettings

def step (s : State) : Event → State
  | .session edit writable => s.applySettings (collect (edit s.shown)) writable
  | .completeSetup choices writable => s.completeSetup choices writable
  | .setPartyMode enabled writable => s.setPartyMode enabled writable

/-- The core and networking were started from the file. -/
def started (file : Config) : State :=
  { file, memory := file, partyMode := file.partyModeEnabled, networking := file }

end State

/-- Runs from a stored file that validates. -/
def system : Transition.System State Event where
  start s := ∃ file : Config, file.validate = true ∧ s = State.started file
  next s event := some (s.step event)

/-! ## What is promised -/

/-- The keys of the file. -/
inductive Key where
  | port | filterMode | baseIp | lastOctetMax | allowedAddresses | updateFirewall | logLevel
  | mdnsEnabled | webEnabled | webAuthRequired | partyModeEnabled | updateCheckEnabled
  | updateChannel | setupVersion | tuning
  deriving DecidableEq

/-- The two files agree on the key. -/
def Config.Same (c d : Config) : Key → Prop
  | .port => c.port = d.port
  | .filterMode => c.filterMode = d.filterMode
  | .baseIp => c.baseIp = d.baseIp
  | .lastOctetMax => c.lastOctetMax = d.lastOctetMax
  | .allowedAddresses => c.allowedAddresses = d.allowedAddresses
  | .updateFirewall => c.updateFirewall = d.updateFirewall
  | .logLevel => c.logLevel = d.logLevel
  | .mdnsEnabled => c.mdnsEnabled = d.mdnsEnabled
  | .webEnabled => c.webEnabled = d.webEnabled
  | .webAuthRequired => c.webAuthRequired = d.webAuthRequired
  | .partyModeEnabled => c.partyModeEnabled = d.partyModeEnabled
  | .updateCheckEnabled => c.updateCheckEnabled = d.updateCheckEnabled
  | .updateChannel => c.updateChannel = d.updateChannel
  | .setupVersion => c.setupVersion = d.setupVersion
  | .tuning => c.tuning = d.tuning

/-- The user changed the key's input.  Four keys have none. -/
def Inputs.Changed (i j : Inputs) : Key → Prop
  | .port => i.port ≠ j.port
  | .filterMode => i.filterMode ≠ j.filterMode
  | .baseIp => i.baseIp ≠ j.baseIp
  | .lastOctetMax => i.lastOctet ≠ j.lastOctet
  | .allowedAddresses => i.allowedAddresses ≠ j.allowedAddresses
  | .updateFirewall => i.firewall ≠ j.firewall
  | .logLevel => i.logLevel ≠ j.logLevel
  | .mdnsEnabled => i.mdns ≠ j.mdns
  | .webEnabled => i.webEnabled ≠ j.webEnabled
  | .webAuthRequired => i.webAuth ≠ j.webAuth
  | .updateCheckEnabled => i.autoCheck ≠ j.autoCheck
  | .partyModeEnabled | .updateChannel | .setupVersion | .tuning => False

/-- The panel shows what is stored. -/
def State.ShowsFile (s : State) : Prop := s.readSettings = .ofConfig s.file

/-- A save changes only what the user changed. -/
def OnlyEdited (s s' : State) : Event → Prop
  | .session edit _ => ∀ key, ¬ s.shown.Changed (edit s.shown) key → s'.file.Same s.file key
  | _ => True

/-- After a step that changed a key of the listener, networking runs under the file. -/
def RunsUnderFile (s s' : State) : Event → Prop
  | .setPartyMode .. => True
  | _ => (CoreSettings.ofConfig s'.file).listener ≠ (CoreSettings.ofConfig s.file).listener →
      (CoreSettings.ofConfig s'.networking).listener = (CoreSettings.ofConfig s'.file).listener

/-- The step from `s` to `s'` does what the settings window promises. -/
structure Keeps (s : State) (event : Event) (s' : State) : Prop where
  shows : s'.ShowsFile
  onlyEdited : OnlyEdited s s' event
  runsUnderFile : RunsUnderFile s s' event

/-! ## When it holds -/

/-- What the window makes of the file's base address and address list is what the file has, and
the file's channel is the one the record falls back on. -/
def Untouched (file : Config) (seen edited : Inputs) : Prop :=
  (seen.baseIp = edited.baseIp → trim file.baseIp = file.baseIp) ∧
  (seen.allowedAddresses = edited.allowedAddresses →
    addressList seen.allowedAddresses = file.allowedAddresses) ∧
  file.updateChannel = .stable

/-- The record asks for a restart, or says nothing new under the keys no restart is asked for. -/
def Taken (file : Config) (sent : CoreSettings) : Prop :=
  needsRestart (.ofConfig file) sent = true ∨
    (sent.updateFirewall = file.updateFirewall ∧ sent.logLevel = file.logLevel.text ∧
      sent.updateCheckEnabled = file.updateCheckEnabled)

/-- The condition on a step, in the file it starts from and what the user does. -/
def Harmless (s : State) : Event → Prop
  | .session edit writable =>
    let seen := loadFromCore (.ofConfig s.file)
    let sent := collect (edit seen)
    s.write sent.toPatch writable = none ∨ (Untouched s.file seen (edit seen) ∧ Taken s.file sent)
  | .completeSetup none _ => True
  | .completeSetup (some choices) writable =>
    s.write (completionPatch (some choices)) writable = none ∨
      (choices.webEnabled = s.file.webEnabled ∧
        choices.webAuthRequired = s.file.webAuthRequired ∧
        choices.updateCheckEnabled = s.file.updateCheckEnabled ∧
        choices.updateChannel = s.file.updateChannel.text)
  | .setPartyMode .. => True

/-- The stored file is valid, the core shows it and networking runs under it. -/
structure Sound (s : State) : Prop where
  valid : s.file.validate = true
  shows : s.ShowsFile
  running : (CoreSettings.ofConfig s.networking).listener = (CoreSettings.ofConfig s.file).listener

theorem sound_started {file : Config} (h : file.validate = true) : Sound (.started file) :=
  ⟨h, rfl, rfl⟩

/-! ## The writes -/

theorem write_eq_some {s : State} {patch : Patch} {writable : Bool} {file : Config}
    (h : s.write patch writable = some file) :
    mergeSettings s.file patch = some file ∧ file.validate = true := by
  unfold State.write at h
  split at h
  · exact writeSettings_validate h
  · simp at h

/-- The wizard's choices replace four keys the host knows. -/
theorem ofConfig_of_merge_completion {base c : Config} {choices : SetupChoices}
    (h : mergeSettings base (completionPatch (some choices)) = some c) :
    CoreSettings.ofConfig c =
      { CoreSettings.ofConfig base with
        webEnabled := choices.webEnabled
        webAuthRequired := choices.webAuthRequired
        updateCheckEnabled := choices.updateCheckEnabled
        updateChannel := choices.updateChannel } := by
  simp only [mergeSettings, completionPatch, takes, Option.bind_eq_bind, Option.bind_some,
    Option.bind_eq_some_iff, Option.some.injEq] at h
  obtain ⟨channel, hchannel, rfl⟩ := h
  simp only [CoreSettings.ofConfig, Option.getD_some, Option.getD_none,
    UpdateChannel.text_of_ofText hchannel]

/-- A patch with none of the keys the host knows. -/
theorem ofConfig_of_merge_other {base c : Config} {version : Option Nat} {party : Option Bool}
    (h : mergeSettings base { setupVersion := version, partyModeEnabled := party } = some c) :
    CoreSettings.ofConfig c = CoreSettings.ofConfig base := by
  simp only [mergeSettings, takes, Option.bind_eq_bind, Option.bind_some, Option.some.injEq] at h
  subst h
  rfl

/-! ## A settings session -/

theorem shown_eq {s : State} (hs : Sound s) : s.shown = loadFromCore (.ofConfig s.file) := by
  unfold State.shown
  rw [hs.shows]

/-- The inputs the user left alone collect to what the file has, but for the address inputs. -/
theorem collect_unchanged {file : Config} (h : file.validate = true) :
    let seen := loadFromCore (.ofConfig file)
    seen.port = file.port.val ∧ seen.lastOctet = file.lastOctetMax.val ∧
      indexToFilterMode seen.filterMode = file.filterMode.text ∧
      indexToLogLevel seen.logLevel = file.logLevel.text := by
  have hport := Config.validate_port h
  have hoctet := Config.validate_lastOctetMax h
  refine ⟨?_, ?_, indexToFilterMode_text _, indexToLogLevel_text _⟩
  · show clamp file.port.val 1 65535 = file.port.val
    apply clamp_of_le <;> omega
  · show clamp file.lastOctetMax.val 0 255 = file.lastOctetMax.val
    apply clamp_of_le <;> omega

/-- **A save changes only what the user changed**, exactly when the window gives back what it was
shown. -/
theorem onlyEdited_iff {s s' : State} (hs : Sound s) {edit : Inputs → Inputs} {writable : Bool}
    (hmerge : mergeSettings s.file (collect (edit s.shown)).toPatch = some s'.file) :
    OnlyEdited s s' (.session edit writable) ↔ Untouched s.file s.shown (edit s.shown) := by
  have hread := ofConfig_of_merge hmerge
  obtain ⟨hparty, hversion, htuning⟩ := merge_unknown_keys hmerge
  simp only [CoreSettings.ofConfig, collect, CoreSettings.mk.injEq] at hread
  obtain ⟨hport, hmode, hbase, hoctet, haddr, hfire, hlevel, hmdns, hweb, hauth, hcheck,
    hchannel⟩ := hread
  obtain ⟨uport, uoctet, umode, ulevel⟩ := collect_unchanged hs.valid
  rw [← shown_eq hs] at uport uoctet umode ulevel
  have hshown := shown_eq hs
  constructor
  · intro h
    refine ⟨fun hsame => ?_, fun hsame => ?_, ?_⟩
    · have hkey : s'.file.baseIp = s.file.baseIp := h .baseIp fun hne => hne hsame
      rw [hbase, ← hsame, hshown] at hkey
      exact hkey
    · have hkey : s'.file.allowedAddresses = s.file.allowedAddresses :=
        h .allowedAddresses fun hne => hne hsame
      rwa [haddr, ← hsame] at hkey
    · have hkey : s'.file.updateChannel = s.file.updateChannel := h .updateChannel id
      rw [← hkey]
      exact UpdateChannel.text_injective hchannel
  · rintro ⟨kbase, kaddr, kchannel⟩ key hkey
    cases key with
    | port =>
      have := not_not.mp hkey
      refine Fin.ext ?_
      omega
    | filterMode =>
      apply FilterMode.text_injective
      rw [hmode, ← not_not.mp hkey, umode]
    | baseIp =>
      have hsame := not_not.mp hkey
      show s'.file.baseIp = s.file.baseIp
      rw [hbase, ← hsame, ← kbase hsame, hshown]
      rfl
    | lastOctetMax =>
      have := not_not.mp hkey
      refine Fin.ext ?_
      omega
    | allowedAddresses =>
      have hsame := not_not.mp hkey
      show s'.file.allowedAddresses = s.file.allowedAddresses
      rw [haddr, ← hsame, kaddr hsame]
    | updateFirewall =>
      show s'.file.updateFirewall = s.file.updateFirewall
      rw [hfire, ← not_not.mp hkey, hshown]
      rfl
    | logLevel =>
      apply LogLevel.text_injective
      rw [hlevel, ← not_not.mp hkey, ulevel]
    | mdnsEnabled =>
      show s'.file.mdnsEnabled = s.file.mdnsEnabled
      rw [hmdns, ← not_not.mp hkey, hshown]
      rfl
    | webEnabled =>
      show s'.file.webEnabled = s.file.webEnabled
      rw [hweb, ← not_not.mp hkey, hshown]
      rfl
    | webAuthRequired =>
      show s'.file.webAuthRequired = s.file.webAuthRequired
      rw [hauth, ← not_not.mp hkey, hshown]
      rfl
    | partyModeEnabled => exact hparty
    | updateCheckEnabled =>
      show s'.file.updateCheckEnabled = s.file.updateCheckEnabled
      rw [hcheck, ← not_not.mp hkey, hshown]
      rfl
    | updateChannel =>
      show s'.file.updateChannel = s.file.updateChannel
      rw [kchannel]
      exact UpdateChannel.text_injective hchannel
    | setupVersion => exact hversion
    | tuning => exact htuning

/-- Where no restart is asked for, the core keeps its copy: it shows the file as long as the
record says nothing new. -/
theorem shows_iff_taken {file : Config} {i : Inputs} (hchannel : file.updateChannel = .stable) :
    (needsRestart (.ofConfig file) (collect i) = true ∨ CoreSettings.ofConfig file = collect i) ↔
      Taken file (collect i) := by
  constructor
  · rintro (h | h)
    · exact Or.inl h
    · rw [← h]
      exact Or.inr ⟨rfl, rfl, rfl⟩
  · rintro (h | ⟨hfire, hlevel, hcheck⟩)
    · exact Or.inl h
    · by_cases hr : needsRestart (.ofConfig file) (collect i) = true
      · exact Or.inl hr
      · right
        rw [needsRestart_iff, not_not] at hr
        simp only [CoreSettings.listener, Prod.mk.injEq] at hr
        obtain ⟨h1, h2, h3, h4, h5, h6, h7, h8⟩ := hr
        have hstable : (collect i).updateChannel = (CoreSettings.ofConfig file).updateChannel := by
          simp only [CoreSettings.ofConfig, hchannel]
          rfl
        cases hc : collect i
        simp_all [CoreSettings.ofConfig]

theorem session_keeps_iff {s : State} (hs : Sound s) (edit : Inputs → Inputs) (writable : Bool) :
    Keeps s (.session edit writable) (s.step (.session edit writable)) ↔
      Harmless s (.session edit writable) := by
  simp only [State.step, State.applySettings, Harmless, ← shown_eq hs]
  cases hw : s.write (collect (edit s.shown)).toPatch writable with
  | none =>
    refine ⟨fun _ => Or.inl rfl, fun _ => ⟨hs.shows, fun key _ => ?_, fun h => absurd rfl h⟩⟩
    cases key <;> rfl
  | some file =>
    obtain ⟨hmerge, hvalid⟩ := write_eq_some hw
    have hread := ofConfig_of_merge hmerge
    rw [hs.shows]
    simp only [reduceCtorEq, false_or]
    by_cases hr : needsRestart (.ofConfig s.file) (collect (edit s.shown)) = true
    · rw [if_pos hr]
      have hedited := @onlyEdited_iff s (State.reload { s with file }) hs edit writable hmerge
      exact ⟨fun h => ⟨hedited.mp h.onlyEdited, Or.inl hr⟩,
        fun h => ⟨rfl, hedited.mpr h.1, fun _ => rfl⟩⟩
    · rw [if_neg hr]
      have hedited := @onlyEdited_iff s { s with file } hs edit writable hmerge
      have hshows : State.ShowsFile { s with file } ↔
          CoreSettings.ofConfig s.file = collect (edit s.shown) := by
        show s.readSettings = .ofConfig file ↔ _
        rw [hs.shows, hread]
      rw [needsRestart_iff, not_not] at hr
      constructor
      · intro h
        have hun := hedited.mp h.onlyEdited
        exact ⟨hun, (shows_iff_taken hun.2.2).mp (Or.inr (hshows.mp h.shows))⟩
      · rintro ⟨hun, htaken⟩
        refine ⟨hshows.mpr ?_, hedited.mpr hun, fun hne => ?_⟩
        · refine ((shows_iff_taken hun.2.2).mpr htaken).resolve_left fun hr' => ?_
          exact (needsRestart_iff _ _).mp hr' hr
        · refine absurd ?_ hne
          show (CoreSettings.ofConfig file).listener = _
          rw [hread, hr]

/-! ## The wizard and Party Mode -/

/-- The two reads of `CompleteSetup` are of the core's copy, which no write changes: the core is
never reloaded. -/
theorem completeSetup_eq {s : State} {choices : Option SetupChoices} {writable : Bool}
    {file : Config} (hw : s.write (completionPatch choices) writable = some file) :
    s.completeSetup choices writable = { s with file } := by
  have hread : ({ s with file } : State).readSettings = s.readSettings := rfl
  have hno : ¬ needsRestart s.readSettings s.readSettings = true := by
    rw [needsRestart_iff]
    exact fun h => h rfl
  simp only [State.completeSetup, hw, hread, if_neg hno, ite_self]

theorem completeSetup_keeps_iff {s : State} (hs : Sound s) (choices : Option SetupChoices)
    (writable : Bool) :
    Keeps s (.completeSetup choices writable) (s.step (.completeSetup choices writable)) ↔
      Harmless s (.completeSetup choices writable) := by
  have hstep : s.step (.completeSetup choices writable) = s.completeSetup choices writable := rfl
  cases hw : s.write (completionPatch choices) writable with
  | none =>
    have hsame : s.completeSetup choices writable = s := by simp only [State.completeSetup, hw]
    rw [hstep, hsame]
    refine ⟨fun _ => ?_, fun _ => ⟨hs.shows, trivial, fun h => absurd rfl h⟩⟩
    cases choices with
    | none => trivial
    | some choices => exact Or.inl hw
  | some file =>
    obtain ⟨hmerge, -⟩ := write_eq_some hw
    rw [hstep, completeSetup_eq hw]
    cases choices with
    | none =>
      have hread := ofConfig_of_merge_other hmerge
      refine ⟨fun _ => trivial, fun _ => ⟨?_, trivial, fun hne => absurd ?_ hne⟩⟩
      · show s.readSettings = .ofConfig file
        rw [hs.shows, hread]
      · show (CoreSettings.ofConfig file).listener = _
        rw [hread]
    | some choices =>
      have hread := ofConfig_of_merge_completion hmerge
      have hshows : State.ShowsFile { s with file } ↔ choices.webEnabled = s.file.webEnabled ∧
          choices.webAuthRequired = s.file.webAuthRequired ∧
          choices.updateCheckEnabled = s.file.updateCheckEnabled ∧
          choices.updateChannel = s.file.updateChannel.text := by
        show s.readSettings = .ofConfig file ↔ _
        rw [hs.shows, hread]
        simp only [CoreSettings.ofConfig, CoreSettings.mk.injEq, true_and]
        constructor
        · rintro ⟨h1, h2, h3, h4⟩
          exact ⟨h1.symm, h2.symm, h3.symm, h4.symm⟩
        · rintro ⟨h1, h2, h3, h4⟩
          exact ⟨h1.symm, h2.symm, h3.symm, h4.symm⟩
      simp only [Harmless, hw, reduceCtorEq, false_or]
      refine ⟨fun h => hshows.mp h.shows,
        fun h => ⟨hshows.mpr h, trivial, fun hne => absurd ?_ hne⟩⟩
      have heq : s.readSettings = .ofConfig file := hshows.mpr h
      show (CoreSettings.ofConfig file).listener = _
      rw [← heq, hs.shows]

theorem setPartyMode_keeps {s : State} (hs : Sound s) (enabled writable : Bool) :
    Keeps s (.setPartyMode enabled writable) (s.step (.setPartyMode enabled writable)) := by
  refine ⟨?_, trivial, trivial⟩
  show (s.setPartyMode enabled writable).ShowsFile
  unfold State.setPartyMode
  split
  · exact hs.shows
  · rename_i file hw
    show s.readSettings = .ofConfig file
    rw [hs.shows, ofConfig_of_merge_other (write_eq_some hw).1]

/-! ## Whole runs -/

/-- **One step** keeps the window, the file and networking together exactly when it is harmless. -/
theorem keeps_iff_harmless {s : State} (hs : Sound s) (event : Event) :
    Keeps s event (s.step event) ↔ Harmless s event := by
  cases event with
  | session edit writable => exact session_keeps_iff hs edit writable
  | completeSetup choices writable => exact completeSetup_keeps_iff hs choices writable
  | setPartyMode enabled writable =>
    exact ⟨fun _ => trivial, fun _ => setPartyMode_keeps hs enabled writable⟩

/-- A step leaves a valid file. -/
theorem step_validate {s : State} (h : s.file.validate = true) (event : Event) :
    (s.step event).file.validate = true := by
  cases event with
  | session edit writable =>
    simp only [State.step, State.applySettings]
    cases hw : s.write (collect (edit s.shown)).toPatch writable with
    | none => exact h
    | some file =>
      have := (write_eq_some hw).2
      show (ite _ _ _ : State).file.validate = true
      split <;> exact this
  | completeSetup choices writable =>
    cases hw : s.write (completionPatch choices) writable with
    | none => simpa only [State.step, State.completeSetup, hw] using h
    | some file =>
      simp only [State.step, completeSetup_eq hw]
      exact (write_eq_some hw).2
  | setPartyMode enabled writable =>
    simp only [State.step, State.setPartyMode]
    cases hw : s.write { partyModeEnabled := some enabled } writable with
    | none => exact h
    | some file => exact (write_eq_some hw).2

/-- Networking is left alone or started again from the file. -/
theorem step_networking (s : State) (event : Event) :
    (s.step event).networking = s.networking ∨
      (s.step event).networking = (s.step event).file := by
  cases event with
  | session edit writable =>
    simp only [State.step, State.applySettings]
    split
    · exact Or.inl rfl
    · split
      · exact Or.inr rfl
      · exact Or.inl rfl
  | completeSetup choices writable =>
    cases hw : s.write (completionPatch choices) writable with
    | none => simp only [State.step, State.completeSetup, hw, true_or]
    | some file =>
      simp only [State.step, completeSetup_eq hw, true_or]
  | setPartyMode enabled writable =>
    simp only [State.step, State.setPartyMode]
    split <;> exact Or.inl rfl

theorem setPartyMode_file (s : State) (enabled writable : Bool) :
    CoreSettings.ofConfig (s.setPartyMode enabled writable).file = .ofConfig s.file := by
  unfold State.setPartyMode
  split
  · rfl
  · rename_i file hw
    exact ofConfig_of_merge_other (write_eq_some hw).1

theorem sound_step {s : State} (hs : Sound s) {event : Event} (h : Harmless s event) :
    Sound (s.step event) := by
  have hkeeps := (keeps_iff_harmless hs event).mpr h
  refine ⟨step_validate hs.valid event, hkeeps.shows, ?_⟩
  rcases step_networking s event with hnet | hnet
  · by_cases hfile : (CoreSettings.ofConfig (s.step event).file).listener =
        (CoreSettings.ofConfig s.file).listener
    · rw [hnet, hs.running, hfile]
    · cases event with
      | setPartyMode enabled writable =>
        exact absurd (congrArg CoreSettings.listener (setPartyMode_file s enabled writable)) hfile
      | session edit writable => exact hkeeps.runsUnderFile hfile
      | completeSetup choices writable => exact hkeeps.runsUnderFile hfile
  · rw [hnet]

theorem along_sound {s s' : State} {events : List Event} (hs : system.start s)
    (hC : system.Along Harmless s events) (he : system.exec s events = some s') : Sound s' := by
  obtain ⟨file, hvalid, rfl⟩ := hs
  refine system.exec_induction (fun s event s' hs hC hn => ?_) (sound_started hvalid) hC he
  obtain rfl := Option.some.inj hn
  exact sound_step hs hC

/-- **Saved settings.** After a run of harmless steps the window shows the file, and the next
step keeps what is promised exactly when it is harmless too. -/
theorem saved_settings_iff {s s' : State} {events : List Event} (hs : system.start s)
    (hC : system.Along Harmless s events) (he : system.exec s events = some s') :
    s'.ShowsFile ∧ ∀ event, Keeps s' event (s'.step event) ↔ Harmless s' event := by
  have hsound := along_sound hs hC he
  exact ⟨hsound.shows, keeps_iff_harmless hsound⟩

/-- A session that turns the log up and leaves the rest. -/
def turnLogUp : Event := .session (fun i => { i with logLevel := 1 }) true

/-- The user opens the window and saves. -/
def saveUntouched : Event := .session id true

/-- The window that is opened next shows the old level, and saving it puts the old level back. -/
theorem log_level_is_reverted :
    ¬ ∀ (s s' : State) (events : List Event) (event : Event), system.start s →
      system.exec s events = some s' → s'.ShowsFile ∧ Keeps s' event (s'.step event) := by
  intro h
  obtain ⟨hshows, -⟩ := h (.started {}) _ [turnLogUp] saveUntouched ⟨{}, by decide, rfl⟩ rfl
  revert hshows
  simp only [State.ShowsFile]
  decide +kernel

/-- A session on another port, and Party Mode. -/
theorem saved_settings_iff_newPort : ∃ s',
    system.exec (.started {}) [.session (fun i => { i with port := 3001 }) true,
      .setPartyMode true true] = some s' ∧ s'.ShowsFile := by
  have hC : system.Along Harmless (.started {}) [.session (fun i => { i with port := 3001 }) true,
      .setPartyMode true true] := by
    refine ⟨Or.inr ⟨⟨fun _ => by decide +kernel, fun _ => by decide +kernel, rfl⟩,
      Or.inl (by decide +kernel)⟩, fun _ _ => ⟨trivial, fun _ _ => trivial⟩⟩
  exact ⟨_, rfl, (saved_settings_iff ⟨{}, by decide, rfl⟩ hC rfl).1⟩

end Mbrc.Settings
