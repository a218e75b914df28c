import MbrcPlugin.Updates.Check

/-!
# What the settings panel is shown of updates

The one status, and what a check, a download and a skip make of it.  A check that learned nothing
leaves an offer on screen; a staged bundle outlives a failed check.
-/

namespace Mbrc.Updates

/-- The states the panel switches on. -/
inductive StatusState where
  | unknown | checking | upToDate | available | downloading | staged | skipped | disabled | error
  | downloadFailed
  deriving DecidableEq

/-- As the panel reads them. -/
def StatusState.text : StatusState → String
  | unknown => "unknown"
  | checking => "checking"
  | upToDate => "up_to_date"
  | available => "available"
  | downloading => "downloading"
  | staged => "staged"
  | skipped => "skipped"
  | disabled => "disabled"
  | error => "error"
  | downloadFailed => "download_failed"

theorem StatusState.text_injective : Function.Injective StatusState.text := by
  intro a b h
  cases a <;> cases b <;> first | rfl | exact absurd h (by decide)

structure UpdateStatus where
  state : StatusState := .unknown
  version : String := ""
  notesUrl : String := ""
  minMusicbeeBuild : Nat := 0
  message : String := ""
  checkedAt : String := ""
  deriving DecidableEq

/-- The states that a check with no news leaves alone. -/
def StatusState.actionable (s : StatusState) : Bool :=
  s = .available || s = .downloadFailed || s = .staged || s = .skipped

/-- The staged bundle if there is one, else up to date. -/
def quiet (staged : Option String) : UpdateStatus :=
  match staged with
  | some version => { state := .staged, version }
  | none => { state := .upToDate }

/-- The status a session starts from. -/
def initialStatus (staged : Option String) : UpdateStatus :=
  match staged with
  | some version => { state := .staged, version }
  | none => {}

/-- A status that names an update. -/
def AvailableUpdate.status (u : AvailableUpdate) (state : StatusState) : UpdateStatus :=
  { state
    version := u.manifest.version
    notesUrl := u.manifest.notesUrl
    minMusicbeeBuild := u.manifest.minMusicbeeBuild }

def downloading (u : AvailableUpdate) : UpdateStatus := u.status .downloading

def downloadFailure (u : AvailableUpdate) (detail : String) : UpdateStatus :=
  { u.status .downloadFailed with message := detail }

def failure (detail : String) : UpdateStatus := { state := .error, message := detail }

/-- What a check changes: the status and the update kept for a download, or nothing. -/
inductive Verdict where
  | fresh (status : UpdateStatus) (available : Option AvailableUpdate)
  | noNews

/-- The status where a check told nothing new. -/
def noNews (previous : UpdateStatus) (staged : Option String) (checkedAt : String) :
    UpdateStatus :=
  let status := if previous.state.actionable then previous else quiet staged
  { status with checkedAt }

def interpret (outcome : Except UpdateError CheckOutcome) (staged : Option String)
    (checkedAt : String) : Verdict :=
  match outcome with
  | .ok (.available update) =>
    let state := if staged = some update.manifest.version then .staged else .available
    .fresh { update.status state with checkedAt } (some update)
  | .ok (.upToDate latest) => .fresh { state := .upToDate, version := latest, checkedAt } none
  | .ok (.skipped version) => .fresh { state := .skipped, version, checkedAt } none
  | .ok .notModified => .noNews
  | .ok .notDue => .noNews
  | .ok .disabled => .fresh { state := .disabled } none
  | .error e =>
    let status := if staged.isSome then quiet staged else { state := .error }
    .fresh { status with message := e.display, checkedAt } none

/-- The status that `run_check` publishes, and the update it leaves stashed. -/
def Verdict.settle (previous : UpdateStatus) (stash : Option AvailableUpdate)
    (staged : Option String) (checkedAt : String) : Verdict → UpdateStatus × Option AvailableUpdate
  | fresh status available => (status, available)
  | noNews => (Updates.noNews previous staged checkedAt, stash)

/-- The settings a check follows. -/
structure Preferences where
  updateCheckEnabled : Bool
  updateChannel : Channel
  updateCheckIntervalHours : Int

def defaultRepo : String := "musicbeeremote/mbrc-plugin"

variable {V : Type} [LinearOrder V] (L : Library V)

def checkOptions (p : Preferences) (pluginVersion : String) (force : Bool) : CheckOptions where
  currentVersion := pluginVersion
  channel := p.updateChannel
  intervalHours := p.updateCheckIntervalHours
  repo := defaultRepo
  force := force
  keys := L.trustedKeys

/-- The outcome, and the state that is saved whatever it is: none where checks are turned off. -/
def checkForUpdate (reply : Option String → Except UpdateError Fetched) (p : Preferences)
    (pluginVersion : String) (force : Bool) (file : Option UpdateState) (now : Int) :
    Except UpdateError CheckOutcome × Option UpdateState :=
  if !p.updateCheckEnabled && !force then (.ok .disabled, none)
  else
    let r := check L reply (checkOptions L p pluginVersion force) (UpdateState.load file) now
    (r.1, some r.2)

/-- **What a check comes to.** -/
theorem checkForUpdate_ok {reply : Option String → Except UpdateError Fetched} {p : Preferences}
    {pluginVersion : String} {force : Bool} {file : Option UpdateState} {now : Int}
    {outcome : CheckOutcome}
    (h : (checkForUpdate L reply p pluginVersion force file now).1 = .ok outcome) :
    outcome = .disabled ∨ outcome = .notDue ∨ outcome = .notModified ∨
    ∃ sent etag update, reply sent = .ok (.release etag update) ∧
      let version := update.manifest.version
      ((outcome = .upToDate version ∧ L.isUpgrade version pluginVersion = false) ∨
        (outcome = .skipped version ∧ L.isUpgrade version pluginVersion = true) ∨
        (outcome = .available update ∧ L.isUpgrade version pluginVersion = true)) := by
  unfold checkForUpdate at h
  split at h
  · exact .inl (Except.ok.inj h).symm
  · right
    rcases check_ok L (Prod.ext h rfl) with ⟨ho, -⟩ | ⟨ho, -⟩ | ⟨etag, update, hreply, -, hcase⟩
    · exact .inl ho
    · exact .inr (.inl ho)
    · refine .inr (.inr ⟨_, etag, update, hreply, ?_⟩)
      rcases hcase with h | ⟨ho, hnew, -⟩ | ⟨ho, hnew, -⟩
      · exact .inl h
      · exact .inr (.inl ⟨ho, hnew⟩)
      · exact .inr (.inr ⟨ho, hnew⟩)

/-- An offer can be skipped, where it names a version. -/
def UpdateStatus.offered (s : UpdateStatus) : Bool :=
  (s.state = .available || s.state = .downloadFailed) && s.version ≠ ""

def skippedStatus (version : String) : UpdateStatus := { state := .skipped, version }

/-! ## What an answered check shows -/

/-- A status that stands for a version. -/
def UpdateStatus.Shows (s : UpdateStatus) (version : String) (states : List StatusState) : Prop :=
  s.version = version ∧ s.state ∈ states

theorem UpdateStatus.Shows.mono {s : UpdateStatus} {version : String}
    {states states' : List StatusState} (h : s.Shows version states)
    (hsub : ∀ state ∈ states, state ∈ states') : s.Shows version states' :=
  ⟨h.1, hsub _ h.2⟩

theorem noNews_shows {previous : UpdateStatus} {staged : Option String} {checkedAt version : String}
    {states : List StatusState} (h : previous.Shows version states)
    (hactionable : previous.state.actionable = true) :
    (noNews previous staged checkedAt).Shows version states := by
  unfold noNews
  rw [if_pos hactionable]
  exact h

/-- The update stashed by a fresh verdict is the one its status names. -/
theorem interpret_fresh {outcome : Except UpdateError CheckOutcome} {staged : Option String}
    {checkedAt : String} {status : UpdateStatus} {update : AvailableUpdate}
    (h : interpret outcome staged checkedAt = .fresh status (some update)) :
    outcome = .ok (.available update) ∧
      status.Shows update.manifest.version [.available, .staged] := by
  unfold interpret at h
  split at h <;> cases h
  refine ⟨rfl, rfl, ?_⟩
  show (if staged = _ then StatusState.staged else StatusState.available) ∈ _
  split <;> simp

end Mbrc.Updates
