import MbrcPlugin.Updates.Service
import MbrcPlugin.Lib.Transition

/-!
# The update status over sessions

A session starts with nothing in memory, the stored `update_state.json` and whatever bundle is
staged; checks, downloads and skips follow, one after the other, while the server may publish
another release.  An offer made in a session stays on screen until it is acted on, a check fails or
checks are turned off.
-/

namespace Mbrc.Updates

open Transition

/-- A release document and the update it leads to. -/
structure Document where
  etag : String
  update : AvailableUpdate

def Document.version (d : Document) : String := d.update.manifest.version

/-- A 304 exactly when the document is the one whose `ETag` was sent. -/
def Document.reply (d : Document) (failed : Option UpdateError) (sent : Option String) :
    Except UpdateError Fetched :=
  match failed with
  | some e => .error e
  | none =>
    if sent = some d.etag then .ok .notModified else .ok (.release (some d.etag) d.update)

/-! ## The server -/

/-- What the server answers while it publishes a document whose manifest verifies. -/
structure Serves (C : Crypto) (J : ReleaseJson) (o : CheckOptions) (client : HttpClient)
    (d : Document) : Prop where
  unchanged : ∃ r, client o.endpoint (some d.etag) = .ok r ∧ r.status = 304
  document : ∃ body release, (∀ sent, sent ≠ some d.etag →
      client o.endpoint sent = .ok { status := 200, etag := some d.etag, body }) ∧
    selectRelease J o.channel body o.endpoint = .ok release ∧
    release.assetUrl d.update.manifest.zip.name = .ok d.update.zipUrl ∧
    ∃ manifestUrl signatureUrl signatureBytes,
      release.assetUrl manifestAsset = .ok manifestUrl ∧
      release.assetUrl signatureAsset = .ok signatureUrl ∧
      client manifestUrl none =
        .ok { status := 200, etag := none, body := d.update.manifestBytes } ∧
      client signatureUrl none = .ok { status := 200, etag := none, body := signatureBytes } ∧
      C.utf8 signatureBytes = .ok d.update.signature
  verified : C.verifyManifestWith d.update.manifestBytes d.update.signature o.keys =
    .ok (d.update.manifest, d.update.keyName)
  accepted : d.update.manifest.channel.acceptedBy o.channel = true

/-- A check of such a server gets what the document replies. -/
theorem fetch_eq_reply {C : Crypto} {J : ReleaseJson} {o : CheckOptions} {client : HttpClient}
    {d : Document} (h : Serves C J o client d) (sent : Option String) :
    fetch C J client o sent = d.reply none sent := by
  by_cases hsent : sent = some d.etag
  · obtain ⟨r, hclient, hstatus⟩ := h.unchanged
    subst hsent
    have hnot : r.isNotModified = true := decide_eq_true hstatus
    simp only [fetch, Document.reply, hclient, if_true]
    show (if r.isNotModified = true then _ else _) = _
    rw [if_pos hnot]
    rfl
  · obtain ⟨body, release, hclient, hrelease, hzip, mUrl, sUrl, sBytes, hmUrl, hsUrl, hm, hs,
      htext⟩ := h.document
    have hreply : d.reply none sent = .ok (.release (some d.etag) d.update) := if_neg hsent
    rw [hreply, fetch, Interaction.bind_eq_ok]
    refine ⟨_, hclient sent hsent, ?_⟩
    rw [if_neg (by simp [HttpResponse.isNotModified])]
    simp only [Interaction.bind_eq_ok]
    refine ⟨body, rfl, release, hrelease, mUrl, hmUrl, sUrl, hsUrl, _, hm, _, rfl, _, hs, sBytes,
      rfl, d.update.signature, by rw [htext]; rfl, _, h.verified, ?_⟩
    exact ⟨(), require_eq_ok.mpr h.accepted, _, hzip, rfl⟩

/-! ## Sessions -/

/-- What keeps a check from an answer. -/
inductive Fault where
  | client (detail : String)
  | request (e : UpdateError)

/-- How the server answered a check that did not fail. -/
inductive Answer where
  | document | unchanged
  deriving DecidableEq

def CheckOutcome.answer : CheckOutcome → Option Answer
  | available _ => some .document
  | upToDate _ => some .document
  | skipped _ => some .document
  | notModified => some .unchanged
  | notDue => none
  | disabled => none

/-- What an outcome tells of the published document; a failed or disabled check forgets it. -/
def CheckOutcome.seen (d : Document) (before : Option Document) : CheckOutcome → Option Document
  | available _ => some d
  | upToDate _ => some d
  | skipped _ => some d
  | notModified => before
  | notDue => before
  | disabled => none

/-- The core and its storage.  No step of the code reads `leftover`, `seen` and `answered`. -/
structure World where
  /-- The version the host reports. -/
  running : String
  /-- `update_state.json`, none where it is missing. -/
  file : Option UpdateState
  /-- The version of the staging marker, where it can be read. -/
  marker : Option String
  status : Option UpdateStatus
  /-- The verified update kept for a download. -/
  stash : Option AvailableUpdate
  published : Document
  /-- The marker there was when the session began. -/
  leftover : Option String
  /-- The document this session was last given, until a check fails or is disabled. -/
  seen : Option Document
  /-- How the check just made was answered. -/
  answered : Option Answer

namespace World

/-- The status, from the disk where nothing has set it yet. -/
def shown (w : World) : UpdateStatus := w.status.getD (initialStatus w.marker)

variable {V : Type} [LinearOrder V] (L : Library V)

/-- The check, its record saved or not, and what the panel is shown of it. -/
def runCheck (w : World) (force : Bool) (p : Preferences) (now : Int)
    (failed : Option UpdateError) (saves : Bool) : World :=
  let previous := w.shown
  let r := checkForUpdate L (w.published.reply failed) p w.running force w.file now
  let file := if saves then r.2.or w.file else w.file
  let checkedAt := (UpdateState.load file).lastCheck.getD ""
  let settled := (interpret r.1 w.marker checkedAt).settle previous w.stash w.marker checkedAt
  { w with
    file
    status := some settled.1
    stash := settled.2
    seen := r.1.toOption.bind (CheckOutcome.seen w.published w.seen)
    answered := r.1.toOption.bind CheckOutcome.answer }

end World

/-! ### What a check leaves -/

theorem reply_release {d : Document} {failed : Option UpdateError} {sent etag : Option String}
    {update : AvailableUpdate} (h : d.reply failed sent = .ok (.release etag update)) :
    update = d.update := by
  unfold Document.reply at h
  split at h
  · cases h
  · split at h <;> cases h
    rfl

/-- A status that offers nothing, unless the bundle of the staging marker. -/
def UpdateStatus.Quiet (s : UpdateStatus) (marker : Option String) : Prop :=
  s.state ≠ .available ∧ s.state ≠ .downloadFailed ∧ (s.state = .staged → marker = some s.version)

theorem quiet_quiet (marker : Option String) : (quiet marker).Quiet marker := by
  cases marker <;> simp [quiet, UpdateStatus.Quiet]

theorem initialStatus_quiet (marker : Option String) : (initialStatus marker).Quiet marker := by
  cases marker <;> simp [initialStatus, UpdateStatus.Quiet]

/-- What an outcome makes of the status, the stash and the ghosts. -/
inductive Checked {V : Type} [LinearOrder V] (L : Library V) (w w' : World) : Prop where
  /-- It failed, or checks are turned off. -/
  | forgot (s : UpdateStatus) (hs : w'.status = some s) (hquiet : s.Quiet w.marker)
      (hstash : w'.stash = none) (hseen : w'.seen = none) (hanswered : w'.answered = none)
  | unchanged (checkedAt : String)
      (hs : w'.status = some (noNews w.shown w.marker checkedAt)) (hstash : w'.stash = w.stash)
      (hseen : w'.seen = w.seen) (hanswered : w'.answered ≠ some .document)
  | document (s : UpdateStatus) (hs : w'.status = some s) (hseen : w'.seen = some w.published)
      (hnews : (s.state = .upToDate ∧ w'.stash = none ∧
          L.isUpgrade w.published.version w.running = false) ∨
        (s.Shows w.published.version [.skipped] ∧ w'.stash = none) ∨
        (s.Shows w.published.version [.available, .staged] ∧ w'.stash = some w.published.update ∧
          L.isUpgrade w.published.version w.running = true))

theorem runCheck_checked {V : Type} [LinearOrder V] (L : Library V) (w : World) (force : Bool)
    (p : Preferences) (now : Int) (failed : Option UpdateError) (saves : Bool) :
    Checked L w (w.runCheck L force p now failed saves) := by
  unfold World.runCheck
  extract_lets previous r file checkedAt settled
  cases hr : r.1 with
  | error e =>
    have hs : settled = ({ (if w.marker.isSome then quiet w.marker else { state := .error }) with
        message := e.display, checkedAt }, none) := by
      simp only [settled, hr]
      rfl
    have hquiet : settled.1.Quiet w.marker := by
      rw [hs]
      have hq := quiet_quiet w.marker
      cases hm : w.marker with
      | none => simp [UpdateStatus.Quiet]
      | some m => rw [hm] at hq; exact hq
    exact .forgot settled.1 rfl hquiet (congrArg Prod.snd hs) rfl rfl
  | ok outcome =>
    rcases checkForUpdate_ok L hr with rfl | rfl | rfl | ⟨sent, etag, u, hreply, hcase⟩
    · have hs : settled = ({ state := .disabled }, none) := by
        simp only [settled, hr]
        rfl
      refine .forgot settled.1 rfl ?_ (congrArg Prod.snd hs) rfl rfl
      rw [hs]
      simp [UpdateStatus.Quiet]
    · have hs : settled = (noNews w.shown w.marker checkedAt, w.stash) := by
        simp only [settled, hr]
        rfl
      exact .unchanged checkedAt (congrArg (some ·.1) hs) (congrArg Prod.snd hs) rfl nofun
    · have hs : settled = (noNews w.shown w.marker checkedAt, w.stash) := by
        simp only [settled, hr]
        rfl
      exact .unchanged checkedAt (congrArg (some ·.1) hs) (congrArg Prod.snd hs) rfl nofun
    · obtain rfl := reply_release hreply
      rcases hcase with ⟨rfl, hnew⟩ | ⟨rfl, -⟩ | ⟨rfl, hnew⟩
      · have hs : settled = ({ state := .upToDate, version := w.published.version, checkedAt },
            none) := by
          simp only [settled, hr]
          rfl
        exact .document settled.1 rfl rfl (.inl ⟨by rw [hs], congrArg Prod.snd hs, hnew⟩)
      · have hs : settled = ({ state := .skipped, version := w.published.version, checkedAt },
            none) := by
          simp only [settled, hr]
          rfl
        refine .document settled.1 rfl rfl (.inr (.inl ⟨?_, congrArg Prod.snd hs⟩))
        rw [hs]
        exact ⟨rfl, by simp⟩
      · have hs : settled = ({ w.published.update.status
            (if w.marker = some w.published.version then .staged else .available) with checkedAt },
            some w.published.update) := by
          simp only [settled, hr]
          rfl
        refine .document settled.1 rfl rfl (.inr (.inr ⟨?_, congrArg Prod.snd hs, hnew⟩))
        rw [hs]
        refine ⟨rfl, ?_⟩
        show (if _ then StatusState.staged else StatusState.available) ∈ _
        split <;> simp

inductive Event where
  /-- The panel reads the status. -/
  | read
  | check (force : Bool) (p : Preferences) (now : Int) (fault : Option Fault) (saves : Bool)
  /-- A download that succeeds or fails, leaving an earlier marker or an unreadable one. -/
  | download (failed : Option String) (leavesMarker : Bool)
  | skip (saves : Bool)
  /-- The server publishes another document. -/
  | publish (d : Document)
  /-- The next session, of this or a newer version; an applied bundle's marker is cleared. -/
  | restart (running : String) (clears : Bool)

variable {V : Type} [LinearOrder V] (L : Library V)

def step (w : World) : Event → Option World
  | .read => some { w with status := some w.shown, answered := none }
  | .check force p now fault saves =>
    match fault with
    | some (.client detail) =>
      some { w with status := some (failure detail), seen := none, answered := none }
    | some (.request e) => some (w.runCheck L force p now (some e) saves)
    | none => some (w.runCheck L force p now none saves)
  | .download failed leavesMarker => do
    let u ← w.stash
    match failed with
    | none => return { w with
        marker := some u.manifest.version
        status := some (u.status .staged)
        answered := none }
    | some detail => return { w with
        marker := if leavesMarker then w.marker else none
        status := some (downloadFailure u detail)
        answered := none }
  | .skip saves => do
    guard (w.shown.offered = true)
    if saves then
      return { w with
        file := some { UpdateState.load w.file with skippedVersion := some w.shown.version }
        status := some (skippedStatus w.shown.version)
        stash := none
        answered := none }
    else return { w with status := some w.shown, answered := none }
  | .publish d => some { w with published := d, answered := none }
  | .restart running clears => do
    guard (running = w.running ∨ L.isUpgrade running w.running = true)
    let marker := if clears then none else w.marker
    return { w with
      running, marker
      status := none
      stash := none
      leftover := marker
      seen := none
      answered := none }

/-- Any stored state and any staged bundle may be there when the first session begins. -/
def sessions : System World Event where
  start w := w.status = none ∧ w.stash = none ∧ w.leftover = w.marker ∧ w.seen = none ∧
    w.answered = none
  next := step L

/-! ## What every run keeps -/

variable {L}

/-- A version newer than the running one, or the bundle that was there when the session began. -/
def World.Fresh (L : Library V) (w : World) (version : String) : Prop :=
  L.isUpgrade version w.running = true ∨ w.leftover = some version

/-- An offer names a newer version; a staged bundle is one, or was there before. -/
def World.Good (L : Library V) (w : World) (s : UpdateStatus) : Prop :=
  (s.state = .available ∨ s.state = .downloadFailed → L.isUpgrade s.version w.running = true) ∧
    (s.state = .staged → w.Fresh L s.version)

/-- The states a known newer version is shown in. -/
def known : List StatusState := [.available, .downloadFailed, .staged, .skipped]

structure World.Inv (L : Library V) (w : World) : Prop where
  stash : ∀ u, w.stash = some u → L.isUpgrade u.manifest.version w.running = true ∧
    ∀ d, w.seen = some d → d.update = u
  seen : ∀ d, w.seen = some d → L.isUpgrade d.version w.running = true →
    ∃ s, w.status = some s ∧ s.Shows d.version known
  status : ∀ s, w.status = some s → w.Good L s
  marker : ∀ m, w.marker = some m → w.Fresh L m
  document : w.answered = some .document → L.isUpgrade w.published.version w.running = true →
    ∃ s, w.status = some s ∧ s.Shows w.published.version [.available, .staged, .skipped]

variable {w w' : World}

theorem World.Good.of_quiet {s : UpdateStatus} (hmarker : ∀ m, w.marker = some m → w.Fresh L m)
    (h : s.Quiet w.marker) : w.Good L s := by
  refine ⟨?_, fun hstaged => hmarker _ (h.2.2 hstaged)⟩
  rintro (hs | hs)
  · exact absurd hs h.1
  · exact absurd hs h.2.1

theorem World.Inv.shown (h : w.Inv L) : w.Good L w.shown := by
  unfold World.shown
  cases hs : w.status with
  | none => exact .of_quiet h.marker (initialStatus_quiet w.marker)
  | some s => exact h.status s hs

theorem actionable_of_known {s : UpdateStatus} {version : String} (h : s.Shows version known) :
    s.state.actionable = true := by
  have hstate := h.2
  simp only [known, List.mem_cons, List.not_mem_nil, or_false] at hstate
  rcases hstate with hs | hs | hs | hs <;> simp [hs, StatusState.actionable]

theorem shown_eq {s : UpdateStatus} (h : w.status = some s) : w.shown = s := by
  rw [World.shown, h]
  rfl

/-- With no news, an offer stays and names what it named. -/
theorem World.Inv.noNews (h : w.Inv L) (checkedAt : String) :
    w.Good L (noNews w.shown w.marker checkedAt) := by
  unfold Updates.noNews
  by_cases hactionable : w.shown.state.actionable = true
  · rw [if_pos hactionable]
    exact h.shown
  · rw [if_neg hactionable]
    exact .of_quiet h.marker (quiet_quiet w.marker)

/-- **Checks.**  What a check leaves is as good as what it found. -/
theorem World.Inv.checked (h : w.Inv L) (hc : Checked L w w') (hrunning : w'.running = w.running)
    (hmarker : w'.marker = w.marker) (hpublished : w'.published = w.published)
    (hleftover : w'.leftover = w.leftover) : w'.Inv L := by
  have hgood : ∀ s, w'.Good L s ↔ w.Good L s := by
    intro s
    simp only [World.Good, World.Fresh, hrunning, hleftover]
  have hfresh : ∀ m, w'.marker = some m → w'.Fresh L m := by
    intro m hm
    rw [World.Fresh, hrunning, hleftover]
    exact h.marker m (hmarker ▸ hm)
  cases hc with
  | forgot s hs hquiet hstash hseen hanswered =>
    refine ⟨?_, ?_, ?_, hfresh, ?_⟩
    · simp [hstash]
    · simp [hseen]
    · intro t ht
      obtain rfl : s = t := Option.some.inj (hs.symm.trans ht)
      exact (hgood s).mpr (.of_quiet h.marker hquiet)
    · simp [hanswered]
  | unchanged checkedAt hs hstash hseen hanswered =>
    refine ⟨?_, ?_, ?_, hfresh, fun hdocument => absurd hdocument hanswered⟩
    · rw [hstash, hseen, hrunning]
      exact h.stash
    · intro d hd hnew
      rw [hseen] at hd
      rw [hrunning] at hnew
      obtain ⟨s, hstatus, hshows⟩ := h.seen d hd hnew
      refine ⟨_, hs, noNews_shows ?_ ?_⟩ <;> rw [shown_eq hstatus]
      · exact hshows
      · exact actionable_of_known hshows
    · intro t ht
      obtain rfl := Option.some.inj (hs.symm.trans ht)
      exact (hgood _).mpr (h.noNews checkedAt)
  | document s hs hseen hnews =>
    have hshows : L.isUpgrade w.published.version w.running = true →
        s.Shows w.published.version [.available, .staged, .skipped] := by
      intro hnew
      rcases hnews with ⟨-, -, hold⟩ | ⟨hskipped, -⟩ | ⟨hoffer, -, -⟩
      · rw [hold] at hnew
        cases hnew
      · exact hskipped.mono (by decide)
      · exact hoffer.mono (by decide)
    refine ⟨?_, ?_, ?_, hfresh, ?_⟩
    · intro u hu
      rcases hnews with ⟨-, hstash, -⟩ | ⟨-, hstash⟩ | ⟨-, hstash, hnew⟩ <;> rw [hstash] at hu
      · cases hu
      · cases hu
      · obtain rfl := Option.some.inj hu
        refine ⟨by rw [hrunning]; exact hnew, fun d hd => ?_⟩
        rw [hseen] at hd
        rw [Option.some.inj hd]
    · intro d hd hnew
      rw [hseen] at hd
      obtain rfl := Option.some.inj hd
      rw [hrunning] at hnew
      exact ⟨s, hs, (hshows hnew).mono (by decide)⟩
    · intro t ht
      obtain rfl : s = t := Option.some.inj (hs.symm.trans ht)
      refine (hgood s).mpr ?_
      rcases hnews with ⟨hstate, -, -⟩ | ⟨⟨hv, hstate⟩, -⟩ | ⟨⟨hv, -⟩, -, hnew⟩
      · simp [World.Good, hstate]
      · simp [World.Good, List.mem_singleton.mp hstate]
      · have hold : L.isUpgrade s.version w.running = true := hv ▸ hnew
        exact ⟨fun _ => hold, fun _ => .inl hold⟩
    · intro _ hnew
      rw [hpublished] at hnew ⊢
      rw [hrunning] at hnew
      exact ⟨s, hs, hshows hnew⟩

theorem step_inv {e : Event} (h : w.Inv L) (hn : step L w e = some w') : w'.Inv L := by
  cases e with
  | read =>
    obtain rfl := Option.some.inj hn
    refine ⟨h.stash, ?_, ?_, h.marker, nofun⟩
    · intro d hd hnew
      obtain ⟨s, hs, hshows⟩ := h.seen d hd hnew
      exact ⟨s, congrArg some (shown_eq hs), hshows⟩
    · intro s hs
      obtain rfl := Option.some.inj hs
      exact h.shown
  | check force p now fault saves =>
    cases fault with
    | none =>
      obtain rfl := Option.some.inj hn
      exact h.checked (runCheck_checked L w force p now none saves) rfl rfl rfl rfl
    | some fault =>
      cases fault with
      | client detail =>
        obtain rfl := Option.some.inj hn
        refine ⟨fun u hu => ⟨(h.stash u hu).1, nofun⟩, nofun, ?_, h.marker, nofun⟩
        intro s hs
        obtain rfl := Option.some.inj hs
        simp [World.Good, failure]
      | request e =>
        obtain rfl := Option.some.inj hn
        exact h.checked (runCheck_checked L w force p now (some e) saves) rfl rfl rfl rfl
  | download failed leavesMarker =>
    simp only [step, Option.bind_eq_bind, Option.bind_eq_some_iff] at hn
    obtain ⟨u, hu, hn⟩ := hn
    obtain ⟨hnew, hseen⟩ := h.stash u hu
    cases failed with
    | none =>
      obtain rfl := Option.some.inj hn
      refine ⟨h.stash, ?_, ?_, ?_, nofun⟩
      · intro d hd _
        refine ⟨u.status .staged, rfl, ?_, by simp [AvailableUpdate.status, known]⟩
        rw [Document.version, hseen d hd]
        rfl
      · intro s hs
        obtain rfl := Option.some.inj hs
        exact ⟨fun _ => hnew, fun _ => .inl hnew⟩
      · intro m hm
        obtain rfl := Option.some.inj hm
        exact .inl hnew
    | some detail =>
      obtain rfl := Option.some.inj hn
      refine ⟨h.stash, ?_, ?_, ?_, nofun⟩
      · intro d hd _
        refine ⟨downloadFailure u detail, rfl, ?_,
          by simp [downloadFailure, AvailableUpdate.status, known]⟩
        rw [Document.version, hseen d hd]
        rfl
      · intro s hs
        obtain rfl := Option.some.inj hs
        exact ⟨fun _ => hnew, fun _ => .inl hnew⟩
      · intro m hm
        cases leavesMarker with
        | true => exact h.marker m hm
        | false => cases hm
  | skip saves =>
    simp only [step, Option.bind_eq_bind, Option.bind_eq_some_iff] at hn
    obtain ⟨_, -, hn⟩ := hn
    cases saves with
    | true =>
      obtain rfl := Option.some.inj hn
      refine ⟨nofun, ?_, ?_, h.marker, nofun⟩
      · intro d hd hnew
        obtain ⟨s, hs, hv, -⟩ := h.seen d hd hnew
        refine ⟨_, rfl, ?_, by simp [skippedStatus, known]⟩
        rw [shown_eq hs]
        exact hv
      · intro s hs
        obtain rfl := Option.some.inj hs
        simp [World.Good, skippedStatus]
    | false =>
      obtain rfl := Option.some.inj hn
      refine ⟨h.stash, ?_, ?_, h.marker, nofun⟩
      · intro d hd hnew
        obtain ⟨s, hs, hshows⟩ := h.seen d hd hnew
        exact ⟨s, congrArg some (shown_eq hs), hshows⟩
      · intro s hs
        obtain rfl := Option.some.inj hs
        exact h.shown
  | publish d =>
    obtain rfl := Option.some.inj hn
    exact ⟨h.stash, h.seen, h.status, h.marker, nofun⟩
  | restart running clears =>
    simp only [step, Option.bind_eq_bind, Option.bind_eq_some_iff] at hn
    obtain ⟨_, -, hn⟩ := hn
    obtain rfl := Option.some.inj hn
    exact ⟨nofun, nofun, nofun, fun m hm => .inr hm, nofun⟩

theorem inv_start (h : (sessions L).start w) : w.Inv L := by
  obtain ⟨hstatus, hstash, hleftover, hseen, hanswered⟩ := h
  refine ⟨?_, ?_, ?_, fun m hm => .inr (hleftover.trans hm), ?_⟩
  · simp [hstash]
  · simp [hseen]
  · simp [hstatus]
  · simp [hanswered]

/-! ## What the status tells -/

variable (L)

/-- After a check that was answered, a newer release is on screen: offered, staged or skipped. -/
def World.Current (w : World) : Prop :=
  w.answered ≠ none → L.isUpgrade w.published.version w.running = true →
    ∃ s, w.status = some s ∧ s.Shows w.published.version [.available, .staged, .skipped]

/-- A status that offers a version names one newer than the running one. -/
def World.OffersNewer (w : World) : Prop :=
  ∀ s, w.status = some s → s.state ∈ [.available, .downloadFailed, .staged] →
    L.isUpgrade s.version w.running = true

/-- What the status tells by design.  Unchanged, the document says nothing new: what is known of it
stays, a failed download too.  A marker that an applied bundle left behind is a redundant offer. -/
structure World.Tells (w : World) : Prop where
  document : w.answered = some .document → L.isUpgrade w.published.version w.running = true →
    ∃ s, w.status = some s ∧ s.Shows w.published.version [.available, .staged, .skipped]
  unchanged : w.answered = some .unchanged → w.seen = some w.published →
    L.isUpgrade w.published.version w.running = true →
      ∃ s, w.status = some s ∧ s.Shows w.published.version known
  offers : ∀ s, w.status = some s → s.state = .available ∨ s.state = .downloadFailed →
    L.isUpgrade s.version w.running = true
  staged : ∀ s, w.status = some s → s.state = .staged →
    L.isUpgrade s.version w.running = true ∨ w.leftover = some s.version

/-! ### A failed download, and a marker left behind -/

/-- Semver on two releases, and the text of one time. -/
def twoReleases : Library Nat where
  Key := Unit
  Signature := Unit
  manifestJson _ := .error "expected value at line 1 column 1"
  utf8Error _ := "invalid utf-8 sequence"
  signature _ := .error "invalid encoding"
  key _ := .error "invalid encoding"
  verify _ _ _ := false
  sha512 _ := ""
  semver s :=
    if s = "1.0.0" then .ok 1 else if s = "2.0.0" then .ok 2 else .error "unexpected character"
  readTime s := if s = "1970-01-01T00:00:00Z" then some 0 else none
  showTime t := if t = 0 then some "1970-01-01T00:00:00Z" else none
  trustedKeys := []

def secondRelease : Document where
  etag := "W/2"
  update :=
    { manifest :=
        { schema := 1
          channel := .stable
          version := "2.0.0"
          minMusicbeeBuild := 7000
          notesUrl := "notes"
          zip := { name := "mbrc.zip", size := 1, sha512 := "" }
          installer := { name := "mbrc.exe", size := 1, sha512 := "" }
          files := [{ path := "mb_remote.dll", sha512 := "" }] }
      manifestBytes := []
      signature := ""
      zipUrl := "zip"
      keyName := "release" }

/-- The first session of a version, with a bundle staged or not. -/
def firstSession (running : String) (marker : Option String) : World where
  running := running
  file := none
  marker := marker
  status := none
  stash := none
  published := secondRelease
  leftover := marker
  seen := none
  answered := none

def stableDaily : Preferences where
  updateCheckEnabled := true
  updateChannel := .stable
  updateCheckIntervalHours := 24

/-- A forced check at the time zero. -/
def checkNow : Event := .check true stableDaily 0 none true

/-- An offer whose download fails, and a check that finds nothing changed. -/
def failedDownload : List Event :=
  [checkNow, .download (some "request failed: timeout") true, checkNow]

theorem failedDownload_run :
    ∃ w, (sessions twoReleases).exec (firstSession "1.0.0.0" none) failedDownload = some w ∧
      (w.answered = some .unchanged ∧ w.seen.isSome ∧
        w.status.map UpdateStatus.state = some .downloadFailed ∧
        twoReleases.isUpgrade w.published.version w.running = true) := by
  have h : ((sessions twoReleases).exec (firstSession "1.0.0.0" none) failedDownload).any (fun w =>
      decide (w.answered = some .unchanged ∧ w.seen.isSome ∧
        w.status.map UpdateStatus.state = some .downloadFailed ∧
        twoReleases.isUpgrade w.published.version w.running = true)) = true := by
    decide +kernel
  obtain ⟨w, hw, hfacts⟩ := Option.any_eq_true _ _ |>.mp h
  exact ⟨w, hw, of_decide_eq_true hfacts⟩

/-- A bundle staged in a session, the release then installed by hand. -/
def installedByHand : List Event :=
  [checkNow, .download none true, .restart "2.0.0.0" false, .read]

theorem installedByHand_run :
    ∃ w, (sessions twoReleases).exec (firstSession "1.0.0.0" none) installedByHand = some w ∧
      (w.status = some { state := .staged, version := "2.0.0" } ∧
        twoReleases.isUpgrade "2.0.0" w.running = false) := by
  have h : ((sessions twoReleases).exec (firstSession "1.0.0.0" none) installedByHand).any (fun w =>
      decide (w.status = some { state := .staged, version := "2.0.0" } ∧
        twoReleases.isUpgrade "2.0.0" w.running = false)) = true := by
    decide +kernel
  obtain ⟨w, hw, hfacts⟩ := Option.any_eq_true _ _ |>.mp h
  exact ⟨w, hw, of_decide_eq_true hfacts⟩

theorem firstSession_start {V : Type} [LinearOrder V] (L : Library V) (running : String)
    (marker : Option String) : (sessions L).start (firstSession running marker) :=
  ⟨rfl, rfl, rfl, rfl, rfl⟩

/-- Both halves fail: a 304 leaves a failed download on screen, and a marker left behind names the
running version. -/
theorem status_untrue :
    (∃ w, (sessions twoReleases).Reachable w ∧ ¬ w.Current twoReleases) ∧
      ∃ w, (sessions twoReleases).Reachable w ∧ ¬ w.OffersNewer twoReleases := by
  constructor
  · obtain ⟨w, hw, hanswered, -, hstate, hnew⟩ := failedDownload_run
    refine ⟨w, ⟨_, _, firstSession_start _ _ _, hw⟩, fun hcurrent => ?_⟩
    obtain ⟨s, hs, -, hmem⟩ := hcurrent (by simp [hanswered]) hnew
    rw [hs] at hstate
    rw [Option.some.inj hstate] at hmem
    simp at hmem
  · obtain ⟨w, hw, hs, hold⟩ := installedByHand_run
    refine ⟨w, ⟨_, _, firstSession_start _ _ _, hw⟩, fun hoffers => ?_⟩
    rw [hoffers _ hs (by simp)] at hold
    cases hold

/-- **The status over sessions.**  Whatever is checked, downloaded, skipped, published and restarted
in whatever order, the status tells what it should. -/
theorem status_tells {w : World} (h : (sessions L).Reachable w) : w.Tells L := by
  have hinv : w.Inv L := by
    refine (sessions L).reachable_induction (fun _ hs => inv_start hs) ?_ h
    intro s e s' hi hn
    exact step_inv hi hn
  exact ⟨hinv.document, fun _ hseen => hinv.seen _ hseen, fun s hs => (hinv.status s hs).1,
    fun s hs => (hinv.status s hs).2⟩

theorem status_tells_failedDownload :
    ∃ w, (sessions twoReleases).exec (firstSession "1.0.0.0" none) failedDownload = some w ∧
      w.answered = some .unchanged ∧ w.status.map UpdateStatus.state = some .downloadFailed ∧
      w.Tells twoReleases := by
  obtain ⟨w, hw, hanswered, -, hstate, -⟩ := failedDownload_run
  exact ⟨w, hw, hanswered, hstate,
    status_tells twoReleases ⟨_, _, firstSession_start _ _ _, hw⟩⟩

end Mbrc.Updates
