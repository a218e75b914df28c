import MbrcPlugin.Updates.Manifest
import Mathlib.Order.Defs.LinearOrder

/-!
# Deciding whether there is an update worth offering

The comparison of versions, the record kept in `update_state.json`, and the check: fetch the
release document, verify the manifest it leads to, then look at the version.  Semver, the text of a
time and JSON are parameters; what the server says is a function of the `ETag` it is sent.
-/

namespace Mbrc.Updates

/-- The libraries of the updater. -/
structure Library (V : Type) extends Crypto where
  semver : String → Except String V
  /-- RFC 3339, in nanoseconds. -/
  readTime : String → Option Int
  showTime : Int → Option String
  trustedKeys : List TrustedKey

/-! ## Versions -/

section Versions

variable {V : Type} (L : Library V)

/-- The digits of a `u64`. -/
def readU64 (cs : List Char) : Option Nat :=
  if cs ≠ [] ∧ cs.all Char.isDigit then
    let n := cs.foldl (fun n c => 10 * n + (c.toNat - '0'.toNat)) 0
    if n < 2 ^ 64 then some n else none
  else none

/-- The components in order, the first of them numbered `index`. -/
def readComponents (raw : String) : Nat → List (List Char) → Except UpdateError (List Nat)
  | _, [] => .ok []
  | index, part :: parts => do
    let n ← (readU64 part).elim (.error (.version (raw.quote ++ ": component " ++ toString index ++
      " is not a number (" ++ (String.ofList part).quote ++ ")"))) .ok
    let ns ← readComponents raw (index + 1) parts
    return n :: ns

def stripV : List Char → List Char
  | 'v' :: cs => cs
  | 'V' :: cs => cs
  | cs => cs

/-- A product version as semver: missing components are zero, a fourth must be a number and is
dropped, a suffix is kept. -/
def Library.parse (raw : String) : Except UpdateError V := do
  let trimmed := stripV (Text.trim raw).toList
  require (trimmed ≠ []) (.version "version is empty")
  let core := trimmed.takeWhile fun c => c ≠ '-' && c ≠ '+'
  let suffix := trimmed.drop core.length
  let parts := core.splitOn '.'
  let numbers ← readComponents raw 1 (parts.take 3)
  match parts[3]? with
  | none => pure ()
  | some revision =>
    require ((readU64 revision).isSome) (.version (raw.quote ++ ": revision is not a number (" ++
      (String.ofList revision).quote ++ ")"))
  require (parts.length ≤ 4) (.version (raw.quote ++ ": more than four components"))
  let number (i : Nat) := toString (numbers.getD i 0)
  (L.semver (number 0 ++ "." ++ number 1 ++ "." ++ number 2 ++ String.ofList suffix)).mapError
    fun e => .version (raw.quote ++ ": " ++ e)

variable [LinearOrder V]

/-- Whether `staged` is newer than what is installed; what does not parse is not. -/
def Library.isUpgrade (staged installed : String) : Bool :=
  match L.parse staged, L.parse installed with
  | .ok staged, .ok installed => installed < staged
  | _, _ => false

theorem Library.isUpgrade_iff {staged installed : String} :
    L.isUpgrade staged installed = true ↔
      ∃ v w, L.parse staged = .ok v ∧ L.parse installed = .ok w ∧ w < v := by
  unfold Library.isUpgrade
  constructor
  · intro h
    split at h
    · rename_i v w hv hw
      exact ⟨v, w, hv, hw, of_decide_eq_true h⟩
    · cases h
  · rintro ⟨v, w, hv, hw, hlt⟩
    rw [hv, hw]
    exact decide_eq_true hlt

end Versions

/-! ## The record -/

/-- `update_state.json`. -/
structure UpdateState where
  lastCheck : Option String := none
  etag : Option String := none
  skippedVersion : Option String := none
  consecutiveFailures : Nat := 0
  deriving DecidableEq

namespace UpdateState

def minute : Int := 60 * 1000000000

def hour : Int := 60 * minute

def firstRetryMinutes : Int := 15

def maxRetryDoublings : Nat := 6

/-- A file that is missing or does not parse is the first run. -/
def load (file : Option UpdateState) : UpdateState := file.getD {}

/-- How long after the last check the next one is due. -/
def wait (s : UpdateState) (intervalHours : Int) : Int :=
  let interval := intervalHours * hour
  if s.consecutiveFailures = 0 then interval
  else
    let doublings := min (s.consecutiveFailures - 1) maxRetryDoublings
    min (firstRetryMinutes * 2 ^ doublings * minute) interval

def isDue {V : Type} (L : Library V) (s : UpdateState) (now intervalHours : Int) : Bool :=
  match s.lastCheck.bind L.readTime with
  | none => true
  | some last => now < last || s.wait intervalHours ≤ now - last

def isSkipped (s : UpdateState) (version : String) : Bool := s.skippedVersion = some version

/-- The server's `ETag` where it sent one, else the one there was. -/
def recordCheck {V : Type} (L : Library V) (s : UpdateState) (now : Int) (etag : Option String) :
    UpdateState :=
  { s with lastCheck := L.showTime now, etag := etag.or s.etag }

def recordFailure {V : Type} (L : Library V) (s : UpdateState) (now : Int) : UpdateState :=
  { s with
    lastCheck := L.showTime now
    consecutiveFailures := min (s.consecutiveFailures + 1) (2 ^ 32 - 1) }

def clearFailures (s : UpdateState) : UpdateState := { s with consecutiveFailures := 0 }

end UpdateState

/-! ## What the server says -/

structure HttpResponse where
  status : Nat
  etag : Option String
  body : Bytes

def HttpResponse.isNotModified (r : HttpResponse) : Bool := r.status = 304

def HttpResponse.intoBody (r : HttpResponse) (url : String) : Except UpdateError Bytes := do
  require (200 ≤ r.status ∧ r.status < 300) (.http r.status url)
  return r.body

/-- A `GET` of a URL, the `ETag` sent with it. -/
abbrev HttpClient := String → Option String → Except UpdateError HttpResponse

structure Asset where
  name : String
  browserDownloadUrl : String

/-- What is read of a release document. -/
structure Release where
  assets : List Asset
  draft : Bool

/-- The JSON of a release and of a list of releases. -/
structure ReleaseJson where
  one : Bytes → Except String Release
  many : Bytes → Except String (List Release)

def manifestAsset : String := "manifest.json"

def signatureAsset : String := "manifest.json.minisig"

def Release.hasAsset (r : Release) (name : String) : Bool := r.assets.any fun a => a.name = name

def Release.assetUrl (r : Release) (name : String) : Except UpdateError String :=
  match r.assets.find? fun a => a.name = name with
  | some a => .ok a.browserDownloadUrl
  | none => .error (.invalid ("the release has no asset named " ++ name.quote))

structure CheckOptions where
  currentVersion : String
  channel : Channel
  intervalHours : Int
  repo : String
  force : Bool
  keys : List TrustedKey

def testingPageSize : Nat := 10

def CheckOptions.endpoint (o : CheckOptions) : String :=
  match o.channel with
  | .stable => "https://api.github.com/repos/" ++ o.repo ++ "/releases/latest"
  | .testing =>
    "https://api.github.com/repos/" ++ o.repo ++ "/releases?per_page=" ++ toString testingPageSize

/-- A verified update. -/
structure AvailableUpdate where
  manifest : Manifest
  manifestBytes : Bytes
  signature : String
  zipUrl : String
  keyName : String
  deriving DecidableEq

def parseDocument {α : Type} (e : Except String α) : Except UpdateError α :=
  e.mapError fun e => .parse ("release document: " ++ e)

/-- The release of the channel: stable's only one, or the first usable of testing's list. -/
def selectRelease (J : ReleaseJson) (channel : Channel) (body : Bytes) (endpoint : String) :
    Except UpdateError Release :=
  match channel with
  | .stable => parseDocument (J.one body)
  | .testing => do
    let rs ← parseDocument (J.many body)
    match rs.find? fun r => !r.draft && r.hasAsset manifestAsset with
    | some r => return r
    | none => throw (.invalid (endpoint ++ " lists no release carrying a manifest"))

/-- What a check gets from the server. -/
inductive Fetched where
  | notModified
  | release (etag : Option String) (update : AvailableUpdate)

/-- The release document, and the verified manifest it leads to. -/
def fetch (C : Crypto) (J : ReleaseJson) (client : HttpClient) (o : CheckOptions)
    (etag : Option String) : Except UpdateError Fetched := do
  let response ← client o.endpoint etag
  if response.isNotModified then
    return .notModified
  let body ← response.intoBody o.endpoint
  let release ← selectRelease J o.channel body o.endpoint
  let manifestUrl ← release.assetUrl manifestAsset
  let signatureUrl ← release.assetUrl signatureAsset
  let manifestResponse ← client manifestUrl none
  let manifestBytes ← manifestResponse.intoBody manifestUrl
  let signatureResponse ← client signatureUrl none
  let signatureBytes ← signatureResponse.intoBody signatureUrl
  let signature ← (C.utf8 signatureBytes).mapError .malformedSignature
  let (manifest, keyName) ← C.verifyManifestWith manifestBytes signature o.keys
  require (manifest.channel.acceptedBy o.channel) (.invalid (o.endpoint ++ " carries a " ++
    manifest.channel.debug ++ " manifest but the " ++ o.channel.debug ++ " channel was checked"))
  let zipUrl ← release.assetUrl manifest.zip.name
  return .release response.etag { manifest, manifestBytes, signature, zipUrl, keyName }

/-! ## The check -/

inductive CheckOutcome where
  | disabled
  | notDue
  | notModified
  | upToDate (latest : String)
  | skipped (version : String)
  | available (update : AvailableUpdate)

variable {V : Type} [LinearOrder V] (L : Library V)

/-- The state is left as it was where this fails. -/
def run (reply : Option String → Except UpdateError Fetched) (o : CheckOptions) (s : UpdateState)
    (now : Int) : Except UpdateError (CheckOutcome × UpdateState) := do
  let current ← L.parse o.currentVersion
  match ← reply s.etag with
  | .notModified => return (.notModified, s.recordCheck L now none)
  | .release etag update =>
    let version := update.manifest.version
    let latest ← L.parse version
    let s := s.recordCheck L now etag
    if latest ≤ current then return (.upToDate version, s)
    else if s.isSkipped version then return (.skipped version, s)
    else return (.available update, s)

def check (reply : Option String → Except UpdateError Fetched) (o : CheckOptions) (s : UpdateState)
    (now : Int) : Except UpdateError CheckOutcome × UpdateState :=
  if !o.force && !s.isDue L now o.intervalHours then (.ok .notDue, s)
  else
    match run L reply o s now with
    | .ok (outcome, s) => (.ok outcome, s.clearFailures)
    | .error e => (.error e, s.recordFailure L now)

/-- **What a check finds out.**  It was not due, or nothing has changed, or the document names a
version that is not newer, that was skipped, or that is offered. -/
theorem check_ok {reply : Option String → Except UpdateError Fetched} {o : CheckOptions}
    {s s' : UpdateState} {now : Int} {outcome : CheckOutcome}
    (h : check L reply o s now = (.ok outcome, s')) :
    (outcome = .notDue ∧ s' = s) ∨
    (outcome = .notModified ∧ reply s.etag = .ok .notModified ∧
      s' = (s.recordCheck L now none).clearFailures) ∨
    ∃ etag update, reply s.etag = .ok (.release etag update) ∧
      s' = (s.recordCheck L now etag).clearFailures ∧
      let version := update.manifest.version
      ((outcome = .upToDate version ∧ L.isUpgrade version o.currentVersion = false) ∨
        (outcome = .skipped version ∧ L.isUpgrade version o.currentVersion = true ∧
          s.isSkipped version = true) ∨
        (outcome = .available update ∧ L.isUpgrade version o.currentVersion = true ∧
          s.isSkipped version = false)) := by
  unfold check at h
  split at h
  · obtain ⟨ho, hs⟩ := Prod.mk.inj h
    exact .inl ⟨(Except.ok.inj ho).symm, hs.symm⟩
  · right
    split at h
    · rename_i outcome' t hrun
      obtain ⟨ho, rfl⟩ := Prod.mk.inj h
      obtain rfl := Except.ok.inj ho
      rw [run, Interaction.bind_eq_ok] at hrun
      obtain ⟨current, hcurrent, hrun⟩ := hrun
      rw [Interaction.bind_eq_ok] at hrun
      obtain ⟨fetched, hreply, hrun⟩ := hrun
      cases fetched with
      | notModified =>
        obtain ⟨rfl, rfl⟩ := Prod.mk.inj (Except.ok.inj hrun)
        exact .inl ⟨rfl, hreply, rfl⟩
      | release etag update =>
        right
        rw [Interaction.bind_eq_ok] at hrun
        obtain ⟨latest, hlatest, hrun⟩ := hrun
        have hupgrade : L.isUpgrade update.manifest.version o.currentVersion =
            decide (current < latest) := by
          rw [Library.isUpgrade, hlatest, hcurrent]
        refine ⟨etag, update, hreply, ?_⟩
        simp only at hrun
        by_cases hle : latest ≤ current
        · rw [if_pos hle] at hrun
          obtain ⟨rfl, rfl⟩ := Prod.mk.inj (Except.ok.inj hrun)
          exact ⟨rfl, .inl ⟨rfl, by rw [hupgrade]; exact decide_eq_false (not_lt.mpr hle)⟩⟩
        · have hnew : L.isUpgrade update.manifest.version o.currentVersion = true := by
            rw [hupgrade]
            exact decide_eq_true (not_le.mp hle)
          rw [if_neg hle] at hrun
          by_cases hskip : s.isSkipped update.manifest.version = true
          · rw [if_pos (show (s.recordCheck L now etag).isSkipped _ = true from hskip)] at hrun
            obtain ⟨rfl, rfl⟩ := Prod.mk.inj (Except.ok.inj hrun)
            exact ⟨rfl, .inr (.inl ⟨rfl, hnew, hskip⟩)⟩
          · rw [if_neg (show ¬ (s.recordCheck L now etag).isSkipped _ = true from hskip)] at hrun
            obtain ⟨rfl, rfl⟩ := Prod.mk.inj (Except.ok.inj hrun)
            exact ⟨rfl, .inr (.inr ⟨rfl, hnew, by simpa using hskip⟩)⟩
    · obtain ⟨ho, -⟩ := Prod.mk.inj h
      cases ho

end Mbrc.Updates
