import MbrcPlugin.Updates.Check

/-!
# The testing channel

Testing's endpoint lists the releases, newest first, and a check follows the first published one
that carries a manifest.  A release whose manifest is up before its signature and its zip makes the
check fail, whatever is listed behind it.
-/

namespace Mbrc.Updates

section

variable (C : Crypto) (J : ReleaseJson) (client : HttpClient) (o : CheckOptions)

/-! ## A release -/

/-- What a check makes of the release it has chosen. -/
def follow (etag : Option String) (release : Release) : Except UpdateError Fetched := do
  let manifestUrl ← release.assetUrl manifestAsset
  let signatureUrl ← release.assetUrl signatureAsset
  let manifestResponse ← client manifestUrl none
  let manifestBytes ← manifestResponse.intoBody manifestUrl
  let signatureResponse ← client signatureUrl none
  let signatureBytes ← signatureResponse.intoBody signatureUrl
  let signature ← (C.utf8 signatureBytes).mapError .malformedSignature
  let (manifest, keyName) ← C.verifyManifestWith manifestBytes signature o.keys
  require (manifest.channel.acceptedBy o.channel) (.invalid (o.endpoint ++ " carries a " ++
    manifest.channel.debug ++ " manifest but the " ++ o.channel.debug ++ " channel was checked"))
  let zipUrl ← release.assetUrl manifest.zip.name
  return .release etag { manifest, manifestBytes, signature, zipUrl, keyName }

theorem fetch_eq (etag : Option String) :
    fetch C J client o etag = (do
      let response ← client o.endpoint etag
      if response.isNotModified then
        return .notModified
      let body ← response.intoBody o.endpoint
      let release ← selectRelease J o.channel body o.endpoint
      follow C client o response.etag release) := rfl

/-- Published with a manifest: what testing chooses by. -/
def Release.carriesManifest (r : Release) : Bool := !r.draft && r.hasAsset manifestAsset

/-- The manifest a release carries. -/
def manifestOf (r : Release) : Option Manifest :=
  Except.toOption do
    let url ← r.assetUrl manifestAsset
    let response ← client url none
    let bytes ← response.intoBody url
    C.parse bytes

/-- Published with its manifest, its signature and the zip its manifest names. -/
def isComplete (r : Release) : Bool :=
  r.carriesManifest && r.hasAsset signatureAsset &&
    (manifestOf C client r).any fun m => r.hasAsset m.zip.name

variable {C J client o}

theorem hasAsset_of_assetUrl {r : Release} {name url : String} (h : r.assetUrl name = .ok url) :
    r.hasAsset name = true := by
  unfold Release.assetUrl at h
  split at h
  · rename_i a ha
    have hname : decide (a.name = name) = true := by simpa using List.find?_some ha
    exact List.any_eq_true.mpr ⟨a, List.mem_of_find?_eq_some ha, hname⟩
  · cases h

/-- **What a check follows to the end** is complete, and leads to the manifest it carries. -/
theorem follow_ok {etag : Option String} {r : Release} {fetched : Fetched} (hpublished : ¬r.draft)
    (h : follow C client o etag r = .ok fetched) :
    isComplete C client r = true ∧
      ∃ update, fetched = .release etag update ∧ manifestOf C client r = some update.manifest := by
  simp only [follow, Interaction.bind_eq_ok] at h
  obtain ⟨manifestUrl, hmanifest, signatureUrl, hsignature, response, hresponse, bytes, hbytes, -,
    -, -, -, signature, -, ⟨manifest, keyName⟩, hverify, -, -, zipUrl, hzip, hfetched⟩ := h
  have hparse : C.parse bytes = .ok manifest := by
    simp only [Crypto.verifyManifestWith, Interaction.bind_eq_ok] at hverify
    obtain ⟨_, _, m, hm, hpair⟩ := hverify
    rw [hm, (Prod.mk.inj (Except.ok.inj hpair)).1]
  have hcarried : manifestOf C client r = some manifest := by
    have hok : (do
        let url ← r.assetUrl manifestAsset
        let response ← client url none
        let bytes ← response.intoBody url
        C.parse bytes : Except UpdateError Manifest) = .ok manifest := by
      simp only [Interaction.bind_eq_ok]
      exact ⟨manifestUrl, hmanifest, response, hresponse, bytes, hbytes, hparse⟩
    rw [manifestOf, hok]
    rfl
  refine ⟨?_, _, (Except.ok.inj hfetched).symm, hcarried⟩
  have hzipAsset : r.hasAsset manifest.zip.name = true := hasAsset_of_assetUrl hzip
  simp [isComplete, Release.carriesManifest, hpublished, hasAsset_of_assetUrl hmanifest,
    hasAsset_of_assetUrl hsignature, hcarried, hzipAsset]

/-! ## A list of releases -/

/-- The server lists these releases to a testing check, and each complete one has a manifest that
verifies and is accepted. -/
structure Lists (C : Crypto) (J : ReleaseJson) (client : HttpClient) (o : CheckOptions)
    (sent : Option String) (response : HttpResponse) (rs : List Release) : Prop where
  testing : o.channel = .testing
  answered : client o.endpoint sent = .ok response
  success : 200 ≤ response.status ∧ response.status < 300
  listed : J.many response.body = .ok rs
  verifies : ∀ r ∈ rs, isComplete C client r = true →
    ∃ update, follow C client o response.etag r = .ok (.release response.etag update)

variable {sent : Option String} {response : HttpResponse} {rs : List Release}

/-- **A testing check** follows the first published release with a manifest. -/
theorem fetch_lists (h : Lists C J client o sent response rs) :
    fetch C J client o sent =
      match rs.find? Release.carriesManifest with
      | some r => follow C client o response.etag r
      | none => .error (.invalid (o.endpoint ++ " lists no release carrying a manifest")) := by
  have hmodified : response.isNotModified = false := by
    have := h.success.2
    exact decide_eq_false (by omega)
  have hbody : response.intoBody o.endpoint = .ok response.body := by
    rw [HttpResponse.intoBody, require, if_pos h.success]
    rfl
  have hselect : selectRelease J o.channel response.body o.endpoint =
      match rs.find? Release.carriesManifest with
      | some r => .ok r
      | none => .error (.invalid (o.endpoint ++ " lists no release carrying a manifest")) := by
    rw [h.testing, selectRelease, h.listed]
    change (match rs.find? Release.carriesManifest with | some r => _ | none => _) = _
    cases rs.find? Release.carriesManifest <;> rfl
  rw [fetch_eq, h.answered]
  change (if response.isNotModified then _ else _) = _
  rw [hmodified, hbody]
  change (selectRelease J o.channel response.body o.endpoint >>= _) = _
  rw [hselect]
  cases rs.find? Release.carriesManifest <;> rfl

/-- What satisfies the narrower condition first, when what satisfies the wider one first does. -/
theorem find?_of_imp {α : Type} {p q : α → Bool} (h : ∀ a, p a = true → q a = true) {l : List α}
    {a : α} (hq : l.find? q = some a) (hp : p a = true) : l.find? p = some a := by
  induction l with
  | nil => cases hq
  | cons b l ih =>
    cases hb : q b with
    | true =>
      rw [List.find?_cons_of_pos hb] at hq
      obtain rfl := Option.some.inj hq
      exact List.find?_cons_of_pos hp
    | false =>
      have hb' : ¬p b = true := fun hpb => by
        rw [h b hpb] at hb
        cases hb
      rw [List.find?_cons_of_neg (by simp [hb])] at hq
      rw [List.find?_cons_of_neg hb', ih hq]

theorem carriesManifest_of_complete {r : Release} (h : isComplete C client r = true) :
    r.carriesManifest = true := by
  unfold isComplete at h
  simp only [Bool.and_eq_true] at h
  exact h.1.1

/-! ## The check -/

section

variable {V : Type} [LinearOrder V] (L : Library V)

/-- A check asks for the release once, with the `ETag` it holds. -/
theorem check_congr {reply reply' : Option String → Except UpdateError Fetched} {s : UpdateState}
    (h : reply s.etag = reply' s.etag) (now : Int) :
    check L reply o s now = check L reply' o s now := by
  unfold check run
  rw [h]

theorem isOk_iff {α ε : Type} {x : Except ε α} : x.isOk = true ↔ ∃ a, x = .ok a := by
  cases x <;> simp [Except.isOk, Except.toBool]

/-- The running version and that of a manifest can be read. -/
def Readable (o : CheckOptions) (m : Manifest) : Prop :=
  (L.parse o.currentVersion).isOk = true ∧ (L.parse m.version).isOk = true

instance (o : CheckOptions) (m : Manifest) : Decidable (Readable L o m) :=
  inferInstanceAs (Decidable (_ ∧ _))

theorem run_release_ok {reply : Option String → Except UpdateError Fetched} {s : UpdateState}
    {now : Int} {etag : Option String} {update : AvailableUpdate}
    (hreply : reply s.etag = .ok (.release etag update)) :
    (∃ r, run L reply o s now = .ok r) ↔ Readable L o update.manifest := by
  constructor
  · rintro ⟨r, hr⟩
    rw [run, Interaction.bind_eq_ok] at hr
    obtain ⟨current, hcurrent, hr⟩ := hr
    rw [Interaction.bind_eq_ok] at hr
    obtain ⟨fetched, hfetched, hr⟩ := hr
    obtain rfl := Except.ok.inj (hreply.symm.trans hfetched)
    rw [Interaction.bind_eq_ok] at hr
    obtain ⟨latest, hlatest, -⟩ := hr
    exact ⟨isOk_iff.mpr ⟨current, hcurrent⟩, isOk_iff.mpr ⟨latest, hlatest⟩⟩
  · rintro ⟨hcurrentOk, hlatestOk⟩
    obtain ⟨current, hcurrent⟩ := isOk_iff.mp hcurrentOk
    obtain ⟨latest, hlatest⟩ := isOk_iff.mp hlatestOk
    have hfound : ∀ r, (if latest ≤ current then
          (.ok (.upToDate update.manifest.version, s.recordCheck L now etag) :
            Except UpdateError (CheckOutcome × UpdateState))
        else if (s.recordCheck L now etag).isSkipped update.manifest.version then
          .ok (.skipped update.manifest.version, s.recordCheck L now etag)
        else .ok (.available update, s.recordCheck L now etag)) = .ok r →
          run L reply o s now = .ok r := by
      intro r hr
      rw [run, Interaction.bind_eq_ok]
      refine ⟨current, hcurrent, Interaction.bind_eq_ok.mpr ⟨_, hreply, ?_⟩⟩
      exact Interaction.bind_eq_ok.mpr ⟨latest, hlatest, hr⟩
    by_cases hle : latest ≤ current
    · exact ⟨_, hfound _ (if_pos hle)⟩
    · by_cases hskip : (s.recordCheck L now etag).isSkipped update.manifest.version = true
      · exact ⟨_, hfound _ ((if_neg hle).trans (if_pos hskip))⟩
      · exact ⟨_, hfound _ ((if_neg hle).trans (if_neg hskip))⟩

theorem check_due {reply : Option String → Except UpdateError Fetched} {s : UpdateState} {now : Int}
    (hdue : o.force = true ∨ s.isDue L now o.intervalHours = true) :
    (check L reply o s now).1.isOk = true ↔ ∃ r, run L reply o s now = .ok r := by
  unfold check
  rw [if_neg (by rcases hdue with h | h <;> rw [h] <;> simp)]
  cases run L reply o s now with
  | error e => simp [Except.isOk, Except.toBool]
  | ok r => simp [Except.isOk, Except.toBool]

/-- **A check of a release** fails only over a version that cannot be read. -/
theorem check_release_ok {reply : Option String → Except UpdateError Fetched} {s : UpdateState}
    {now : Int} {etag : Option String} {update : AvailableUpdate}
    (hdue : o.force = true ∨ s.isDue L now o.intervalHours = true)
    (hreply : reply s.etag = .ok (.release etag update)) :
    (check L reply o s now).1.isOk = true ↔ Readable L o update.manifest := by
  rw [check_due L hdue, run_release_ok L hreply]

/-- A check acts on the first complete release, and fails only where there is none. -/
def ActsOnFirst (C : Crypto) (client : HttpClient) (o : CheckOptions) (etag : Option String)
    (rs : List Release) (s : UpdateState) (now : Int)
    (result : Except UpdateError CheckOutcome × UpdateState) : Prop :=
  ∀ r, rs.find? (isComplete C client) = some r →
    result.1.isOk = true ∧
      result = check L (fun _ => follow C client o etag r) o s now

/-- **A testing check** acts on the first complete release exactly when that is the first published
one with a manifest and its version can be read, or there is none. -/
theorem acts_on_first_iff (C : Crypto) (J : ReleaseJson) (client : HttpClient) (o : CheckOptions)
    (s : UpdateState) (now : Int) (response : HttpResponse) (rs : List Release)
    (h : Lists C J client o s.etag response rs)
    (hdue : o.force = true ∨ s.isDue L now o.intervalHours = true) :
    ActsOnFirst L C client o response.etag rs s now
        (check L (fetch C J client o) o s now) ↔
      rs.find? (isComplete C client) = none ∨
        ∃ r, rs.find? Release.carriesManifest = some r ∧ isComplete C client r = true ∧
          ∀ m ∈ manifestOf C client r, Readable L o m := by
  have hfetch := fetch_lists h
  cases hcomplete : rs.find? (isComplete C client) with
  | none => exact iff_of_true (fun r hr => by rw [hcomplete] at hr; cases hr) (Or.inl rfl)
  | some r =>
    have hr := List.find?_some hcomplete
    have hmem := List.mem_of_find?_eq_some hcomplete
    have hsome : (rs.find? Release.carriesManifest).isSome :=
      List.find?_isSome.mpr ⟨r, hmem, carriesManifest_of_complete hr⟩
    obtain ⟨first, hfirst⟩ := Option.isSome_iff_exists.mp hsome
    have hpublished : ¬first.draft := by
      have := List.find?_some hfirst
      simp [Release.carriesManifest] at this
      simp [this.1]
    simp only [hfirst] at hfetch
    simp only [reduceCtorEq, false_or, hfirst, Option.some.injEq, exists_eq_left']
    constructor
    · intro hacts
      obtain ⟨hok, -⟩ := hacts r hcomplete
      obtain ⟨result, hrun⟩ := (check_due L hdue).mp hok
      have hasked := hrun
      rw [run, Interaction.bind_eq_ok] at hasked
      obtain ⟨_, -, hasked⟩ := hasked
      rw [Interaction.bind_eq_ok] at hasked
      obtain ⟨fetched, hfetched, -⟩ := hasked
      obtain ⟨hcompleteFirst, update, rfl, hmanifest⟩ :=
        follow_ok hpublished (hfetch.symm.trans hfetched)
      refine ⟨hcompleteFirst, fun m hm => ?_⟩
      obtain rfl := Option.some.inj (hmanifest.symm.trans hm)
      exact (run_release_ok L hfetched).mp ⟨result, hrun⟩
    · rintro ⟨hfirstComplete, hreadable⟩ r' hr'
      have heq := find?_of_imp (fun _ => carriesManifest_of_complete) hfirst hfirstComplete
      obtain rfl := Option.some.inj (heq.symm.trans hr')
      obtain ⟨update, hupdate⟩ := h.verifies first (List.mem_of_find?_eq_some heq) hfirstComplete
      have hmanifest : manifestOf C client first = some update.manifest := by
        obtain ⟨-, u, hu, hm⟩ := follow_ok hpublished hupdate
        cases hu
        exact hm
      refine ⟨?_, check_congr L hfetch now⟩
      exact (check_release_ok L hdue (hfetch.trans hupdate)).mpr (hreadable _ hmanifest)

end

end

/-! ## A release that is still being uploaded -/

def uploadedManifest : Manifest :=
  let hash := String.ofList (List.replicate sha512HexLen '0')
  { schema := 1
    channel := .stable
    version := "2.0.0"
    minMusicbeeBuild := 7000
    notesUrl := "notes"
    zip := { name := "mbrc.zip", size := 1, sha512 := hash }
    installer := { name := "mbrc.exe", size := 1, sha512 := hash }
    files := [{ path := "mb_remote.dll", sha512 := hash }] }

/-- Semver on two releases, and one manifest with its signature. -/
def publisher : Library Nat where
  Key := Unit
  Signature := Unit
  manifestJson bytes := if bytes = [1] then .ok uploadedManifest else .error "expected value"
  utf8Error _ := "invalid utf-8 sequence"
  signature _ := .ok ()
  key _ := .ok ()
  verify _ bytes _ := bytes = [1]
  sha512 _ := ""
  semver s :=
    if s = "1.0.0" then .ok 1 else if s = "2.0.0" then .ok 2 else .error "unexpected character"
  readTime _ := none
  showTime _ := none
  trustedKeys := []

def testingOptions : CheckOptions where
  currentVersion := "1.0.0.0"
  channel := .testing
  intervalHours := 24
  repo := "mbrc-plugin"
  force := true
  keys := [{ name := "release", base64 := "" }]

def wholeRelease : Release where
  assets := [{ name := manifestAsset, browserDownloadUrl := "m" },
    { name := signatureAsset, browserDownloadUrl := "s" },
    { name := "mbrc.zip", browserDownloadUrl := "z" }]
  draft := false

/-- Only its manifest is up. -/
def uploadingRelease : Release where
  assets := [{ name := manifestAsset, browserDownloadUrl := "m" }]
  draft := false

def githubJson (rs : List Release) : ReleaseJson where
  one _ := .error "expected an object"
  many _ := .ok rs

def githubAnswer : HttpResponse := { status := 200, etag := none, body := [] }

/-- The manifest under one URL, anything else as an empty document. -/
def github : HttpClient := fun url _ =>
  .ok (if url = "m" then { githubAnswer with body := [1] } else githubAnswer)

theorem lists_github {rs : List Release}
    (h : ∀ r ∈ rs, ¬r.draft ∧ (isComplete publisher.toCrypto github r = true →
      (follow publisher.toCrypto github testingOptions none r).isOk = true)) :
    Lists publisher.toCrypto (githubJson rs) github testingOptions none githubAnswer rs where
  testing := rfl
  answered := by
    rw [github, if_neg (by decide +kernel)]
  success := by decide
  listed := rfl
  verifies r hr hcomplete := by
    obtain ⟨hpublished, hfollow⟩ := h r hr
    cases hfetched : follow publisher.toCrypto github testingOptions none r with
    | error e =>
      have hok := hfollow hcomplete
      rw [hfetched] at hok
      cases hok
    | ok fetched =>
      obtain ⟨-, update, rfl, -⟩ := follow_ok hpublished hfetched
      exact ⟨update, hfetched⟩

theorem acts_on_whole_release :
    ActsOnFirst publisher publisher.toCrypto github testingOptions none [wholeRelease] {} 0
      (check publisher (fetch publisher.toCrypto (githubJson [wholeRelease]) github testingOptions)
        testingOptions {} 0) :=
  (acts_on_first_iff publisher publisher.toCrypto (githubJson [wholeRelease]) github testingOptions
    {} 0 githubAnswer [wholeRelease] (lists_github (by decide +kernel)) (Or.inl rfl)).mpr
    (Or.inr ⟨wholeRelease, rfl, by decide +kernel, by decide +kernel⟩)

/-- Before a complete release, one of which only the manifest is up: the check fails and is put
off. -/
theorem stalls_behind_upload :
    let rs := [uploadingRelease, wholeRelease]
    let result := check publisher (fetch publisher.toCrypto (githubJson rs) github testingOptions)
      testingOptions {} 0
    Lists publisher.toCrypto (githubJson rs) github testingOptions none githubAnswer rs ∧
      (rs.find? (isComplete publisher.toCrypto github)).isSome ∧
      result.1.isOk = false ∧ result.2.consecutiveFailures = 1 ∧
      ¬ ActsOnFirst publisher publisher.toCrypto github testingOptions none rs {} 0 result := by
  intro rs result
  have hfails : result.1.isOk = false := by decide +kernel
  have hcomplete : (rs.find? (isComplete publisher.toCrypto github)).isSome := by decide +kernel
  refine ⟨lists_github (by decide +kernel), hcomplete, hfails, by decide +kernel, fun hacts => ?_⟩
  obtain ⟨r, hr⟩ := Option.isSome_iff_exists.mp hcomplete
  exact absurd (hfails.symm.trans (hacts r hr).1) Bool.false_ne_true

end Mbrc.Updates
