import MbrcPlugin.Settings.Config
import MbrcPlugin.Lib.Text
import MbrcPlugin.Lib.Interaction
import Mathlib.Data.List.Nodup

/-!
# The signed release manifest

What a release says of itself, the rules a manifest is refused by, and the two checks every reader
makes: the signature over the whole manifest, and the hash of each file it lists.  JSON, minisign
and SHA-512 are parameters.
-/

namespace Mbrc.Updates

abbrev Bytes := List UInt8

/-- What goes wrong between the release server and the installed files. -/
inductive UpdateError where
  | parse (m : String)
  | invalid (m : String)
  | noTrustedKeys
  | malformedKey (name reason : String)
  | malformedSignature (m : String)
  | untrustedSignature
  | hashMismatch (path expected actual : String)
  | version (m : String)
  | network (m : String)
  | http (status : Nat) (url : String)
  | io (m : String)
  | archive (m : String)
  | unsafeEntry (name : String)
  | missingEntry (name : String)
  deriving DecidableEq

/-- What the log and the panel are told. -/
def UpdateError.display : UpdateError → String
  | parse m => "manifest is not valid: " ++ m
  | invalid m => "manifest failed validation: " ++ m
  | noTrustedKeys => "no release public keys were compiled in; refusing to trust any manifest"
  | malformedKey name reason => "trusted key " ++ name ++ " is malformed: " ++ reason
  | malformedSignature m => "signature is malformed: " ++ m
  | untrustedSignature => "signature did not verify against any trusted release key"
  | hashMismatch path expected actual =>
    "sha512 mismatch for " ++ path ++ ": manifest says " ++ expected ++ ", file is " ++ actual
  | version m => "cannot read version: " ++ m
  | network m => "request failed: " ++ m
  | http status url => "HTTP " ++ toString status ++ " from " ++ url
  | io m => "staging failed: " ++ m
  | archive m => "update archive is not readable: " ++ m
  | unsafeEntry name =>
    "update archive contains " ++ name.quote ++ ", which is not a bare filename"
  | missingEntry name =>
    "update archive is missing " ++ name.quote ++ ", which the manifest lists"

/-! ## The manifest -/

abbrev Channel := Settings.UpdateChannel

/-- Whether a manifest of this channel may be served to a client that follows `subscribed`:
testing takes either kind. -/
def Channel.acceptedBy (c subscribed : Channel) : Bool :=
  match subscribed with
  | .stable => c = .stable
  | .testing => true

def Channel.debug : Channel → String
  | .stable => "Stable"
  | .testing => "Testing"

structure Artifact where
  name : String
  size : Nat
  sha512 : String
  deriving DecidableEq

/-- A file of the zip, and the hash it must have once extracted. -/
structure FileEntry where
  path : String
  sha512 : String
  deriving DecidableEq

structure Manifest where
  schema : Nat
  channel : Channel
  version : String
  minMusicbeeBuild : Nat
  notesUrl : String
  zip : Artifact
  installer : Artifact
  files : List FileEntry
  deriving DecidableEq

/-- The hash a file must have, where the manifest lists it. -/
def Manifest.expectedHash (m : Manifest) (path : String) : Option String :=
  (m.files.find? fun f => f.path = path).map fun f => f.sha512

def schemaVersion : Nat := 1

def sha512HexLen : Nat := 128

def isHexDigit (b : UInt8) : Bool := (48 ≤ b && b ≤ 57) || (97 ≤ b && b ≤ 102) || (65 ≤ b && b ≤ 70)

/-- The bytes with the upper case letters of ASCII in lower case. -/
def asciiLower (s : String) : Bytes :=
  (Text.bytes s).map fun b => if 65 ≤ b && b ≤ 90 then b + 32 else b

def reservedDeviceNames : List String :=
  ["con", "prn", "aux", "nul", "com1", "com2", "com3", "com4", "com5", "com6", "com7", "com8",
    "com9", "lpt1", "lpt2", "lpt3", "lpt4", "lpt5", "lpt6", "lpt7", "lpt8", "lpt9"]

/-- The characters that leave a directory or that Windows refuses. -/
def isUnsafe (c : Char) : Bool :=
  c ∈ ['/', '\\', ':', '<', '>', '"', '|', '?', '*'] || Text.isControl c

/-- A name that can only mean a file of the directory it is joined to. -/
def isBareFilename (name : String) : Bool :=
  let cs := name.toList
  if cs = [] || cs = ['.'] || cs = ['.', '.'] then false
  else if cs.head? = some '.' || cs.getLast? = some '.' || cs.getLast? = some ' ' then false
  else if cs.any isUnsafe then false
  else
    let stem := cs.takeWhile (· ≠ '.')
    !reservedDeviceNames.any fun reserved => stem.map Char.toLower = reserved.toList

/-- A rule, and the error where it is broken. -/
def require (c : Prop) [Decidable c] (e : UpdateError) : Except UpdateError Unit :=
  if c then .ok () else .error e

@[simp] theorem require_eq_ok {c : Prop} [Decidable c] {e : UpdateError} {u : Unit} :
    require c e = .ok u ↔ c := by
  unfold require
  split <;> simp_all

def checkHash (hash field : String) : Except UpdateError Unit :=
  require ((Text.bytes hash).length = sha512HexLen ∧ (Text.bytes hash).all isHexDigit)
    (.invalid (field ++ ": sha512 must be " ++ toString sha512HexLen ++ " hex characters"))

def checkFilename (name field : String) : Except UpdateError Unit :=
  require (isBareFilename name)
    (.invalid (field ++ ": " ++ name.quote ++ " is not a bare filename"))

/-- The two checks of a listed file. -/
def FileEntry.check (f : FileEntry) : Except UpdateError Unit := do
  checkHash f.sha512 f.path
  checkFilename f.path "files[].path"

def Manifest.validate (m : Manifest) : Except UpdateError Unit := do
  require (m.schema = schemaVersion) (.invalid ("unsupported schema " ++ toString m.schema ++
    ", this build understands " ++ toString schemaVersion))
  require (Text.trim m.version ≠ "") (.invalid "version is empty")
  require (m.files ≠ [])
    (.invalid "files is empty, so the zip would have no allowed entries")
  checkHash m.zip.sha512 "artifacts.zip"
  checkHash m.installer.sha512 "artifacts.installer"
  checkFilename m.zip.name "artifacts.zip.name"
  checkFilename m.installer.name "artifacts.installer.name"
  forM m.files FileEntry.check
  require (m.files.map FileEntry.path).Nodup
    (.invalid "files contains duplicate paths, so the applied bytes would be ambiguous")

/-! ### What validation leaves -/

theorem forM_ok {α : Type} {f : α → Except UpdateError Unit} {l : List α}
    (h : forM l f = .ok ()) : ∀ a ∈ l, f a = .ok () := by
  induction l with
  | nil => simp
  | cons a l ih =>
    rw [List.forM_cons, Interaction.bind_eq_ok] at h
    obtain ⟨⟨⟩, ha, hl⟩ := h
    intro b hb
    rcases List.mem_cons.mp hb with rfl | hb
    · exact ha
    · exact ih hl b hb

theorem FileEntry.check_ok {f : FileEntry} (h : f.check = .ok ()) :
    isBareFilename f.path = true := by
  unfold FileEntry.check checkFilename at h
  rw [Interaction.bind_eq_ok] at h
  obtain ⟨_, _, h⟩ := h
  exact require_eq_ok.mp h

/-- **What is listed** in a manifest that is accepted: bare names, each once. -/
theorem Manifest.validate_ok {m : Manifest} (h : m.validate = .ok ()) :
    m.files ≠ [] ∧ (∀ f ∈ m.files, isBareFilename f.path = true) ∧
      (m.files.map FileEntry.path).Nodup := by
  simp only [Manifest.validate, Interaction.bind_eq_ok, require_eq_ok] at h
  obtain ⟨_, _, _, _, _, hfiles, _, _, _, _, _, _, _, _, _, hnames, hnodup⟩ := h
  exact ⟨hfiles, fun f hf => f.check_ok (forM_ok hnames f hf), hnodup⟩

/-! ## Signatures and hashes -/

/-- A release key compiled in. -/
structure TrustedKey where
  name : String
  base64 : String
  deriving DecidableEq

/-- JSON, minisign and SHA-512. -/
structure Crypto where
  Key : Type
  Signature : Type
  manifestJson : Bytes → Except String Manifest
  /-- Why bytes are not UTF-8. -/
  utf8Error : Bytes → String
  signature : String → Except String Signature
  key : String → Except String Key
  verify : Key → Bytes → Signature → Bool
  /-- The digest in hexadecimal. -/
  sha512 : Bytes → String

variable (C : Crypto)

def Crypto.utf8 (bytes : Bytes) : Except String String :=
  match Text.ofBytes bytes with
  | some s => .ok s
  | none => .error (C.utf8Error bytes)

@[simp] theorem Crypto.utf8_bytes (s : String) : C.utf8 (Text.bytes s) = .ok s := by
  rw [Crypto.utf8, Text.ofBytes_bytes]

def Crypto.parse (bytes : Bytes) : Except UpdateError Manifest := do
  let m ← (C.manifestJson bytes).mapError .parse
  m.validate
  return m

/-- The loop over the keys: the first malformed key and whether any was usable are kept. -/
def Crypto.tryKeys (bytes : Bytes) (sig : C.Signature) :
    List TrustedKey → Option UpdateError → Bool → Except UpdateError String
  | [], malformed, usable =>
    .error (if usable then .untrustedSignature else malformed.getD .noTrustedKeys)
  | k :: ks, malformed, usable =>
    match C.key k.base64 with
    | .error reason =>
      tryKeys bytes sig ks (malformed.or (some (.malformedKey k.name reason))) usable
    | .ok key =>
      if C.verify key bytes sig then .ok k.name
      else tryKeys bytes sig ks malformed true

/-- The name of the first trusted key the signature verifies against. -/
def Crypto.verifySignatureWith (bytes : Bytes) (signature : String) (keys : List TrustedKey) :
    Except UpdateError String := do
  require (keys ≠ []) .noTrustedKeys
  let sig ← (C.signature signature).mapError .malformedSignature
  C.tryKeys bytes sig keys none false

/-- The signature first, then the manifest. -/
def Crypto.verifyManifestWith (bytes : Bytes) (signature : String) (keys : List TrustedKey) :
    Except UpdateError (Manifest × String) := do
  let name ← C.verifySignatureWith bytes signature keys
  let m ← C.parse bytes
  return (m, name)

def Crypto.verifySha512 (bytes : Bytes) (expected path : String) : Except UpdateError Unit :=
  let actual := C.sha512 bytes
  require (asciiLower actual = asciiLower expected) (.hashMismatch path expected actual)

def Crypto.verifyBundledFile (m : Manifest) (path : String) (bytes : Bytes) :
    Except UpdateError Unit := do
  let expected ← (m.expectedHash path).elim
    (.error (.invalid (path.quote ++ " is not listed in the manifest"))) .ok
  C.verifySha512 bytes expected path

/-- **What verifies** is signed by a trusted key, decodes and is valid. -/
theorem Crypto.verifyManifestWith_ok {bytes : Bytes} {signature name : String}
    {keys : List TrustedKey} {m : Manifest}
    (h : C.verifyManifestWith bytes signature keys = .ok (m, name)) :
    C.verifySignatureWith bytes signature keys = .ok name ∧ C.manifestJson bytes = .ok m ∧
      m.validate = .ok () := by
  simp only [Crypto.verifyManifestWith, Crypto.parse, Interaction.bind_eq_ok] at h
  obtain ⟨n, hn, m', ⟨m'', hjson, _, hvalid, hm'⟩, hm⟩ := h
  obtain rfl := Except.ok.inj hm'
  obtain ⟨rfl, rfl⟩ := Prod.mk.inj (Except.ok.inj hm)
  refine ⟨hn, ?_, hvalid⟩
  cases hb : C.manifestJson bytes with
  | error e => rw [hb] at hjson; cases hjson
  | ok a => rw [hb] at hjson; cases hjson; rfl

end Mbrc.Updates
