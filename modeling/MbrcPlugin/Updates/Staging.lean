import MbrcPlugin.Updates.Check
import MbrcPlugin.Lib.Interrupted
import MbrcPlugin.Lib.OrderedTable

/-!
# Staging a verified update

Everything is laid out under `<storage>/updates/<version>/`; `pending.json` beside the directories
is written last and names the version to apply.  Staging, clearing, the sweep at the start of the
core and the clearing of the helper are programs over the calls they make, each of which may fail
and may be given up half done.  Nobody else writes here, so no entry is a link; a check for links
can only fail as the call after it does.
-/

namespace Mbrc.Updates

open Interaction

/-! ## The storage -/

/-- An entry of the staging root. -/
inductive Node where
  | file (bytes : Bytes)
  | dir (files : Table String Bytes)

/-- The staging root, none where it is missing. -/
abbrev Tree := Option (Table String Node)

namespace Tree

def node (t : Tree) (k : String) : Option Node := t.bind fun entries => entries.get? k

def dirAt (t : Tree) (k : String) : Option (Table String Bytes) :=
  match t.node k with
  | some (.dir d) => some d
  | _ => none

def fileAt (t : Tree) (k : String) : Option Bytes :=
  match t.node k with
  | some (.file b) => some b
  | _ => none

def set (t : Tree) (k : String) (n : Node) : Tree := some ((t.getD Table.empty).insert k n)

def drop (t : Tree) (k : String) : Tree := t.map fun entries => entries.erase k

/-- Writes a file of a directory that is there. -/
def putFile (t : Tree) (k name : String) (bytes : Bytes) : Option Tree :=
  (t.dirAt k).map fun d => t.set k (.dir (d.insert name bytes))

/-- Writes a file of a root that is there, over no directory. -/
def putEntry (t : Tree) (k : String) (bytes : Bytes) : Option Tree :=
  if t.isSome && (t.dirAt k).isNone then some (t.set k (.file bytes)) else none

/-- Removes a file of a directory. -/
def unlinkIn (t : Tree) (k name : String) : Option Tree := do
  let d ← t.dirAt k
  guard (d.get? name).isSome
  return t.set k (.dir (d.erase name))

/-- Removes an entry of the root, a directory only if nothing is in it. -/
def unlink (t : Tree) (k : String) : Option Tree :=
  match t.node k with
  | none => none
  | some (.file _) => some (t.drop k)
  | some (.dir d) => if d.rows.isEmpty then some (t.drop k) else none

end Tree

/-- The calls, with the names they are about. -/
inductive FileCall where
  | prepareDir
  | exists (version : String)
  | removeDir (version : String)
  | download (url : String)
  | createDir (version : String)
  | write (version name : String) (bytes : Bytes)
  | writePending (bytes : Bytes)
  | readPending
  | existsRoot
  | removeRoot
  | existsPending
  | removePending

/-- A failed call says why. -/
abbrev FileCall.Answer : FileCall → Type
  | «exists» _ | existsRoot | existsPending => Bool
  | download _ => Except UpdateError HttpResponse
  | readPending => Option Bytes
  | _ => Except String Unit

/-- A part of the work of a call. -/
inductive Bit where
  | unlink (dir : String) (name : Option String)
  | unlinkRoot
  /-- The first bytes of a file that is written. -/
  | partly (k : Nat)

inductive Reply where
  | done
  | failed (e : String)
  | found (b : Bool)
  | response (r : Except UpdateError HttpResponse)
  | contents (c : Option Bytes)

/-! ## The operations -/

def stagingDir : String := "updates"

def pendingFile : String := "pending.json"

def pendingSchema : Nat := 1

structure Pending where
  schema : Nat
  version : String
  stagedAt : String
  files : List String
  deriving DecidableEq

structure StagedUpdate where
  dir : String
  version : String
  files : List String

/-- What the zip reader makes of the bytes. -/
structure Archive where
  names : List (Except String String)
  byName : String → Option (Except String Bytes)

/-- The libraries, the storage directory, and the name under which the file system knows a name. -/
structure Stager where
  crypto : Crypto
  keys : List TrustedKey
  unzip : Bytes → Except String Archive
  pendingText : Pending → Except String String
  pendingJson : String → Except String Pending
  storage : String
  fold : String → String

/-- An update whose manifest verified. -/
structure Verified (S : Stager) where
  update : AvailableUpdate
  verified : S.crypto.verifyManifestWith update.manifestBytes update.signature S.keys =
    .ok (update.manifest, update.keyName)

variable (S : Stager)

namespace Stager

/-- A path below the staging root, as errors show it. -/
def path (parts : List String) : String := "\\".intercalate (S.storage :: stagingDir :: parts)

/-- The error of a call on a path. -/
def io {α : Type} (parts : List String) (r : Except String α) : Except UpdateError α :=
  r.mapError fun e => .io (S.path parts ++ ": " ++ e)

abbrev Staging (α : Type) := Fallible FileCall.Answer UpdateError α

def clearDir (version : String) (found : Bool) : Staging Unit :=
  if found then Fallible.attempt (.removeDir version) (S.io [version]) else pure ()

def checkDownload (body : Bytes) (zip : Artifact) : Except UpdateError Unit := do
  require (body.length = zip.size) (.invalid (zip.name ++ ": manifest says " ++ toString zip.size ++
    " bytes, download is " ++ toString body.length))
  S.crypto.verifySha512 body zip.sha512 zip.name

/-- An entry's name is read and is safe. -/
def checkEntry (name : Except String String) : Except UpdateError Unit := do
  let name ← name.mapError .archive
  require (isBareFilename name) (.unsafeEntry name)

/-- The listed files in their order, each verified. -/
def extractFiles (archive : Archive) : List FileEntry → Except UpdateError (List (String × Bytes))
  | [] => .ok []
  | file :: files => do
    let entry ← (archive.byName file.path).elim (.error (.missingEntry file.path)) .ok
    let bytes ← entry.mapError fun e => .archive (file.path ++ ": " ++ e)
    S.crypto.verifySha512 bytes file.sha512 file.path
    let rest ← extractFiles archive files
    return (file.path, bytes) :: rest

def extractVerified (payload : Bytes) (m : Manifest) :
    Except UpdateError (List (String × Bytes)) := do
  let archive ← (S.unzip payload).mapError .archive
  forM archive.names checkEntry
  S.extractFiles archive m.files

def writeFile (version name : String) (bytes : Bytes) : Staging Unit :=
  Fallible.attempt (.write version name bytes) (S.io [version, name])

def writeFiles (version : String) : List (String × Bytes) → Staging Unit
  | [] => pure ()
  | (name, bytes) :: files => do
    S.writeFile version name bytes
    writeFiles version files

/-- The download and what it must hold. -/
def downloadVerified (u : AvailableUpdate) : Staging (List (String × Bytes)) := do
  let response ← Fallible.attempt (.download u.zipUrl) id
  Fallible.check do
    let body ← response.intoBody u.zipUrl
    S.checkDownload body u.manifest.zip
    S.extractVerified body u.manifest

/-- The marker that names an update. -/
def pendingOf (u : AvailableUpdate) (stagedAt : String) (files : List (String × Bytes)) :
    Pending where
  schema := pendingSchema
  version := u.manifest.version
  stagedAt := stagedAt
  files := files.map Prod.fst

/-- The signed manifest and its signature, which travel with the files, and then the marker. -/
def commit (u : AvailableUpdate) (stagedAt : String) (files : List (String × Bytes)) :
    Staging StagedUpdate := do
  let version := u.manifest.version
  S.writeFile version manifestAsset u.manifestBytes
  S.writeFile version signatureAsset (Text.bytes u.signature)
  let json ← Fallible.check ((S.pendingText (pendingOf u stagedAt files)).mapError
    fun e => .io ("serialize " ++ pendingFile ++ ": " ++ e))
  Fallible.attempt (.writePending (Text.bytes json)) (S.io [pendingFile])
  return { dir := S.path [version], version, files := files.map Prod.fst }

def stage (u : AvailableUpdate) (stagedAt : String) : Staging StagedUpdate := do
  let version := u.manifest.version
  Fallible.check (require (isBareFilename version)
    (.invalid ("version " ++ version.quote ++ " cannot be a directory name")))
  Fallible.attempt .prepareDir (S.io [])
  let found ← Fallible.attempt (.exists version) .ok
  S.clearDir version found
  let files ← S.downloadVerified u
  Fallible.attempt (.createDir version) (S.io [version])
  S.writeFiles version files
  S.commit u stagedAt files

/-- What the marker's bytes mean; where they cannot be read, there is none. -/
def readPending (contents : Option Bytes) : Except UpdateError (Option Pending) :=
  match contents.bind Text.ofBytes with
  | none => .ok none
  | some text => do
    let p ← (S.pendingJson text).mapError fun e => .parse (pendingFile ++ ": " ++ e)
    require (p.schema = pendingSchema)
      (.invalid (pendingFile ++ ": unsupported schema " ++ toString p.schema))
    require (isBareFilename p.version) (.invalid
      (pendingFile ++ ": version " ++ p.version.quote ++ " cannot be a directory name"))
    return some p

def clearStaged : Staging Unit := do
  let found : Bool ← Fallible.attempt .existsRoot .ok
  if found then Fallible.attempt .removeRoot (S.io []) else pure ()

/-- What an applied update left is removed; a marker that is there, or unreadable, keeps it. -/
def sweepAppliedStaging : Staging Unit :=
  if S.storage = "" then pure ()
  else do
    let contents ← Fallible.attempt .readPending .ok
    match S.readPending contents with
    | .ok (some _) => pure ()
    | .error _ => pure ()
    | .ok none =>
      let found : Bool ← Fallible.attempt .existsRoot .ok
      if found then clearStaged S else pure ()

/-- A removal whose failure only goes to the log. -/
def removeQuietly (i : FileCall) (c : Bool) : Staging Unit :=
  if c then Fallible.attempt i fun _ => .ok () else pure ()

/-- The helper clears the directory it applied, unless it runs from it, and then the marker. -/
def helperClearStaged (version : String) (runningFrom : Bool) : Staging Unit := do
  removeQuietly (.removeDir version) (!runningFrom)
  let found : Bool ← Fallible.attempt .existsPending .ok
  removeQuietly .removePending found

end Stager

inductive Operation (S : Stager) where
  | stage (u : Verified S) (stagedAt : String)
  | clearStaged
  | sweepAppliedStaging
  | helperClearStaged (version : String) (runningFrom : Bool)

/-- The result goes to the log. -/
def forget {α : Type} (x : Stager.Staging α) : Program FileCall.Answer Unit :=
  x.run.bind fun _ => .done ()

variable {S} in
def Operation.program : Operation S → Program FileCall.Answer Unit
  | stage u stagedAt => forget (S.stage u.update stagedAt)
  | clearStaged => forget (Stager.clearStaged S)
  | sweepAppliedStaging => forget S.sweepAppliedStaging
  | helperClearStaged version runningFrom => forget (Stager.helperClearStaged version runningFrom)

/-! ## What the calls do -/

/-- A part of the work of a removal or a write. -/
def Stager.during (t : Tree) : FileCall → Bit → Option Tree
  | .removeDir version, .unlink dir name =>
    if dir = S.fold version then
      match name with
      | some name => t.unlinkIn dir name
      | none => if (t.dirAt dir).isSome then t.unlink dir else none
    else none
  | .removeRoot, .unlink dir (some name) => t.unlinkIn dir name
  | .removeRoot, .unlink dir none => t.unlink dir
  | .removeRoot, .unlinkRoot =>
    if t.all fun entries => entries.rows.isEmpty then some none else none
  | .write version name bytes, .partly k =>
    t.putFile (S.fold version) (S.fold name) (bytes.take k)
  | .writePending bytes, .partly k => t.putEntry (S.fold pendingFile) (bytes.take k)
  | _, _ => none

/-- The answer to a call, and what it leaves.  A failed call may have done a part of its work. -/
def Stager.answer (t : Tree) : (i : FileCall) → Reply → Option (i.Answer × Tree)
  | .prepareDir, .done => some (.ok (), some (t.getD Table.empty))
  | .prepareDir, .failed e => some (.error e, t)
  | .exists version, .found b =>
    if !b || (t.node (S.fold version)).isSome then some (b, t) else none
  | .removeDir version, .done => if (t.node (S.fold version)).isNone then some (.ok (), t) else none
  | .removeDir _, .failed e => some (.error e, t)
  | .download _, .response r => some (r, t)
  | .createDir version, .done =>
    match t.node (S.fold version) with
    | none => some (.ok (), t.set (S.fold version) (.dir Table.empty))
    | some (.dir _) => some (.ok (), t)
    | some (.file _) => none
  | .createDir _, .failed e => some (.error e, t)
  | .write version name bytes, .done =>
    (t.putFile (S.fold version) (S.fold name) bytes).map fun t' => (.ok (), t')
  | .write _ _ _, .failed e => some (.error e, t)
  | .writePending bytes, .done =>
    (t.putEntry (S.fold pendingFile) bytes).map fun t' => (.ok (), t')
  | .writePending _, .failed e => some (.error e, t)
  | .readPending, .contents c =>
    if c.isNone || c = t.fileAt (S.fold pendingFile) then some (c, t) else none
  | .existsRoot, .found b => if !b || t.isSome then some (b, t) else none
  | .removeRoot, .done => if t.isNone then some (.ok (), t) else none
  | .removeRoot, .failed e => some (.error e, t)
  | .existsPending, .found b =>
    if !b || (t.node (S.fold pendingFile)).isSome then some (b, t) else none
  | .removePending, .done =>
    if (t.fileAt (S.fold pendingFile)).isSome then
      some (.ok (), t.drop (S.fold pendingFile)) else none
  | .removePending, .failed e => some (.error e, t)
  | _, _ => none

def Stager.machine : Machine FileCall.Answer Tree Bit Reply where
  during i d t := S.during t i d
  answer i r t := S.answer t i r

/-- Operations one after the other on a storage directory that is empty at first. -/
def Stager.system : Transition.System (Tree × Program FileCall.Answer Unit)
    (Move (Operation S) Bit Reply) :=
  S.machine.system Operation.program fun t => t = none

end Mbrc.Updates
