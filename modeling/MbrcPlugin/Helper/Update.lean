import MbrcPlugin.Updates.Check
import MbrcPlugin.Lib.Windows

/-!
# Applying a staged update

The elevated helper checks the paths it is given, verifies the staged bundle again, waits for
MusicBee, keeps a copy of what is replaced, swaps the files, and puts the old ones back where that
fails.  Each function is a program over the calls it makes.
-/

namespace Mbrc.Helper

open Interaction Updates Windows

/-! ## The calls -/

inductive Call where
  | read (p : AbsPath)
  | write (p : AbsPath) (bytes : Bytes)
  | exists (p : AbsPath)
  | isLink (p : AbsPath)
  | isDir (p : AbsPath)
  | isFile (p : AbsPath)
  | canonicalize (p : AbsPath)
  | createDirAll (p : AbsPath)
  | removeDirAll (p : AbsPath)
  | removeFile (p : AbsPath)
  | readDir (p : AbsPath)
  | wait (pid : Nat)
  /-- Whether this process runs from the directory. -/
  | runningFrom (p : AbsPath)
  | launch (argument : String)
  | log (line : String)

/-- A failed call says why. -/
abbrev Call.Answer : Call → Type
  | read _ => Except String Bytes
  | write _ _ | createDirAll _ | removeDirAll _ | removeFile _ | launch _ => Except String Unit
  | «exists» _ | isLink _ | isDir _ | isFile _ | wait _ | runningFrom _ => Bool
  | canonicalize _ => Except String AbsPath
  | readDir _ => Option (List String)
  | log _ => Unit

/-! ## Requests, plans and outcomes -/

def manifestAsset : String := "manifest.json"

def signatureAsset : String := "manifest.json.minisig"

def backupDir : String := "backup"

/-- What the caller asked for. -/
structure Request where
  pid : Nat
  staged : String
  target : String
  relaunch : String
  relaunchAumid : Option String

inductive RelaunchTarget where
  | exe (p : AbsPath)
  | packaged (aumid : String)
  deriving DecidableEq

/-- What Explorer is handed. -/
def RelaunchTarget.shellArgument : RelaunchTarget → String
  | exe p => p.display
  | packaged aumid => "shell:AppsFolder\\" ++ aumid

/-- A request whose paths are checked and resolved. -/
structure Plan where
  pid : Nat
  staged : AbsPath
  target : AbsPath
  relaunch : RelaunchTarget

structure Applied where
  version : String
  files : List String
  backup : Option AbsPath
  deriving DecidableEq

inductive Error where
  | rejected (m : String)
  | verify (e : UpdateError)
  | stillRunning (pid : Nat)
  | failed (m : String)
  | rolledBack (cause : String)
  | rollbackFailed (cause restore : String)
  deriving DecidableEq

def exitTimeoutSecs : Nat := 120

def Error.display : Error → String
  | rejected m => "refusing to continue: " ++ m
  | verify e => "the staged update did not verify: " ++ e.display
  | stillRunning pid => "MusicBee (pid " ++ toString pid ++ ") did not exit within " ++
      toString exitTimeoutSecs ++ "s; nothing was changed"
  | failed m => m
  | rolledBack cause => "update failed (" ++ cause ++ "); the previous files were restored"
  | rollbackFailed cause restore => "update failed (" ++ cause ++
      ") and the previous files could not be restored (" ++ restore ++
      "); reinstall MusicBee Remote"

abbrev Run (α : Type) := Fallible Call.Answer Error α

def ask (i : Call) : Run i.Answer := Fallible.attempt i .ok

/-- A rule, and the error where it is broken. -/
def demand (c : Prop) [Decidable c] (e : Error) : Run Unit :=
  Fallible.check (if c then .ok () else .error e)

def failed (p : AbsPath) (e : String) : Error := .failed (p.display ++ ": " ++ e)

def readFile (p : AbsPath) : Run Bytes :=
  Fallible.attempt (.read p) fun r => r.mapError (failed p)

/-- A link is refused; what is missing is none. -/
def refuseReparsePoint (p : AbsPath) : Run Unit :=
  Fallible.attempt (.isLink p) fun link =>
    if link then .error (.rejected (p.display ++ " is a link; refusing to follow it")) else .ok ()

/-! ## The paths of a request -/

def isNetworkPath (raw : String) : Bool :=
  ['\\', '\\'].isPrefixOf raw.toList || ['/', '/'].isPrefixOf raw.toList

/-- The shared rules: an absolute path of this machine that is no link. -/
def checkedPath (raw flag : String) : Run AbsPath := do
  demand (Text.trim raw ≠ "") (.rejected (flag ++ " is empty"))
  let path ← Fallible.check ((AbsPath.absolute raw).elim
    (.error (.rejected (flag ++ " " ++ raw.quote ++ " is not absolute"))) .ok)
  demand (¬ isNetworkPath raw) (.rejected (flag ++ " " ++ raw.quote ++ " is a network path"))
  refuseReparsePoint path
  Fallible.attempt (.canonicalize path) fun r =>
    r.mapError fun e => .rejected (flag ++ " " ++ raw.quote ++ " cannot be resolved: " ++ e)

def checkedDir (raw flag : String) : Run AbsPath := do
  let path ← checkedPath raw flag
  let dir : Bool ← ask (.isDir path)
  demand dir (.rejected (flag ++ " " ++ raw.quote ++ " is not a directory"))
  return path

def checkedFile (raw flag : String) : Run AbsPath := do
  let path ← checkedPath raw flag
  let file : Bool ← ask (.isFile path)
  demand file (.rejected (flag ++ " " ++ raw.quote ++ " is not a file"))
  return path

/-- `<package family>!<application>`, without a separator or a quote. -/
def checkedAumid (raw : String) : Except Error String :=
  let aumid := Text.trim raw
  if aumid = "" then .error (.rejected "--relaunch-aumid is empty")
  else if aumid.toList.any (· ∈ ['\\', '/', '"', '\n', '\r']) then
    .error (.rejected ("--relaunch-aumid " ++ raw.quote ++ " contains a path separator or a quote"))
  else
    match aumid.toList.splitOn '!' with
    | [family, app] =>
      if family = [] ∨ app = [] then
        .error (.rejected ("--relaunch-aumid " ++ raw.quote ++ " is not <family>!<application>"))
      else .ok aumid
    | _ => .error (.rejected ("--relaunch-aumid " ++ raw.quote ++ " is not <family>!<application>"))

def relaunchOf (request : Request) : Run RelaunchTarget :=
  match request.relaunchAumid with
  | some aumid => Fallible.check ((checkedAumid aumid).map .packaged)
  | none => do
    let path ← checkedFile request.relaunch "--relaunch"
    return .exe path

def plan (request : Request) : Run Plan := do
  let staged ← checkedDir request.staged "--staged"
  let target ← checkedDir request.target "--target"
  let relaunch ← relaunchOf request
  demand (staged ≠ target) (.rejected "--staged and --target are the same directory")
  demand (¬ target.startsWith staged ∧ ¬ staged.startsWith target)
    (.rejected "--staged and --target must not contain one another")
  return { pid := request.pid, staged, target, relaunch }

/-! ## The staged bundle -/

/-- The manifest and the bytes that were hashed. -/
structure Bundle where
  manifest : Manifest
  files : List (String × Bytes)

variable (C : Crypto) (keys : List TrustedKey)

/-- One listed file: its name is checked again, and its bytes against the hash. -/
def verifyFile (staged : AbsPath) (entry : FileEntry) : Run Bytes := do
  demand (isBareFilename entry.path) (.rejected
    ("the manifest names " ++ entry.path.quote ++ ", which is not a bare filename"))
  let path := staged.join entry.path
  refuseReparsePoint path
  let bytes ← readFile path
  Fallible.check ((C.verifySha512 bytes entry.sha512 entry.path).mapError .verify)
  return bytes

def verifyFiles (staged : AbsPath) : List FileEntry → Run (List (String × Bytes))
  | [] => pure []
  | entry :: entries => do
    let bytes ← verifyFile C staged entry
    let files ← verifyFiles staged entries
    return (entry.path, bytes) :: files

/-- The signature over the manifest, then every file it lists. -/
def verifyStaged (staged : AbsPath) : Run Bundle := do
  let manifestBytes ← readFile (staged.join manifestAsset)
  let signature ← readFile (staged.join signatureAsset)
  let signature ← Fallible.check ((C.utf8 signature).mapError fun e =>
    .verify (.malformedSignature e))
  let (manifest, keyName) ← Fallible.check
    ((C.verifyManifestWith manifestBytes signature keys).mapError .verify)
  ask (.log ("manifest for " ++ manifest.version ++ " signed by " ++ keyName))
  let files ← verifyFiles C staged manifest.files
  return { manifest, files }

/-! ## The backup -/

structure Backup where
  dir : Option AbsPath
  files : List (String × Bytes)

/-- `<storage>/backup`, two levels up from the staged directory. -/
def backupRoot (staged : AbsPath) : Except Error AbsPath :=
  match staged.parent.bind AbsPath.parent with
  | some storage => .ok (storage.join backupDir)
  | none => .error (.rejected (staged.display ++ " is not inside a staging directory"))

/-- The first file that is kept makes the directory. -/
def makeBackup (root : AbsPath) (first : Bool) : Run Unit :=
  if first then Fallible.attempt (.createDirAll root) fun r => r.mapError (failed root)
  else pure ()

/-- Keeps one file in memory and beside it on disk. -/
def keepFile (root target : AbsPath) (name : String) (first : Bool) : Run Bytes := do
  let current := target.join name
  refuseReparsePoint current
  let bytes ← readFile current
  makeBackup root first
  Fallible.attempt (.write (root.join name) bytes) fun r => r.mapError (failed current)
  return bytes

/-- Keeps what is there under each name; `files` is what was kept so far. -/
def backUpFiles (root target : AbsPath) :
    List (String × Bytes) → List (String × Bytes) → Run (List (String × Bytes))
  | [], files => pure files
  | (name, _) :: rest, files => do
    let found : Bool ← ask (.exists (target.join name))
    if found then
      let bytes ← keepFile root target name files.isEmpty
      backUpFiles root target rest (files ++ [(name, bytes)])
    else backUpFiles root target rest files

def clearBackup (root : AbsPath) (found : Bool) : Run Unit :=
  if found then Fallible.attempt (.removeDirAll root) fun r => r.mapError (failed root)
  else pure ()

def backUp (p : Plan) (bundle : Bundle) : Run Backup := do
  let above ← Fallible.check (backupRoot p.staged)
  let root := above.join bundle.manifest.version
  let found : Bool ← ask (.exists root)
  clearBackup root found
  let files ← backUpFiles root p.target bundle.files []
  if files.isEmpty then return { dir := none, files }
  else
    ask (.log ("backed up " ++ toString files.length ++ " file(s) to " ++ root.display))
    return { dir := some root, files }

/-! ## The swap -/

abbrev Swap (α : Type) := Fallible Call.Answer String α

def refuseLink (path : AbsPath) (found : Bool) : Swap Unit :=
  if found then
    Fallible.attempt (.isLink path) fun link =>
      if link then
        .error (Error.rejected (path.display ++ " is a link; refusing to follow it")).display
      else .ok ()
  else pure ()

def replaceFile (target : AbsPath) (name : String) (bytes : Bytes) : Swap Unit := do
  let path := target.join name
  let found : Bool ← Fallible.attempt (.exists path) .ok
  refuseLink path found
  Fallible.attempt (.write path bytes) fun r => r.mapError fun e => path.display ++ ": " ++ e
  Fallible.attempt (.log ("wrote " ++ path.display)) .ok

def writeAll (target : AbsPath) : List (String × Bytes) → Swap Unit
  | [] => pure ()
  | (name, bytes) :: files => do
    replaceFile target name bytes
    writeAll target files

/-! ## The way back -/

/-- Whether the installed file holds what the backup would put there. -/
def alreadyRestored (backup : Bytes) (installed : AbsPath) : Program Call.Answer Bool :=
  .call (.read installed) fun r => .done (match r with
    | .ok current => current = backup
    | .error _ => false)

/-- One file is put back, or why it is not. -/
def restoreFile (target : AbsPath) (name : String) (bytes : Bytes) :
    Program Call.Answer (Option String) :=
  let path := target.join name
  .call (.isLink path) fun link =>
    if link then .done (some (name ++ ": became a link"))
    else .call (.write path bytes) fun r =>
      match r with
      | .ok () => .done none
      | .error e => (alreadyRestored bytes path).bind fun same =>
          .done (if same then none else some (name ++ ": " ++ e))

/-- Puts the old files back; the result is what went wrong. -/
def restoreFiles (target : AbsPath) : List (String × Bytes) → Program Call.Answer (List String)
  | [] => .done []
  | (name, bytes) :: files =>
    (restoreFile target name bytes).bind fun failure =>
      (restoreFiles target files).bind fun failures => .done (failure.toList ++ failures)

def restore (backup : Backup) (target : AbsPath) (cause : String) : Program Call.Answer Error :=
  if backup.files.isEmpty then .done (.rolledBack cause)
  else (restoreFiles target backup.files).bind fun failures =>
    .done (if failures.isEmpty then .rolledBack cause
      else .rollbackFailed cause ("; ".intercalate failures))

/-! ## The apply -/

/-- A removal whose failure only goes to the log. -/
def removeQuietly (path : AbsPath) : Program Call.Answer Unit :=
  .call (.removeDirAll path) fun r =>
    match r with
    | .ok () => .done ()
    | .error e => .call (.log ("could not remove " ++ path.display ++ ": " ++ e)) fun _ => .done ()

/-- Removes the directories of the other versions. -/
def pruneEntries (root : AbsPath) (keep : String) : List String → Program Call.Answer Unit
  | [] => .done ()
  | name :: names =>
    if name = keep then pruneEntries root keep names
    else .call (.isDir (root.child name)) fun dir =>
      (if dir then removeQuietly (root.child name) else .done ()).bind fun _ =>
        pruneEntries root keep names

def pruneBackups (p : Plan) (keep : String) : Program Call.Answer Unit :=
  match backupRoot p.staged with
  | .error _ => .done ()
  | .ok root => .call (.readDir root) fun names => pruneEntries root keep (names.getD [])

/-- What an apply comes to after the swap. -/
def finish (p : Plan) (bundle : Bundle) (backup : Backup) :
    Except String Unit → Program Call.Answer (Except Error Applied)
  | .ok () => (pruneBackups p bundle.manifest.version).bind fun _ =>
    .done (.ok { version := bundle.manifest.version, files := bundle.files.map Prod.fst,
                 backup := backup.dir })
  | .error cause => (restore backup p.target cause).bind fun e => .done (.error e)

/-- The keys and the wait are parameters of the source too. -/
def applyWith (p : Plan) : Run Applied := do
  let bundle ← verifyStaged C keys p.staged
  let gone : Bool ← ask (.wait p.pid)
  demand gone (.stillRunning p.pid)
  let backup ← backUp p bundle
  ExceptT.mk ((writeAll p.target bundle.files).run.bind (finish p bundle backup))

/-! ## The command -/

/-- A line of the log. -/
def note (line : String) : Program Call.Answer Unit := .call (.log line) fun _ => .done ()

/-- The marker beside the staged directory, where it is there. -/
def clearMarker (marker : AbsPath) : Program Call.Answer Unit :=
  .call (.exists marker) fun found =>
    if found then
      .call (.removeFile marker) fun r =>
        match r with
        | .ok () => .done ()
        | .error e => note ("could not remove " ++ marker.display ++ ": " ++ e)
    else .done ()

/-- Removes the staged bundle; a helper that runs from it leaves it to the core. -/
def clearStaged (p : Plan) : Program Call.Answer Unit :=
  .call (.runningFrom p.staged) fun running =>
    (if running then
      note "left the staged bundle for the core to sweep: the helper is running from it"
    else removeQuietly p.staged).bind fun _ =>
      match p.staged.parent with
      | some updates => clearMarker (updates.join "pending.json")
      | none => .done ()

def relaunch (t : RelaunchTarget) : Program Call.Answer Unit :=
  .call (.launch t.shellArgument) fun r =>
    match r with
    | .ok () => note ("relaunched " ++ t.shellArgument)
    | .error e => note ("could not relaunch " ++ t.shellArgument ++ ": " ++ e)

/-- The code that an error ends the process with. -/
def Error.exitCode : Error → Nat
  | rejected _ => 2
  | verify _ => 5
  | stillRunning _ => 6
  | failed _ => 1
  | rolledBack _ => 7
  | rollbackFailed .. => 8

/-- What follows an apply. -/
def conclude (p : Plan) : Except Error Applied → Program Call.Answer Nat
  | .ok applied =>
    (note ("applied " ++ applied.version ++ " (" ++ toString applied.files.length ++
      " file(s))")).bind fun _ =>
        (clearStaged p).bind fun _ => (relaunch p.relaunch).bind fun _ => .done 0
  | .error e => (note e.display).bind fun _ => .done e.exitCode

/-- The whole command; its result is the exit code. -/
def runUpdate (request : Request) : Program Call.Answer Nat :=
  (note ("update requested: pid=" ++ toString request.pid ++ " staged=" ++ request.staged ++
    " target=" ++ request.target)).bind fun _ =>
      (plan request).run.bind fun planned =>
        match planned with
        | .ok p => (applyWith C keys p).run.bind (conclude p)
        | .error e => (note e.display).bind fun _ => .done 2

end Mbrc.Helper
