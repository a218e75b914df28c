import MbrcPlugin.Helper.Update
import MbrcPlugin.Lib.Environment
import MbrcPlugin.Updates.StagingRuns

/-!
# What an elevated process writes

The staged directory is open to every process of the user, so anything may be answered to any call
of the helper, and the same file may read differently each time.  Whatever the answers are, it
writes into the target only bytes it has read and verified against a manifest signed by a trusted
key, once MusicBee is gone, or puts back bytes it has read there (`writes_signed`).
-/

namespace Mbrc.Helper

open Interaction Updates Windows

/-- The calls of a run so far, and their answers. -/
abbrev Transcript := List (Sigma Call.Answer)

/-! ## What may be done -/

section

variable (C : Crypto) (keys : List TrustedKey) (p : Plan) (h : Transcript)

/-- A file has been read with these bytes. -/
def Read (path : AbsPath) (bytes : Bytes) : Prop := ⟨.read path, .ok bytes⟩ ∈ h

/-- The staged bytes of a listed file have been read, and hash to what is listed. -/
def Hashed (entry : FileEntry) (bytes : Bytes) : Prop :=
  Read h (p.staged.join entry.path) bytes ∧ isBareFilename entry.path = true ∧
    C.verifySha512 bytes entry.sha512 entry.path = .ok ()

/-- The staged manifest has been read, its signature is one of a trusted key, and every file it
lists is hashed. -/
structure Verified (m : Manifest) : Prop where
  signed : ∃ bytes signature text key, Read h (p.staged.join manifestAsset) bytes ∧
    Read h (p.staged.join signatureAsset) signature ∧ C.utf8 signature = .ok text ∧
    C.verifyManifestWith bytes text keys = .ok (m, key)
  hashed : ∀ entry ∈ m.files, ∃ bytes, Hashed C p h entry bytes

/-- MusicBee has been seen to be gone. -/
def Gone : Prop := ⟨.wait p.pid, true⟩ ∈ h

/-- Writes into the target are of hashed bytes, or put back what has been read there; those into the
backup are of what has been read in the target. -/
def MayWrite (m : Manifest) (path : AbsPath) (bytes : Bytes) : Prop :=
  ∃ entry ∈ m.files,
    (path = p.target.join entry.path ∧ (Hashed C p h entry bytes ∨ Read h path bytes)) ∨
    ∃ root, backupRoot p.staged = .ok root ∧ path = (root.join m.version).join entry.path ∧
      Read h (p.target.join entry.path) bytes

/-- What is removed is a backup. -/
def MayRemove (m : Manifest) (path : AbsPath) : Prop :=
  ∃ root, backupRoot p.staged = .ok root ∧
    (path = root.join m.version ∨ ∃ name, name ≠ m.version ∧ path = root.child name)

/-- What an apply may do after a transcript. -/
def Allowed : Call → Prop
  | .write path bytes => Gone p h ∧ ∃ m, Verified C keys p h m ∧ MayWrite C p h m path bytes
  | .removeDirAll path => Gone p h ∧ ∃ m, Verified C keys p h m ∧ MayRemove p m path
  | .createDirAll path => Gone p h ∧ ∃ m root, Verified C keys p h m ∧
      backupRoot p.staged = .ok root ∧ path = root.join m.version
  | .removeFile _ | .launch _ => False
  | _ => True

end

variable {C : Crypto} {keys : List TrustedKey} {p : Plan} {h t : Transcript}

/-! ## What a longer transcript shows -/

theorem Read.mono (hsub : h ⊆ t) {path : AbsPath} {bytes : Bytes} (hr : Read h path bytes) :
    Read t path bytes := hsub hr

theorem read_append {path : AbsPath} {bytes : Bytes} :
    Read (h ++ [⟨.read path, .ok bytes⟩]) path bytes := by
  simp [Read]

theorem Hashed.mono (hsub : h ⊆ t) {entry : FileEntry} {bytes : Bytes}
    (hh : Hashed C p h entry bytes) : Hashed C p t entry bytes := ⟨hh.1.mono hsub, hh.2⟩

theorem Verified.mono (hsub : h ⊆ t) {m : Manifest} (hv : Verified C keys p h m) :
    Verified C keys p t m := by
  obtain ⟨bytes, signature, text, key, hbytes, hsignature, hrest⟩ := hv.signed
  refine ⟨⟨bytes, signature, text, key, hbytes.mono hsub, hsignature.mono hsub, hrest⟩, ?_⟩
  intro entry hentry
  obtain ⟨bytes, hb⟩ := hv.hashed entry hentry
  exact ⟨bytes, hb.mono hsub⟩

/-! ## The staged bundle -/

theorem records_readFile (path : AbsPath) :
    Fallible.Records (Allowed C keys p) (fun bytes t => Read t path bytes) (readFile path) h := by
  refine Fallible.records_attempt trivial fun r bytes hr => ?_
  cases r with
  | ok a =>
    obtain rfl := Except.ok.inj hr
    exact read_append
  | error e => cases hr

theorem records_refuseReparsePoint (path : AbsPath) :
    Fallible.Records (Allowed C keys p) (fun _ _ => True) (refuseReparsePoint path) h :=
  Fallible.records_attempt trivial fun _ _ _ => trivial

theorem records_demand {c : Prop} [Decidable c] {e : Error} :
    Fallible.Records (Allowed C keys p) (fun _ _ => c) (demand c e) h := by
  refine Fallible.records_check fun _ he => ?_
  by_contra hc
  rw [if_neg hc] at he
  cases he

theorem records_verifyFile (entry : FileEntry) :
    Fallible.Records (Allowed C keys p) (fun bytes t => Hashed C p t entry bytes)
      (verifyFile C p.staged entry) h := by
  unfold verifyFile
  refine records_demand.bind fun _ t _ hbare => ?_
  refine (records_refuseReparsePoint _).bind fun _ t _ _ => ?_
  refine (records_readFile _).bind fun bytes t _ hread => ?_
  refine Fallible.Records.bind (P := fun _ u => Hashed C p u entry bytes)
    (Fallible.records_check fun _ he => ?_) fun _ u _ hu => Fallible.records_pure hu
  exact ⟨hread, hbare, ok_of_mapError he⟩

/-- A list of files that stands beside the listed ones. -/
def Listed (C : Crypto) (p : Plan) (h : Transcript) (entries : List FileEntry)
    (files : List (String × Bytes)) : Prop :=
  List.Forall₂ (fun entry file => file.1 = entry.path ∧ Hashed C p h entry file.2) entries files

theorem Listed.mono (hsub : h ⊆ t) {entries : List FileEntry} {files : List (String × Bytes)}
    (hl : Listed C p h entries files) : Listed C p t entries files :=
  List.Forall₂.imp (fun _ _ hf => ⟨hf.1, hf.2.mono hsub⟩) hl

theorem records_verifyFiles (entries : List FileEntry) :
    Fallible.Records (Allowed C keys p) (fun files t => Listed C p t entries files)
      (verifyFiles C p.staged entries) h := by
  induction entries generalizing h with
  | nil => exact Fallible.records_pure List.Forall₂.nil
  | cons entry entries ih =>
    unfold verifyFiles
    refine (records_verifyFile entry).bind fun bytes t _ hbytes => ?_
    refine ih.bind fun files u hsub hfiles => ?_
    exact Fallible.records_pure (List.Forall₂.cons ⟨rfl, hbytes.mono hsub⟩ hfiles)

/-- A bundle whose manifest is verified, with the files it lists. -/
structure Sealed (C : Crypto) (keys : List TrustedKey) (p : Plan) (h : Transcript)
    (bundle : Bundle) : Prop where
  verified : Verified C keys p h bundle.manifest
  listed : Listed C p h bundle.manifest.files bundle.files

theorem Sealed.mono (hsub : h ⊆ t) {bundle : Bundle} (hb : Sealed C keys p h bundle) :
    Sealed C keys p t bundle := ⟨hb.verified.mono hsub, hb.listed.mono hsub⟩

theorem Sealed.file {bundle : Bundle} (hb : Sealed C keys p h bundle) {file : String × Bytes}
    (hf : file ∈ bundle.files) : ∃ entry ∈ bundle.manifest.files, file.1 = entry.path ∧
      Hashed C p h entry file.2 := by
  obtain ⟨i, hi, rfl⟩ := List.getElem_of_mem hf
  have hi' : i < bundle.manifest.files.length := hb.listed.length_eq ▸ hi
  exact ⟨_, List.getElem_mem hi', hb.listed.get hi' hi⟩

theorem records_log (line : String) :
    Fallible.Records (Allowed C keys p) (fun _ _ => True) (ask (.log line)) h :=
  Fallible.records_attempt trivial fun _ _ _ => trivial

theorem records_verifyStaged :
    Fallible.Records (Allowed C keys p) (fun bundle t => Sealed C keys p t bundle)
      (verifyStaged C keys p.staged) h := by
  unfold verifyStaged
  refine (records_readFile _).bind fun bytes t _ hbytes => ?_
  refine (records_readFile _).bind fun signature u hsub hsignature => ?_
  have hbytes := hbytes.mono hsub
  refine Fallible.Records.bind (P := fun text _ => C.utf8 signature = .ok text)
    (Fallible.records_check fun _ he => ok_of_mapError he) fun text v hsub htext => ?_
  have hbytes := hbytes.mono hsub
  have hsignature := hsignature.mono hsub
  refine Fallible.Records.bind (P := fun r _ => C.verifyManifestWith bytes text keys = .ok r)
    (Fallible.records_check fun _ he => ok_of_mapError he) fun r v hsub hverified => ?_
  obtain ⟨m, key⟩ := r
  have hbytes := hbytes.mono hsub
  have hsignature := hsignature.mono hsub
  refine (records_log _).bind fun _ v hsub _ => ?_
  have hbytes := hbytes.mono hsub
  have hsignature := hsignature.mono hsub
  refine (records_verifyFiles _).bind fun files w hsub hlisted => Fallible.records_pure ?_
  refine ⟨⟨⟨bytes, signature, text, key, hbytes.mono hsub, hsignature.mono hsub, htext, hverified⟩,
    fun entry hentry => ?_⟩, hlisted⟩
  obtain ⟨i, hi, rfl⟩ := List.getElem_of_mem hentry
  exact ⟨_, (hlisted.get hi (hlisted.length_eq ▸ hi)).2⟩

/-! ## The backup -/

/-- What is kept is under the name of a listed file, and has been read in the target. -/
def Kept (p : Plan) (m : Manifest) (h : Transcript) (files : List (String × Bytes)) : Prop :=
  ∀ file ∈ files, (∃ entry ∈ m.files, file.1 = entry.path) ∧
    Read h (p.target.join file.1) file.2

theorem Kept.mono (hsub : h ⊆ t) {m : Manifest} {files : List (String × Bytes)}
    (hk : Kept p m h files) : Kept p m t files :=
  fun file hf => ⟨(hk file hf).1, (hk file hf).2.mono hsub⟩

/-- What every part of an apply is made after: the bundle is verified and MusicBee is gone. -/
structure Ready (C : Crypto) (keys : List TrustedKey) (p : Plan) (bundle : Bundle)
    (h : Transcript) : Prop where
  bundle : Sealed C keys p h bundle
  gone : Gone p h

theorem Ready.mono (hsub : h ⊆ t) {bundle : Bundle} (hr : Ready C keys p bundle h) :
    Ready C keys p bundle t := ⟨hr.bundle.mono hsub, hsub hr.gone⟩

variable {bundle : Bundle} {above : AbsPath}

theorem records_keepFile (hr : Ready C keys p bundle h) (habove : backupRoot p.staged = .ok above)
    {entry : FileEntry} (hentry : entry ∈ bundle.manifest.files) (first : Bool) :
    Fallible.Records (Allowed C keys p) (fun bytes t => Read t (p.target.join entry.path) bytes)
      (keepFile (above.join bundle.manifest.version) p.target entry.path first) h := by
  unfold keepFile
  refine (records_refuseReparsePoint _).bind fun _ t hsub _ => ?_
  have hr := hr.mono hsub
  refine (records_readFile _).bind fun bytes u hsub hread => ?_
  have hr := hr.mono hsub
  refine Fallible.Records.bind (P := fun _ _ => True) ?_ fun _ v hsub _ => ?_
  · unfold makeBackup
    split
    · refine Fallible.records_attempt ⟨hr.gone, _, above, hr.bundle.verified, habove, rfl⟩ ?_
      exact fun _ _ _ => trivial
    · exact Fallible.records_pure trivial
  have hr := hr.mono hsub
  have hread := hread.mono hsub
  refine Fallible.Records.bind (P := fun _ _ => True) ?_ fun _ w hsub _ =>
    Fallible.records_pure (hread.mono hsub)
  refine Fallible.records_attempt ⟨hr.gone, _, hr.bundle.verified, entry, hentry, .inr ?_⟩
    fun _ _ _ => trivial
  exact ⟨above, habove, rfl, hread⟩

theorem records_backUpFiles (hr : Ready C keys p bundle h)
    (habove : backupRoot p.staged = .ok above) {files kept : List (String × Bytes)}
    (hfiles : ∀ file ∈ files, ∃ entry ∈ bundle.manifest.files, file.1 = entry.path)
    (hkept : Kept p bundle.manifest h kept) :
    Fallible.Records (Allowed C keys p) (fun kept t => Kept p bundle.manifest t kept)
      (backUpFiles (above.join bundle.manifest.version) p.target files kept) h := by
  induction files generalizing h kept with
  | nil => exact Fallible.records_pure hkept
  | cons file files ih =>
    obtain ⟨name, new⟩ := file
    obtain ⟨entry, hentry, rfl⟩ : ∃ entry ∈ bundle.manifest.files, name = entry.path :=
      hfiles _ List.mem_cons_self
    have hrest := fun file hf => hfiles file (List.mem_cons_of_mem _ hf)
    unfold backUpFiles
    refine Fallible.Records.bind (P := fun _ _ => True)
      (Fallible.records_attempt trivial fun _ _ _ => trivial) fun found t hsub _ => ?_
    have hr := hr.mono hsub
    have hkept := hkept.mono hsub
    split
    · refine (records_keepFile hr habove hentry _).bind fun bytes u hsub hread => ?_
      refine ih (hr.mono hsub) hrest fun file hf => ?_
      rcases List.mem_append.mp hf with hold | hnew
      · exact hkept.mono hsub file hold
      · rw [List.mem_singleton.mp hnew]
        exact ⟨⟨entry, hentry, rfl⟩, hread⟩
    · exact ih hr hrest hkept

theorem records_backUp (hr : Ready C keys p bundle h) :
    Fallible.Records (Allowed C keys p) (fun backup t => Kept p bundle.manifest t backup.files)
      (backUp p bundle) h := by
  unfold backUp
  refine Fallible.Records.bind (P := fun above _ => backupRoot p.staged = .ok above)
    (Fallible.records_check fun _ he => he) fun above t hsub habove => ?_
  have hr := hr.mono hsub
  refine Fallible.Records.bind (P := fun _ _ => True)
    (Fallible.records_attempt trivial fun _ _ _ => trivial) fun found u hsub _ => ?_
  have hr := hr.mono hsub
  refine Fallible.Records.bind (P := fun _ _ => True) ?_ fun _ v hsub _ => ?_
  · unfold clearBackup
    split
    · refine Fallible.records_attempt ?_ fun _ _ _ => trivial
      exact ⟨hr.gone, _, hr.bundle.verified, above, habove, .inl rfl⟩
    · exact Fallible.records_pure trivial
  have hr := hr.mono hsub
  have hnames : ∀ file ∈ bundle.files, ∃ entry ∈ bundle.manifest.files, file.1 = entry.path := by
    intro file hf
    obtain ⟨entry, hentry, hname, -⟩ := hr.bundle.file hf
    exact ⟨entry, hentry, hname⟩
  have hnone : Kept p bundle.manifest v [] := fun file hf => absurd hf List.not_mem_nil
  refine (records_backUpFiles hr habove hnames hnone).bind fun files w hsub hkept => ?_
  split
  · exact Fallible.records_pure hkept
  · refine (records_log _).bind fun _ x hsub _ => Fallible.records_pure ?_
    exact hkept.mono hsub

/-! ## The swap and the way back -/

theorem records_replaceFile (hr : Ready C keys p bundle h) {file : String × Bytes}
    (hf : file ∈ bundle.files) :
    Fallible.Records (Allowed C keys p) (fun _ _ => True)
      (replaceFile p.target file.1 file.2) h := by
  unfold replaceFile
  refine Fallible.Records.bind (P := fun _ _ => True)
    (Fallible.records_attempt trivial fun _ _ _ => trivial) fun found t hsub _ => ?_
  have hr := hr.mono hsub
  refine Fallible.Records.bind (P := fun _ _ => True) ?_ fun _ u hsub _ => ?_
  · unfold refuseLink
    split
    · exact Fallible.records_attempt trivial fun _ _ _ => trivial
    · exact Fallible.records_pure trivial
  have hr := hr.mono hsub
  refine Fallible.Records.bind (P := fun _ _ => True) ?_ fun _ v _ _ =>
    Fallible.records_attempt trivial fun _ _ _ => trivial
  refine Fallible.records_attempt ⟨hr.gone, _, hr.bundle.verified, ?_⟩ fun _ _ _ => trivial
  obtain ⟨entry, hentry, hname, hhashed⟩ := hr.bundle.file hf
  exact ⟨entry, hentry, .inl ⟨by rw [hname], .inl hhashed⟩⟩

theorem records_writeAll (hr : Ready C keys p bundle h) {files : List (String × Bytes)}
    (hsub : files ⊆ bundle.files) :
    Fallible.Records (Allowed C keys p) (fun _ _ => True) (writeAll p.target files) h := by
  induction files generalizing h with
  | nil => exact Fallible.records_pure trivial
  | cons file files ih =>
    obtain ⟨hf, hrest⟩ := List.cons_subset.mp hsub
    exact (records_replaceFile hr hf).bind fun _ t ht _ => ih (hr.mono ht) hrest

theorem records_restoreFile (hr : Ready C keys p bundle h) {file : String × Bytes}
    {files : List (String × Bytes)} (hkept : Kept p bundle.manifest h files) (hf : file ∈ files) :
    (restoreFile p.target file.1 file.2).Records (Allowed C keys p) (fun _ _ => True) h := by
  obtain ⟨⟨entry, hentry, hname⟩, hread⟩ := hkept file hf
  refine Program.records_call trivial fun link => ?_
  split
  · exact Program.records_done trivial
  have hlater := List.subset_append_left h [⟨.isLink (p.target.join file.1), link⟩]
  have hr := hr.mono hlater
  refine Program.records_call ⟨hr.gone, _, hr.bundle.verified, entry, hentry, .inl ?_⟩ fun r => ?_
  · exact ⟨by rw [hname], .inr (hread.mono hlater)⟩
  · cases r with
    | ok u => exact Program.records_done trivial
    | error e =>
      refine Program.records_call trivial fun r => ?_
      exact Program.records_done trivial

theorem records_restoreFiles (hr : Ready C keys p bundle h) {files rest : List (String × Bytes)}
    (hkept : Kept p bundle.manifest h files) (hsub : rest ⊆ files) :
    (restoreFiles p.target rest).Records (Allowed C keys p) (fun _ _ => True) h := by
  induction rest generalizing h with
  | nil => exact Program.records_done trivial
  | cons file rest ih =>
    obtain ⟨hf, hrest⟩ := List.cons_subset.mp hsub
    refine (records_restoreFile hr hkept hf).bind fun failure t ht _ => ?_
    refine (ih (hr.mono ht) (hkept.mono ht) hrest).bind fun failures u _ _ => ?_
    exact Program.records_done trivial

theorem records_restore (hr : Ready C keys p bundle h) {backup : Backup}
    (hkept : Kept p bundle.manifest h backup.files) (cause : String) :
    (restore backup p.target cause).Records (Allowed C keys p) (fun _ _ => True) h := by
  unfold restore
  split
  · exact Program.records_done trivial
  · exact (records_restoreFiles hr hkept (List.Subset.refl _)).bind fun _ _ _ _ =>
      Program.records_done trivial

theorem records_removeQuietly (hr : Ready C keys p bundle h) {path : AbsPath}
    (hpath : MayRemove p bundle.manifest path) :
    (removeQuietly path).Records (Allowed C keys p) (fun _ _ => True) h := by
  refine Program.records_call ⟨hr.gone, _, hr.bundle.verified, hpath⟩ fun r => ?_
  cases r with
  | ok u => exact Program.records_done trivial
  | error e => exact Program.records_call trivial fun _ => Program.records_done trivial

theorem records_pruneEntries (hr : Ready C keys p bundle h)
    (habove : backupRoot p.staged = .ok above) (names : List String) :
    (pruneEntries above bundle.manifest.version names).Records (Allowed C keys p)
      (fun _ _ => True) h := by
  induction names generalizing h with
  | nil => exact Program.records_done trivial
  | cons name names ih =>
    unfold pruneEntries
    split
    · exact ih hr
    · rename_i hother
      refine Program.records_call trivial fun dir => ?_
      have hr := hr.mono (List.subset_append_left h [⟨.isDir (above.child name), dir⟩])
      refine Program.Records.bind (P := fun _ _ => True) ?_ fun _ t hsub _ => ih (hr.mono hsub)
      split
      · exact records_removeQuietly hr ⟨above, habove, .inr ⟨name, hother, rfl⟩⟩
      · exact Program.records_done trivial

theorem records_finish (hr : Ready C keys p bundle h) {backup : Backup}
    (hkept : Kept p bundle.manifest h backup.files) (r : Except String Unit) :
    (finish p bundle backup r).Records (Allowed C keys p) (fun _ _ => True) h := by
  cases r with
  | ok u =>
    refine Program.Records.bind (P := fun _ _ => True) ?_ fun _ _ _ _ =>
      Program.records_done trivial
    unfold pruneBackups
    split
    · exact Program.records_done trivial
    · rename_i above habove
      refine Program.records_call trivial fun names => ?_
      exact records_pruneEntries (hr.mono (List.subset_append_left h _)) habove _
  | error cause =>
    exact (records_restore hr hkept cause).bind fun _ _ _ _ => Program.records_done trivial

/-! ## The apply -/

theorem records_applyWith :
    Fallible.Records (Allowed C keys p) (fun _ _ => True) (applyWith C keys p) [] := by
  unfold applyWith
  refine records_verifyStaged.bind fun bundle t _ hsealed => ?_
  refine Fallible.Records.bind (P := fun gone u => gone = true → Gone p u) ?_
    fun gone u hsub hgone => ?_
  · refine Fallible.records_attempt trivial fun r gone hr => ?_
    obtain rfl := Except.ok.inj hr
    rintro rfl
    simp [Gone]
  have hsealed := hsealed.mono hsub
  refine records_demand.bind fun _ v hsub hwaited => ?_
  have hr : Ready C keys p bundle v := ⟨hsealed.mono hsub, hsub (hgone hwaited)⟩
  refine (records_backUp hr).bind fun backup w hsub hkept => ?_
  have hr := hr.mono hsub
  have hswap := Fallible.records_run.mpr (records_writeAll hr (List.Subset.refl _))
  refine Fallible.records_run.mp (hswap.bind fun r x hsub _ => ?_)
  exact (records_finish (hr.mono hsub) (hkept.mono hsub) r).mono fun _ _ _ _ _ => trivial

/-- **Only signed bytes are written**, and what was read is put back, whatever is answered to the
calls of an apply. -/
theorem writes_signed {calls : List (Transcript × Call)} {r : Except Error Applied}
    (hrun : (applyWith C keys p).run.Runs recorded [] calls r t) :
    ∀ call ∈ calls, Allowed C keys p call.1 call.2 :=
  (Program.Records.run (Fallible.records_run.mpr records_applyWith) hrun).1

/-! ## An apply of one file -/

/-- The release of one file, staged beside MusicBee's plugins. -/
def secondPlan : Plan where
  pid := 42
  staged := { root := "\\\\?\\C:\\", names := ["mb_remote", "updates", "2.0.0"] }
  target := { root := "\\\\?\\C:\\", names := ["MusicBee", "Plugins"] }
  relaunch := .packaged "MusicBee!App"

/-- The bytes of a file of the staged directory, and of the target. -/
def secondFile (p : AbsPath) : Bytes :=
  if p.names.getLast? = some manifestAsset then [1, 2]
  else if p.names.getLast? = some signatureAsset then Text.bytes "untrusted comment"
  else if p.startsWith secondPlan.staged then [77, 90]
  else [0]

/-- MusicBee is gone, the file is there, and everything works. -/
def secondReply : (i : Call) → Call.Answer i
  | .read p => .ok (secondFile p)
  | .write _ _ | .createDirAll _ | .removeDirAll _ | .removeFile _ | .launch _ => .ok ()
  | .exists _ | .isDir _ | .isFile _ | .wait _ => true
  | .isLink _ | .runningFrom _ => false
  | .canonicalize p => .ok p
  | .readDir _ => some ["1.0.0", "2.0.0"]
  | .log _ => ()

def secondAnswer (h : Transcript) (i : Call) : Call.Answer i × Transcript :=
  (secondReply i, h ++ [⟨i, secondReply i⟩])

theorem writes_signed_second :
    ∃ h, Allowed secondStager.crypto secondStager.keys secondPlan h
      (.write (secondPlan.target.child "mb_remote.dll") [77, 90]) := by
  have hall : ∀ h c, recorded h c (secondAnswer h c).1 (secondAnswer h c).2 := fun _ _ => rfl
  have hrun := Program.runs_trace hall
    (applyWith secondStager.crypto secondStager.keys secondPlan).run []
  have hcall : ((applyWith secondStager.crypto secondStager.keys secondPlan).run.trace
      secondAnswer []).any (fun call => match call.2 with
        | .write path bytes => path = secondPlan.target.child "mb_remote.dll" && bytes = [77, 90]
        | _ => false) = true := by
    decide +kernel
  obtain ⟨⟨h, call⟩, hmem, hwrite⟩ := List.any_eq_true.mp hcall
  have hallowed := writes_signed hrun _ hmem
  cases call with
  | write path bytes =>
    obtain ⟨rfl, rfl⟩ : path = secondPlan.target.child "mb_remote.dll" ∧ bytes = [77, 90] := by
      simpa using hwrite
    exact ⟨h, hallowed⟩
  | _ => cases hwrite

end Mbrc.Helper
