import MbrcPlugin.Helper.SignedWrites

/-!
# The exit codes tell the truth

The state is what the target directory holds.  Any call may fail, and a write that fails may leave
anything under its name; reads and existence checks find what is there, and nobody else writes into
the target.  Code 0 means that every listed file holds verified bytes, 1, 2, 5 and 6 that nothing is
changed, 7 that every file that was there holds what it held, and whatever the code is, only listed
files change (`exit_code_told`).
-/

namespace Mbrc.Helper

open Interaction Updates Windows

/-! ## The target -/

/-- What a directory holds under each name, as the file system knows it. -/
abbrev Dir := String → Option Bytes

/-- The target directory, how the file system compares names and where a path leads. -/
structure Site where
  target : AbsPath
  fold : String → String
  resolve : AbsPath → AbsPath

namespace Site

variable (P : Site)

def folded (p : AbsPath) : AbsPath := { root := P.fold p.root, names := p.names.map P.fold }

/-- The name in the target that a path leads to. -/
def entry (p : AbsPath) : Option String :=
  if p.parent.map P.folded = some (P.folded P.target) then p.names.getLast?.map P.fold else none

/-- The target is this directory or below it. -/
def Within (p : AbsPath) : Prop := (P.folded P.target).startsWith (P.folded p) = true

/-- What may be answered to a call, and what the target holds then. -/
def environment : Environment Call.Answer Dir := fun s i r t =>
  match i, r with
  | .read p, r => t = s ∧ ∀ n bytes, P.entry p = some n → r = .ok bytes → s n = some bytes
  | .exists p, r => t = s ∧ ∀ n, P.entry p = some n → (r = true ↔ (s n).isSome)
  | .write p bytes, r =>
    match P.entry p with
    | some n => (∀ m, m ≠ n → t m = s m) ∧ (r = .ok () → t n = some bytes)
    | none => t = s
  | .removeDirAll p, _ => ¬ P.Within p → P.entry p = none → t = s
  | .removeFile p, _ => P.entry p = none → t = s
  | .canonicalize p, r => t = s ∧ ∀ q, r = .ok q → q = P.resolve p
  | _, _ => t = s

/-- The target lies apart from the directories of the update. -/
structure Apart (staged : AbsPath) : Prop where
  bundle : ¬ P.Within staged
  updates : ∀ u, staged.parent = some u → ¬ P.Within u
  backup : ∀ root, backupRoot staged = .ok root → ¬ P.Within root

/-! ### Where paths lead -/

variable {P}

theorem parent_child (p : AbsPath) (name : String) : (p.child name).parent = some p := by
  simp [AbsPath.child, AbsPath.parent]

theorem entry_target (name : String) : P.entry (P.target.child name) = some (P.fold name) := by
  rw [entry, parent_child, Option.map_some, if_pos rfl]
  simp [AbsPath.child]

theorem within_of_folded {p : AbsPath} (h : P.folded p = P.folded P.target) : P.Within p := by
  rw [Within, h]
  simp [AbsPath.startsWith]

theorem entry_eq_none {p : AbsPath} (h : ∀ u, p.parent = some u → ¬ P.Within u) :
    P.entry p = none := by
  rw [entry, if_neg]
  rw [Option.map_eq_some_iff]
  rintro ⟨u, hu, hfolded⟩
  exact h u hu (within_of_folded hfolded)

theorem entry_child {p : AbsPath} (h : ¬ P.Within p) (name : String) :
    P.entry (p.child name) = none := by
  refine entry_eq_none fun u hu => ?_
  rw [parent_child] at hu
  rwa [← Option.some.inj hu]

theorem within_child {p : AbsPath} (h : ¬ P.Within p) (name : String) :
    ¬ P.Within (p.child name) := by
  intro hchild
  apply h
  simp only [Within, AbsPath.startsWith, Bool.and_eq_true, decide_eq_true_eq,
    List.isPrefixOf_iff_prefix] at hchild ⊢
  refine ⟨hchild.1, List.IsPrefix.trans ?_ hchild.2⟩
  simp [folded, AbsPath.child]

end Site

/-- A bare file name is one name of a path. -/
theorem plain_of_bare {name : String} (h : isBareFilename name = true) : Plain name := by
  have hname (s : String) (hs : name.toList ≠ s.toList) : name ≠ s := fun he => hs (he ▸ rfl)
  simp only [isBareFilename, Bool.or_eq_true, decide_eq_true_eq] at h
  split at h
  · cases h
  rename_i hdots
  rw [not_or, not_or] at hdots
  split at h
  · cases h
  split at h
  · cases h
  rename_i hsafe
  refine ⟨hname "" hdots.1.1, hname "." hdots.1.2, hname ".." hdots.2, fun c hc => ?_⟩
  have hunsafe : ¬ isUnsafe c := fun hu => hsafe (List.any_eq_true.mpr ⟨c, hc, hu⟩)
  simp only [isUnsafe, Bool.or_eq_true, decide_eq_true_eq, not_or, List.mem_cons] at hunsafe
  obtain ⟨⟨hslash, hback, hcolon, -⟩, -⟩ := hunsafe
  exact ⟨by simp [isSep, hslash, hback], hcolon⟩

/-! ## What an apply comes to -/

section

variable (C : Crypto) (keys : List TrustedKey) (P : Site)

/-- A trusted key has signed the manifest. -/
def Signed (m : Manifest) : Prop :=
  ∃ bytes signature key, C.verifyManifestWith bytes signature keys = .ok (m, key)

def Names (files : List (String × Bytes)) (n : String) : Prop := ∃ file ∈ files, P.fold file.1 = n

/-- A name the manifest lists. -/
def Lists (m : Manifest) (n : String) : Prop := ∃ entry ∈ m.files, P.fold entry.path = n

/-- Every listed file holds bytes that hash to what is listed. -/
def Installed (m : Manifest) (t : Dir) : Prop :=
  ∀ entry ∈ m.files, ∃ bytes, t (P.fold entry.path) = some bytes ∧
    C.verifySha512 bytes entry.sha512 entry.path = .ok ()

/-- What an exit code says of the target. -/
structure Told (s : Dir) (code : Nat) (t : Dir) : Prop where
  codes : code ∈ [0, 1, 2, 5, 6, 7, 8]
  applied : code = 0 → ∃ m, Signed C keys m ∧ Installed C P m t
  unchanged : code ∈ [1, 2, 5, 6] → t = s
  restored : code = 7 → ∀ n, (s n).isSome → t n = s n
  listed : ∀ n, t n ≠ s n → ∃ m, Signed C keys m ∧ Lists P m n

/-- The request stands for this target, apart from the directories of the update, and what is
signed is meant for a file system that compares names like this. -/
structure Site.Fits (request : Request) : Prop where
  target : ∀ a, AbsPath.absolute request.target = some a → P.resolve a = P.target
  apart : ∀ a, AbsPath.absolute request.staged = some a → P.Apart (P.resolve a)
  released : ∀ m, Signed C keys m →
    Plain m.version ∧ (m.files.map fun f => P.fold f.path).Nodup

end

variable {C : Crypto} {keys : List TrustedKey} {P : Site} {s s₀ : Dir}

/-! ## What leaves the target as it is -/

theorem leaves_ask (i : Call) (h : ∀ r t, P.environment s i r t → t = s) :
    Fallible.Leaves P.environment (fun _ => True) (ask i) s :=
  Fallible.leaves_attempt fun r t ht => ⟨h r t ht, fun _ _ => trivial⟩

theorem leaves_log (line : String) :
    Fallible.Leaves P.environment (fun _ => True) (ask (.log line)) s :=
  leaves_ask _ fun _ _ h => h

theorem leaves_demand {c : Prop} [Decidable c] {e : Error} :
    Fallible.Leaves P.environment (fun _ => c) (demand c e) s := by
  refine Fallible.leaves_check fun _ he => ?_
  by_contra hc
  rw [if_neg hc] at he
  cases he

theorem leaves_refuseReparsePoint (path : AbsPath) :
    Fallible.Leaves P.environment (fun _ => True) (refuseReparsePoint path) s :=
  Fallible.leaves_attempt fun _ _ h => ⟨h, fun _ _ => trivial⟩

theorem leaves_readFile (path : AbsPath) :
    Fallible.Leaves P.environment (fun bytes => ∀ n, P.entry path = some n → s n = some bytes)
      (readFile path) s :=
  Fallible.leaves_attempt fun _ _ h => ⟨h.1, fun _ hr n hn => h.2 n _ hn (ok_of_mapError hr)⟩

/-! ### The paths of a request -/

theorem leaves_checkedPath (raw flag : String) :
    Fallible.Leaves P.environment (fun q => ∃ a, AbsPath.absolute raw = some a ∧ q = P.resolve a)
      (checkedPath raw flag) s := by
  unfold checkedPath
  refine leaves_demand.bind fun _ _ => ?_
  refine Fallible.Leaves.bind (P := fun a => AbsPath.absolute raw = some a)
    (Fallible.leaves_check fun a ha => ?_) fun a ha => ?_
  · cases hraw : AbsPath.absolute raw with
    | none =>
      rw [hraw] at ha
      cases ha
    | some b =>
      rw [hraw] at ha
      rw [Except.ok.inj ha]
  refine leaves_demand.bind fun _ _ => ?_
  refine (leaves_refuseReparsePoint a).bind fun _ _ => ?_
  exact Fallible.leaves_attempt fun _ _ h => ⟨h.1, fun q hq => ⟨a, ha, h.2 q (ok_of_mapError hq)⟩⟩

theorem leaves_checkedDir (raw flag : String) :
    Fallible.Leaves P.environment (fun q => ∃ a, AbsPath.absolute raw = some a ∧ q = P.resolve a)
      (checkedDir raw flag) s := by
  unfold checkedDir
  refine (leaves_checkedPath raw flag).bind fun path hpath => ?_
  refine (leaves_ask (.isDir path) fun _ _ h => h).bind fun _ _ => ?_
  exact leaves_demand.bind fun _ _ => Fallible.leaves_pure hpath

theorem leaves_relaunchOf (request : Request) :
    Fallible.Leaves P.environment (fun _ => True) (relaunchOf request) s := by
  unfold relaunchOf
  split
  · exact Fallible.leaves_check fun _ _ => trivial
  · unfold checkedFile
    refine Fallible.Leaves.bind (P := fun _ => True) ?_ fun _ _ => Fallible.leaves_pure trivial
    refine (leaves_checkedPath request.relaunch _).bind fun path _ => ?_
    refine (leaves_ask (.isFile path) fun _ _ h => h).bind fun _ _ => ?_
    exact leaves_demand.bind fun _ _ => Fallible.leaves_pure trivial

/-- A plan that stands for the target. -/
structure Placed (P : Site) (p : Plan) : Prop where
  target : p.target = P.target
  apart : P.Apart p.staged

theorem leaves_plan {request : Request} (h : P.Fits C keys request) :
    Fallible.Leaves P.environment (Placed P) (plan request) s := by
  unfold plan
  refine (leaves_checkedDir request.staged _).bind fun staged ⟨a, ha, hstaged⟩ => ?_
  refine (leaves_checkedDir request.target _).bind fun target ⟨b, hb, htarget⟩ => ?_
  refine (leaves_relaunchOf request).bind fun _ _ => ?_
  refine leaves_demand.bind fun _ _ => leaves_demand.bind fun _ _ => Fallible.leaves_pure ?_
  exact ⟨htarget.trans (h.target b hb), hstaged ▸ h.apart a ha⟩

/-! ### The staged bundle -/

/-- A bundle of a signed manifest, with a verified file for each one it lists. -/
structure Genuine (C : Crypto) (keys : List TrustedKey) (bundle : Bundle) : Prop where
  signed : Signed C keys bundle.manifest
  files : List.Forall₂ (fun entry file => file.1 = entry.path ∧ isBareFilename entry.path = true ∧
    C.verifySha512 file.2 entry.sha512 entry.path = .ok ()) bundle.manifest.files bundle.files

theorem leaves_verifyFiles (staged : AbsPath) (entries : List FileEntry) :
    Fallible.Leaves P.environment (fun files => List.Forall₂ (fun entry file =>
      file.1 = entry.path ∧ isBareFilename entry.path = true ∧
        C.verifySha512 file.2 entry.sha512 entry.path = .ok ()) entries files)
      (verifyFiles C staged entries) s := by
  induction entries with
  | nil => exact Fallible.leaves_pure List.Forall₂.nil
  | cons entry entries ih =>
    unfold verifyFiles
    refine Fallible.Leaves.bind (P := fun bytes => isBareFilename entry.path = true ∧
      C.verifySha512 bytes entry.sha512 entry.path = .ok ()) ?_ fun bytes hbytes => ?_
    · unfold verifyFile
      refine leaves_demand.bind fun _ hbare => ?_
      refine (leaves_refuseReparsePoint _).bind fun _ _ => ?_
      refine (leaves_readFile _).bind fun bytes _ => ?_
      refine Fallible.Leaves.bind
        (P := fun _ => C.verifySha512 bytes entry.sha512 entry.path = .ok ())
        (Fallible.leaves_check fun _ he => ok_of_mapError he) fun _ hhash => ?_
      exact Fallible.leaves_pure ⟨hbare, hhash⟩
    · exact ih.bind fun files hfiles =>
        Fallible.leaves_pure (List.Forall₂.cons ⟨rfl, hbytes⟩ hfiles)

theorem leaves_verifyStaged (staged : AbsPath) :
    Fallible.Leaves P.environment (Genuine C keys) (verifyStaged C keys staged) s := by
  unfold verifyStaged
  refine (leaves_readFile _).bind fun bytes _ => (leaves_readFile _).bind fun signature _ => ?_
  refine Fallible.Leaves.bind (P := fun _ => True) (Fallible.leaves_check fun _ _ => trivial)
    fun text _ => ?_
  refine Fallible.Leaves.bind (P := fun r => C.verifyManifestWith bytes text keys = .ok r)
    (Fallible.leaves_check fun _ he => ok_of_mapError he) fun r hr => ?_
  obtain ⟨m, key⟩ := r
  refine (leaves_log _).bind fun _ _ => ?_
  refine (leaves_verifyFiles _ _).bind fun files hfiles => ?_
  exact Fallible.leaves_pure ⟨⟨bytes, text, key, hr⟩, hfiles⟩

/-! ### The backup -/

theorem Genuine.name {bundle : Bundle} (hb : Genuine C keys bundle) {file : String × Bytes}
    (hf : file ∈ bundle.files) : isBareFilename file.1 = true ∧ Lists P bundle.manifest
      (P.fold file.1) := by
  obtain ⟨i, hi, rfl⟩ := List.getElem_of_mem hf
  have hi' : i < bundle.manifest.files.length := hb.files.length_eq ▸ hi
  obtain ⟨hname, hbare, -⟩ := hb.files.get hi' hi
  rw [List.get_eq_getElem, List.get_eq_getElem] at hname
  exact ⟨hname ▸ hbare, _, List.getElem_mem hi', by rw [hname]⟩

theorem leaves_call {α : Type} {Q : α → Prop} {i : Call} {read : i.Answer → Except Error α}
    (h : ∀ r t, P.environment s i r t → t = s) (hQ : ∀ a, Q a) :
    Fallible.Leaves P.environment Q (Fallible.attempt i read) s :=
  Fallible.leaves_attempt fun r t ht => ⟨h r t ht, fun a _ => hQ a⟩

/-- A file of the backup is none of the target. -/
theorem write_elsewhere {p : AbsPath} (hp : ¬ P.Within p) {name : String} (hname : Plain name)
    {bytes : Bytes} {r : Except String Unit} {t : Dir}
    (h : P.environment s (.write (p.join name) bytes) r t) : t = s := by
  rw [p.join_plain hname] at h
  simpa only [Site.environment, Site.entry_child hp] using h

theorem leaves_keepFile {p : Plan} (hp : Placed P p) {root : AbsPath} (hroot : ¬ P.Within root)
    {name : String} (hname : Plain name) (first : Bool) :
    Fallible.Leaves P.environment (fun bytes => s (P.fold name) = some bytes)
      (keepFile root p.target name first) s := by
  unfold keepFile
  refine (leaves_refuseReparsePoint _).bind fun _ _ => ?_
  refine (leaves_readFile _).bind fun bytes hbytes => ?_
  refine Fallible.Leaves.bind (P := fun _ => True) ?_ fun _ _ => ?_
  · unfold makeBackup
    split
    · exact leaves_call (fun _ _ h => h) fun _ => trivial
    · exact Fallible.leaves_pure trivial
  refine Fallible.Leaves.bind (P := fun _ => True) (leaves_call ?_ fun _ => trivial) fun _ _ => ?_
  · exact fun r t h => write_elsewhere hroot hname h
  · refine Fallible.leaves_pure (hbytes _ ?_)
    rw [hp.target, AbsPath.join_plain _ hname, Site.entry_target]

theorem names_cons {file : String × Bytes} {files : List (String × Bytes)} {n : String} :
    Names P (file :: files) n ↔ P.fold file.1 = n ∨ Names P files n := by
  simp [Names]

/-- What is kept is what the target holds. -/
def Copied (P : Site) (s : Dir) (kept : List (String × Bytes)) : Prop :=
  ∀ file ∈ kept, s (P.fold file.1) = some file.2

theorem leaves_backUpFiles {p : Plan} (hp : Placed P p) {root : AbsPath} (hroot : ¬ P.Within root)
    {files kept : List (String × Bytes)} (hfiles : ∀ file ∈ files, Plain file.1)
    (hkept : Copied P s kept) :
    Fallible.Leaves P.environment (fun all => Copied P s all ∧
        (∀ file ∈ all, file ∈ kept ∨ ∃ new ∈ files, new.1 = file.1) ∧
        ∀ n, Names P kept n ∨ Names P files n → (s n).isSome → Names P all n)
      (backUpFiles root p.target files kept) s := by
  induction files generalizing kept with
  | nil =>
    refine Fallible.leaves_pure ⟨hkept, fun file hf => .inl hf, fun n hn _ => ?_⟩
    rcases hn with hn | ⟨file, hf, -⟩
    · exact hn
    · cases hf
  | cons file files ih =>
    obtain ⟨name, new⟩ := file
    have hname := hfiles (name, new) List.mem_cons_self
    have hrest := fun file hf => hfiles file (List.mem_cons_of_mem _ hf)
    have hcons (n : String) :
        Names P ((name, new) :: files) n ↔ P.fold name = n ∨ Names P files n := names_cons
    unfold backUpFiles
    refine Fallible.Leaves.bind (P := fun found => found = true ↔ (s (P.fold name)).isSome)
      (Fallible.leaves_attempt fun r t h => ⟨h.1, fun found hfound => ?_⟩) fun found hfound => ?_
    · rw [← Except.ok.inj hfound]
      refine h.2 _ ?_
      rw [hp.target, AbsPath.join_plain _ hname, Site.entry_target]
    split
    · refine (leaves_keepFile hp hroot hname _).bind fun bytes hbytes => ?_
      have hsnoc (n : String) :
          Names P (kept ++ [(name, bytes)]) n ↔ Names P kept n ∨ P.fold name = n := by
        simp [Names, or_and_right, exists_or]
      have hmore : Copied P s (kept ++ [(name, bytes)]) := by
        intro file hf
        rcases List.mem_append.mp hf with hf | hf
        · exact hkept file hf
        · rw [List.mem_singleton.mp hf]
          exact hbytes
      refine (ih hrest hmore).mono fun all hrun => ?_
      obtain ⟨hall, hfrom, hto⟩ := hrun
      refine ⟨hall, fun file hf => ?_, ?_⟩
      · rcases hfrom file hf with hf | ⟨new, hnew, he⟩
        · refine (List.mem_append.mp hf).imp_right fun hf => ?_
          exact ⟨(name, new), List.mem_cons_self, by rw [List.mem_singleton.mp hf]⟩
        · exact .inr ⟨new, List.mem_cons_of_mem _ hnew, he⟩
      · intro n hn
        refine hto n ?_
        rwa [hsnoc, or_assoc, ← hcons]
    · rename_i hnone
      have hmissing : ¬ (s (P.fold name)).isSome := fun h => hnone (hfound.mpr h)
      refine (ih hrest hkept).mono fun all hrun => ?_
      obtain ⟨hall, hfrom, hto⟩ := hrun
      refine ⟨hall, fun file hf => ?_, ?_⟩
      · rcases hfrom file hf with hf | ⟨new, hnew, he⟩
        · exact .inl hf
        · exact .inr ⟨new, List.mem_cons_of_mem _ hnew, he⟩
      · intro n hn hs
        rcases hn with hn | hn
        · exact hto n (.inl hn) hs
        rcases (hcons n).mp hn with rfl | hn
        · exact absurd hs hmissing
        · exact hto n (.inr hn) hs

/-- A backup of every listed file that is there. -/
structure Saves (P : Site) (s : Dir) (bundle : Bundle) (backup : Backup) : Prop where
  copied : Copied P s backup.files
  listed : ∀ file ∈ backup.files, ∃ new ∈ bundle.files, new.1 = file.1
  complete : ∀ n, Names P bundle.files n → (s n).isSome → Names P backup.files n

theorem Saves.names {bundle : Bundle} {backup : Backup} (h : Saves P s bundle backup) {n : String}
    (hn : Names P backup.files n) : Names P bundle.files n := by
  obtain ⟨file, hf, rfl⟩ := hn
  obtain ⟨new, hnew, he⟩ := h.listed file hf
  exact ⟨new, hnew, by rw [he]⟩

/-- The backup of a version is a directory below the root of the backups. -/
theorem backup_elsewhere {p : Plan} (hp : Placed P p) {above : AbsPath}
    (habove : backupRoot p.staged = .ok above) {version : String} (hversion : Plain version) :
    ¬ P.Within (above.join version) := by
  rw [above.join_plain hversion]
  exact Site.within_child (hp.apart.backup above habove) version

theorem leaves_backUp (hsigned : ∀ m, Signed C keys m → Plain m.version) {p : Plan}
    (hp : Placed P p) {bundle : Bundle} (hb : Genuine C keys bundle) :
    Fallible.Leaves P.environment (Saves P s bundle) (backUp p bundle) s := by
  unfold backUp
  refine Fallible.Leaves.bind (P := fun above => backupRoot p.staged = .ok above)
    (Fallible.leaves_check fun _ he => he) fun above habove => ?_
  have hversion := hsigned _ hb.signed
  have hroot := backup_elsewhere hp habove hversion
  have hentry : P.entry (above.join bundle.manifest.version) = none := by
    rw [above.join_plain hversion]
    exact Site.entry_child (hp.apart.backup above habove) _
  refine Fallible.Leaves.bind (P := fun _ => True)
    (Fallible.leaves_attempt fun r t h => ⟨h.1, fun _ _ => trivial⟩) fun found _ => ?_
  refine Fallible.Leaves.bind (P := fun _ => True) ?_ fun _ _ => ?_
  · unfold clearBackup
    split
    · exact leaves_call (fun r t h => h hroot hentry) fun _ => trivial
    · exact Fallible.leaves_pure trivial
  have hplain : ∀ file ∈ bundle.files, Plain file.1 := fun file hf =>
    plain_of_bare (hb.name (P := P) hf).1
  have hnone : Copied P s [] := fun file hf => absurd hf List.not_mem_nil
  refine (leaves_backUpFiles hp hroot hplain hnone).bind fun files ⟨hcopied, hfrom, hto⟩ => ?_
  have hsaves (dir : Option AbsPath) : Saves P s bundle { dir, files } := by
    refine ⟨hcopied, fun file hf => ?_, fun n hn => hto n (.inr hn)⟩
    rcases hfrom file hf with hf | hf
    · cases hf
    · exact hf
  split
  · exact Fallible.leaves_pure (hsaves none)
  · exact (leaves_log _).bind fun _ _ => Fallible.leaves_pure (hsaves _)

/-! ## The swap -/

/-- Outside these names the two directories hold the same. -/
def SameBut (P : Site) (files : List (String × Bytes)) (s t : Dir) : Prop :=
  ∀ n, ¬ Names P files n → t n = s n

/-- A write into the target. -/
theorem write_target {target : AbsPath} (htarget : target = P.target) {name : String}
    (hname : Plain name) {bytes : Bytes} {r : Except String Unit} {t : Dir}
    (h : P.environment s (.write (target.join name) bytes) r t) :
    (∀ m, m ≠ P.fold name → t m = s m) ∧ (r = .ok () → t (P.fold name) = some bytes) := by
  rw [htarget, AbsPath.join_plain _ hname] at h
  simpa only [Site.environment, Site.entry_target] using h

theorem obeys_replaceFile {target : AbsPath} (htarget : target = P.target) {name : String}
    (hname : Plain name) (bytes : Bytes) :
    Fallible.Obeys P.environment (fun _ _ => True) (fun r t => (∀ m, m ≠ P.fold name → t m = s m) ∧
      (r = .ok () → t (P.fold name) = some bytes)) (replaceFile target name bytes) s := by
  unfold replaceFile
  have herr (e : String) : (∀ m, m ≠ P.fold name → s m = s m) ∧
      ((Except.error e : Except String Unit) = .ok () → s (P.fold name) = some bytes) :=
    ⟨fun _ _ => rfl, fun he => by cases he⟩
  refine Fallible.Leaves.obeys (P := fun _ => True)
    (Fallible.leaves_attempt fun r t h => ⟨h.1, fun _ _ => trivial⟩) (fun found _ => ?_) herr
  refine Fallible.Leaves.obeys (P := fun _ => True) ?_ (fun _ _ => ?_) herr
  · unfold refuseLink
    split
    · exact Fallible.leaves_attempt fun r t h => ⟨h, fun _ _ => trivial⟩
    · exact Fallible.leaves_pure trivial
  refine Fallible.Obeys.bind (Fallible.obeys_attempt.mpr ⟨trivial, fun r t h => ?_⟩)
  obtain ⟨hother, hdone⟩ := write_target htarget hname h
  cases r with
  | ok u =>
    refine Fallible.obeys_attempt.mpr ⟨trivial, fun r t' h => ?_⟩
    obtain rfl : t' = t := h
    exact ⟨hother, fun _ => hdone rfl⟩
  | error e => exact ⟨hother, fun he => by cases he⟩

theorem obeys_writeAll {target : AbsPath} (htarget : target = P.target)
    {files : List (String × Bytes)} (hfiles : ∀ file ∈ files, Plain file.1)
    (hnodup : (files.map fun file => P.fold file.1).Nodup) :
    Fallible.Obeys P.environment (fun _ _ => True) (fun r t => SameBut P files s t ∧
      (r = .ok () → Copied P t files)) (writeAll target files) s := by
  induction files generalizing s with
  | nil =>
    exact Fallible.obeys_pure.mpr ⟨fun _ _ => rfl, fun _ file hf => absurd hf List.not_mem_nil⟩
  | cons file files ih =>
    obtain ⟨name, bytes⟩ := file
    have hname := hfiles (name, bytes) List.mem_cons_self
    have hrest := fun file hf => hfiles file (List.mem_cons_of_mem _ hf)
    obtain ⟨hfirst, hnodup⟩ := List.nodup_cons.mp hnodup
    unfold writeAll
    refine Fallible.Obeys.bind
      ((obeys_replaceFile htarget hname bytes).mono fun r t ⟨hother, hdone⟩ => ?_)
    cases r with
    | error e =>
      refine ⟨fun n hn => hother n fun he => hn (names_cons.mpr (.inl he.symm)), fun he => ?_⟩
      cases he
    | ok u =>
      refine (ih hrest hnodup).mono fun r t' ⟨hsame, hcopied⟩ => ⟨fun n hn => ?_, fun hr => ?_⟩
      · rw [names_cons, not_or] at hn
        rw [hsame n hn.2, hother n (Ne.symm hn.1)]
      · intro file hf
        rcases List.mem_cons.mp hf with rfl | hf
        · rw [hsame (P.fold name) ?_, hdone rfl]
          rintro ⟨file, hf, he⟩
          exact hfirst (List.mem_map.mpr ⟨file, hf, he⟩)
        · exact hcopied hr file hf

/-! ## The way back -/

theorem obeys_restoreFile {target : AbsPath} (htarget : target = P.target) {name : String}
    (hname : Plain name) {bytes : Bytes} (hold : s₀ (P.fold name) = some bytes) :
    (restoreFile target name bytes).Obeys P.environment (fun _ _ => True) (fun failure t =>
      (∀ m, m ≠ P.fold name → t m = s m) ∧
        (failure = none → t (P.fold name) = s₀ (P.fold name))) s := by
  refine Program.obeys_call.mpr ⟨trivial, fun link t h => ?_⟩
  obtain rfl : t = s := h
  split
  · exact Program.obeys_done.mpr ⟨fun _ _ => rfl, fun he => by cases he⟩
  refine Program.obeys_call.mpr ⟨trivial, fun r t h => ?_⟩
  obtain ⟨hother, hdone⟩ := write_target htarget hname h
  cases r with
  | ok u => exact Program.obeys_done.mpr ⟨hother, fun _ => (hdone rfl).trans hold.symm⟩
  | error e =>
    -- The write may have failed after it wrote everything.
    refine Program.obeys_call.mpr ⟨trivial, fun r t' h => ?_⟩
    obtain ⟨rfl, hread⟩ : t' = t ∧ ∀ n bytes, P.entry (target.join name) = some n →
      r = .ok bytes → t n = some bytes := h
    refine Program.obeys_done.mpr ⟨hother, fun hnone => ?_⟩
    cases r with
    | error e => cases hnone
    | ok current =>
      by_cases hsame : current = bytes
      · rw [hold, ← hsame]
        refine hread _ current ?_ rfl
        rw [htarget, AbsPath.join_plain _ hname, Site.entry_target]
      · simp [hsame] at hnone

theorem obeys_restoreFiles {target : AbsPath} (htarget : target = P.target)
    {kept : List (String × Bytes)} (hkept : ∀ file ∈ kept, Plain file.1) (hold : Copied P s₀ kept) :
    (restoreFiles target kept).Obeys P.environment (fun _ _ => True) (fun failures t =>
      SameBut P kept s t ∧
        (failures = [] → ∀ n, Names P kept n ∨ s n = s₀ n → t n = s₀ n)) s := by
  induction kept generalizing s with
  | nil =>
    refine Program.obeys_done.mpr ⟨fun _ _ => rfl, fun _ n hn => ?_⟩
    rcases hn with ⟨file, hf, -⟩ | hn
    · cases hf
    · exact hn
  | cons file kept ih =>
    obtain ⟨name, bytes⟩ := file
    have hname := hkept (name, bytes) List.mem_cons_self
    have hrest := fun file hf => hkept file (List.mem_cons_of_mem _ hf)
    have hfirst := hold (name, bytes) List.mem_cons_self
    have hlater : Copied P s₀ kept := fun file hf => hold file (List.mem_cons_of_mem _ hf)
    refine Program.Obeys.bind ((obeys_restoreFile htarget hname hfirst).mono ?_)
    rintro failure t ⟨hother, hback⟩
    refine Program.Obeys.bind ((ih hrest hlater).mono ?_)
    rintro failures t' ⟨hsame, hwell⟩
    refine Program.obeys_done.mpr ⟨fun n hn => ?_, fun hnone n hn => ?_⟩
    · rw [names_cons, not_or] at hn
      rw [hsame n hn.2, hother n (Ne.symm hn.1)]
    · obtain ⟨hfailure, hfailures⟩ := List.append_eq_nil_iff.mp hnone
      have hback := hback (by cases failure with
        | none => rfl
        | some f => cases hfailure)
      refine hwell hfailures n ?_
      by_cases hn' : n = P.fold name
      · exact .inr (hn' ▸ hback)
      · rcases hn with hn | hn
        · exact .inl ((names_cons.mp hn).resolve_left (Ne.symm hn'))
        · exact .inr ((hother n hn').trans hn)

/-! ## What an apply comes to -/

/-- What the result of an apply says of the target. -/
def Ends (C : Crypto) (keys : List TrustedKey) (P : Site) (s₀ : Dir) :
    Except Error Applied → Dir → Prop
  | .ok _, t => ∃ m, Signed C keys m ∧ Installed C P m t ∧ ∀ n, t n ≠ s₀ n → Lists P m n
  | .error (.rolledBack _), t => (∀ n, (s₀ n).isSome → t n = s₀ n) ∧
      ∀ n, t n ≠ s₀ n → ∃ m, Signed C keys m ∧ Lists P m n
  | .error (.rollbackFailed ..), t => ∀ n, t n ≠ s₀ n → ∃ m, Signed C keys m ∧ Lists P m n
  | .error _, t => t = s₀

theorem ends_unchanged (e : Error) : Ends C keys P s₀ (.error e) s₀ := by
  cases e with
  | rolledBack cause => exact ⟨fun _ _ => rfl, fun n hn => absurd rfl hn⟩
  | rollbackFailed cause restore => exact fun n hn => absurd rfl hn
  | _ => rfl

/-- What changed is under a listed name. -/
theorem listed_of_sameBut {bundle : Bundle} (hb : Genuine C keys bundle) {t : Dir}
    (h : SameBut P bundle.files s₀ t) {n : String} (hn : t n ≠ s₀ n) :
    Lists P bundle.manifest n := by
  by_contra hlists
  refine hn (h n ?_)
  rintro ⟨file, hf, rfl⟩
  exact hlists (hb.name hf).2

theorem installed_of_copied {bundle : Bundle} (hb : Genuine C keys bundle) {t : Dir}
    (h : Copied P t bundle.files) : Installed C P bundle.manifest t := by
  intro entry hentry
  obtain ⟨i, hi, rfl⟩ := List.getElem_of_mem hentry
  have hi' : i < bundle.files.length := hb.files.length_eq ▸ hi
  obtain ⟨hname, -, hhash⟩ := hb.files.get hi hi'
  refine ⟨_, ?_, hhash⟩
  rw [List.get_eq_getElem, List.get_eq_getElem] at hname
  rw [← hname]
  exact h _ (List.getElem_mem hi')

theorem leaves_removeQuietly {path : AbsPath} (hpath : ¬ P.Within path)
    (hentry : P.entry path = none) :
    (removeQuietly path).Leaves P.environment (fun _ => True) s := by
  refine Program.leaves_call fun r t h => ⟨h hpath hentry, ?_⟩
  cases r with
  | ok u => exact Program.leaves_done trivial
  | error e => exact Program.leaves_call fun _ _ h => ⟨h, Program.leaves_done trivial⟩

theorem leaves_pruneEntries {root : AbsPath} (hroot : ¬ P.Within root) (keep : String)
    (names : List String) :
    (pruneEntries root keep names).Leaves P.environment (fun _ => True) s := by
  induction names with
  | nil => exact Program.leaves_done trivial
  | cons name names ih =>
    unfold pruneEntries
    split
    · exact ih
    refine Program.leaves_call fun dir t h => ⟨h, ?_⟩
    refine Program.Leaves.bind (P := fun _ => True) ?_ fun _ _ => ih
    split
    · exact leaves_removeQuietly (Site.within_child hroot name) (Site.entry_child hroot name)
    · exact Program.leaves_done trivial

theorem leaves_pruneBackups {p : Plan} (hp : Placed P p) (keep : String) :
    (pruneBackups p keep).Leaves P.environment (fun _ => True) s := by
  unfold pruneBackups
  split
  · exact Program.leaves_done trivial
  · rename_i root hroot
    refine Program.leaves_call fun names t h => ⟨h, ?_⟩
    exact leaves_pruneEntries (hp.apart.backup root hroot) keep _

theorem obeys_restore {p : Plan} (hp : Placed P p) {bundle : Bundle} (hb : Genuine C keys bundle)
    {backup : Backup} (hsaves : Saves P s₀ bundle backup)
    (hplain : ∀ file ∈ backup.files, Plain file.1) (hsame : SameBut P bundle.files s₀ s)
    (cause : String) :
    (restore backup p.target cause).Obeys P.environment (fun _ _ => True)
      (fun e t => Ends C keys P s₀ (.error e) t) s := by
  have hlists {t : Dir} (ht : SameBut P backup.files s t) (n : String) (hn : t n ≠ s₀ n) :
      ∃ m, Signed C keys m ∧ Lists P m n := by
    refine ⟨_, hb.signed, listed_of_sameBut hb (t := t) (fun n hn => ?_) hn⟩
    rw [ht n fun hb => hn (hsaves.names hb), hsame n hn]
  have hback {t : Dir} (ht : SameBut P backup.files s t)
      (hwell : ∀ n, Names P backup.files n ∨ s n = s₀ n → t n = s₀ n) (n : String)
      (hn : (s₀ n).isSome) : t n = s₀ n := by
    by_cases hlisted : Names P bundle.files n
    · exact hwell n (.inl (hsaves.complete n hlisted hn))
    · exact hwell n (.inr (hsame n hlisted))
  unfold restore
  split
  · rename_i hempty
    have hnil : backup.files = [] := List.isEmpty_iff.mp hempty
    refine Program.obeys_done.mpr ⟨hback (t := s) (fun _ _ => rfl) fun n hn => ?_,
      hlists fun _ _ => rfl⟩
    rcases hn with ⟨file, hf, -⟩ | hn
    · rw [hnil] at hf
      cases hf
    · exact hn
  · refine Program.Obeys.bind ((obeys_restoreFiles hp.target hplain hsaves.copied).mono ?_)
    rintro failures t ⟨hsame', hwell⟩
    refine Program.obeys_done.mpr ?_
    split
    · rename_i hnone
      exact ⟨hback hsame' (hwell (List.isEmpty_iff.mp hnone)), hlists hsame'⟩
    · exact hlists hsame'

theorem obeys_applyWith {p : Plan} (hp : Placed P p)
    (hreleased : ∀ m, Signed C keys m → Plain m.version ∧
      (m.files.map fun f => P.fold f.path).Nodup) :
    Fallible.Obeys P.environment (fun _ _ => True) (Ends C keys P s₀) (applyWith C keys p) s₀ := by
  unfold applyWith
  refine Fallible.Leaves.obeys (leaves_verifyStaged _) (fun bundle hb => ?_) ends_unchanged
  refine Fallible.Leaves.obeys (leaves_ask (.wait p.pid) fun _ _ h => h) (fun gone _ => ?_)
    ends_unchanged
  refine Fallible.Leaves.obeys leaves_demand (fun _ _ => ?_) ends_unchanged
  refine Fallible.Leaves.obeys (leaves_backUp (fun m hm => (hreleased m hm).1) hp hb)
    (fun backup hsaves => ?_) ends_unchanged
  have hplain : ∀ file ∈ bundle.files, Plain file.1 := fun file hf =>
    plain_of_bare (hb.name (P := P) hf).1
  have hnodup : (bundle.files.map fun file => P.fold file.1).Nodup := by
    have hnames : bundle.files.map (fun file => P.fold file.1) =
        bundle.manifest.files.map fun f => P.fold f.path := by
      symm
      rw [← List.forall₂_eq_eq_eq, List.forall₂_map_left_iff, List.forall₂_map_right_iff]
      exact List.Forall₂.imp (fun _ _ h => by rw [h.1]) hb.files
    rw [hnames]
    exact (hreleased _ hb.signed).2
  have hswap := Fallible.obeys_run.mpr (obeys_writeAll (s := s₀) hp.target hplain hnodup)
  refine Fallible.obeys_run.mp (Program.Obeys.bind (hswap.mono ?_))
  rintro r t ⟨hsame, hcopied⟩
  cases r with
  | ok u =>
    refine (leaves_pruneBackups hp _).obeys fun _ _ => ?_
    exact Program.obeys_done.mpr ⟨_, hb.signed, installed_of_copied hb (hcopied rfl), fun n hn =>
      listed_of_sameBut hb hsame hn⟩
  | error cause =>
    refine Program.Obeys.bind ((obeys_restore hp hb hsaves (fun file hf => ?_) hsame cause).mono
      fun e t h => Program.obeys_done.mpr h)
    obtain ⟨new, hnew, he⟩ := hsaves.listed file hf
    exact he ▸ hplain new hnew

/-! ## The command -/

theorem leaves_note (line : String) :
    (note line).Leaves P.environment (fun _ => True) s :=
  Program.leaves_call fun _ _ h => ⟨h, Program.leaves_done trivial⟩

theorem leaves_clearMarker {marker : AbsPath} (hentry : P.entry marker = none) :
    (clearMarker marker).Leaves P.environment (fun _ => True) s := by
  refine Program.leaves_call fun found t h => ⟨h.1, ?_⟩
  split
  · refine Program.leaves_call fun r t h => ⟨h hentry, ?_⟩
    cases r with
    | ok u => exact Program.leaves_done trivial
    | error e => exact leaves_note _
  · exact Program.leaves_done trivial

theorem leaves_clearStaged {p : Plan} (hp : Placed P p) :
    (clearStaged p).Leaves P.environment (fun _ => True) s := by
  refine Program.leaves_call fun running t h => ⟨h, ?_⟩
  refine Program.Leaves.bind (P := fun _ => True) ?_ fun _ _ => ?_
  · split
    · exact leaves_note _
    · exact leaves_removeQuietly hp.apart.bundle (Site.entry_eq_none hp.apart.updates)
  · split
    · rename_i updates hparent
      rw [updates.join_plain (plain_of_bare (by decide +kernel))]
      exact leaves_clearMarker (Site.entry_child (hp.apart.updates updates hparent) _)
    · exact Program.leaves_done trivial

theorem leaves_relaunch (target : RelaunchTarget) :
    (relaunch target).Leaves P.environment (fun _ => True) s := by
  refine Program.leaves_call fun r t h => ⟨h, ?_⟩
  cases r with
  | ok u => exact leaves_note _
  | error e => exact leaves_note _

theorem told_of_ends {e : Error} {t : Dir} (h : Ends C keys P s₀ (.error e) t) :
    Told C keys P s₀ e.exitCode t := by
  have hcodes : e.exitCode ∈ [1, 2, 5, 6, 7, 8] := by
    cases e <;> simp [Error.exitCode]
  have hfailed : e.exitCode ≠ 0 := fun h0 => by simp [h0] at hcodes
  cases e with
  | rolledBack cause =>
    refine ⟨List.mem_cons_of_mem _ hcodes, fun h0 => absurd h0 hfailed, fun hu => ?_,
      fun _ => h.1, h.2⟩
    simp [Error.exitCode] at hu
  | rollbackFailed cause restore =>
    refine ⟨List.mem_cons_of_mem _ hcodes, fun h0 => absurd h0 hfailed, fun hu => ?_,
      fun h7 => ?_, h⟩
    · simp [Error.exitCode] at hu
    · simp [Error.exitCode] at h7
  | _ =>
    obtain rfl : t = s₀ := h
    exact ⟨List.mem_cons_of_mem _ hcodes, fun h0 => absurd h0 hfailed, fun _ => rfl,
      fun _ _ _ => rfl, fun n hn => absurd rfl hn⟩

theorem obeys_conclude {p : Plan} (hp : Placed P p) {r : Except Error Applied}
    (h : Ends C keys P s₀ r s) :
    (conclude p r).Obeys P.environment (fun _ _ => True) (Told C keys P s₀) s := by
  cases r with
  | ok applied =>
    obtain ⟨m, hm, hinstalled, hlisted⟩ := h
    refine (leaves_note _).obeys fun _ _ => ?_
    refine (leaves_clearStaged hp).obeys fun _ _ => (leaves_relaunch _).obeys fun _ _ => ?_
    refine Program.obeys_done.mpr ⟨by decide, fun _ => ⟨m, hm, hinstalled⟩, ?_, ?_, ?_⟩
    exacts [fun h => absurd h (by decide), fun h => absurd h (by decide),
      fun n hn => ⟨m, hm, hlisted n hn⟩]
  | error e => exact (leaves_note _).obeys fun _ _ => Program.obeys_done.mpr (told_of_ends h)

/-- What follows the plan of a request. -/
theorem obeys_planned {planning : Run Plan} (hplan : Fallible.Leaves P.environment (Placed P)
      planning s₀)
    (hreleased : ∀ m, Signed C keys m → Plain m.version ∧
      (m.files.map fun f => P.fold f.path).Nodup) :
    (planning.run.bind fun planned => match planned with
      | .ok p => (applyWith C keys p).run.bind (conclude p)
      | .error e => (note e.display).bind fun _ => .done 2).Obeys P.environment (fun _ _ => True)
      (Told C keys P s₀) s₀ := by
  refine hplan.run.obeys fun planned hp => ?_
  cases planned with
  | ok p =>
    have happly : Fallible.Obeys P.environment (fun _ _ => True) (Ends C keys P s₀)
        (applyWith C keys p) s₀ := obeys_applyWith (hp p rfl) hreleased
    exact Program.Obeys.bind
      ((Fallible.obeys_run.mpr happly).mono fun r t h => obeys_conclude (hp p rfl) h)
  | error e =>
    have htold : Told C keys P s₀ (Error.rejected "").exitCode s₀ := told_of_ends rfl
    exact (leaves_note _).obeys fun _ _ => Program.obeys_done.mpr htold

/-- **The exit codes tell the truth**: what the target holds after the command is what its exit
code says, whichever calls fail. -/
theorem exit_code_told {request : Request} (hfits : P.Fits C keys request)
    {calls : List (Dir × Call)} {code : Nat} {t : Dir}
    (hrun : (runUpdate C keys request).Runs P.environment s₀ calls code t) :
    Told C keys P s₀ code t := by
  have hplanned := obeys_planned (leaves_plan (s := s₀) hfits) hfits.released
  exact (Program.Obeys.run ((leaves_note _).obeys fun _ _ => hplanned) hrun).2

/-! ## A command that goes well -/

/-- Everything works: `other` is read where a path leads elsewhere. -/
def Site.healthy (P : Site) (other : AbsPath → Bytes) (s : Dir) : (i : Call) → Call.Answer i × Dir
  | .read p =>
    match P.entry p with
    | some n => (match s n with
      | some bytes => .ok bytes
      | none => .error "The system cannot find the file specified.", s)
    | none => (.ok (other p), s)
  | .write p bytes =>
    match P.entry p with
    | some n => (.ok (), Function.update s n (some bytes))
    | none => (.ok (), s)
  | .exists p =>
    match P.entry p with
    | some n => ((s n).isSome, s)
    | none => (false, s)
  | .createDirAll _ | .removeDirAll _ | .removeFile _ | .launch _ => (.ok (), s)
  | .isDir _ | .isFile _ | .wait _ => (true, s)
  | .isLink _ | .runningFrom _ => (false, s)
  | .canonicalize p => (.ok (P.resolve p), s)
  | .readDir _ => (some [], s)
  | .log _ => ((), s)

theorem Site.healthy_environment (P : Site) (other : AbsPath → Bytes) (s : Dir) (i : Call) :
    P.environment s i (P.healthy other s i).1 (P.healthy other s i).2 := by
  cases i with
  | read p =>
    cases he : P.entry p with
    | none => simp [healthy, environment, he]
    | some n => cases hn : s n <;> simp [healthy, environment, he, hn]
  | write p bytes =>
    cases he : P.entry p with
    | none => simp [healthy, environment, he]
    | some n =>
      simp only [healthy, environment, he, Function.update_self, implies_true, and_true]
      exact fun m hm => Function.update_of_ne hm _ _
  | «exists» p => cases he : P.entry p <;> simp [healthy, environment, he]
  | _ => simp [healthy, environment]

/-- Where the release of one file is applied. -/
def secondSite : Site where
  target := secondPlan.target
  fold s := String.ofList (s.toList.map Char.toLower)
  resolve p := { p with root := "\\\\?\\" ++ p.root }

def secondRequest : Request where
  pid := 42
  staged := "C:\\mb_remote\\updates\\2.0.0"
  target := "C:\\MusicBee\\Plugins"
  relaunch := ""
  relaunchAumid := some "MusicBee!App"

theorem secondSite_fits :
    secondSite.Fits secondStager.crypto secondStager.keys secondRequest where
  target a h := by
    have hpath : (AbsPath.absolute secondRequest.target).map secondSite.resolve =
        some secondSite.target := by decide +kernel
    rw [h] at hpath
    exact Option.some.inj hpath
  apart a h := by
    have hpath : (AbsPath.absolute secondRequest.staged).map secondSite.resolve =
        some secondPlan.staged := by decide +kernel
    rw [h] at hpath
    rw [Option.some.inj hpath]
    refine ⟨?_, fun u hu => ?_, fun root hroot => ?_⟩
    · unfold Site.Within
      decide +kernel
    · obtain rfl := Option.some.inj hu
      unfold Site.Within
      decide +kernel
    · obtain rfl := Except.ok.inj hroot
      unfold Site.Within
      decide +kernel
  released m h := by
    obtain ⟨bytes, signature, key, hverify⟩ := h
    have hjson := (Crypto.verifyManifestWith_ok _ hverify).2.1
    obtain rfl : secondManifest = m := by
      simp only [secondStager] at hjson
      split at hjson
      · exact Except.ok.inj hjson
      · cases hjson
    exact ⟨plain_of_bare (by decide +kernel), by decide +kernel⟩

/-- The target before the command: an older library. -/
def secondTarget : Dir := fun n => if n = "mb_remote.dll" then some [0] else none

theorem exit_code_told_second :
    ∃ t, t "mb_remote.dll" = some [77, 90] ∧
      Told secondStager.crypto secondStager.keys secondSite secondTarget 0 t := by
  have hrun := Program.runs_trace (secondSite.healthy_environment secondFile)
    (runUpdate secondStager.crypto secondStager.keys secondRequest) secondTarget
  have hcode : ((runUpdate secondStager.crypto secondStager.keys secondRequest).run
      (secondSite.healthy secondFile) secondTarget).2.1 = 0 := by decide +kernel
  have htold := exit_code_told secondSite_fits hrun
  rw [hcode] at htold
  exact ⟨_, by decide +kernel, htold⟩

end Mbrc.Helper
