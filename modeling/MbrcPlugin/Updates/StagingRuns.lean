import MbrcPlugin.Updates.Staging

/-!
# The marker means a complete bundle

At every moment at which `pending.json` is accepted, the directory it names verifies: as long as
nothing is removed from the directory an accepted marker names, and nothing is written there.
-/

namespace Mbrc.Updates

open Interaction Transition

/-! ## Reading the tree -/

namespace Tree

/-- The contents of a file of a directory. -/
def fileIn (t : Tree) (k name : String) : Option Bytes := (t.dirAt k).bind fun d => d.get? name

variable {t t' : Tree} {k name : String} {bytes : Bytes}

theorem node_set (n : Node) (a : String) :
    (t.set k n).node a = if k = a then some n else t.node a := by
  show ((t.getD Table.empty).insert k n).get? a = _
  rw [Table.get?_insert]
  cases t with
  | none => simp [node]
  | some entries => rfl

theorem node_drop (a : String) : (t.drop k).node a = if k = a then none else t.node a := by
  cases t with
  | none => simp [drop, node]
  | some entries => exact Table.get?_erase entries k a

theorem dirAt_congr (h : t'.node k = t.node k) : t'.dirAt k = t.dirAt k := by
  rw [dirAt, dirAt, h]

theorem fileAt_congr (h : t'.node k = t.node k) : t'.fileAt k = t.fileAt k := by
  rw [fileAt, fileAt, h]

theorem fileIn_congr (h : t'.node k = t.node k) (name : String) :
    t'.fileIn k name = t.fileIn k name := by
  rw [fileIn, fileIn, dirAt_congr h]

theorem dirAt_eq_some {d : Table String Bytes} (h : t.dirAt k = some d) :
    t.node k = some (.dir d) := by
  unfold dirAt at h
  split at h
  · rename_i d' hd
    rw [hd, Option.some.inj h]
  · cases h

theorem fileAt_of_dirAt (h : (t.dirAt k).isSome) : t.fileAt k = none := by
  obtain ⟨d, hd⟩ := Option.isSome_iff_exists.mp h
  rw [fileAt, dirAt_eq_some hd]

theorem dirAt_of_fileIn (h : t.fileIn k name = some bytes) : (t.dirAt k).isSome := by
  unfold fileIn at h
  cases hd : t.dirAt k with
  | none => simp [hd] at h
  | some d => rfl

/-- A file of a directory is written: the other files and the other entries stay. -/
theorem putFile_eq_some (h : t.putFile k name bytes = some t') :
    (∀ a, a ≠ k → t'.node a = t.node a) ∧ (t'.dirAt k).isSome ∧
      ∀ a, t'.fileIn k a = if name = a then some bytes else t.fileIn k a := by
  simp only [putFile, Option.map_eq_some_iff] at h
  obtain ⟨d, hd, rfl⟩ := h
  have hdir : (t.set k (.dir (d.insert name bytes))).dirAt k = some (d.insert name bytes) := by
    rw [dirAt, node_set, if_pos rfl]
  refine ⟨fun a ha => ?_, by rw [hdir]; rfl, fun a => ?_⟩
  · rw [node_set, if_neg ha.symm]
  · rw [fileIn, hdir, Option.bind_some, Table.get?_insert, fileIn, hd]
    rfl

/-- An entry of the root is written: the others stay. -/
theorem putEntry_eq_some (h : t.putEntry k bytes = some t') :
    (∀ a, a ≠ k → t'.node a = t.node a) ∧ t'.fileAt k = some bytes ∧ t.dirAt k = none := by
  unfold putEntry at h
  split at h
  · rename_i hc
    obtain rfl := Option.some.inj h
    simp only [Bool.and_eq_true, Option.isNone_iff_eq_none] at hc
    refine ⟨fun a ha => ?_, ?_, hc.2⟩
    · rw [node_set, if_neg ha.symm]
    · rw [fileAt, node_set, if_pos rfl]
  · cases h

theorem unlinkIn_eq_some (h : t.unlinkIn k name = some t') :
    (∀ a, a ≠ k → t'.node a = t.node a) ∧ t'.fileAt k = none := by
  simp only [unlinkIn, Option.bind_eq_bind, Option.bind_eq_some_iff] at h
  obtain ⟨d, -, _, -, h⟩ := h
  obtain rfl := Option.some.inj h
  refine ⟨fun a ha => ?_, ?_⟩
  · rw [node_set, if_neg ha.symm]
  · rw [fileAt, node_set, if_pos rfl]

theorem unlink_eq_some (h : t.unlink k = some t') :
    (∀ a, a ≠ k → t'.node a = t.node a) ∧ t'.fileAt k = none := by
  have hdrop : t' = t.drop k := by
    unfold unlink at h
    split at h
    · cases h
    · exact (Option.some.inj h).symm
    · split at h
      · exact (Option.some.inj h).symm
      · cases h
  subst hdrop
  refine ⟨fun a ha => ?_, ?_⟩
  · rw [node_drop, if_neg ha.symm]
  · rw [fileAt, node_drop, if_pos rfl]

end Tree

variable {S : Stager}

namespace Stager

/-! ## What is claimed -/

variable (S) in
/-- The marker is there and is accepted. -/
def Accepts (t : Tree) (p : Pending) : Prop :=
  S.readPending (t.fileAt (S.fold pendingFile)) = .ok (some p)

variable (S) in
/-- A listed file is there with its listed hash. -/
def HasFile (t : Tree) (k : String) (f : FileEntry) : Prop :=
  ∃ bytes, t.fileIn k (S.fold f.path) = some bytes ∧
    S.crypto.verifySha512 bytes f.sha512 f.path = .ok ()

variable (S) in
/-- A manifest and a signature that verify, and every file the manifest lists. -/
def Complete (t : Tree) (k : String) : Prop :=
  ∃ mBytes sBytes signature m name, t.fileIn k (S.fold manifestAsset) = some mBytes ∧
    t.fileIn k (S.fold signatureAsset) = some sBytes ∧ Text.ofBytes sBytes = some signature ∧
    S.crypto.verifyManifestWith mBytes signature S.keys = .ok (m, name) ∧
    ∀ f ∈ m.files, S.HasFile t k f

variable (S) in
/-- An accepted marker names a complete bundle. -/
def MarkerTrue (t : Tree) : Prop := ∀ p, S.Accepts t p → S.Complete t (S.fold p.version)

/-! ## The condition -/

variable (S) in
/-- No accepted marker names this directory. -/
def Spared (t : Tree) (k : String) : Prop := ∀ p, S.Accepts t p → S.fold p.version ≠ k

variable (S) in
/-- No listed file is the manifest or its signature, and two names of one file have one hash. -/
def NamesApart (m : Manifest) : Prop :=
  (∀ f ∈ m.files, S.fold f.path ≠ S.fold manifestAsset ∧ S.fold f.path ≠ S.fold signatureAsset) ∧
    ∀ f ∈ m.files, ∀ g ∈ m.files, S.fold f.path = S.fold g.path →
      asciiLower f.sha512 = asciiLower g.sha512

variable (S) in
/-- Removals and writes leave the directory of an accepted marker alone. -/
def spares : Guard (Operation S) FileCall Tree Bit Reply where
  start o _ :=
    match o with
    | .stage u _ => S.NamesApart u.update.manifest
    | _ => True
  during i d t :=
    match i, d with
    | _, .unlink k _ => S.Spared t k
    | .write version _ _, .partly _ => S.Spared t (S.fold version)
    | _, _ => True
  answer i r t :=
    match i, r with
    | .write version _ _, .done => S.Spared t (S.fold version)
    | _, _ => True

/-- What JSON and the file system are known for: a document reads back as what was written, a part
of one is no document, and two names of different lengths are two names. -/
structure Lawful (S : Stager) : Prop where
  json : ∀ p text, S.pendingText p = .ok text → S.pendingJson text = .ok p
  cut : ∀ p text k part, S.pendingText p = .ok text → k < (Text.bytes text).length →
    Text.ofBytes ((Text.bytes text).take k) = some part → ∃ e, S.pendingJson part = .error e
  fold : S.fold manifestAsset ≠ S.fold signatureAsset

/-! ## What leaves the marker true -/

variable {t t' : Tree}

theorem markerTrue_of_none (h : t.fileAt (S.fold pendingFile) = none) : S.MarkerTrue t := by
  intro p hp
  rw [Accepts, h] at hp
  cases hp

theorem Complete.congr {k : String} (h : S.Complete t k) (hk : t'.node k = t.node k) :
    S.Complete t' k := by
  simp only [Complete, HasFile, Tree.fileIn_congr hk]
  exact h

/-- One entry changes, and no accepted marker names it. -/
theorem MarkerTrue.touch {k : String} (h : S.MarkerTrue t)
    (hsame : ∀ a, a ≠ k → t'.node a = t.node a) (hspared : S.Spared t k)
    (hk : k = S.fold pendingFile → t'.fileAt k = none) : S.MarkerTrue t' := by
  by_cases hpending : k = S.fold pendingFile
  · exact markerTrue_of_none (hpending ▸ hk hpending)
  · intro p hp
    rw [Accepts, Tree.fileAt_congr (hsame _ (Ne.symm hpending))] at hp
    exact (h p hp).congr (hsame _ (hspared p hp))

/-- A complete bundle lies in a directory. -/
theorem Complete.dirAt {k : String} (h : S.Complete t k) : (t.dirAt k).isSome := by
  obtain ⟨mBytes, _, _, _, _, hm, -⟩ := h
  exact Tree.dirAt_of_fileIn hm

theorem during_true {i : FileCall} {d : Bit} (h : S.MarkerTrue t)
    (hi : ∀ bytes, i ≠ .writePending bytes) (hG : S.spares.during i d t)
    (hd : S.during t i d = some t') : S.MarkerTrue t' := by
  unfold Stager.during at hd
  split at hd
  · rename_i version dir name
    split at hd
    · split at hd
      · obtain ⟨hsame, hfile⟩ := Tree.unlinkIn_eq_some hd
        exact h.touch hsame hG fun _ => hfile
      · split at hd
        · obtain ⟨hsame, hfile⟩ := Tree.unlink_eq_some hd
          exact h.touch hsame hG fun _ => hfile
        · cases hd
    · cases hd
  · obtain ⟨hsame, hfile⟩ := Tree.unlinkIn_eq_some hd
    exact h.touch hsame hG fun _ => hfile
  · obtain ⟨hsame, hfile⟩ := Tree.unlink_eq_some hd
    exact h.touch hsame hG fun _ => hfile
  · split at hd
    · obtain rfl := Option.some.inj hd
      exact markerTrue_of_none rfl
    · cases hd
  · obtain ⟨hsame, hdir, -⟩ := Tree.putFile_eq_some hd
    exact h.touch hsame hG fun _ => Tree.fileAt_of_dirAt hdir
  · rename_i bytes k
    exact absurd rfl (hi bytes)
  · cases hd

/-- A check of the tree that leaves it as it is. -/
theorem markerTrue_of_same {α : Type} {c : Prop} [Decidable c] {x a : α} (h : S.MarkerTrue t)
    (ha : (if c then some (x, t) else none) = some (a, t')) : S.MarkerTrue t' := by
  split at ha
  · obtain ⟨-, rfl⟩ := Prod.mk.inj (Option.some.inj ha)
    exact h
  · cases ha

theorem answer_true {i : FileCall} {r : Reply} {a : i.Answer} (h : S.MarkerTrue t)
    (hi : ∀ bytes, i ≠ .writePending bytes) (hG : S.spares.answer i r t)
    (ha : S.answer t i r = some (a, t')) : S.MarkerTrue t' := by
  unfold Stager.answer at ha
  split at ha
  case h_1 =>
    obtain ⟨-, rfl⟩ := Prod.mk.inj (Option.some.inj ha)
    cases t with
    | none => exact markerTrue_of_none (by simp [Tree.fileAt, Tree.node])
    | some entries => exact h
  case h_7 version =>
    split at ha
    · rename_i hnone
      obtain ⟨-, rfl⟩ := Prod.mk.inj (Option.some.inj ha)
      refine h.touch (fun a ha => by rw [Tree.node_set, if_neg ha.symm]) ?_ fun _ => ?_
      · intro p hp heq
        have hdir := (h p hp).dirAt
        rw [heq, Tree.dirAt, hnone] at hdir
        cases hdir
      · rw [Tree.fileAt, Tree.node_set, if_pos rfl]
    · obtain ⟨-, rfl⟩ := Prod.mk.inj (Option.some.inj ha)
      exact h
    · cases ha
  case h_9 version name bytes =>
    simp only [Option.map_eq_some_iff] at ha
    obtain ⟨t₁, hput, heq⟩ := ha
    obtain ⟨-, rfl⟩ := Prod.mk.inj heq
    obtain ⟨hsame, hdir, -⟩ := Tree.putFile_eq_some hput
    exact h.touch hsame hG fun _ => Tree.fileAt_of_dirAt hdir
  case h_11 bytes => exact absurd rfl (hi bytes)
  case h_12 bytes _ => exact absurd rfl (hi bytes)
  case h_18 =>
    split at ha
    · obtain ⟨-, rfl⟩ := Prod.mk.inj (Option.some.inj ha)
      exact markerTrue_of_none (by rw [Tree.fileAt, Tree.node_drop, if_pos rfl])
    · cases ha
  case h_20 => cases ha
  all_goals first
    | exact markerTrue_of_same h ha
    | obtain ⟨-, rfl⟩ := Prod.mk.inj (Option.some.inj ha)
      exact h

theorem parts_true {i : FileCall} (h : S.MarkerTrue t) (hi : ∀ bytes, i ≠ .writePending bytes)
    (hparts : S.machine.Parts S.spares i t t') : S.MarkerTrue t' := by
  induction hparts with
  | refl => exact h
  | tail _ hstep ih =>
    obtain ⟨d, hG, hd⟩ := hstep
    exact during_true ih hi hG hd

/-- A call other than the one that writes the marker. -/
theorem attempt_true {α : Type} {i : FileCall} {read : i.Answer → Except UpdateError α}
    {Q : Except UpdateError α → Tree → Prop} (h : S.MarkerTrue t)
    (hi : ∀ bytes, i ≠ .writePending bytes)
    (hQ : ∀ r t', S.MarkerTrue t' → Q (read r) t') :
    Fallible.Holds S.machine S.spares S.MarkerTrue Q (Fallible.attempt i read) t := by
  refine Fallible.holds_attempt fun t₁ hparts => ?_
  have h₁ := parts_true h hi hparts
  exact ⟨h₁, fun r a t₂ hG ha => hQ a t₂ (answer_true h₁ hi hG ha)⟩

/-- Operations that write no marker. -/
theorem within_true {α : Type} {p : Program FileCall.Answer α}
    (hp : p.Within fun i => ∀ bytes, i ≠ .writePending bytes) (h : S.MarkerTrue t) :
    p.Holds S.machine S.spares S.MarkerTrue (fun _ t => S.MarkerTrue t) t := by
  induction p generalizing t with
  | done a => exact h
  | call i next ih =>
    intro t₁ hparts
    have h₁ := parts_true h hp.1 hparts
    exact ⟨h₁, fun r a t₂ hG ha => ih a (hp.2 a) (answer_true h₁ hp.1 hG ha)⟩

/-! ## What staging writes -/

/-- The extracted files, each with the hash its entry lists. -/
abbrev Extracted (S : Stager) (entries : List FileEntry) (files : List (String × Bytes)) : Prop :=
  List.Forall₂ (fun f p => p.1 = f.path ∧ S.crypto.verifySha512 p.2 f.sha512 f.path = .ok ())
    entries files

theorem extractFiles_ok {archive : Archive} {entries : List FileEntry}
    {files : List (String × Bytes)} (h : S.extractFiles archive entries = .ok files) :
    Extracted S entries files := by
  induction entries generalizing files with
  | nil =>
    obtain rfl := Except.ok.inj h
    exact .nil
  | cons f entries ih =>
    simp only [extractFiles, bind_eq_ok] at h
    obtain ⟨entry, -, bytes, -, ⟨⟩, hhash, rest, hrest, h⟩ := h
    obtain rfl := Except.ok.inj h
    exact .cons ⟨rfl, hhash⟩ (ih hrest)

theorem downloadVerified_holds {u : AvailableUpdate} (h : S.MarkerTrue t) :
    Fallible.Holds S.machine S.spares S.MarkerTrue
      (fun r t => S.MarkerTrue t ∧ ∀ files, r = .ok files → Extracted S u.manifest.files files)
      (S.downloadVerified u) t := by
  refine Fallible.Holds.bind (attempt_true h (by nofun) fun r t₁ h₁ => ?_)
  cases r with
  | error e => exact ⟨h₁, fun _ hfiles => by cases hfiles⟩
  | ok response =>
    refine Fallible.holds_check.mpr ⟨h₁, fun files hfiles => ?_⟩
    simp only [extractVerified, bind_eq_ok] at hfiles
    obtain ⟨body, -, ⟨⟩, -, archive, -, ⟨⟩, -, hfiles⟩ := hfiles
    exact extractFiles_ok hfiles

/-- While a file is written, the other files of the directory stay. -/
theorem write_parts {version name : String} {bytes : Bytes}
    (h : S.machine.Parts S.spares (.write version name bytes) t t') {a : String}
    (ha : a ≠ S.fold name) : t'.fileIn (S.fold version) a = t.fileIn (S.fold version) a := by
  induction h with
  | refl => rfl
  | tail _ hstep ih =>
    obtain ⟨d, -, hd⟩ := hstep
    cases d with
    | partly k =>
      rw [(Tree.putFile_eq_some hd).2.2 a, if_neg ha.symm]
      exact ih
    | unlink dir name => cases hd
    | unlinkRoot => cases hd

/-- **One file is written.** -/
theorem writeFile_holds {version name : String} {bytes : Bytes}
    {Q : Except UpdateError Unit → Tree → Prop} (h : S.MarkerTrue t)
    (herror : ∀ e t', S.MarkerTrue t' → Q (.error e) t')
    (hok : ∀ t', S.MarkerTrue t' → t'.fileIn (S.fold version) (S.fold name) = some bytes →
      (∀ a, a ≠ S.fold name → t'.fileIn (S.fold version) a = t.fileIn (S.fold version) a) →
      Q (.ok ()) t') :
    Fallible.Holds S.machine S.spares S.MarkerTrue Q (S.writeFile version name bytes) t := by
  have hi : ∀ b, FileCall.write version name bytes ≠ .writePending b := nofun
  refine Fallible.holds_attempt fun t₁ hparts => ?_
  have h₁ := parts_true h hi hparts
  refine ⟨h₁, fun r a t₂ hG ha => ?_⟩
  have h₂ := answer_true h₁ hi hG ha
  cases a with
  | error e => exact herror _ t₂ h₂
  | ok u =>
    have hput : t₁.putFile (S.fold version) (S.fold name) bytes = some t₂ := by
      cases r with
      | done =>
        obtain ⟨t₃, hput, heq⟩ := Option.map_eq_some_iff.mp ha
        rw [hput, (Prod.mk.inj heq).2]
      | failed e => cases ha
      | found b => cases ha
      | response r => cases ha
      | contents c => cases ha
    have hfile := (Tree.putFile_eq_some hput).2.2
    refine hok t₂ h₂ (by rw [hfile, if_pos rfl]) fun a ha => ?_
    rw [hfile, if_neg ha.symm]
    exact write_parts hparts ha

/-- Every listed file so far is there. -/
def HasFiles (S : Stager) (t : Tree) (k : String) (entries : List FileEntry) : Prop :=
  ∀ f ∈ entries, S.HasFile t k f

theorem verifySha512_congr {C : Crypto} {bytes : Bytes} {h h' path path' : String}
    (hsame : asciiLower h = asciiLower h') (hok : C.verifySha512 bytes h' path' = .ok ()) :
    C.verifySha512 bytes h path = .ok () := by
  rw [Crypto.verifySha512, require_eq_ok] at hok ⊢
  rw [hok, hsame]

/-- **The listed files are written**, one after the other; those already there stay, or are written
again with the hash they have. -/
theorem writeFiles_holds {version : String} {m : Manifest} (hnames : S.NamesApart m)
    {todo written : List FileEntry} {files : List (String × Bytes)}
    (hfiles : Extracted S todo files) (hsub : ∀ f ∈ written ++ todo, f ∈ m.files)
    (h : S.MarkerTrue t) (hwritten : HasFiles S t (S.fold version) written) :
    Fallible.Holds S.machine S.spares S.MarkerTrue
      (fun r t => S.MarkerTrue t ∧ (r = .ok () → HasFiles S t (S.fold version) (written ++ todo)))
      (S.writeFiles version files) t := by
  induction hfiles generalizing t written with
  | nil =>
    refine ⟨h, fun _ => ?_⟩
    rw [List.append_nil]
    exact hwritten
  | @cons f p todo files hp _ ih =>
    obtain ⟨name, bytes⟩ := p
    obtain ⟨rfl, hhash⟩ := hp
    refine Fallible.Holds.bind (writeFile_holds h ?_ ?_)
    · intro e t' h'
      exact ⟨h', fun he => by cases he⟩
    · intro t' h' hin hrest
      have hwritten' : HasFiles S t' (S.fold version) (written ++ [f]) := by
        intro g hg
        by_cases hsame : S.fold g.path = S.fold f.path
        · refine ⟨bytes, by rw [hsame, hin], ?_⟩
          refine verifySha512_congr (hnames.2 g (hsub g ?_) f (hsub f ?_) hsame) hhash
          · rcases List.mem_append.mp hg with hg | hg
            · exact List.mem_append_left _ hg
            · exact List.mem_append_right _ (by simp [List.mem_singleton.mp hg])
          · exact List.mem_append_right _ List.mem_cons_self
        · rcases List.mem_append.mp hg with hg | hg
          · obtain ⟨b, hb, hok⟩ := hwritten g hg
            exact ⟨b, (hrest _ hsame).trans hb, hok⟩
          · exact absurd (congrArg (fun e => S.fold e.path) (List.mem_singleton.mp hg)) hsame
      have hsub' : ∀ g ∈ written ++ [f] ++ todo, g ∈ m.files := by simpa using hsub
      simpa using ih hsub' h' hwritten'

/-- The bytes of the marker that staging writes mean its version, whole or not at all. -/
theorem accepts_part {p q : Pending} {text : String} {k : Nat} (hS : S.Lawful)
    (htext : S.pendingText p = .ok text)
    (hq : S.readPending (some ((Text.bytes text).take k)) = .ok (some q)) : q = p := by
  unfold readPending at hq
  split at hq
  · cases hq
  · rename_i part hpart
    rw [Option.bind_some] at hpart
    rw [bind_eq_ok] at hq
    obtain ⟨p', hp', hq⟩ := hq
    simp only [bind_eq_ok] at hq
    obtain ⟨_, -, _, -, hq⟩ := hq
    obtain rfl := Option.some.inj (Except.ok.inj hq)
    by_cases hk : k < (Text.bytes text).length
    · obtain ⟨e, he⟩ := hS.cut p text k part htext hk hpart
      rw [he] at hp'
      cases hp'
    · rw [List.take_of_length_le (by omega), Text.ofBytes_bytes] at hpart
      obtain rfl := Option.some.inj hpart
      rw [hS.json p text htext] at hp'
      exact (Except.ok.inj hp').symm

/-- A part of the marker is there: it names the bundle just written, or nothing. -/
theorem putEntry_true {p : Pending} {text : String} {k : Nat} (hS : S.Lawful)
    (htext : S.pendingText p = .ok text) (hcomplete : S.Complete t (S.fold p.version))
    (hput : t.putEntry (S.fold pendingFile) ((Text.bytes text).take k) = some t') :
    S.MarkerTrue t' ∧ S.Complete t' (S.fold p.version) := by
  obtain ⟨hsame, hfile, hdir⟩ := Tree.putEntry_eq_some hput
  have hne : S.fold p.version ≠ S.fold pendingFile := by
    intro heq
    have := hcomplete.dirAt
    rw [heq, hdir] at this
    cases this
  have hcomplete' := hcomplete.congr (hsame _ hne)
  refine ⟨fun q hq => ?_, hcomplete'⟩
  rw [Accepts, hfile] at hq
  rw [accepts_part hS htext hq]
  exact hcomplete'

/-- **The marker is written** last. -/
theorem writePending_holds {p : Pending} {text : String}
    {read : Except String Unit → Except UpdateError Unit} (hS : S.Lawful)
    (htext : S.pendingText p = .ok text) (h : S.MarkerTrue t)
    (hcomplete : S.Complete t (S.fold p.version)) :
    Fallible.Holds S.machine S.spares S.MarkerTrue (fun _ t => S.MarkerTrue t)
      (Fallible.attempt (.writePending (Text.bytes text)) read) t := by
  have hparts : ∀ t', S.machine.Parts S.spares (.writePending (Text.bytes text)) t t' →
      S.MarkerTrue t' ∧ S.Complete t' (S.fold p.version) := by
    intro t' ht'
    induction ht' with
    | refl => exact ⟨h, hcomplete⟩
    | tail _ hstep ih =>
      obtain ⟨d, -, hd⟩ := hstep
      cases d with
      | partly k => exact putEntry_true hS htext ih.2 hd
      | unlink dir name => cases hd
      | unlinkRoot => cases hd
  refine Fallible.holds_attempt fun t₁ ht₁ => ?_
  obtain ⟨h₁, hcomplete₁⟩ := hparts t₁ ht₁
  refine ⟨h₁, fun r a t₂ _ ha => ?_⟩
  cases r with
  | done =>
    obtain ⟨t₃, hput, heq⟩ := Option.map_eq_some_iff.mp ha
    obtain ⟨-, rfl⟩ := Prod.mk.inj heq
    rw [← List.take_length (l := Text.bytes text)] at hput
    exact (putEntry_true hS htext hcomplete₁ hput).1
  | failed e =>
    obtain ⟨-, rfl⟩ := Prod.mk.inj (Option.some.inj ha)
    exact h₁
  | found b => cases ha
  | response r => cases ha
  | contents c => cases ha

/-! ## Every operation -/

/-- With every listed file there, the two that verify are written over none of them. -/
theorem commit_holds {u : Verified S} {stagedAt : String} {files : List (String × Bytes)}
    (hS : S.Lawful) (hnames : S.NamesApart u.update.manifest) (h : S.MarkerTrue t)
    (hfiles : HasFiles S t (S.fold u.update.manifest.version) u.update.manifest.files) :
    Fallible.Holds S.machine S.spares S.MarkerTrue (fun _ t => S.MarkerTrue t)
      (S.commit u.update stagedAt files) t := by
  refine Fallible.Holds.bind (writeFile_holds h (fun _ _ h => h) fun t₁ h₁ hm hrest₁ => ?_)
  refine Fallible.Holds.bind (writeFile_holds h₁ (fun _ _ h => h) fun t₂ h₂ hs hrest₂ => ?_)
  have hcomplete : S.Complete t₂ (S.fold u.update.manifest.version) := by
    refine ⟨_, _, _, _, _, (hrest₂ _ hS.fold).trans hm, hs, Text.ofBytes_bytes _, u.verified, ?_⟩
    intro f hf
    obtain ⟨bytes, hbytes, hhash⟩ := hfiles f hf
    obtain ⟨hnotManifest, hnotSignature⟩ := hnames.1 f hf
    exact ⟨bytes, (hrest₂ _ hnotSignature).trans ((hrest₁ _ hnotManifest).trans hbytes), hhash⟩
  refine Fallible.Holds.bind (Fallible.holds_check.mpr ?_)
  cases htext : S.pendingText (pendingOf u.update stagedAt files) with
  | error e => exact h₂
  | ok text =>
    refine Fallible.Holds.bind ((writePending_holds hS htext h₂ hcomplete).post ?_)
    intro r t₃ h₃
    cases r with
    | error e => exact h₃
    | ok _ => exact h₃

/-- **Staging** keeps the marker true, wherever it stops. -/
theorem stage_holds (hS : S.Lawful) (u : Verified S) (stagedAt : String)
    (hnames : S.NamesApart u.update.manifest) (h : S.MarkerTrue t) :
    Fallible.Holds S.machine S.spares S.MarkerTrue (fun _ t => S.MarkerTrue t)
      (S.stage u.update stagedAt) t := by
  unfold stage
  extract_lets version
  refine Fallible.Holds.bind (Fallible.holds_check.mpr ?_)
  split
  swap
  · exact h
  refine Fallible.Holds.bind (attempt_true h (by nofun) fun r t₁ h₁ => ?_)
  split
  swap
  · exact h₁
  refine Fallible.Holds.bind (attempt_true h₁ (by nofun) fun found t₂ h₂ => ?_)
  have hclear : Fallible.Holds S.machine S.spares S.MarkerTrue (fun _ t => S.MarkerTrue t)
      (S.clearDir version found) t₂ := by
    unfold clearDir
    split
    · exact attempt_true h₂ (by nofun) fun _ _ h => h
    · exact h₂
  refine Fallible.Holds.bind (hclear.post fun r t₃ h₃ => ?_)
  split
  swap
  · exact h₃
  refine Fallible.Holds.bind ((downloadVerified_holds h₃).post ?_)
  rintro r t₄ ⟨h₄, hextracted⟩
  split
  swap
  · exact h₄
  rename_i files
  refine Fallible.Holds.bind (attempt_true h₄ (by nofun) fun r t₅ h₅ => ?_)
  split
  swap
  · exact h₅
  have hwrite : Fallible.Holds S.machine S.spares S.MarkerTrue
      (fun r t => S.MarkerTrue t ∧
        (r = .ok () → HasFiles S t (S.fold version) ([] ++ u.update.manifest.files)))
      (S.writeFiles version files) t₅ :=
    writeFiles_holds hnames (hextracted files rfl) (fun f hf => hf) h₅ nofun
  refine Fallible.Holds.bind (hwrite.post ?_)
  rintro r t₆ ⟨h₆, hfiles⟩
  split
  swap
  · exact h₆
  exact commit_holds hS hnames h₆ (hfiles rfl)

theorem forget_holds {α : Type} {x : Staging α}
    (h : Fallible.Holds S.machine S.spares S.MarkerTrue (fun _ t => S.MarkerTrue t) x t) :
    (forget x).Holds S.machine S.spares S.MarkerTrue (fun _ t => S.MarkerTrue t) t :=
  Program.Holds.bind (h.post fun _ _ h => h)

/-- The call does not write the marker. -/
def NotMarker (i : FileCall) : Prop := ∀ bytes, i ≠ .writePending bytes

theorem clearStaged_within : Fallible.Within NotMarker (clearStaged S) := by
  unfold clearStaged
  rw [Fallible.within_attempt_bind]
  refine ⟨nofun, fun r found _ => Fallible.Within.ite (fun _ => ?_) fun _ => ?_⟩
  · exact (Fallible.within_attempt _ _).mpr nofun
  · trivial

theorem sweepAppliedStaging_within : Fallible.Within NotMarker S.sweepAppliedStaging := by
  unfold sweepAppliedStaging
  refine Fallible.Within.ite (fun _ => trivial) fun _ => ?_
  rw [Fallible.within_attempt_bind]
  refine ⟨nofun, fun r contents _ => ?_⟩
  split
  · trivial
  · trivial
  · rw [Fallible.within_attempt_bind]
    refine ⟨nofun, fun r found _ => Fallible.Within.ite (fun _ => clearStaged_within) fun _ => ?_⟩
    trivial

theorem removeQuietly_within {i : FileCall} (hi : NotMarker i) (c : Bool) :
    Fallible.Within NotMarker (removeQuietly i c) :=
  Fallible.Within.ite (fun _ => (Fallible.within_attempt _ _).mpr hi) fun _ => trivial

theorem helperClearStaged_within (version : String) (runningFrom : Bool) :
    Fallible.Within NotMarker (helperClearStaged version runningFrom) := by
  refine Fallible.Within.bind (removeQuietly_within (by nofun) _) fun _ => ?_
  rw [Fallible.within_attempt_bind]
  exact ⟨nofun, fun r found _ => removeQuietly_within (by nofun) _⟩

/-- **Every operation** keeps the marker true; only staging writes one. -/
theorem program_holds (hS : S.Lawful) (o : Operation S) (hstart : S.spares.start o t)
    (h : S.MarkerTrue t) :
    o.program.Holds S.machine S.spares S.MarkerTrue (fun _ t => S.MarkerTrue t) t := by
  cases o with
  | stage u stagedAt => exact forget_holds (stage_holds hS u stagedAt hstart h)
  | clearStaged => exact forget_holds (within_true clearStaged_within h)
  | sweepAppliedStaging => exact forget_holds (within_true sweepAppliedStaging_within h)
  | helperClearStaged version runningFrom =>
    exact forget_holds (within_true (helperClearStaged_within version runningFrom) h)

end Stager

/-! ## A release that is staged, and staged again -/

/-- 128 times one digit. -/
def hexText (b : UInt8) (h : (⟨(List.replicate 128 b).toArray⟩ : ByteArray).validateUTF8 = true) :
    String := String.ofByteArray ⟨(List.replicate 128 b).toArray⟩ (by simpa using h)

/-- A hash, as far as two contents need it. -/
def twoHashes (bytes : Bytes) : String :=
  if bytes = [77, 90] then hexText 97 (by decide +kernel) else hexText 98 (by decide +kernel)

def secondManifest : Manifest where
  schema := 1
  channel := .stable
  version := "2.0.0"
  minMusicbeeBuild := 7000
  notesUrl := "https://github.com/musicbeeremote/mbrc-plugin/releases/tag/v2.0.0"
  zip := { name := "mbrc.zip", size := 2, sha512 := twoHashes [80, 75] }
  installer := { name := "mbrc.exe", size := 2, sha512 := twoHashes [] }
  files := [{ path := "mb_remote.dll", sha512 := twoHashes [77, 90] }]

def secondPending : Pending where
  schema := 1
  version := "2.0.0"
  stagedAt := "2026-01-01T00:00:00Z"
  files := ["mb_remote.dll"]

def secondPendingText : String :=
  "\x7b\n  \"schema\": 1,\n  \"version\": \"2.0.0\",\n" ++
    "  \"staged_at\": \"2026-01-01T00:00:00Z\",\n" ++
    "  \"files\": [\n    \"mb_remote.dll\"\n  ]\n\x7d"

/-- The libraries on one release: its manifest is the bytes 1 and 2, its zip `PK`. -/
def secondStager : Stager where
  crypto :=
    { Key := Unit
      Signature := String
      manifestJson b := if b = [1, 2] then .ok secondManifest else .error "expected value"
      utf8Error _ := "invalid utf-8 sequence"
      signature s := .ok s
      key _ := .ok ()
      verify _ b s := b = [1, 2] && s = "untrusted comment"
      sha512 := twoHashes }
  keys := [{ name := "release", base64 := "RWQ" }]
  unzip b :=
    if b = [80, 75] then
      .ok { names := [.ok "mb_remote.dll"]
            byName n := if n = "mb_remote.dll" then some (.ok [77, 90]) else none }
    else .error "invalid Zip archive"
  pendingText p := if p = secondPending then .ok secondPendingText else .error "unexpected"
  pendingJson s := if s = secondPendingText then .ok secondPending else .error "expected value"
  storage := "C:\\Users\\me\\AppData\\Roaming\\MusicBee\\mb_remote"
  fold s := String.ofList (s.toList.map Char.toLower)

def secondUpdate : Verified secondStager where
  update :=
    { manifest := secondManifest
      manifestBytes := [1, 2]
      signature := "untrusted comment"
      zipUrl := "zip"
      keyName := "release" }
  verified := by decide +kernel

theorem secondStager_lawful : secondStager.Lawful where
  json p text h := by
    simp only [secondStager] at h ⊢
    split at h
    · rename_i hp
      rw [← Except.ok.inj h, hp, if_pos rfl]
    · cases h
  cut p text k part h hk hpart := by
    simp only [secondStager] at h ⊢
    split at h
    · obtain rfl := Except.ok.inj h
      refine ⟨"expected value", if_neg ?_⟩
      rintro rfl
      have hlength := congrArg List.length (Text.bytes_of_ofBytes hpart)
      rw [List.length_take] at hlength
      omega
    · cases h
  fold := by decide +kernel

variable (S) in
/-- A marker of this version is accepted. -/
def accepts (t : Tree) (version : String) : Bool :=
  match S.readPending (t.fileAt (S.fold pendingFile)) with
  | .ok (some p) => p.version = version
  | _ => false

theorem accepts_eq_true {t : Tree} {version : String} (h : accepts S t version = true) :
    ∃ p, S.Accepts t p ∧ p.version = version := by
  unfold accepts at h
  split at h
  · rename_i p hp
    exact ⟨p, hp, of_decide_eq_true h⟩
  · cases h

/-- The move that begins a staging of the release. -/
def stageSecond : Move (Operation secondStager) Bit Reply :=
  .start (.stage secondUpdate "2026-01-01T00:00:00Z")

/-- All goes well. -/
def staged : List (Move (Operation secondStager) Bit Reply) :=
  [stageSecond, .answer .done, .answer (.found false),
    .answer (.response (.ok { status := 200, etag := none, body := [80, 75] })), .answer .done,
    .answer .done, .answer .done, .answer .done, .answer .done]

/-- The release is staged again: its directory is removed, and the download fails. -/
def stagedAgain : List (Move (Operation secondStager) Bit Reply) :=
  staged ++ [stageSecond, .answer .done, .answer (.found true),
    .during (.unlink "2.0.0" (some "manifest.json")),
    .during (.unlink "2.0.0" (some "manifest.json.minisig")),
    .during (.unlink "2.0.0" (some "mb_remote.dll")), .during (.unlink "2.0.0" none),
    .answer .done, .answer (.response (.error (.network "timeout")))]

/-- The marker of the first staging is still accepted, and names a directory that is gone. -/
theorem marker_untrue :
    ∃ w, secondStager.system.Reachable w ∧ ¬ secondStager.MarkerTrue w.1 := by
  have h : (secondStager.system.exec (none, .done ()) stagedAgain).any (fun w =>
      accepts secondStager w.1 "2.0.0" && (w.1.dirAt "2.0.0").isNone) = true := by
    decide +kernel
  obtain ⟨w, hw, hfacts⟩ := (Option.any_eq_true _ _).mp h
  rw [Bool.and_eq_true, Option.isNone_iff_eq_none] at hfacts
  obtain ⟨p, hp, hversion⟩ := accepts_eq_true hfacts.1
  refine ⟨w, ⟨_, _, ⟨rfl, rfl⟩, hw⟩, fun htrue => ?_⟩
  have hdir := (htrue p hp).dirAt
  have hfold : secondStager.fold p.version = "2.0.0" := by
    rw [hversion]
    decide +kernel
  rw [hfold, hfacts.2] at hdir
  cases hdir

/-- **The marker means a complete bundle**, at every moment of every sequence of operations that
leaves the directory an accepted marker names alone. -/
theorem marker_true {w₀ w : Tree × Program FileCall.Answer Unit}
    {ms : List (Move (Operation S) Bit Reply)} (hS : S.Lawful) (h₀ : S.system.start w₀)
    (hG : S.system.Along S.spares.Meets w₀ ms) (he : S.system.exec w₀ ms = some w) :
    S.MarkerTrue w.1 := by
  refine kept (I := S.MarkerTrue) (fun o t hstart h => ?_) ?_ h₀ hG he
  · exact Stager.program_holds hS o hstart h
  rintro t rfl
  exact Stager.markerTrue_of_none rfl

/-- Nothing is removed and no marker is there yet. -/
def fresh (w : Tree × Program FileCall.Answer Unit) : Move (Operation secondStager) Bit Reply → Bool
  | .start (.stage u _) => decide (u.update.manifest.files = secondManifest.files)
  | .start _ => true
  | .during _ => false
  | .answer _ => (w.1.fileAt (secondStager.fold pendingFile)).isNone

theorem meets_of_fresh {w : Tree × Program FileCall.Answer Unit}
    {m : Move (Operation secondStager) Bit Reply} (h : fresh w m = true) :
    secondStager.spares.Meets w m := by
  obtain ⟨t, p⟩ := w
  cases m with
  | start o =>
    cases o with
    | stage u stagedAt =>
      have hfiles := of_decide_eq_true h
      show secondStager.NamesApart u.update.manifest
      unfold Stager.NamesApart
      rw [hfiles]
      decide +kernel
    | _ => trivial
  | during d => cases h
  | answer r =>
    have hspared : ∀ k, secondStager.Spared t k := by
      intro k q hq
      rw [Stager.Accepts, Option.isNone_iff_eq_none.mp h] at hq
      cases hq
    cases p with
    | done a => trivial
    | call i next =>
      show secondStager.spares.answer i r t
      unfold Stager.spares
      cases i <;> cases r <;> first | trivial | exact hspared _

theorem marker_true_staged : ∃ w, secondStager.system.exec (none, .done ()) staged = some w ∧
    accepts secondStager w.1 "2.0.0" = true ∧ secondStager.MarkerTrue w.1 := by
  have h : (secondStager.system.exec (none, .done ()) staged).any
      (fun w => accepts secondStager w.1 "2.0.0") = true := by
    decide +kernel
  have hfresh : secondStager.system.checked fresh (none, .done ()) staged = true := by
    decide +kernel
  obtain ⟨w, hw, haccepts⟩ := (Option.any_eq_true _ _).mp h
  exact ⟨w, hw, haccepts, marker_true secondStager_lawful ⟨rfl, rfl⟩
    (secondStager.system.along_of_checked (fun _ _ => meets_of_fresh) hfresh) hw⟩

end Mbrc.Updates
