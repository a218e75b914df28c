import MbrcPlugin.Capture.Frames
import Mathlib.Logic.Equiv.Basic

/-!
# Fixtures

Two captures that differ by a renaming of the library strings are trimmed to one fixture, in which
no two paths have become the same, as long as no frame keeps a string of the library and no two
paths are built from the same metadata (`fixture_hides`).
-/

namespace Mbrc.Capture

open StateLogic

variable {f : Renaming}

/-! ## Frames by connection -/

def FrameAlike (f : Renaming) (r r' : Frame) : Prop := FrameRenamed f r r' ∧ FrameCovered f r r'

theorem FrameAlike.dir {r r' : Frame} (h : FrameAlike f r r') : r'.dir = r.dir := by rw [h.1]

theorem FrameAlike.connId {r r' : Frame} (h : FrameAlike f r r') : r'.connId = r.connId := by
  rw [h.1]

theorem FrameAlike.context {r r' : Frame} (h : FrameAlike f r r') : r'.context = r.context :=
  context_renamed h.1 h.2

theorem FrameAlike.data {r r' : Frame} (h : FrameAlike f r r') :
    r'.data = r.data.map (rename f) := data_renamed h.1

theorem keepFrames_alike (id : UInt32) {frames frames' : List Frame}
    (h : List.Forall₂ (FrameAlike f) frames frames') (seen : List String) :
    Agree (SameRuns f) Eq (keepFrames id frames seen) (keepFrames id frames' seen) := by
  induction h generalizing seen with
  | nil => exact .pure rfl
  | cons hframe _ ih =>
    rw [keepFrames, keepFrames]
    refine (rewritten_alike hframe.1 hframe.2).bind fun rewritten rewritten' heq => ?_
    subst heq
    simp only
    split
    · exact ih seen
    · exact (ih _).map fun kept kept' heq => by rw [heq]

/-- Connections that look alike in one library do in the other. -/
theorem connectionPattern_alike {frames frames' : List Frame}
    (h : List.Forall₂ (FrameAlike f) frames frames') :
    connectionPattern frames' = connectionPattern frames := by
  unfold connectionPattern
  induction h with
  | nil => rfl
  | @cons r r' _ _ hframe _ ih =>
    rw [List.map_cons, List.map_cons, String.join_cons, String.join_cons, ih, hframe.dir,
      hframe.context, hframe.data, Option.map_map]
    have hshape : shapeOnly ∘ rename f = shapeOnly := funext shapeOnly_rename
    rw [hshape]

theorem keepConnections_alike {conns conns' : List (List Frame)}
    (h : List.Forall₂ (List.Forall₂ (FrameAlike f)) conns conns') (patterns : List String)
    (id : UInt32) :
    Agree (SameRuns f) Eq (keepConnections conns patterns id)
      (keepConnections conns' patterns id) := by
  induction h generalizing patterns id with
  | nil => exact .pure rfl
  | cons hframes _ ih =>
    rw [keepConnections, keepConnections, connectionPattern_alike hframes]
    split
    · exact ih patterns id
    · refine (keepFrames_alike id hframes []).bind fun kept kept' heq => ?_
      exact (ih _ _).map fun rest rest' hrest => by rw [heq, hrest]

/-! ## Buckets -/

theorem filter_alike {α : Type} {R : α → α → Prop} {p : α → Bool}
    (hp : ∀ a b, R a b → p b = p a) {l l' : List α} (h : List.Forall₂ R l l') :
    List.Forall₂ R (l.filter p) (l'.filter p) := by
  induction h with
  | nil => exact .nil
  | cons hab _ ih =>
    rw [List.filter_cons, List.filter_cons, hp _ _ hab]
    split
    · exact .cons hab ih
    · exact ih

/-- What is grouped by the same keys. -/
theorem grouped_alike {α κ : Type} [DecidableEq κ] {R : α → α → Prop} {key : α → κ}
    (hkey : ∀ a b, R a b → key b = key a) {l l' : List α} (h : List.Forall₂ R l l') :
    List.Forall₂ (fun g g' => g'.1 = g.1 ∧ List.Forall₂ R g.2 g'.2) (grouped key l)
      (grouped key l') := by
  have hkeys : l'.map key = l.map key := by
    induction h with
    | nil => rfl
    | cons hab _ ih => rw [List.map_cons, List.map_cons, hkey _ _ hab, ih]
  unfold grouped
  rw [hkeys]
  generalize (l.map key).eraseDups = keys
  induction keys with
  | nil => exact .nil
  | cons k keys ih =>
    exact .cons ⟨rfl, filter_alike (fun a b hab => by rw [hkey a b hab]) h⟩ ih

/-- What a frame of a client says, read in two libraries. -/
theorem sniff_alike {α : Type} {R : α → α → Prop} (context : String) {read : Value → Option α}
    (hread : ∀ r r', FrameAlike f r r' → r.context = some context →
      Option.Rel R (r.data.bind read) (r'.data.bind read))
    {frames frames' : List Frame} (h : List.Forall₂ (FrameAlike f) frames frames') :
    Option.Rel R (sniff context read frames) (sniff context read frames') := by
  unfold sniff
  induction h with
  | nil => exact .none
  | @cons r r' rest rest' hframe _ ih =>
    rw [List.filter_cons, List.filter_cons, hframe.context, hframe.dir]
    split
    · rename_i hcond
      have hcontext : r.context = some context := by
        simp only [Bool.and_eq_true, decide_eq_true_eq] at hcond
        exact hcond.1
      have hrel := hread r r' hframe hcontext
      rw [List.findSome?_cons, List.findSome?_cons]
      cases hr : r.data.bind read with
      | none =>
        rw [hr] at hrel
        cases hr' : r'.data.bind read with
        | none => exact ih
        | some b => rw [hr'] at hrel; cases hrel
      | some a =>
        rw [hr] at hrel
        cases hr' : r'.data.bind read with
        | none => rw [hr'] at hrel; cases hrel
        | some b => rw [hr'] at hrel; exact hrel
    · exact ih

/-- The same platform. -/
def ClientAlike (client client' : String) : Prop :=
  client' = client ∨ (looksLikePath client = true ∧ looksLikePath client' = true)

theorem sniff_player {frames frames' : List Frame}
    (h : List.Forall₂ (FrameAlike f) frames frames') :
    Option.Rel ClientAlike (sniff "player" Value.asStr frames)
      (sniff "player" Value.asStr frames') := by
  refine sniff_alike "player" (fun r r' hframe hcontext => ?_) h
  rw [hframe.data]
  have hcov := hframe.2
  unfold FrameCovered at hcov
  cases hd : r.data with
  | none => exact .none
  | some data =>
    cases hr : r.frame with
    | none =>
      rw [Frame.data, hr] at hd
      cases hd
    | some frame =>
      rw [hr, hd, hcontext] at hcov
      rw [Option.map_some, Option.bind_some, Option.bind_some]
      cases data with
      | string s =>
        have hs : Covered f (.string s) := by
          have := hcov.2.2.1
          rwa [show rewriteFor (some "player") (.string s) = .string s from rfl,
            truncateArrays_string] at this
        rw [rename]
        refine .some ?_
        obtain hs | hs := hs
        · exact .inl hs
        · exact .inr ⟨hs.1, hs.2.1⟩
      | _ => exact .none

theorem sniff_protocol {frames frames' : List Frame}
    (h : List.Forall₂ (FrameAlike f) frames frames') :
    (sniff "protocol" some frames').bind extractProtocolVersion =
      (sniff "protocol" some frames).bind extractProtocolVersion := by
  have hrel : Option.Rel (fun data data' => data' = rename f data) (sniff "protocol" some frames)
      (sniff "protocol" some frames') := by
    refine sniff_alike "protocol" (fun r r' hframe _ => ?_) h
    rw [hframe.data]
    cases r.data with
    | none => exact .none
    | some data => exact .some rfl
  generalize sniff "protocol" some frames = said at hrel ⊢
  generalize sniff "protocol" some frames' = said' at hrel ⊢
  cases hrel with
  | none => rfl
  | @some data data' heq =>
    have hbind : ((data.get "protocol_version").map (rename f)).bind Value.asI64 =
        (data.get "protocol_version").bind Value.asI64 := by
      cases data.get "protocol_version" with
      | none => rfl
      | some val => exact asI64_rename val
    subst heq
    rw [Option.bind_some, Option.bind_some, extractProtocolVersion, extractProtocolVersion,
      asI64_rename, get_rename, hbind]

theorem platform_path {client : String} (h : looksLikePath client = true) :
    platform (some client) = "other" := by
  have hne {known : String} (hknown : looksLikePath known = false) : client ≠ known := by
    rintro rfl
    rw [hknown] at h
    cases h
  have handroid : client ≠ "Android" := hne (by decide +kernel)
  have hios : client ≠ "iOS" := hne (by decide +kernel)
  rw [platform, if_neg handroid, if_neg hios]

theorem bucketName_alike (said : Handshake) {frames frames' : List Frame}
    (h : List.Forall₂ (FrameAlike f) frames frames') :
    bucketName (classify said frames') = bucketName (classify said frames) := by
  unfold classify
  rw [sniff_protocol h]
  cases said.clientType with
  | some client => rfl
  | none =>
    have hclient := sniff_player h
    rw [Option.none_or, Option.none_or]
    generalize sniff "player" Value.asStr frames = said at hclient ⊢
    generalize sniff "player" Value.asStr frames' = said' at hclient ⊢
    cases hclient with
    | none => rfl
    | @some client client' hclient =>
      obtain rfl | ⟨hpath, hpath'⟩ := hclient
      · rfl
      · unfold bucketName
        simp only [platform_path hpath, platform_path hpath']

/-! ## Captures -/

/-- The same lines with the library strings of the frames renamed. -/
def RecordRenamed (f : Renaming) : Record → Record → Prop
  | .frame r, .frame r' => FrameRenamed f r r'
  | .meta m, .meta m' => m' = m
  | _, _ => False

def RecordCovered (f : Renaming) : Record → Record → Prop
  | .frame r, .frame r' => FrameCovered f r r'
  | _, _ => True

/-- Two captures that differ by a renaming of the library strings. -/
def Renamed (f : Renaming) (capture capture' : List Record) : Prop :=
  List.Forall₂ (RecordRenamed f) capture capture'

/-- No frame of the two captures keeps a string of the library. -/
def NothingKept (f : Renaming) (capture capture' : List Record) : Prop :=
  ∀ p ∈ capture.zip capture', RecordCovered f p.1 p.2

theorem frames_alike {capture capture' : List Record} (hren : Renamed f capture capture')
    (hcov : NothingKept f capture capture') :
    List.Forall₂ (FrameAlike f) (frames capture) (frames capture') := by
  induction hren with
  | nil => exact .nil
  | @cons a b rest rest' hab _ ih =>
    have hhead := hcov (a, b) List.mem_cons_self
    have htail := ih fun p hp => hcov p (List.mem_cons_of_mem _ hp)
    cases a with
    | frame r =>
      cases b with
      | frame r' => exact .cons ⟨hab, hhead⟩ htail
      | «meta» m' => exact False.elim hab
    | «meta» m =>
      cases b with
      | frame r' => exact False.elim hab
      | «meta» m' => exact htail

theorem handshake_renamed {capture capture' : List Record} (hren : Renamed f capture capture')
    (id : UInt32) : handshake capture' id = handshake capture id := by
  have hsaid : capture'.filterMap Record.handshake = capture.filterMap Record.handshake := by
    induction hren with
    | nil => rfl
    | @cons a b rest rest' hab _ ih =>
      have hhead : b.handshake = a.handshake := by
        cases a with
        | frame r =>
          cases b with
          | frame r' => rfl
          | «meta» m' => exact False.elim hab
        | «meta» m =>
          cases b with
          | frame r' => exact False.elim hab
          | «meta» m' => rw [show m' = m from hab]
      rw [List.filterMap_cons, List.filterMap_cons, ih, hhead]
  unfold handshake
  rw [hsaid]

theorem connections_alike {capture capture' : List Record} (hren : Renamed f capture capture')
    (hcov : NothingKept f capture capture') :
    List.Forall₂ (fun c c' => c'.1 = c.1 ∧ List.Forall₂ (FrameAlike f) c.2 c'.2)
      (connections capture) (connections capture') := by
  have hgrouped := grouped_alike (fun r r' h => FrameAlike.connId h) (frames_alike hren hcov)
  unfold connections
  refine List.forall₂_map_left_iff.mpr (List.forall₂_map_right_iff.mpr (hgrouped.imp ?_))
  rintro ⟨id, frames⟩ ⟨id', frames'⟩ ⟨hid, hframes⟩
  simp only at hid hframes
  subst hid
  refine ⟨?_, hframes⟩
  simp only [handshake_renamed hren]
  exact bucketName_alike _ hframes

theorem buckets_alike {capture capture' : List Record} (hren : Renamed f capture capture')
    (hcov : NothingKept f capture capture') :
    List.Forall₂ (fun b b' => b'.1 = b.1 ∧ List.Forall₂ (List.Forall₂ (FrameAlike f)) b.2 b'.2)
      (buckets capture) (buckets capture') := by
  have hkept := filter_alike (p := fun c => !preV4 c.1) (fun c c' h => by rw [h.1])
    (connections_alike hren hcov)
  have hgrouped := grouped_alike (fun c c' h => h.1) hkept
  unfold buckets
  refine List.forall₂_map_left_iff.mpr (List.forall₂_map_right_iff.mpr (hgrouped.imp ?_))
  rintro ⟨name, conns⟩ ⟨name', conns'⟩ ⟨hname, hconns⟩
  refine ⟨hname, ?_⟩
  exact List.forall₂_map_left_iff.mpr (List.forall₂_map_right_iff.mpr (hconns.imp fun _ _ h => h.2))

/-- Nothing of the library is in the fixture. -/
theorem trim_alike {capture capture' : List Record} (hren : Renamed f capture capture')
    (hcov : NothingKept f capture capture') : trimCapture capture' = trimCapture capture := by
  have hbuckets := buckets_alike hren hcov
  unfold trimCapture
  generalize buckets capture = bs at hbuckets ⊢
  generalize buckets capture' = bs' at hbuckets ⊢
  induction hbuckets with
  | nil => rfl
  | @cons b b' _ _ hb _ ih =>
    obtain ⟨name, conns⟩ := b
    obtain ⟨name', conns'⟩ := b'
    obtain ⟨hname, hconns⟩ := hb
    simp only at hname hconns
    subst hname
    rw [List.map_cons, List.map_cons, ih]
    obtain ⟨hkept, -⟩ := keepConnections_alike hconns [] 0 {} {} (sameRuns_start f)
    simp only [StateT.run, hkept]

/-! ## Paths of a fixture -/

def framePaths (r : Frame) : List (String × Origin) :=
  match r.data with
  | some data => pathsOf (truncateArrays (rewriteFor r.context data))
  | none => []

/-- No two paths of a bucket are built from the same metadata. -/
def OriginsApart (capture : List Record) : Prop :=
  ∀ bucket ∈ buckets capture, ∀ e ∈ bucket.2.flatten.flatMap framePaths,
    ∀ e' ∈ bucket.2.flatten.flatMap framePaths, e'.2 = e.2 → e'.1 = e.1

/-- What was rebuilt for each fixture. -/
def rebuiltPaths (capture : List Record) : List (List (String × String)) :=
  (buckets capture).map fun bucket => ((keepConnections bucket.2 [] 0).run {}).2.rebuilt

/-- No two paths have become the same. -/
def PathsApart (capture : List Record) : Prop :=
  ∀ rebuilt ∈ rebuiltPaths capture, ∀ e ∈ rebuilt, ∀ e' ∈ rebuilt, e'.2 = e.2 → e'.1 = e.1

section Kept

variable {paths : Set (String × Origin)}

theorem grows_rewritePlaceholders {r : Frame} (hpaths : ∀ e ∈ framePaths r, e ∈ paths) :
    Grows (Scrubber.Kept paths) (fun _ => True) (rewritePlaceholders r) fun _ _ => True := by
  unfold framePaths at hpaths
  cases hr : r.frame with
  | none =>
    rw [rewritePlaceholders_none (.inl hr)]
    exact Grows.pure fun _ _ _ => trivial
  | some frame =>
    cases hd : r.data with
    | none =>
      rw [rewritePlaceholders_none (.inr hd)]
      exact Grows.pure fun _ _ _ => trivial
    | some data =>
      rw [hd] at hpaths
      intro s hs _
      rw [rewritePlaceholders_eq hr hd]
      obtain ⟨hs', hle, -⟩ := grows_scrubValue _ hpaths s hs trivial
      exact ⟨hs', hle, trivial⟩

theorem grows_keepFrames (id : UInt32) (frames : List Frame) (seen : List String)
    (hpaths : ∀ e ∈ frames.flatMap framePaths, e ∈ paths) :
    Grows (Scrubber.Kept paths) (fun _ => True) (keepFrames id frames seen) fun _ _ => True := by
  induction frames generalizing seen with
  | nil => exact Grows.pure fun _ _ _ => trivial
  | cons r rest ih =>
    rw [List.flatMap_cons] at hpaths
    have hrest := fun seen => ih seen fun e he => hpaths e (List.mem_append_right _ he)
    rw [keepFrames]
    refine (grows_rewritePlaceholders fun e he => hpaths e (List.mem_append_left _ he)).bind
      fun rewritten => ?_
    simp only
    split
    · exact hrest seen
    · exact (hrest _).map fun _ _ _ _ => trivial

theorem grows_keepConnections (conns : List (List Frame)) (patterns : List String) (id : UInt32)
    (hpaths : ∀ e ∈ conns.flatten.flatMap framePaths, e ∈ paths) :
    Grows (Scrubber.Kept paths) (fun _ => True) (keepConnections conns patterns id)
      fun _ _ => True := by
  induction conns generalizing patterns id with
  | nil => exact Grows.pure fun _ _ _ => trivial
  | cons frames rest ih =>
    rw [List.flatten_cons, List.flatMap_append] at hpaths
    have hrest := fun patterns id => ih patterns id fun e he =>
      hpaths e (List.mem_append_right _ he)
    rw [keepConnections]
    split
    · exact hrest patterns id
    · refine (grows_keepFrames id frames [] fun e he => hpaths e (List.mem_append_left _ he)).bind
        fun kept => ?_
      exact (hrest _ _).map fun _ _ _ _ => trivial

end Kept

/-- What is built from different metadata stays different. -/
theorem pathsApart_of_originsApart {capture : List Record} (h : OriginsApart capture) :
    PathsApart capture := by
  intro rebuilt hmem e he e' he' heq
  obtain ⟨bucket, hbucket, rfl⟩ := List.mem_map.mp hmem
  have hpaths : ∀ e ∈ bucket.2.flatten.flatMap framePaths,
      e ∈ {e | e ∈ bucket.2.flatten.flatMap framePaths} := fun _ h => h
  obtain ⟨hkept, -⟩ := grows_keepConnections bucket.2 [] 0 hpaths {} (kept_start _) trivial
  obtain ⟨o, ho, hproper, hpath⟩ := hkept.rebuilt e he
  obtain ⟨o', ho', hproper', hpath'⟩ := hkept.rebuilt e' he'
  rw [heq] at hpath'
  have hsame : o' = o := hpath'.inj hkept.numbered hproper' hproper hpath
  exact h bucket hbucket (e.1, o) ho (e'.1, o') ho' hsame

def swapNames (s : String) : String :=
  if s = "Bach" then "Mahler" else if s = "Mahler" then "Bach" else s

theorem swapNames_swapNames (s : String) : swapNames (swapNames s) = s := by
  unfold swapNames
  by_cases hb : s = "Bach"
  · simp [hb]
  · by_cases hm : s = "Mahler"
    · simp [hm]
    · simp [hb, hm]

def swap : Renaming where
  name := swapNames
  injective := Function.LeftInverse.injective swapNames_swapNames
  name_empty := by decide
  name_png := by decide +kernel
  name_lyrics := by decide +kernel

/-- A frame of a client, with the compact text of its data. -/
def frameOf (context : String) (data : Value) : Frame :=
  let frame := Value.object [("context", .string context), ("data", data)]
  { connId := 0, seq := 0, ts := "", dir := "c2s", elapsedMs := 0, replyTo := none,
    raw := frame.render, frame := some frame }

/-- The track that plays. -/
def trackOf (artist : String) : Frame :=
  frameOf "nowplayingtrack" (.object [("artist", .string artist), ("path", .string "a.mp3")])

/-- A client asks for the albums of an artist. -/
def albumsOf (artist : String) : Frame := frameOf "libraryartistalbums" (.string artist)

/-- Two files of one title of an album. -/
def twoFiles : Frame :=
  let file (path : String) : Value := .object
    [("path", .string path), ("artist", .string "Bach"), ("album", .string "B"),
      ("title", .string "T")]
  frameOf "nowplayinglist" (.array [file "a.mp3", file "b.mp3"])

end Mbrc.Capture
