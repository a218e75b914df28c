import MbrcPlugin.Lib.Transition

/-!
# The cover of the playing track

`/api/cover/now-playing` renders the artwork of the track the cache holds; the hash in its URL is a
cache key, announced earlier, and its presence alone makes the answer immutable.  Where each request
names a hash that was announced for the file still in the cache, and a hash is announced only for
files whose artwork it names, an immutable answer is the picture its URL names
(`immutable_covers_named`).  Neither is checked.
-/

namespace Mbrc.NowPlayingCover

open Transition

/-! ## Tracks and pictures -/

/-- A playing track: its file, and the artwork the player announced for it. -/
structure Track (Art : Type) where
  path : String := ""
  artwork : Option Art := none
  deriving DecidableEq

/-- What artwork there is.  A picture at another size is the same picture. -/
structure Artwork (Art : Type) where
  /-- `artwork_raw`, where it can be resized. -/
  ofFile : String → Option Art
  /-- The content hash a picture is stored under. -/
  hash : Art → String
  /-- The bytes a content hash names. -/
  content : String → Option Art
  /-- The cover hash of a track's album, or of the track where it has no album. -/
  usual : String → Option String

/-- `is_content_hash`. -/
def isContentHash (hash : String) : Bool :=
  hash.toList.length = 40 && hash.toList.all fun c => c.isDigit || ('a' ≤ c && c ≤ 'f')

/-- The `cache-control` of an answer. -/
inductive CacheControl where
  | immutable | noCache
  deriving DecidableEq

/-- `nowPlayingCoverUrl`: the `v` of the URL, decoded. -/
def nowPlayingCoverUrl (hash : Option String) : Option String := hash.filter (· ≠ "")

/-- An answer with a picture. -/
structure Answer (Art : Type) where
  v : Option String
  cache : CacheControl
  picture : Art
  deriving DecidableEq

/-! ## The system -/

structure World (Art : Type) where
  /-- What the host plays. -/
  playing : Track Art := {}
  /-- The now-playing cache. -/
  cached : Track Art := {}
  /-- The cover hashes that were sent, each with the track it was sent for. -/
  announced : List (Track Art × String) := []
  /-- The requests whose picture is being rendered: their path and their `v`. -/
  pending : List (String × Option String) := []
  answers : List (Answer Art) := []

inductive Event (Art : Type) where
  /-- The host plays another track. -/
  | change (t : Track Art)
  /-- The host has the artwork of the playing track. -/
  | artworkReady (art : Art)
  /-- `refresh_track_bundle`. -/
  | refresh
  /-- `refresh_cover`. -/
  | refreshCover
  /-- A client is told the playing track; the store may fail to keep its artwork. -/
  | announce (kept : Bool)
  /-- A request reads the path of the cached track. -/
  | request (v : Option String)
  /-- Its picture is rendered; the host may fail, and the stored bytes be gone. -/
  | render (i : Nat) (failed stored : Bool)

section

variable {Art : Type} (A : Artwork Art)

/-- `playing_cover_hash`. -/
def coverHash (t : Track Art) (kept : Bool) : Option String :=
  match t.artwork with
  | some art => if kept then some (A.hash art) else A.usual t.path
  | none => A.usual t.path

/-- The picture that is rendered for a path and the hash of a URL. -/
def rendered (path : String) (v : Option String) (failed stored : Bool) : Option Art :=
  let fromFile := if failed then none else A.ofFile path
  fromFile.or ((v.filter isContentHash).bind fun hash => if stored then A.content hash else none)

/-- The header is chosen by the presence of `v`. -/
def cacheControl (v : Option String) : CacheControl := if v.isSome then .immutable else .noCache

def next (w : World Art) : Event Art → Option (World Art)
  | .change t => some { w with playing := t }
  | .artworkReady art => some { w with playing := { w.playing with artwork := some art } }
  | .refresh => some { w with cached := w.playing }
  | .refreshCover => some { w with cached := { w.cached with artwork := w.playing.artwork } }
  | .announce kept =>
    if w.cached.path = "" then some w
    else
      match coverHash A w.cached kept with
      | some hash => some { w with announced := w.announced ++ [(w.cached, hash)] }
      | none => some w
  | .request v =>
    if w.cached.path = "" then some w
    else some { w with pending := w.pending ++ [(w.cached.path, v)] }
  | .render i failed stored =>
    match w.pending[i]? with
    | none => none
    | some (path, v) =>
      let w := { w with pending := w.pending.eraseIdx i }
      match rendered A path v failed stored with
      | some picture =>
        some { w with answers := w.answers ++ [{ v, cache := cacheControl v, picture }] }
      | none => some w

def system : System (World Art) (Event Art) where
  start w := w = {}
  next := next A

/-! ## What is promised -/

/-- The picture of a track that was announced under a hash: the artwork of its file, or where it has
none the bytes of the hash. -/
def PictureOf (t : Track Art) (hash : String) (picture : Art) : Prop :=
  (A.ofFile t.path).or (A.content hash) = some picture

/-- **What is promised**: an immutable answer is a picture of a track announced under the hash of
its URL, and the answers to one URL are one picture. -/
structure Named (w : World Art) : Prop where
  ofTrack : ∀ a ∈ w.answers, a.cache = .immutable → ∀ hash, a.v = some hash →
    ∃ t, (t, hash) ∈ w.announced ∧ PictureOf A t hash a.picture
  once : ∀ a ∈ w.answers, ∀ b ∈ w.answers, a.cache = .immutable → b.cache = .immutable →
    a.v = b.v → a.picture = b.picture

/-! ## When it holds -/

/-- The hash was announced for the file, or for some track where the file has no artwork; or there
is no picture to answer with. -/
def Answerable (w : World Art) (path hash : String) : Prop :=
  (∃ entry ∈ w.announced, entry.2 = hash ∧ (entry.1.path = path ∨ A.ofFile path = none)) ∨
    rendered A path (some hash) false true = none

/-- A hash is announced only for a file whose artwork it names, or that has none; and a request
names a hash that was announced for the file the cache holds. -/
def Guard (w : World Art) : Event Art → Prop
  | .announce kept => ∀ hash ∈ coverHash A w.cached kept, ∀ art ∈ A.ofFile w.cached.path,
      A.content hash = some art
  | .request v => ∀ hash ∈ v, Answerable A w w.cached.path hash
  | _ => True

/-! ## Every run -/

structure Inv (w : World Art) : Prop where
  /-- A hash names the artwork of every file it was announced for. -/
  names : ∀ entry ∈ w.announced, ∀ art ∈ A.ofFile entry.1.path, A.content entry.2 = some art
  pending : ∀ request ∈ w.pending, ∀ hash ∈ request.2, Answerable A w request.1 hash
  answers : ∀ a ∈ w.answers, a.cache = .immutable → ∃ hash, a.v = some hash ∧
    A.content hash = some a.picture ∧ ∃ t, (t, hash) ∈ w.announced

variable {A}

theorem fromStore_eq {v : Option String} {stored : Bool} {hash : String} {picture : Art}
    (hv : v = some hash) (h : (v.filter isContentHash).bind
      (fun hash => if stored then A.content hash else none) = some picture) :
    isContentHash hash = true ∧ A.content hash = some picture := by
  subst hv
  obtain ⟨hash', hhash, h⟩ := Option.bind_eq_some_iff.mp h
  obtain ⟨heq, hshape⟩ := Option.filter_eq_some_iff.mp hhash
  obtain rfl := Option.some.inj heq
  split at h
  · exact ⟨hshape, h⟩
  · cases h

/-- What is rendered without a failure is there to be rendered. -/
theorem rendered_ne_none {path hash : String} {failed stored : Bool} {picture : Art}
    (h : rendered A path (some hash) failed stored = some picture) :
    rendered A path (some hash) false true ≠ none := by
  intro hnone
  obtain ⟨hfile, hstore⟩ := Option.or_eq_none_iff.mp hnone
  unfold rendered at h
  rcases Option.or_eq_some_iff.mp h with hfrom | ⟨-, hfrom⟩
  · split at hfrom
    · cases hfrom
    · rw [if_neg Bool.false_ne_true] at hfile
      rw [hfile] at hfrom
      cases hfrom
  · obtain ⟨hshape, hcontent⟩ := fromStore_eq rfl hfrom
    simp [hshape, hcontent] at hstore

/-- Under the hash of its URL a rendered picture is the one the hash names. -/
theorem Inv.rendered {w : World Art} (hinv : Inv A w) {path hash : String} {failed stored : Bool}
    {picture : Art} (hanswerable : Answerable A w path hash)
    (hrendered : rendered A path (some hash) failed stored = some picture) :
    A.content hash = some picture ∧ ∃ t, (t, hash) ∈ w.announced := by
  obtain ⟨entry, hentry, rfl, hfile⟩ := hanswerable.resolve_right (rendered_ne_none hrendered)
  refine ⟨?_, entry.1, hentry⟩
  unfold NowPlayingCover.rendered at hrendered
  rcases Option.or_eq_some_iff.mp hrendered with hfrom | ⟨-, hfrom⟩
  · split at hfrom
    · cases hfrom
    · rcases hfile with hpath | hnone
      · rw [← hpath] at hfrom
        exact hinv.names entry hentry picture hfrom
      · rw [hnone] at hfrom
        cases hfrom
  · exact (fromStore_eq rfl hfrom).2

theorem Answerable.mono {w w' : World Art} {path hash : String} (h : Answerable A w path hash)
    (hsub : ∀ entry ∈ w.announced, entry ∈ w'.announced) : Answerable A w' path hash := by
  refine h.imp_left fun hentry => ?_
  obtain ⟨entry, hentry, hrest⟩ := hentry
  exact ⟨entry, hsub entry hentry, hrest⟩

theorem inv_step {w w' : World Art} {event : Event Art} (hinv : Inv A w)
    (hguard : Guard A w event) (hnext : (system A).next w event = some w') : Inv A w' := by
  change next A w event = some w' at hnext
  cases event with
  | change t =>
    cases hnext
    exact ⟨hinv.names, hinv.pending, hinv.answers⟩
  | artworkReady art =>
    cases hnext
    exact ⟨hinv.names, hinv.pending, hinv.answers⟩
  | refresh =>
    cases hnext
    exact ⟨hinv.names, hinv.pending, hinv.answers⟩
  | refreshCover =>
    cases hnext
    exact ⟨hinv.names, hinv.pending, hinv.answers⟩
  | announce kept =>
    simp only [next] at hnext
    split at hnext
    · cases hnext
      exact hinv
    · split at hnext <;> cases hnext
      · rename_i hash hhash
        have hsub : ∀ entry ∈ w.announced, entry ∈ w.announced ++ [(w.cached, hash)] :=
          fun entry => List.mem_append_left _
        refine ⟨?_, ?_, ?_⟩
        · intro entry hentry
          rcases List.mem_append.mp hentry with hentry | hentry
          · exact hinv.names entry hentry
          · rw [List.mem_singleton.mp hentry]
            exact hguard hash hhash
        · intro request hrequest hash' hhash'
          exact (hinv.pending request hrequest hash' hhash').mono hsub
        · intro a ha himmutable
          obtain ⟨hash', hv, hcontent, t, ht⟩ := hinv.answers a ha himmutable
          exact ⟨hash', hv, hcontent, t, hsub _ ht⟩
      · exact hinv
  | request v =>
    simp only [next] at hnext
    split at hnext <;> cases hnext
    · exact hinv
    · refine ⟨hinv.names, ?_, hinv.answers⟩
      intro request hrequest hash hhash
      rcases List.mem_append.mp hrequest with hrequest | hrequest
      · exact hinv.pending request hrequest hash hhash
      · rw [List.mem_singleton.mp hrequest] at hhash ⊢
        exact hguard hash hhash
  | render i failed stored =>
    simp only [next] at hnext
    split at hnext
    · cases hnext
    · rename_i path v hget
      have hrequest : (path, v) ∈ w.pending := List.mem_of_getElem? hget
      have hrest : ∀ request ∈ w.pending.eraseIdx i, request ∈ w.pending :=
        fun request => List.mem_of_mem_eraseIdx
      split at hnext <;> cases hnext
      · rename_i picture hpicture
        refine ⟨hinv.names, fun request hr => hinv.pending request (hrest request hr), ?_⟩
        intro a ha himmutable
        rcases List.mem_append.mp ha with ha | ha
        · exact hinv.answers a ha himmutable
        · rw [List.mem_singleton.mp ha] at himmutable ⊢
          cases v with
          | none => cases himmutable
          | some hash =>
            exact ⟨hash, rfl, hinv.rendered (hinv.pending _ hrequest hash rfl) hpicture⟩
      · exact ⟨hinv.names, fun request hr => hinv.pending request (hrest request hr),
          hinv.answers⟩

theorem named_of_inv {w : World Art} (hinv : Inv A w) : Named A w where
  ofTrack a ha himmutable hash hv := by
    obtain ⟨hash', hv', hcontent, t, ht⟩ := hinv.answers a ha himmutable
    obtain rfl := Option.some.inj (hv.symm.trans hv')
    refine ⟨t, ht, ?_⟩
    unfold PictureOf
    cases hfile : A.ofFile t.path with
    | none => exact hcontent
    | some art =>
      have hnames := hinv.names _ ht art hfile
      rw [hcontent] at hnames
      exact hnames.symm
  once a ha b hb himmutable himmutable' hv := by
    obtain ⟨hash, hva, hcontent, -⟩ := hinv.answers a ha himmutable
    obtain ⟨hash', hvb, hcontent', -⟩ := hinv.answers b hb himmutable'
    obtain rfl : hash = hash' := Option.some.inj (hva.symm.trans (hv.trans hvb))
    exact Option.some.inj (hcontent.symm.trans hcontent')

/-- **An immutable cover is the cover its URL names**, in the runs whose announcements and requests
meet the guard. -/
theorem immutable_covers_named {events : List (Event Art)} {w : World Art}
    (hrun : (system A).exec {} events = some w) (hguard : (system A).Along (Guard A) {} events) :
    Named A w := by
  refine named_of_inv ((system A).exec_induction (fun _ _ _ => inv_step) ?_ hguard hrun)
  exact ⟨by simp, by simp, by simp⟩

end

/-! ## Two tracks -/

/-- Two files with a sleeve each. -/
def sleeves : Artwork Bool where
  ofFile path := if path = "a" then some true else if path = "b" then some false else none
  hash sleeve := String.ofList (List.replicate 40 (if sleeve then 'a' else 'b'))
  content hash :=
    if hash.toList = List.replicate 40 'a' then some true
    else if hash.toList = List.replicate 40 'b' then some false
    else none
  usual _ := none

def first : Track Bool := { path := "a", artwork := some true }

def second : Track Bool := { path := "b", artwork := some false }

/-- The first track is announced, and its cover requested while it plays. -/
def inTime : List (Event Bool) :=
  [.change first, .refresh, .announce true,
    .request (nowPlayingCoverUrl (coverHash sleeves first true)), .render 0 false true]

/-- Its cover is requested once more, and the cache holds the next track by then. -/
def late : List (Event Bool) :=
  inTime ++ [.change second, .refresh,
    .request (nowPlayingCoverUrl (coverHash sleeves first true)), .render 0 false true]

instance (w : World Bool) (event : Event Bool) : Decidable (Guard sleeves w event) := by
  unfold Guard Answerable
  split <;> infer_instance

theorem immutable_covers_named_inTime :
    ∃ w, (system sleeves).exec {} inTime = some w ∧ w.answers.length = 1 ∧ Named sleeves w := by
  have hrun : ((system sleeves).exec {} inTime).any
      (fun w => decide (w.answers.length = 1)) = true := by decide +kernel
  have hguard : (system sleeves).checked (fun w event => decide (Guard sleeves w event)) {}
      inTime = true := by decide +kernel
  obtain ⟨w, hrun, hw⟩ := (Option.any_eq_true _ _).mp hrun
  exact ⟨w, hrun, of_decide_eq_true hw, immutable_covers_named hrun
    ((system sleeves).along_of_checked (fun _ _ h => of_decide_eq_true h) hguard)⟩

/-- **The next track's sleeve under the first track's hash**, to be kept for a year. -/
theorem immutable_covers_misnamed :
    ∃ w, (system sleeves).exec {} late = some w ∧
      (∃ a ∈ w.answers, a.cache = .immutable ∧ ∃ hash, a.v = some hash ∧
        ∀ t, (t, hash) ∈ w.announced → ¬ PictureOf sleeves t hash a.picture) ∧
      ∃ a ∈ w.answers, ∃ b ∈ w.answers, a.cache = .immutable ∧ b.cache = .immutable ∧
        a.v = b.v ∧ a.picture ≠ b.picture := by
  have hrun : ((system sleeves).exec {} late).any (fun w => decide
      (w.answers = [⟨some (sleeves.hash true), .immutable, true⟩,
          ⟨some (sleeves.hash true), .immutable, false⟩] ∧
        w.announced = [(first, sleeves.hash true)])) = true := by decide +kernel
  obtain ⟨w, hrun, hw⟩ := (Option.any_eq_true _ _).mp hrun
  obtain ⟨hanswers, hannounced⟩ := of_decide_eq_true hw
  refine ⟨w, hrun, ?_, ?_⟩
  · refine ⟨⟨some (sleeves.hash true), .immutable, false⟩, by simp [hanswers], rfl,
      sleeves.hash true, rfl, ?_⟩
    intro t ht hpicture
    rw [hannounced, List.mem_singleton] at ht
    cases ht
    cases hpicture
  · exact ⟨⟨some (sleeves.hash true), .immutable, true⟩, by simp [hanswers],
      ⟨some (sleeves.hash true), .immutable, false⟩, by simp [hanswers], rfl, rfl, rfl, by decide⟩

end Mbrc.NowPlayingCover
