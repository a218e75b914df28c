import MbrcPlugin.Lib.Paging
import MbrcPlugin.Lib.Transition

/-!
# The media store of the web app

The books of a category and the files of the book open in it, each read in pages.  An answer for
another category or another book than is shown is dropped; one for the same goes on from where its
request said, whatever became of the rows meanwhile.
-/

namespace Mbrc.WebApp.Browse

open Flight Paging

variable {α β : Type}

inductive MediaSource where
  | audiobooks | videos | inbox
  deriving DecidableEq

structure MediaScope where
  artist : Option String := none
  album : Option String := none
  query : Option String := none
  deriving DecidableEq

/-- An absent scope is the same as one that narrows nothing. -/
def sameScope (a b : Option MediaScope) : Bool :=
  a.bind MediaScope.album = b.bind MediaScope.album &&
    a.bind MediaScope.artist = b.bind MediaScope.artist

/-- The files of a scope of a category. -/
@[ext]
structure Files where
  source : MediaSource
  scope : MediaScope
  deriving DecidableEq

def oneSlot {V : Type} : V → Unit := fun _ => ()

def mediaPageSize : Nat := 100

/-! ## The store -/

structure Media (α β : Type) where
  source : Option MediaSource := none
  albums : Pane MediaSource Unit α := {}
  /-- The source whose first page of albums was read. -/
  loadedSource : Option MediaSource := none
  /-- The book open, one that narrows nothing for every file in the category. -/
  «open» : Option MediaScope := none
  tracks : Pane Files Unit β := {}
  showMedia : Bool := true
  albumHistory : History MediaSource α
  trackHistory : History Files β
  now : Nat

namespace Media

/-- The files that are shown: those of the open book. -/
def files (w : Media α β) : Option Files :=
  match w.source, w.open with
  | some source, some scope => some { source, scope }
  | _, _ => none

def loadAlbums (w : Media α β) (append : Bool) : Media α β :=
  match w.source with
  | none => w
  | some source =>
    { w with
      albums := if append then w.albums.ask oneSlot source true
        else w.albums.start oneSlot source }

def loadTracks (w : Media α β) (append : Bool) : Media α β :=
  match w.files with
  | none => w
  | some files =>
    { w with
      tracks := if append then w.tracks.ask oneSlot files true
        else w.tracks.start oneSlot files }

def resetTracks (w : Media α β) : Media α β := { w with tracks := w.tracks.clear () }

/-- Drops the open book. -/
def close (w : Media α β) : Media α β := { w with «open» := none }.resetTracks

/-- Shows a category's books, read afresh unless they were already read. -/
def showSource (w : Media α β) (next : MediaSource) : Media α β :=
  if w.source = some next ∧ w.loadedSource = some next then w
  else if w.source = some next then w.loadAlbums false
  else { w with
    source := some next
    loadedSource := none
    albums := w.albums.clear () }.close.loadAlbums false

def openBook (w : Media α β) (scope : MediaScope) : Media α β :=
  { (if sameScope w.open (some scope) then w else w.resetTracks) with
    «open» := some scope }.loadTracks false

/-- A `media_changed` of a category. -/
def mediaChanged (w : Media α β) (changed : MediaSource) : Media α β :=
  if w.showMedia ∧ w.source = some changed then
    if w.open.isSome then (w.loadAlbums false).loadTracks false else w.loadAlbums false
  else w

def landAlbums (w : Media α β) (i : Nat) (asked : Ask MediaSource) (page : Page α) : Media α β :=
  if w.source ≠ some asked.list then { w with albums := w.albums.off i }
  else
    { w with
      albums := (w.albums.off i).take oneSlot asked page
      loadedSource := some asked.list }

def landTracks (w : Media α β) (i : Nat) (asked : Ask Files) (page : Page β) : Media α β :=
  if w.source ≠ some asked.list.source ∨ !sameScope w.open (some asked.list.scope) then
    { w with tracks := w.tracks.off i }
  else { w with tracks := (w.tracks.off i).take oneSlot asked page }

inductive Event (α β : Type) where
  | showSource (next : MediaSource)
  | openBook (scope : MediaScope)
  | close
  | loadAlbums (append : Bool)
  | loadTracks (append : Bool)
  | mediaChanged (changed : MediaSource)
  /-- The reader turns media on or off. -/
  | setShowMedia (showMedia : Bool)
  /-- The categories become others. -/
  | change (books : MediaSource → List α) (files : Files → List β)
  | answerAlbums (i : Nat)
  | answerTracks (i : Nat)
  | landAlbums (i : Nat)
  | landTracks (i : Nat)
  | failAlbums (i : Nat)
  | failTracks (i : Nat)

def step (w : Media α β) : Event α β → Option (Media α β)
  | .showSource next => some (w.showSource next)
  | .openBook scope => some (w.openBook scope)
  | .close => some w.close
  | .loadAlbums append => some (w.loadAlbums append)
  | .loadTracks append => some (w.loadTracks append)
  | .mediaChanged changed => some (w.mediaChanged changed)
  | .setShowMedia showMedia => some { w with showMedia }
  | .change books files =>
    some { w with
      albumHistory := Function.update w.albumHistory (w.now + 1) books
      trackHistory := Function.update w.trackHistory (w.now + 1) files
      now := w.now + 1 }
  | .answerAlbums i =>
    match w.albums.reads[i]? with
    | some { asked, answer := none } =>
      some { w with albums := w.albums.answer i (asked.page mediaPageSize w.albumHistory w.now) }
    | _ => none
  | .answerTracks i =>
    match w.tracks.reads[i]? with
    | some { asked, answer := none } =>
      some { w with tracks := w.tracks.answer i (asked.page mediaPageSize w.trackHistory w.now) }
    | _ => none
  | .landAlbums i =>
    match w.albums.reads[i]? with
    | some { asked, answer := some page } => some (w.landAlbums i asked page)
    | _ => none
  | .landTracks i =>
    match w.tracks.reads[i]? with
    | some { asked, answer := some page } => some (w.landTracks i asked page)
    | _ => none
  | .failAlbums i => w.albums.reads[i]?.map fun _ => { w with albums := w.albums.fail i }
  | .failTracks i => w.tracks.reads[i]?.map fun _ => { w with tracks := w.tracks.fail i }

/-- The store begins with no category. -/
def Starts (w : Media α β) : Prop :=
  ∃ showMedia albumHistory trackHistory now, w = { showMedia, albumHistory, trackHistory, now }

/-! ## What is on screen -/

/-- What lands and is taken is in turn. -/
def InTurn (w : Media α β) : Event α β → Prop
  | .landAlbums i => ∀ r ∈ w.albums.reads[i]?, w.source = some r.asked.list →
    w.albums.InTurn oneSlot r.asked.list i
  | .landTracks i => ∀ r ∈ w.tracks.reads[i]?, w.source = some r.asked.list.source →
    sameScope w.open (some r.asked.list.scope) →
      ∀ files ∈ w.files, w.tracks.InTurn oneSlot files i
  | _ => True

instance (w : Media α β) (e : Event α β) : Decidable (w.InTurn e) := by
  unfold InTurn
  split <;> infer_instance

/-- With every request answered and none failed, the books shown are of the category shown last,
and the files are of the book that was opened in it. -/
structure ShowsLast (w : Media α β) : Prop where
  books : w.albums.reads = [] → w.albums.failed = false → ∀ source ∈ w.source,
    w.albums.Shows oneSlot w.albumHistory source
  files : w.tracks.reads = [] → w.tracks.failed = false → ∀ files ∈ w.files,
    w.tracks.Shows oneSlot w.trackHistory files

structure Inv (w : Media α β) : Prop where
  albums : w.albums.Sound mediaPageSize w.albumHistory w.now
  tracks : w.tracks.Sound mediaPageSize w.trackHistory w.now
  books : ∀ source ∈ w.source,
    w.albums.Inv oneSlot mediaPageSize w.albumHistory w.now source
  files : ∀ files ∈ w.files,
    w.tracks.Inv oneSlot mediaPageSize w.trackHistory w.now files

variable {w w' : Media α β}

theorem sameScope_self (scope : Option MediaScope) : sameScope scope scope = true := by
  simp [sameScope]

theorem files_eq_some {files : Files} : w.files = some files ↔
    w.source = some files.source ∧ w.open = some files.scope := by
  unfold Media.files
  cases w.source with
  | none => simp
  | some source =>
    cases w.open with
    | none => simp
    | some scope => simp [Files.ext_iff]

theorem inv_start (h : w.Starts) : w.Inv := by
  obtain ⟨showMedia, albumHistory, trackHistory, now, rfl⟩ := h
  refine ⟨⟨by simp, by simp, fun _ _ => rfl, by simp, by simp⟩,
    ⟨by simp, by simp, fun _ _ => rfl, by simp, by simp⟩, nofun, nofun⟩

namespace Inv

/-- The books of the category shown are asked for from the start, whatever the grid held. -/
theorem startAlbums (halbums : w.albums.Sound mediaPageSize w.albumHistory w.now)
    (htracks : w.tracks.Sound mediaPageSize w.trackHistory w.now)
    (hfiles : ∀ files ∈ w.files,
      w.tracks.Inv oneSlot mediaPageSize w.trackHistory w.now files) :
    (w.loadAlbums false).Inv := by
  unfold Media.loadAlbums
  split
  case h_1 hsource => exact ⟨halbums, htracks, by simp [hsource], hfiles⟩
  case h_2 source hsource =>
    have hinv : (w.albums.start oneSlot source).Inv oneSlot mediaPageSize w.albumHistory w.now
        source := Pane.Inv.start halbums source
    refine ⟨hinv.sound, htracks, fun other hother => ?_, hfiles⟩
    obtain rfl : source = other := Option.some.inj (hsource.symm.trans hother)
    exact hinv

theorem startTracks (halbums : w.albums.Sound mediaPageSize w.albumHistory w.now)
    (htracks : w.tracks.Sound mediaPageSize w.trackHistory w.now)
    (hbooks : ∀ source ∈ w.source,
      w.albums.Inv oneSlot mediaPageSize w.albumHistory w.now source) :
    (w.loadTracks false).Inv := by
  unfold Media.loadTracks
  split
  case h_1 hfiles => exact ⟨halbums, htracks, hbooks, by simp [hfiles]⟩
  case h_2 files hfiles =>
    have hinv : (w.tracks.start oneSlot files).Inv oneSlot mediaPageSize w.trackHistory w.now
        files := Pane.Inv.start htracks files
    refine ⟨halbums, hinv.sound, hbooks, fun other hother => ?_⟩
    obtain rfl : files = other := Option.some.inj (hfiles.symm.trans hother)
    exact hinv

theorem loadAlbums (h : w.Inv) (append : Bool) : (w.loadAlbums append).Inv := by
  cases append with
  | false => exact startAlbums h.albums h.tracks h.files
  | true =>
    unfold Media.loadAlbums
    split
    case h_1 => exact h
    case h_2 source _ =>
      exact { h with
        albums := h.albums.ask source true
        books := fun other hother => (h.books other hother).ask source true }

theorem loadTracks (h : w.Inv) (append : Bool) : (w.loadTracks append).Inv := by
  cases append with
  | false => exact startTracks h.albums h.tracks h.books
  | true =>
    unfold Media.loadTracks
    split
    case h_1 => exact h
    case h_2 files _ =>
      exact { h with
        tracks := h.tracks.ask files true
        files := fun other hother => (h.files other hother).ask files true }

theorem close (h : w.Inv) : w.close.Inv := by
  refine { h with
    tracks := h.tracks.clear ()
    files := fun files hfiles => ?_ }
  have hopen := (files_eq_some.mp hfiles).2
  cases hopen

theorem showSource (h : w.Inv) (next : MediaSource) : (w.showSource next).Inv := by
  unfold Media.showSource
  split
  case isTrue => exact h
  case isFalse =>
    split
    case isTrue => exact h.loadAlbums false
    case isFalse =>
      refine startAlbums (h.albums.clear ()) (h.tracks.clear ()) fun files hfiles => ?_
      have hopen := (files_eq_some.mp hfiles).2
      cases hopen

theorem openBook (h : w.Inv) (scope : MediaScope) : (w.openBook scope).Inv := by
  unfold Media.openBook
  split
  case isTrue => exact startTracks h.albums h.tracks h.books
  case isFalse => exact startTracks h.albums (h.tracks.clear ()) h.books

theorem mediaChanged (h : w.Inv) (changed : MediaSource) : (w.mediaChanged changed).Inv := by
  unfold Media.mediaChanged
  split
  case isFalse => exact h
  case isTrue =>
    split
    case isTrue => exact (h.loadAlbums false).loadTracks false
    case isFalse => exact h.loadAlbums false

/-- A page of books lands. -/
theorem landAlbums (h : w.Inv) {i : Nat} {asked : Ask MediaSource} {page : Page α}
    (hr : w.albums.reads[i]? = some { asked, answer := some page })
    (hturn : w.InTurn (.landAlbums i)) : (w.landAlbums i asked page).Inv := by
  obtain ⟨hversion, -⟩ := h.albums.answers _ (List.mem_of_getElem? hr) page rfl
  unfold Media.landAlbums
  split
  case isTrue hother =>
    refine { h with
      albums := h.albums.off i
      books := fun source hsource => (h.books source hsource).drop hr fun heq => ?_ }
    exact hother (hsource.trans (congrArg some heq.symm))
  case isFalse hsame =>
    have hsame : w.source = some asked.list := by simpa using hsame
    refine { h with
      albums := (h.albums.off i).take asked hversion
      books := fun source hsource => ?_ }
    obtain rfl : asked.list = source := Option.some.inj (hsame.symm.trans hsource)
    exact (h.books _ hsource).take hr rfl (hturn _ hr hsame)

/-- A page of files lands. -/
theorem landTracks (h : w.Inv) {i : Nat} {asked : Ask Files} {page : Page β}
    (hr : w.tracks.reads[i]? = some { asked, answer := some page })
    (hturn : w.InTurn (.landTracks i)) : (w.landTracks i asked page).Inv := by
  obtain ⟨hversion, -⟩ := h.tracks.answers _ (List.mem_of_getElem? hr) page rfl
  unfold Media.landTracks
  split
  case isTrue hother =>
    refine { h with
      tracks := h.tracks.off i
      files := fun files hfiles => (h.files files hfiles).drop hr fun heq => ?_ }
    have heq : asked.list = files := heq
    obtain ⟨hsource, hopen⟩ := files_eq_some.mp hfiles
    rcases hother with hother | hother
    · exact hother (heq ▸ hsource)
    · rw [hopen, heq, sameScope_self] at hother
      cases hother
  case isFalse hsame =>
    rw [not_or, not_not, Bool.not_eq_true', Bool.not_eq_false] at hsame
    exact { h with
      tracks := (h.tracks.off i).take asked hversion
      files := fun files hfiles => (h.files files hfiles).take hr rfl
        (hturn _ hr hsame.1 hsame.2 files hfiles) }

/-- **One event.** -/
theorem step {e : Event α β} (h : w.Inv) (hturn : w.InTurn e) (hs : w.step e = some w') :
    w'.Inv := by
  cases e with
  | showSource next =>
    obtain rfl := Option.some.inj hs
    exact h.showSource next
  | openBook scope =>
    obtain rfl := Option.some.inj hs
    exact h.openBook scope
  | close =>
    obtain rfl := Option.some.inj hs
    exact h.close
  | loadAlbums append =>
    obtain rfl := Option.some.inj hs
    exact h.loadAlbums append
  | loadTracks append =>
    obtain rfl := Option.some.inj hs
    exact h.loadTracks append
  | mediaChanged changed =>
    obtain rfl := Option.some.inj hs
    exact h.mediaChanged changed
  | setShowMedia showMedia =>
    obtain rfl := Option.some.inj hs
    exact { h with }
  | change books files =>
    obtain rfl := Option.some.inj hs
    exact {
      albums := h.albums.change books
      tracks := h.tracks.change files
      books := fun source hsource => (h.books source hsource).change books
      files := fun other hother => (h.files other hother).change files }
  | answerAlbums i =>
    simp only [Media.step] at hs
    split at hs
    case h_2 => cases hs
    case h_1 a hr =>
      obtain rfl := Option.some.inj hs
      exact { h with
        albums := h.albums.answer hr
        books := fun source hsource => (h.books source hsource).answer hr }
  | answerTracks i =>
    simp only [Media.step] at hs
    split at hs
    case h_2 => cases hs
    case h_1 a hr =>
      obtain rfl := Option.some.inj hs
      exact { h with
        tracks := h.tracks.answer hr
        files := fun files hfiles => (h.files files hfiles).answer hr }
  | landAlbums i =>
    simp only [Media.step] at hs
    split at hs
    case h_2 => cases hs
    case h_1 a page hr =>
      obtain rfl := Option.some.inj hs
      exact h.landAlbums hr hturn
  | landTracks i =>
    simp only [Media.step] at hs
    split at hs
    case h_2 => cases hs
    case h_1 a page hr =>
      obtain rfl := Option.some.inj hs
      exact h.landTracks hr hturn
  | failAlbums i =>
    obtain ⟨r, -, rfl⟩ := Option.map_eq_some_iff.mp hs
    exact { h with
      albums := h.albums.fail i
      books := fun source hsource => (h.books source hsource).fail i }
  | failTracks i =>
    obtain ⟨r, -, rfl⟩ := Option.map_eq_some_iff.mp hs
    exact { h with
      tracks := h.tracks.fail i
      files := fun files hfiles => (h.files files hfiles).fail i }

theorem showsLast (h : w.Inv) : w.ShowsLast where
  books hreads hfailed source hsource := (h.books source hsource).settled hreads hfailed
  files hreads hfailed files hfiles := (h.files files hfiles).settled hreads hfailed

end Inv

end Media

end Mbrc.WebApp.Browse
