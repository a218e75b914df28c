import MbrcPlugin.Lib.Transition
import MbrcPlugin.Library.MediaLibrary

/-!
# Readers of the media listings

`paths` and `tags` look for a listing, ask the host and store the answer, each in a step of its own;
in between come reports of edited and moved files (`files_changed`), re-lists by the media task and
library switches (`forget`).  In a run in which no answer is stored that missed a change whose call
was made already, and no report of a moved file is taken for an edit, what is kept at the end was
read after the last change (`listings_follow_edits`).

`changes`, `due`, `listedAt` and the dates of the answers are there for the statements: no step of
the code reads them.
-/

namespace Mbrc.MediaRuns

open Transition MediaLibrary
open MediaV6 (MediaSource)

/-! ## The world -/

/-- A change on the host. -/
inductive Change where
  | tagged (path : Path)
  /-- The file joined the category or left it. -/
  | moved (path : Path) (source : MediaSource)
  | switched
  deriving DecidableEq

/-- The change is one of these files'. -/
def Change.isOf (paths : List Path) : Change → Bool
  | .tagged path | .moved path _ => path ∈ paths
  | .switched => false

/-- The tags of a category; each file's with how many changes there were when they were read. -/
abbrev DatedTags := List (Path × Nat)

/-- A call of `paths`, which `tags` makes first. -/
inductive Reader where
  | miss (source : MediaSource) (tags : Bool)
  /-- The host listed the files after so many changes. -/
  | listed (source : MediaSource) (tags : Bool) (arc : Nat) (paths : List Path) (date : Nat)
  /-- The paths are at hand, and the tags are to be looked for. -/
  | held (source : MediaSource) (arc : Nat) (paths : List Path)
  | reading (source : MediaSource) (arc : Nat) (rest : List Path) (got : DatedTags)
  deriving DecidableEq

/-- A call of `relist` by the media task. -/
structure Relisting where
  todo : List MediaSource
  answer : Option (MediaSource × List Path × Nat) := none
  deriving DecidableEq

structure World where
  host : MediaSource → List Path
  /-- Every change so far. -/
  changes : List Change := []
  /-- The changes whose call is still to be made. -/
  due : List Change := []
  listings : Listings DatedTags := fun _ => none
  /-- How many changes there were when the host last gave the listing. -/
  listedAt : MediaSource → Nat := fun _ => 0
  relist : MediaSource → Bool := fun _ => false
  /-- Calls of `files_changed` that have let go of the listings: whether a file is in none. -/
  notes : List Bool := []
  /-- The shared lists. -/
  heap : List (List Path) := []
  readers : List Reader := []
  relisting : Option Relisting := none

/-- `TAG_BATCH`. -/
def tagBatch : Nat := 500

namespace World

variable (w : World)

def change (c : Change) : World := { w with changes := w.changes ++ [c], due := w.due ++ [c] }

/-- What a reader has the paths for. -/
def goOn (s : MediaSource) (tags : Bool) : World :=
  match tags, w.listings s with
  | true, some l => { w with readers := w.readers ++ [.held s l.arc l.paths] }
  | _, _ => w

/-- The look for a listing. -/
def read (s : MediaSource) (tags : Bool) : World :=
  if (w.listings s).isSome then w.goOn s tags
  else { w with readers := w.readers ++ [.miss s tags] }

/-- `or_insert_with`. -/
def orInsert (s : MediaSource) (arc : Nat) (paths : List Path) (date : Nat) : World :=
  if (w.listings s).isSome then w
  else
    { w with
      listings := Function.update w.listings s (some { arc, paths, tags := none })
      listedAt := Function.update w.listedAt s date }

/-- The tags are stored where the listing is still the one they were read for. -/
def storeTags (s : MediaSource) (arc : Nat) (got : DatedTags) : World :=
  match w.listings s with
  | some l =>
    if l.arc = arc then
      { w with listings := Function.update w.listings s (some { l with tags := some got }) }
    else w
  | none => w

/-- The next step of a reader. -/
def advance : Reader → World
  | .miss s tags =>
    { w with
      heap := w.heap ++ [w.host s]
      readers := w.readers ++ [.listed s tags w.heap.length (w.host s) w.changes.length] }
  | .listed s tags arc paths date => (w.orInsert s arc paths date).goOn s tags
  | .held s arc paths =>
    if ((w.listings s).bind (·.tags)).isSome then w
    else { w with readers := w.readers ++ [.reading s arc paths []] }
  | .reading s arc rest got =>
    if rest = [] then w.storeTags s arc got
    else
      let batch := (rest.take tagBatch).map fun path => (path, w.changes.length)
      { w with readers := w.readers ++ [.reading s arc (rest.drop tagBatch) (got ++ batch)] }

/-- `files_changed`, up to the end of the lock on the listings. -/
def filesChanged (walk : Walk) (paths : List Path) : World :=
  if paths = [] then w
  else
    { w with
      due := w.due.filter fun c => !c.isOf paths
      listings := w.listings.dropTags walk paths
      notes := w.notes ++ [w.listings.unplaced walk paths] }

/-- One listing of `relist` is stored. -/
def storeRelist (r : Relisting) (s : MediaSource) (fresh : List Path) (date : Nat) : World :=
  { w with
    listings := w.listings.relistOne w.heap.length s fresh
    listedAt := Function.update w.listedAt s date
    heap := w.heap ++ [fresh]
    relisting := some { r with answer := none } }

end World

inductive Event where
  | tag (path : Path)
  | move (path : Path) (source : MediaSource)
  | switch (host : MediaSource → List Path)
  | filesChanged (walk : Walk) (paths : List Path)
  | note (i : Nat)
  | forget
  | requestRelist (sources : MediaSource → Bool)
  | beginRelist
  | relistRead
  | relistFail
  | relistStore
  | relistEnd
  | read (source : MediaSource) (tags : Bool)
  | step (i : Nat)
  | fail (i : Nat)

/-- A file that is listed goes, and another one comes. -/
def toggle (path : Path) (paths : List Path) : List Path :=
  if path ∈ paths then paths.erase path else paths ++ [path]

def next (w : World) : Event → Option World
  | .tag path => some (w.change (.tagged path))
  | .move path s =>
    some { w.change (.moved path s) with
      host := Function.update w.host s (toggle path (w.host s)) }
  | .switch host => some { w.change .switched with host }
  | .filesChanged walk paths => some (w.filesChanged walk paths)
  | .note i =>
    w.notes[i]?.map fun unplaced =>
      { w with notes := w.notes.eraseIdx i, relist := fun s => w.relist s || unplaced }
  | .forget => some { w with listings := w.listings.forget, due := w.due.erase .switched }
  | .requestRelist sources => some { w with relist := fun s => w.relist s || sources s }
  | .beginRelist =>
    if w.relisting.isNone then
      some { w with
        relist := fun _ => false, relisting := some { todo := allSources.filter w.relist } }
    else none
  | .relistRead =>
    match w.relisting with
    | some { todo := s :: todo, answer := none } =>
      some { w with relisting := some { todo, answer := some (s, w.host s, w.changes.length) } }
    | _ => none
  | .relistFail =>
    match w.relisting with
    | some { todo := _ :: todo, answer := none } => some { w with relisting := some { todo } }
    | _ => none
  | .relistStore =>
    match w.relisting with
    | some { todo, answer := some (s, fresh, date) } =>
      some (w.storeRelist { todo } s fresh date)
    | _ => none
  | .relistEnd =>
    match w.relisting with
    | some { todo := [], answer := none } => some { w with relisting := none }
    | _ => none
  | .read s tags => some (w.read s tags)
  | .step i => w.readers[i]?.map fun r => { w with readers := w.readers.eraseIdx i }.advance r
  | .fail i => some { w with readers := w.readers.eraseIdx i }

def system : System World Event where
  start w := ∃ host, w = { host }
  next := next

/-! ## What is promised -/

/-- The change shows in the listing of the category. -/
def Change.alters (s : MediaSource) : Change → Bool
  | .tagged _ => false
  | .moved _ t => t = s
  | .switched => true

/-- The change shows in the tags of the file. -/
def Change.altersTags (p : Path) : Change → Bool
  | .tagged path => path = p
  | .moved _ _ => false
  | .switched => true

/-- All calls are through. -/
structure World.Quiet (w : World) : Prop where
  due : w.due = []
  notes : w.notes = []
  relist : ∀ s, w.relist s = false
  relisting : w.relisting = none
  readers : w.readers = []

/-- What is kept was read after the last change that shows in it. -/
structure Follows (w : World) : Prop where
  listings : ∀ s l, w.listings s = some l → ∀ c ∈ w.changes.drop (w.listedAt s), ¬ c.alters s
  tags : ∀ s l, w.listings s = some l → ∀ tags, l.tags = some tags →
    ∀ e ∈ tags, ∀ c ∈ w.changes.drop e.2, ¬ c.altersTags e.1

/-! ## When it holds -/

/-- The category is to be listed again. -/
def World.RelistDue (w : World) (s : MediaSource) : Prop :=
  w.relist s = true ∨ true ∈ w.notes ∨ ∃ r ∈ w.relisting, s ∈ r.todo

/-- Or it was, and the answer is to be stored. -/
def World.Awaited (w : World) (s : MediaSource) : Prop :=
  w.RelistDue s ∨ ∃ r ∈ w.relisting, ∃ answer ∈ r.answer, answer.1 = s

/-- Each change that shows in the listing since then has its call still to come; or `P` holds, which
mends a file's coming or going. -/
def World.Upheld (w : World) (s : MediaSource) (date : Nat) (P : Prop) : Prop :=
  ∀ c ∈ w.changes.drop date, c.alters s → c ∈ w.due ∨ (c ≠ .switched ∧ P)

def World.TagsUpheld (w : World) (e : Path × Nat) : Prop :=
  ∀ c ∈ w.changes.drop e.2, c.altersTags e.1 → c ∈ w.due

/-- A reader's answer is stored only where each change it missed has its call still to come, or the
category is to be listed again. -/
def World.MayStep (w : World) : Reader → Prop
  | .listed s _ _ _ date => w.listings s = none → w.Upheld s date (w.Awaited s)
  | .reading s arc [] got => ∀ l ∈ w.listings s, l.arc = arc → ∀ e ∈ got, w.TagsUpheld e
  | _ => True

/-- An answer is stored only where each change it missed has its call still to come, or the category
is to be listed again; a re-list fails only where the listing missed no more than that; and each
listing that holds a file of a report is the one it is taken for, and missed no coming or going of
such a file, unless the category is to be listed again. -/
def Timely (w : World) : Event → Prop
  | .filesChanged walk paths =>
    (∀ s, ∀ path ∈ paths, w.listings.Holds s path → w.listings.owner walk path = some s) ∧
      (w.listings.unplaced walk paths = true ∨ ∀ s, ∀ l ∈ w.listings s,
        ∀ c ∈ w.changes.drop (w.listedAt s), c.alters s → c.isOf paths → w.Awaited s)
  | .relistStore =>
    ∀ r ∈ w.relisting, ∀ answer ∈ r.answer,
      w.Upheld answer.1 answer.2.2 (w.RelistDue answer.1)
  | .relistFail =>
    ∀ r ∈ w.relisting, ∀ s ∈ r.todo.head?, ∀ l ∈ w.listings s,
      w.Upheld s (w.listedAt s) (w.relist s = true ∨ true ∈ w.notes)
  | .step i => ∀ r ∈ w.readers[i]?, w.MayStep r
  | _ => True

section Decidable

instance (P : MediaSource → Prop) [DecidablePred P] : Decidable (∀ s, P s) :=
  decidable_of_iff (∀ s ∈ allSources, P s) ⟨fun h s => h s (mem_allSources s), fun h s _ => h s⟩

instance (l : Listings DatedTags) (s : MediaSource) (p : Path) : Decidable (l.Holds s p) :=
  decidable_of_iff (l.holds s p = true) l.holds_iff

variable (w : World)

instance (s : MediaSource) : Decidable (w.RelistDue s) := by
  unfold World.RelistDue
  infer_instance

instance (s : MediaSource) : Decidable (w.Awaited s) := by
  unfold World.Awaited
  infer_instance

instance (s : MediaSource) (date : Nat) (P : Prop) [Decidable P] :
    Decidable (w.Upheld s date P) := by
  unfold World.Upheld
  infer_instance

instance (e : Path × Nat) : Decidable (w.TagsUpheld e) := by
  unfold World.TagsUpheld
  infer_instance

instance (r : Reader) : Decidable (w.MayStep r) := by
  unfold World.MayStep
  split <;> infer_instance

instance (event : Event) : Decidable (Timely w event) := by
  unfold Timely
  split <;> infer_instance

theorem quiet_iff : w.Quiet ↔ w.due = [] ∧ w.notes = [] ∧ (∀ s, w.relist s = false) ∧
    w.relisting = none ∧ w.readers = [] :=
  ⟨fun h => ⟨h.due, h.notes, h.relist, h.relisting, h.readers⟩,
    fun ⟨hdue, hnotes, hrelist, hrelisting, hreaders⟩ =>
      ⟨hdue, hnotes, hrelist, hrelisting, hreaders⟩⟩

instance : Decidable w.Quiet := decidable_of_iff _ (quiet_iff w).symm

theorem follows_iff : Follows w ↔ ∀ s, ∀ l ∈ w.listings s,
    (∀ c ∈ w.changes.drop (w.listedAt s), ¬ c.alters s) ∧
      ∀ tags ∈ l.tags, ∀ e ∈ tags, ∀ c ∈ w.changes.drop e.2, ¬ c.altersTags e.1 :=
  ⟨fun h s l hl => ⟨h.listings s l hl, h.tags s l hl⟩,
    fun h => ⟨fun s l hl => (h s l hl).1, fun s l hl => (h s l hl).2⟩⟩

instance : Decidable (Follows w) := decidable_of_iff _ (follows_iff w).symm

end Decidable

/-! ## What each step keeps -/

/-- What a reader holds is of its shared list. -/
def World.Backed (w : World) : Reader → Prop
  | .miss _ _ => True
  | .listed _ _ arc paths _ => w.heap[arc]? = some paths
  | .held _ arc paths => w.heap[arc]? = some paths
  | .reading _ arc rest got =>
    ∃ paths, w.heap[arc]? = some paths ∧ rest ⊆ paths ∧ ∀ e ∈ got, e.1 ∈ paths

structure Inv (w : World) : Prop where
  upheld : ∀ s l, w.listings s = some l → w.Upheld s (w.listedAt s) (w.Awaited s)
  tags : ∀ s l, w.listings s = some l → ∀ tags, l.tags = some tags →
    ∀ e ∈ tags, e.1 ∈ l.paths ∧ w.TagsUpheld e
  shared : ∀ s l, w.listings s = some l → w.heap[l.arc]? = some l.paths
  readers : ∀ r ∈ w.readers, w.Backed r

variable {w : World}

theorem inv_start (host : MediaSource → List Path) : Inv { host } where
  upheld _ _ hl := by cases hl
  tags _ _ hl := by cases hl
  shared _ _ hl := by cases hl
  readers _ hr := by cases hr

theorem World.Upheld.mono {s : MediaSource} {date : Nat} {P Q : Prop} (hPQ : P → Q)
    (h : w.Upheld s date P) : w.Upheld s date Q := by
  intro c hc halters
  exact (h c hc halters).imp_right fun ⟨hne, hP⟩ => ⟨hne, hPQ hP⟩

theorem mem_drop_concat {α : Type} {xs : List α} {x c : α} {n : Nat}
    (h : c ∈ (xs ++ [x]).drop n) : c ∈ xs.drop n ∨ c = x := by
  rw [List.drop_append] at h
  rcases List.mem_append.mp h with h | h
  · exact .inl h
  · exact .inr (List.mem_singleton.mp (List.mem_of_mem_drop h))

theorem getElem?_concat {α : Type} {xs : List α} {x y : α} {i : Nat} (h : xs[i]? = some x) :
    (xs ++ [y])[i]? = some x := by
  obtain ⟨hlt, -⟩ := List.getElem?_eq_some_iff.mp h
  rw [List.getElem?_append_left hlt]
  exact h

/-- A new shared list leaves those there were. -/
theorem World.Backed.grow {r : Reader} (h : w.Backed r) (paths : List Path) :
    World.Backed { w with heap := w.heap ++ [paths] } r := by
  cases r with
  | miss s tags => trivial
  | listed s tags arc held date => exact getElem?_concat h
  | held s arc held => exact getElem?_concat h
  | reading s arc rest got =>
    obtain ⟨held, hheld, hrest, hgot⟩ := h
    exact ⟨held, getElem?_concat hheld, hrest, hgot⟩

namespace Inv

theorem grow (h : Inv w) (paths : List Path) : Inv { w with heap := w.heap ++ [paths] } where
  upheld := h.upheld
  tags := h.tags
  shared s l hl := getElem?_concat (h.shared s l hl)
  readers r hr := (h.readers r hr).grow paths

theorem host (h : Inv w) (host : MediaSource → List Path) : Inv { w with host } where
  upheld := h.upheld
  tags := h.tags
  shared := h.shared
  readers := h.readers

theorem off (h : Inv w) (i : Nat) : Inv { w with readers := w.readers.eraseIdx i } where
  upheld := h.upheld
  tags := h.tags
  shared := h.shared
  readers r hr := h.readers r (List.mem_of_mem_eraseIdx hr)

theorem join (h : Inv w) {r : Reader} (hr : w.Backed r) :
    Inv { w with readers := w.readers ++ [r] } where
  upheld := h.upheld
  tags := h.tags
  shared := h.shared
  readers q hq := by
    rcases List.mem_append.mp hq with hq | hq
    · exact h.readers q hq
    · rw [List.mem_singleton.mp hq]
      exact hr

/-- The calls that have let go of the listings, and the media task. -/
theorem tasks (h : Inv w) {notes : List Bool} {relist : MediaSource → Bool}
    {relisting : Option Relisting}
    (hupheld : ∀ s l, w.listings s = some l → w.Upheld s (w.listedAt s)
      (World.Awaited { w with notes, relist, relisting } s)) :
    Inv { w with notes, relist, relisting } where
  upheld := hupheld
  tags := h.tags
  shared := h.shared
  readers := h.readers

theorem change (h : Inv w) (c : Change) : Inv (w.change c) where
  upheld s l hl d hd halters := by
    rcases mem_drop_concat hd with hd | rfl
    · exact (h.upheld s l hl d hd halters).imp_left (List.mem_append_left _)
    · exact .inl (List.mem_append_right _ List.mem_cons_self)
  tags s l hl tags htags e he := by
    obtain ⟨hpath, hupheld⟩ := h.tags s l hl tags htags e he
    refine ⟨hpath, fun d hd halters => ?_⟩
    rcases mem_drop_concat hd with hd | rfl
    · exact List.mem_append_left _ (hupheld d hd halters)
    · exact List.mem_append_right _ List.mem_cons_self
  shared := h.shared
  readers := h.readers

theorem forget (h : Inv w) :
    Inv { w with listings := w.listings.forget, due := w.due.erase .switched } where
  upheld _ _ hl := by cases hl
  tags _ _ hl := by cases hl
  shared _ _ hl := by cases hl
  readers := h.readers

/-! ### Reports -/

theorem dropTags_some {l : Listings DatedTags} {walk : Walk} {paths : List Path}
    {s : MediaSource} {x : Listing DatedTags} (h : l.dropTags walk paths s = some x) :
    ∃ y, l s = some y ∧ x.arc = y.arc ∧ x.paths = y.paths ∧
      ∀ tags, x.tags = some tags → y.tags = some tags ∧ l.owns walk paths s = false := by
  unfold Listings.dropTags at h
  split at h
  · obtain ⟨y, hy, rfl⟩ := Option.map_eq_some_iff.mp h
    exact ⟨y, hy, rfl, rfl, nofun⟩
  · rename_i howns
    exact ⟨x, h, rfl, rfl, fun tags htags => ⟨htags, Bool.eq_false_iff.mpr howns⟩⟩

theorem filesChanged (h : Inv w) {walk : Walk} {paths : List Path}
    (htimely : Timely w (.filesChanged walk paths)) : Inv (w.filesChanged walk paths) := by
  obtain ⟨howner, hmoved⟩ := htimely
  unfold World.filesChanged
  split
  · exact h
  have hkept {c : Change} (hc : c ∈ w.due) (hof : c.isOf paths = false) :
      c ∈ w.due.filter fun c => !c.isOf paths :=
    List.mem_filter.mpr ⟨hc, by rw [hof]; rfl⟩
  refine ⟨fun s x hx c hc halters => ?_, fun s x hx tags htags e he => ?_, fun s x hx => ?_,
    h.readers⟩
  · obtain ⟨y, hy, -⟩ := dropTags_some hx
    cases hof : c.isOf paths with
    | false =>
      refine (h.upheld s y hy c hc halters).imp (hkept · hof) fun ⟨hne, hawaited⟩ => ⟨hne, ?_⟩
      exact hawaited.imp_left fun hdue => hdue.imp_right fun hdue =>
        hdue.imp_left (List.mem_append_left _)
    | true =>
      -- the report is what the call for this change was
      refine .inr ⟨fun hswitched => (by rw [hswitched] at hof; cases hof), ?_⟩
      rcases hmoved with hunplaced | hawaited
      · refine .inl (.inr (.inl (List.mem_append_right _ ?_)))
        rw [hunplaced]
        exact List.mem_cons_self
      · exact (hawaited s y hy c hc halters hof).imp_left fun hdue =>
          hdue.imp_right fun hdue => hdue.imp_left (List.mem_append_left _)
  · obtain ⟨y, hy, -, hpaths, hkeep⟩ := dropTags_some hx
    obtain ⟨hytags, howns⟩ := hkeep tags htags
    obtain ⟨hpath, hupheld⟩ := h.tags s y hy tags hytags e he
    rw [hpaths]
    refine ⟨hpath, fun c hc halters => hkept (hupheld c hc halters) ?_⟩
    cases c with
    | moved path t => cases halters
    | switched => rfl
    | tagged path =>
      obtain rfl : path = e.1 := of_decide_eq_true halters
      refine decide_eq_false fun hreported => ?_
      have hmine := howner s e.1 hreported ⟨y, hy, hpath⟩
      have hthis : w.listings.owns walk paths s = true :=
        List.any_eq_true.mpr ⟨e.1, hreported, decide_eq_true hmine⟩
      rw [howns] at hthis
      cases hthis
  · obtain ⟨y, hy, harc, hpaths, -⟩ := dropTags_some hx
    rw [harc, hpaths]
    exact h.shared s y hy

/-! ### Readers -/

theorem goOn (h : Inv w) (s : MediaSource) (tags : Bool) : Inv (w.goOn s tags) := by
  unfold World.goOn
  split
  · rename_i l hl
    exact h.join (h.shared s l hl)
  · exact h

theorem read (h : Inv w) (s : MediaSource) (tags : Bool) : Inv (w.read s tags) := by
  unfold World.read
  split
  · exact h.goOn s tags
  · exact h.join trivial

theorem update_some {l : Listings DatedTags} {s t : MediaSource} {x y : Listing DatedTags}
    (h : Function.update l s (some x) t = some y) : (t = s ∧ y = x) ∨ (t ≠ s ∧ l t = some y) := by
  by_cases hts : t = s
  · subst hts
    rw [Function.update_self] at h
    exact .inl ⟨rfl, (Option.some.inj h).symm⟩
  · rw [Function.update_of_ne hts] at h
    exact .inr ⟨hts, h⟩

/-- A listing is put in the place of another. -/
theorem put (h : Inv w) {s : MediaSource} {x : Listing DatedTags} (date : Nat)
    (hshared : w.heap[x.arc]? = some x.paths) (hupheld : w.Upheld s date (w.Awaited s))
    (htags : ∀ tags, x.tags = some tags → ∀ e ∈ tags, e.1 ∈ x.paths ∧ w.TagsUpheld e) :
    Inv { w with
      listings := Function.update w.listings s (some x)
      listedAt := Function.update w.listedAt s date } := by
  refine ⟨fun t y hy => ?_, fun t y hy => ?_, fun t y hy => ?_, h.readers⟩
  · rcases update_some hy with ⟨rfl, rfl⟩ | ⟨hts, hold⟩
    · dsimp only
      rw [Function.update_self]
      exact hupheld
    · dsimp only
      rw [Function.update_of_ne hts]
      exact h.upheld t y hold
  · rcases update_some hy with ⟨rfl, rfl⟩ | ⟨-, hold⟩
    · exact htags
    · exact h.tags t y hold
  · rcases update_some hy with ⟨rfl, rfl⟩ | ⟨-, hold⟩
    · exact hshared
    · exact h.shared t y hold

theorem orInsert (h : Inv w) {s : MediaSource} {arc : Nat} {paths : List Path} {date : Nat}
    (hshared : w.heap[arc]? = some paths)
    (hupheld : w.listings s = none → w.Upheld s date (w.Awaited s)) :
    Inv (w.orInsert s arc paths date) := by
  unfold World.orInsert
  split
  · exact h
  · rename_i hnone
    exact h.put date hshared (hupheld (Option.not_isSome_iff_eq_none.mp hnone)) nofun

theorem storeTags (h : Inv w) {s : MediaSource} {arc : Nat} {got : DatedTags} {paths : List Path}
    (hshared : w.heap[arc]? = some paths) (hgot : ∀ e ∈ got, e.1 ∈ paths)
    (hupheld : ∀ l, w.listings s = some l → l.arc = arc → ∀ e ∈ got, w.TagsUpheld e) :
    Inv (w.storeTags s arc got) := by
  unfold World.storeTags
  split
  case h_2 => exact h
  case h_1 l hl =>
    split
    case isFalse => exact h
    case isTrue harc =>
      have hsame : l.paths = paths := by
        have hlist := h.shared s l hl
        rw [harc, hshared] at hlist
        exact (Option.some.inj hlist).symm
      have hput := h.put (s := s) (x := { l with tags := some got }) (w.listedAt s)
        (h.shared s l hl) (h.upheld s l hl) fun tags htags e he => by
          obtain rfl := Option.some.inj htags
          exact ⟨hsame ▸ hgot e he, hupheld l hl harc e he⟩
      rwa [Function.update_eq_self] at hput

/-- **A reader's step**: what it stores missed nothing that will not be mended. -/
theorem advance (h : Inv w) {r : Reader} (hr : w.Backed r) (htimely : w.MayStep r) :
    Inv (w.advance r) := by
  cases r with
  | miss s tags =>
    have hnew : World.Backed { w with heap := w.heap ++ [w.host s] }
        (.listed s tags w.heap.length (w.host s) w.changes.length) := List.getElem?_concat_length
    exact (h.grow (w.host s)).join hnew
  | listed s tags arc paths date => exact (h.orInsert hr htimely).goOn s tags
  | held s arc paths =>
    show Inv (if ((w.listings s).bind (·.tags)).isSome then w
      else { w with readers := w.readers ++ [.reading s arc paths []] })
    have hnew : w.Backed (.reading s arc paths []) :=
      ⟨paths, hr, List.Subset.refl _, fun e he => by cases he⟩
    split
    · exact h
    · exact h.join hnew
  | reading s arc rest got =>
    obtain ⟨paths, hshared, hrest, hgot⟩ := hr
    cases rest with
    | nil => exact h.storeTags hshared hgot htimely
    | cons path rest =>
      refine h.join ⟨paths, hshared, fun p hp => hrest (List.mem_of_mem_drop hp), ?_⟩
      intro e he
      rcases List.mem_append.mp he with he | he
      · exact hgot e he
      · obtain ⟨p, hp, rfl⟩ := List.mem_map.mp he
        exact hrest (List.mem_of_mem_take hp)

/-! ### The media task -/

/-- The media task still has to list what it had to list. -/
theorem relistDue_of_todo {r r' : Relisting} {s : MediaSource} (hr : w.relisting = some r)
    (htodo : s ∈ r.todo → s ∈ r'.todo) (h : w.RelistDue s) :
    World.RelistDue { w with relisting := some r' } s := by
  refine h.imp_right fun hdue => hdue.imp_right ?_
  rintro ⟨q, hq, hmem⟩
  obtain rfl := Option.some.inj (hr.symm.trans hq)
  exact ⟨r', rfl, htodo hmem⟩

theorem storeRelist (h : Inv w) {r : Relisting} {s : MediaSource} {fresh : List Path} {date : Nat}
    (hr : w.relisting = some { r with answer := some (s, fresh, date) })
    (hupheld : w.Upheld s date (w.RelistDue s)) : Inv (w.storeRelist r s fresh date) := by
  have hbefore : w.Upheld s date (w.Awaited s) := hupheld.mono .inl
  have hlisted : Inv { w with
      listings := w.listings.relistOne w.heap.length s fresh
      listedAt := Function.update w.listedAt s date
      heap := w.heap ++ [fresh] } := by
    unfold Listings.relistOne
    split
    · rename_i hsame
      obtain ⟨x, hx, -⟩ := (Option.any_eq_true _ _).mp hsame
      have hput := (h.grow fresh).put date (getElem?_concat (h.shared s x hx)) hbefore
        (h.tags s x hx)
      have hself : Function.update w.listings s (some x) = w.listings := by
        rw [← hx, Function.update_eq_self]
      rwa [hself] at hput
    · exact (h.grow fresh).put date List.getElem?_concat_length hbefore nofun
  refine hlisted.tasks fun t x hx => ?_
  by_cases hts : t = s
  · subst hts
    dsimp only
    rw [Function.update_self]
    exact hupheld.mono fun hdue => .inl (relistDue_of_todo hr id hdue)
  · have hold : w.listings t = some x := by
      rw [← relistOne_other w.listings w.heap.length hts fresh]
      exact hx
    dsimp only
    rw [Function.update_of_ne hts]
    refine (h.upheld t x hold).mono fun hawaited => .inl ?_
    rcases hawaited with hdue | ⟨q, hq, answer, hanswer, hsource⟩
    · exact relistDue_of_todo hr id hdue
    · obtain rfl := Option.some.inj (hr.symm.trans hq)
      obtain rfl := Option.some.inj hanswer
      exact absurd hsource.symm hts

/-- A call lets go of its note, and what was in no listing is to be listed. -/
theorem note (h : Inv w) {i : Nat} {unplaced : Bool} (hi : w.notes[i]? = some unplaced) :
    Inv { w with notes := w.notes.eraseIdx i, relist := fun s => w.relist s || unplaced } := by
  refine h.tasks fun s l hl => (h.upheld s l hl).mono fun hawaited => ?_
  refine hawaited.imp_left fun hdue => ?_
  rcases hdue with hrelist | hnote | htodo
  · exact .inl (Bool.or_eq_true_iff.mpr (.inl hrelist))
  · obtain ⟨hlt, rfl⟩ := List.getElem?_eq_some_iff.mp hi
    have hperm := List.getElem_cons_eraseIdx_perm hlt
    rcases List.mem_cons.mp (hperm.mem_iff.mpr hnote) with hthis | hrest
    · exact .inl (Bool.or_eq_true_iff.mpr (.inr hthis.symm))
    · exact .inr (.inl hrest)
  · exact .inr (.inr htodo)

theorem requestRelist (h : Inv w) (sources : MediaSource → Bool) :
    Inv { w with relist := fun s => w.relist s || sources s } := by
  refine h.tasks fun s l hl => (h.upheld s l hl).mono fun hawaited => ?_
  exact hawaited.imp_left fun hdue => hdue.imp_left fun hrelist =>
    Bool.or_eq_true_iff.mpr (.inl hrelist)

theorem beginRelist (h : Inv w) (hnone : w.relisting = none) :
    Inv { w with
      relist := fun _ => false, relisting := some { todo := allSources.filter w.relist } } := by
  refine h.tasks fun s l hl => (h.upheld s l hl).mono fun hawaited => .inl ?_
  rcases hawaited with (hrelist | hnote | ⟨r, hr, -⟩) | ⟨r, hr, -⟩
  · exact .inr (.inr ⟨_, rfl, List.mem_filter.mpr ⟨mem_allSources s, hrelist⟩⟩)
  · exact .inr (.inl hnote)
  · cases hnone.symm.trans hr
  · cases hnone.symm.trans hr

theorem relistRead (h : Inv w) {s : MediaSource} {todo : List MediaSource}
    (hr : w.relisting = some { todo := s :: todo }) (fresh : List Path) (date : Nat) :
    Inv { w with relisting := some { todo, answer := some (s, fresh, date) } } := by
  refine h.tasks fun t l hl => (h.upheld t l hl).mono fun hawaited => ?_
  rcases hawaited with hdue | ⟨q, hq, answer, hanswer, -⟩
  · by_cases hts : t = s
    · subst hts
      exact .inr ⟨_, rfl, _, rfl, rfl⟩
    · exact .inl (relistDue_of_todo hr (fun hmem => (List.mem_cons.mp hmem).resolve_left hts) hdue)
  · obtain rfl := Option.some.inj (hr.symm.trans hq)
    cases hanswer

theorem relistFail (h : Inv w) {s : MediaSource} {todo : List MediaSource}
    (hr : w.relisting = some { todo := s :: todo }) (htimely : Timely w .relistFail) :
    Inv { w with relisting := some { todo } } := by
  refine h.tasks fun t l hl => ?_
  by_cases hts : t = s
  · subst hts
    refine (htimely _ hr t rfl l hl).mono fun hdue => .inl ?_
    exact hdue.imp_right .inl
  · refine (h.upheld t l hl).mono fun hawaited => .inl ?_
    rcases hawaited with hdue | ⟨q, hq, answer, hanswer, -⟩
    · exact relistDue_of_todo hr (fun hmem => (List.mem_cons.mp hmem).resolve_left hts) hdue
    · obtain rfl := Option.some.inj (hr.symm.trans hq)
      cases hanswer

theorem relistEnd (h : Inv w) (hr : w.relisting = some { todo := [] }) :
    Inv { w with relisting := none } := by
  refine h.tasks fun s l hl => (h.upheld s l hl).mono fun hawaited => .inl ?_
  rcases hawaited with (hrelist | hnote | ⟨q, hq, hmem⟩) | ⟨q, hq, answer, hanswer, -⟩
  · exact .inl hrelist
  · exact .inr (.inl hnote)
  · obtain rfl := Option.some.inj (hr.symm.trans hq)
    cases hmem
  · obtain rfl := Option.some.inj (hr.symm.trans hq)
    cases hanswer

end Inv

/-! ## Runs -/

theorem inv_step {w' : World} {event : Event} (h : Inv w) (htimely : Timely w event)
    (hnext : next w event = some w') : Inv w' := by
  cases event with
  | tag path =>
    obtain rfl := Option.some.inj hnext
    exact h.change _
  | move path s =>
    obtain rfl := Option.some.inj hnext
    exact (h.change _).host _
  | switch host =>
    obtain rfl := Option.some.inj hnext
    exact (h.change _).host _
  | filesChanged walk paths =>
    obtain rfl := Option.some.inj hnext
    exact h.filesChanged htimely
  | note i =>
    obtain ⟨unplaced, hi, rfl⟩ := Option.map_eq_some_iff.mp hnext
    exact h.note hi
  | forget =>
    obtain rfl := Option.some.inj hnext
    exact h.forget
  | requestRelist sources =>
    obtain rfl := Option.some.inj hnext
    exact h.requestRelist sources
  | beginRelist =>
    simp only [next] at hnext
    split at hnext
    · rename_i hnone
      obtain rfl := Option.some.inj hnext
      exact h.beginRelist (Option.isNone_iff_eq_none.mp hnone)
    · cases hnext
  | relistRead =>
    simp only [next] at hnext
    split at hnext
    · rename_i hr
      obtain rfl := Option.some.inj hnext
      exact h.relistRead hr _ _
    · cases hnext
  | relistFail =>
    simp only [next] at hnext
    split at hnext
    · rename_i hr
      obtain rfl := Option.some.inj hnext
      exact h.relistFail hr htimely
    · cases hnext
  | relistStore =>
    simp only [next] at hnext
    split at hnext
    · rename_i hr
      obtain rfl := Option.some.inj hnext
      exact h.storeRelist hr (htimely _ hr _ rfl)
    · cases hnext
  | relistEnd =>
    simp only [next] at hnext
    split at hnext
    · rename_i hr
      obtain rfl := Option.some.inj hnext
      exact h.relistEnd hr
    · cases hnext
  | read s tags =>
    obtain rfl := Option.some.inj hnext
    exact h.read s tags
  | step i =>
    obtain ⟨r, hr, rfl⟩ := Option.map_eq_some_iff.mp hnext
    exact (h.off i).advance (h.readers r (List.mem_of_getElem? hr)) (htimely r hr)
  | fail i =>
    obtain rfl := Option.some.inj hnext
    exact h.off i

/-- **Listings follow edits.** Where nothing that missed a change whose call is over is stored, what
is kept when all calls are through was read after the last change that shows in it. -/
theorem listings_follow_edits {w₀ w : World} {events : List Event} (hstart : system.start w₀)
    (hrun : system.exec w₀ events = some w) (htimely : system.Along Timely w₀ events)
    (hquiet : w.Quiet) : Follows w := by
  obtain ⟨host, rfl⟩ := hstart
  have h : Inv w :=
    system.exec_induction (fun _ _ _ hinv hguard hnext => inv_step hinv hguard hnext)
      (inv_start host) htimely hrun
  have hawaited (s : MediaSource) : ¬ w.Awaited s := by
    rintro ((hrelist | hnote | ⟨r, hr, -⟩) | ⟨r, hr, -⟩)
    · rw [hquiet.relist s] at hrelist
      cases hrelist
    · rw [hquiet.notes] at hnote
      cases hnote
    · cases hquiet.relisting.symm.trans hr
    · cases hquiet.relisting.symm.trans hr
  have hdue (c : Change) : c ∉ w.due := by
    rw [hquiet.due]
    exact List.not_mem_nil
  constructor
  · intro s l hl c hc halters
    rcases h.upheld s l hl c hc halters with hcoming | ⟨-, hmended⟩
    · exact hdue c hcoming
    · exact hawaited s hmended
  · intro s l hl tags htags e he c hc halters
    exact hdue c ((h.tags s l hl tags htags e he).2 c hc halters)

/-- One file in the inbox. -/
def inboxed : World := { host := fun s => if s = .inbox then ["a.mp3"] else [] }

def inMapOrder : Walk := ⟨allSources, mem_allSources⟩

/-- The file is edited when its tags are stored, and another one comes. -/
def editedAfterwards : List Event :=
  [.switch inboxed.host, .read .inbox true, .step 0, .step 0, .step 0, .step 0, .step 0, .forget,
    .read .inbox true, .step 0, .step 0, .step 0, .step 0, .step 0, .tag "a.mp3",
    .filesChanged inMapOrder ["a.mp3"], .note 0, .move "b.mp3" .inbox,
    .filesChanged inMapOrder ["b.mp3"], .note 0, .beginRelist, .relistRead, .relistStore,
    .relistRead, .relistStore, .relistRead, .relistStore, .relistEnd]

theorem listings_follow_edits_afterwards : ∃ w, system.exec inboxed editedAfterwards = some w ∧
    (w.listings .inbox).map (·.paths) = some ["a.mp3", "b.mp3"] ∧ Follows w := by
  have hrun : (system.exec inboxed editedAfterwards).any (fun w => decide (w.Quiet ∧
      (w.listings .inbox).map (·.paths) = some ["a.mp3", "b.mp3"])) = true := by
    decide +kernel
  obtain ⟨w, hexec, hw⟩ := (Option.any_eq_true _ _).mp hrun
  obtain ⟨hquiet, hpaths⟩ := of_decide_eq_true hw
  have hguard :
      system.checked (fun w e => decide (Timely w e)) inboxed editedAfterwards = true := by
    decide +kernel
  exact ⟨w, hexec, hpaths, listings_follow_edits ⟨_, rfl⟩ hexec
    (system.along_of_checked (fun _ _ h => of_decide_eq_true h) hguard) hquiet⟩

/-- The file is edited after `tags` read it, and reported before they are stored. -/
def editedMeanwhile : List Event :=
  [.read .inbox true, .step 0, .step 0, .step 0, .step 0, .tag "a.mp3",
    .filesChanged inMapOrder ["a.mp3"], .note 0, .step 0]

/-- Another library is opened after `paths` listed the files. -/
def switchedMeanwhile : List Event :=
  [.read .inbox false, .step 0, .switch fun _ => [], .forget, .step 0]

/-- The file goes, which is taken for an edit. -/
def removedAfterwards : List Event :=
  [.read .inbox false, .step 0, .step 0, .move "a.mp3" .inbox,
    .filesChanged inMapOrder ["a.mp3"], .note 0]

/-- The old tags are kept, and so are the files of the other library and the file that went. -/
theorem listings_left_behind : system.start inboxed ∧
    ∀ events ∈ [editedMeanwhile, switchedMeanwhile, removedAfterwards],
      ∃ w, system.exec inboxed events = some w ∧ w.Quiet ∧ ¬ Follows w := by
  refine ⟨⟨_, rfl⟩, fun events hevents => ?_⟩
  have hrun : ∀ events ∈ [editedMeanwhile, switchedMeanwhile, removedAfterwards],
      (system.exec inboxed events).any (fun w => decide (w.Quiet ∧ ¬ Follows w)) = true := by
    decide +kernel
  obtain ⟨w, hexec, hw⟩ := (Option.any_eq_true _ _).mp (hrun events hevents)
  exact ⟨w, hexec, of_decide_eq_true hw⟩

end Mbrc.MediaRuns
