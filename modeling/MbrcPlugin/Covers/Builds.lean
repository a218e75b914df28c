import Mathlib.Data.String.Basic
import Mathlib.Logic.Function.Basic
import MbrcPlugin.Lib.OrderedTable
import MbrcPlugin.Lib.Transition

/-!
# Cover builds and edited albums

A warm-up keeps the stored covers of the albums whose file was not modified since the last check,
and the build that follows reads the artwork of the others, saving what it has every so often.  The
last check is stamped when the build begins and again when it ends, though the albums were listed
before the one, and their artwork read before the other: an album that is edited in between counts
as unmodified from then on.

In the runs where no album with a cover is edited between its listing or its read and the stamp,
each finished build leaves covers only of artwork read after every edit the listing knew of
(`covers_follow_artwork`), through builds that are stopped and processes that die.

The counts of edits are there for the statements: no step of the code reads them.
-/

namespace Mbrc.CoverBuilds

/-! ## The store -/

def cacheSize : Nat := 250

/-- How long an album without artwork is believed to have none, in seconds. -/
def noArtRetrySecs : Int := 7 * 24 * 60 * 60

/-- How many results are saved together during a build. -/
def checkpointEvery : Nat := 200

structure Cover where
  hash : String
  /-- How many edits of the album its artwork was read after. -/
  seen : Nat
  deriving DecidableEq

/-- The tables of the store. -/
structure Stored where
  covers : Table String Cover
  noArt : Table String Int
  lastCheck : Int
  /-- The size the covers were made at. -/
  size : Option Nat

/-- What fetching one album's artwork found. -/
inductive Artwork where
  /-- The hash that the resized artwork will be stored under. -/
  | found (hash : String)
  | missing
  | unavailable
  deriving DecidableEq

/-- An album whose artwork is fetched: its cover once it is read. -/
structure Job where
  key : String
  read : Option Cover
  deriving DecidableEq

/-- Results that are not saved yet. -/
structure Pending where
  covers : List (String × Cover) := []
  noArt : List (String × Int) := []
  deriving DecidableEq

def Pending.length (p : Pending) : Nat := p.covers.length + p.noArt.length

/-- `checkpoint`, once a result is queued: a full batch is appended to the tables. -/
def Stored.checkpoint (stored : Stored) (p : Pending) : Stored × Pending :=
  if p.length < checkpointEvery then (stored, p)
  else
    ({ stored with
        covers := p.covers.foldl (fun table row => table.insert row.1 row.2) stored.covers
        noArt := p.noArt.foldl (fun table row => table.insert row.1 row.2) stored.noArt }, {})

/-! ## Warm-ups and builds -/

inductive Stage where
  | idle
  /-- The host has listed the albums, with the times their files were modified. -/
  | listed (identities : List (String × Int))
  | warmed
  | building (todo : List String) (jobs : List Job) (pending : Pending)
  | finished
  deriving DecidableEq

structure World where
  /-- Unix seconds. -/
  clock : Int
  albums : List String
  modified : String → Int
  /-- How often each album was edited. -/
  edits : String → Nat
  /-- How often it had been when the albums were listed last. -/
  listed : String → Nat
  stored : Stored
  covers : Table String Cover
  paths : List String
  noArt : Table String Int
  stage : Stage

inductive Event where
  | tick
  | edit (key : String)
  /-- The library has other albums. -/
  | relist (albums : List String)
  | list
  | warmUp
  /-- `forget_tracks`: albums the host said were edited. -/
  | forget (keys : List String)
  /-- A build begins; `gone` are the hashes whose files are not there. -/
  | begin (gone : List String)
  /-- The producer takes an album. -/
  | take
  | read (n : Nat) (answer : Artwork)
  | store (n : Nat)
  /-- An album is given up: it could not be stored, or the build was told to stop. -/
  | giveUp (n : Nat)
  /-- The build was told to stop. -/
  | stop
  | finish
  /-- The process ends at once, and another starts. -/
  | crash
  deriving DecidableEq

namespace World

/-- Keeps the stored cover of an album that was modified before the last check. -/
def keep (stored : Stored) (covers : Table String Cover) (album : String × Int) :
    Table String Cover :=
  match stored.covers.get? album.1 with
  | some cover => if album.2 < stored.lastCheck then covers.insert album.1 cover else covers
  | none => covers

/-- The albums still believed to have no artwork. -/
def keptNoArt (stored : Stored) (identities : List (String × Int)) (now : Int) :
    Table String Int :=
  let expired := fun (row : String × Int) =>
    !(now - row.2 < noArtRetrySecs &&
      ((identities.reverse.find? (·.1 = row.1)).any fun album => album.2 < stored.lastCheck))
  stored.noArt.eraseAll ((stored.noArt.rows.filter expired).map (·.1))

/-- `warm_up`: a change of size keeps nothing. -/
def warmUp (s : World) (identities : List (String × Int)) : World :=
  let resized := s.stored.size ≠ some cacheSize
  { s with
    stage := .warmed
    paths := identities.map (·.1)
    noArt := keptNoArt s.stored identities s.clock
    covers := if resized then Table.empty else identities.foldl (keep s.stored) Table.empty
    stored := { s.stored with size := some cacheSize } }

/-- `persist_at` the present. -/
def persist (s : World) : Stored :=
  { s.stored with covers := s.covers, noArt := s.noArt, lastCheck := s.clock }

/-- The albums a build is to fetch. -/
def missing (s : World) (gone : List String) : List String :=
  s.paths.filter fun key => (s.noArt.get? key).isNone &&
    (s.covers.get? key).all fun cover => cover.hash ∈ gone

def step (s : World) : Event → Option World
  | .tick => some { s with clock := s.clock + 1 }
  | .edit key =>
    some { s with
      modified := Function.update s.modified key s.clock
      edits := Function.update s.edits key (s.edits key + 1) }
  | .relist albums => some { s with albums }
  | .list =>
    match s.stage with
    | .idle | .finished =>
      some { s with
        listed := s.edits, stage := .listed (s.albums.map fun key => (key, s.modified key)) }
    | _ => none
  | .warmUp =>
    match s.stage with
    | .listed identities => some (s.warmUp identities)
    | _ => none
  | .forget keys =>
    match s.stage with
    | .warmed => some { s with covers := s.covers.eraseAll keys, noArt := s.noArt.eraseAll keys }
    | _ => none
  | .begin gone =>
    match s.stage with
    | .warmed => some { s with stored := s.persist, stage := .building (s.missing gone) [] {} }
    | _ => none
  | .take =>
    match s.stage with
    | .building (key :: todo) jobs pending =>
      some { s with stage := .building todo (jobs ++ [{ key, read := none }]) pending }
    | _ => none
  | .read n answer =>
    match s.stage with
    | .building todo jobs pending =>
      match jobs[n]?, answer with
      | some { key, read := none }, .found hash =>
        let job := { key, read := some { hash, seen := s.edits key } }
        some { s with stage := .building todo (jobs.set n job) pending }
      | some { key, read := none }, .missing =>
        let (stored, pending) :=
          s.stored.checkpoint { pending with noArt := pending.noArt ++ [(key, s.clock)] }
        some { s with
          noArt := s.noArt.insert key s.clock, stored
          stage := .building todo (jobs.eraseIdx n) pending }
      | some { read := none, .. }, .unavailable =>
        some { s with stage := .building todo (jobs.eraseIdx n) pending }
      | _, _ => none
    | _ => none
  | .store n =>
    match s.stage with
    | .building todo jobs pending =>
      match jobs[n]? with
      | some { key, read := some cover } =>
        let (stored, pending) :=
          s.stored.checkpoint { pending with covers := pending.covers ++ [(key, cover)] }
        some { s with
          covers := s.covers.insert key cover, stored
          stage := .building todo (jobs.eraseIdx n) pending }
      | _ => none
    | _ => none
  | .giveUp n =>
    match s.stage with
    | .building todo jobs pending =>
      if n < jobs.length then some { s with stage := .building todo (jobs.eraseIdx n) pending }
      else none
    | _ => none
  | .stop =>
    match s.stage with
    | .building _ jobs pending => some { s with stage := .building [] jobs pending }
    | _ => none
  | .finish =>
    match s.stage with
    | .building [] [] _ => some { s with stored := s.persist, stage := .finished }
    | _ => none
  | .crash =>
    some { s with covers := Table.empty, paths := [], noArt := Table.empty, stage := .idle }

/-- A new store, and no build yet. -/
def system : Transition.System World Event where
  start s := s.stored = ⟨Table.empty, Table.empty, 0, none⟩ ∧ s.stage = .idle ∧ 0 ≤ s.clock ∧
    ∀ key, s.listed key ≤ s.edits key
  next := step

/-- **What is promised**: a finished build leaves covers only of artwork that was read after every
edit made before its warm-up listed the albums. -/
def FollowsArtwork (s : World) : Prop :=
  s.stage = .finished → ∀ key cover, s.covers.get? key = some cover → s.listed key ≤ cover.seen

/-- When the last check is stamped, no album with a cover was edited since its artwork was read,
unless in that very second. -/
def Unedited (s : World) : Event → Prop
  | .begin _ | .finish => ∀ key cover, s.covers.get? key = some cover →
      cover.seen = s.edits key ∨ s.clock ≤ s.modified key
  | _ => True

/-! ## The invariant -/

variable {s s' : World}

/-- A cover that is not of the album's latest artwork is of an album that counts as modified. -/
def Fresh (s : World) (key : String) (cover : Cover) : Prop :=
  cover.seen = s.edits key ∨ s.stored.lastCheck ≤ s.modified key

/-- What the next build's covers are read after. -/
def After (s : World) (key : String) (cover : Cover) : Prop := s.listed key ≤ cover.seen

structure BuildInv (s : World) (jobs : List Job) (pending : Pending) : Prop where
  jobs : ∀ job ∈ jobs, ∀ cover ∈ job.read, s.Fresh job.key cover ∧ s.After job.key cover
  pending : ∀ row ∈ pending.covers, s.Fresh row.1 row.2

/-- What holds at a stage. -/
def Holds (s : World) : Stage → Prop
  | .idle => True
  | .listed identities => ∀ album ∈ identities, ∀ cover, s.stored.covers.get? album.1 = some cover →
      album.2 < s.stored.lastCheck → s.After album.1 cover
  | .building _ jobs pending =>
    (∀ key cover, s.covers.get? key = some cover → s.After key cover) ∧ s.BuildInv jobs pending
  | .warmed | .finished => ∀ key cover, s.covers.get? key = some cover → s.After key cover

structure Inv (s : World) : Prop where
  stamped : s.stored.lastCheck ≤ s.clock
  listed : ∀ key, s.listed key ≤ s.edits key
  stored : ∀ key cover, s.stored.covers.get? key = some cover → s.Fresh key cover
  holds : s.Holds s.stage

theorem Inv.followsArtwork (h : s.Inv) : s.FollowsArtwork := by
  intro hfinished
  have hholds := h.holds
  rw [hfinished] at hholds
  exact hholds

/-! ## Steps of the world -/

/-- **An edit** makes its album count as modified. -/
theorem Fresh.edit {key other : String} {cover : Cover} (hstamped : s.stored.lastCheck ≤ s.clock)
    (h : s.Fresh other cover) :
    Fresh { s with
      modified := Function.update s.modified key s.clock
      edits := Function.update s.edits key (s.edits key + 1) } other cover := by
  by_cases hsame : other = key
  · subst hsame
    exact Or.inr (by simpa using hstamped)
  · rw [Fresh]
    dsimp only
    rw [Function.update_of_ne hsame, Function.update_of_ne hsame]
    exact h

theorem Inv.edit (h : s.Inv) (key : String) :
    Inv { s with
      modified := Function.update s.modified key s.clock
      edits := Function.update s.edits key (s.edits key + 1) } := by
  refine ⟨h.stamped, fun other => ?_, fun other cover hcover =>
    (h.stored other cover hcover).edit h.stamped, ?_⟩
  · by_cases hsame : other = key
    · subst hsame
      exact (h.listed other).trans (by simp)
    · dsimp only
      rw [Function.update_of_ne hsame]
      exact h.listed other
  · have hholds := h.holds
    cases hstage : s.stage with
    | building todo jobs pending =>
      rw [hstage] at hholds
      refine ⟨hholds.1, fun job hjob cover hcover => ?_, fun row hrow => ?_⟩
      · have hread := hholds.2.jobs job hjob cover hcover
        exact ⟨hread.1.edit h.stamped, hread.2⟩
      · exact (hholds.2.pending row hrow).edit h.stamped
    | idle => trivial
    | listed identities | warmed | finished =>
      rw [hstage] at hholds
      exact hholds

theorem Inv.tick (h : s.Inv) : Inv { s with clock := s.clock + 1 } := by
  refine ⟨h.stamped.trans (Int.le_add_one le_rfl), h.listed, h.stored, ?_⟩
  have hholds := h.holds
  cases hstage : s.stage <;> rw [hstage] at hholds
  case building => exact ⟨hholds.1, hholds.2.jobs, hholds.2.pending⟩
  all_goals exact hholds

theorem Inv.list (h : s.Inv) : Inv { s with
    listed := s.edits, stage := .listed (s.albums.map fun key => (key, s.modified key)) } := by
  refine ⟨h.stamped, fun _ => le_rfl, h.stored, fun album halbum cover hcover hbefore => ?_⟩
  obtain ⟨key, -, rfl⟩ := List.mem_map.mp halbum
  rcases h.stored key cover hcover with hseen | hmodified
  · exact hseen.ge
  · exact absurd hbefore (not_lt.mpr hmodified)

/-! ## Steps of the plugin -/

theorem get?_keep {stored : Stored} {covers : Table String Cover} {album : String × Int}
    {key : String} {cover : Cover} (h : (keep stored covers album).get? key = some cover) :
    covers.get? key = some cover ∨
      (key = album.1 ∧ stored.covers.get? key = some cover ∧ album.2 < stored.lastCheck) := by
  rw [keep] at h
  split at h
  · rename_i kept hstored
    split at h
    · rename_i hbefore
      rw [Table.get?_insert] at h
      split at h
      · rename_i hkey
        subst hkey
        exact Or.inr ⟨rfl, hstored.trans h, hbefore⟩
      · exact Or.inl h
    · exact Or.inl h
  · exact Or.inl h

/-- A cover that a warm-up keeps is of an album that was modified before the last check. -/
theorem get?_foldl_keep {stored : Stored} {identities : List (String × Int)}
    {covers : Table String Cover} {key : String} {cover : Cover}
    (h : (identities.foldl (keep stored) covers).get? key = some cover) :
    covers.get? key = some cover ∨ ∃ modified, (key, modified) ∈ identities ∧
      stored.covers.get? key = some cover ∧ modified < stored.lastCheck := by
  induction identities generalizing covers with
  | nil => exact Or.inl h
  | cons album identities ih =>
    rcases ih h with hget | ⟨modified, hmem, hkept⟩
    · rcases get?_keep hget with hold | ⟨rfl, hkept⟩
      · exact Or.inl hold
      · exact Or.inr ⟨album.2, List.mem_cons_self, hkept⟩
    · exact Or.inr ⟨modified, List.mem_cons_of_mem _ hmem, hkept⟩

theorem Inv.warmUp {identities : List (String × Int)} (h : s.Inv)
    (hstage : s.stage = .listed identities) : (s.warmUp identities).Inv := by
  refine ⟨h.stamped, h.listed, h.stored, fun key cover hcover => ?_⟩
  have hholds := h.holds
  rw [hstage] at hholds
  simp only [World.warmUp] at hcover
  split at hcover
  · simp at hcover
  · rcases get?_foldl_keep hcover with hnone | ⟨modified, hmem, hstored, hbefore⟩
    · simp at hnone
    · exact hholds (key, modified) hmem cover hstored hbefore

/-- **The last check is stamped**: the covers of then are the latest, or of albums modified at that
time. -/
theorem Inv.persist {stage : Stage} (h : s.Inv)
    (hunedited : ∀ key cover, s.covers.get? key = some cover →
      cover.seen = s.edits key ∨ s.clock ≤ s.modified key)
    (hholds : Holds { s with stored := s.persist } stage) :
    Inv { s with stored := s.persist, stage } := by
  refine ⟨le_rfl, h.listed, hunedited, ?_⟩
  cases stage with
  | building todo jobs pending => exact ⟨hholds.1, hholds.2.jobs, hholds.2.pending⟩
  | _ => exact hholds

theorem get?_foldl_rows {rows : List (String × Cover)} {table : Table String Cover} {key : String}
    {cover : Cover}
    (h : (rows.foldl (fun table row => table.insert row.1 row.2) table).get? key = some cover) :
    (key, cover) ∈ rows ∨ table.get? key = some cover := by
  induction rows generalizing table with
  | nil => exact Or.inr h
  | cons row rows ih =>
    rcases ih h with hmem | hget
    · exact Or.inl (List.mem_cons_of_mem _ hmem)
    · rw [Table.get?_insert] at hget
      split at hget
      · rename_i hkey
        obtain rfl := Option.some.inj hget
        exact Or.inl (hkey ▸ List.mem_cons_self)
      · exact Or.inr hget

/-- **A checkpoint** leaves the last check, files covers that are queued, and queues no other. -/
theorem checkpoint_spec (stored : Stored) (p : Pending) :
    (stored.checkpoint p).1.lastCheck = stored.lastCheck ∧
    (∀ key cover, (stored.checkpoint p).1.covers.get? key = some cover →
      (key, cover) ∈ p.covers ∨ stored.covers.get? key = some cover) ∧
    ∀ row ∈ (stored.checkpoint p).2.covers, row ∈ p.covers := by
  rw [Stored.checkpoint]
  split
  · exact ⟨rfl, fun _ _ => Or.inr, fun _ => id⟩
  · exact ⟨rfl, fun _ _ => get?_foldl_rows, fun row hrow => absurd hrow List.not_mem_nil⟩

/-- A result is queued, and its job is over. -/
theorem Inv.queue {todo : List String} {jobs : List Job} {pending p : Pending}
    {covers : Table String Cover} {noArt : Table String Int} {n : Nat} (h : s.Inv)
    (hstage : s.stage = .building todo jobs pending)
    (hcovers : ∀ key cover, covers.get? key = some cover → s.After key cover)
    (hqueued : ∀ row ∈ p.covers, s.Fresh row.1 row.2) :
    Inv { s with
      covers, noArt, stored := (s.stored.checkpoint p).1
      stage := .building todo (jobs.eraseIdx n) (s.stored.checkpoint p).2 } := by
  obtain ⟨hlast, hfiled, hleft⟩ := checkpoint_spec s.stored p
  have hholds := h.holds
  rw [hstage] at hholds
  have hfresh : ∀ {key cover}, s.Fresh key cover →
      Fresh { s with
        covers, noArt, stored := (s.stored.checkpoint p).1
        stage := .building todo (jobs.eraseIdx n) (s.stored.checkpoint p).2 } key cover := by
    intro key cover hold
    rw [Fresh]
    dsimp only
    rw [hlast]
    exact hold
  refine ⟨?_, h.listed, fun key cover hcover => hfresh ?_, hcovers, fun job hjob cover hcover => ?_,
    fun row hrow => hfresh (hqueued row (hleft row hrow))⟩
  · dsimp only
    rw [hlast]
    exact h.stamped
  · rcases hfiled key cover hcover with hqueue | hstored
    · exact hqueued (key, cover) hqueue
    · exact h.stored key cover hstored
  · have hread := hholds.2.jobs job (List.mem_of_mem_eraseIdx hjob) cover hcover
    exact ⟨hfresh hread.1, hread.2⟩

/-- A step of a build that saves nothing. -/
theorem Inv.jobs {todo todo' : List String} {jobs jobs' : List Job} {pending : Pending}
    (h : s.Inv) (hstage : s.stage = .building todo jobs pending)
    (hjobs : ∀ job ∈ jobs', job ∈ jobs ∨
      ∀ cover ∈ job.read, s.Fresh job.key cover ∧ s.After job.key cover) :
    Inv { s with stage := .building todo' jobs' pending } := by
  have hholds := h.holds
  rw [hstage] at hholds
  refine ⟨h.stamped, h.listed, h.stored, hholds.1, fun job hjob => ?_, hholds.2.pending⟩
  exact (hjobs job hjob).elim (hholds.2.jobs job) id

theorem Inv.read {n : Nat} {answer : Artwork} (h : s.Inv)
    (hs : s.step (.read n answer) = some s') : s'.Inv := by
  simp only [step] at hs
  split at hs
  case h_2 => cases hs
  case h_1 todo jobs pending hstage =>
    have hholds := h.holds
    rw [hstage] at hholds
    split at hs
    case h_1 key hash hn =>
      obtain rfl := Option.some.inj hs
      refine h.jobs hstage fun job hjob => ?_
      rcases List.mem_or_eq_of_mem_set hjob with hold | rfl
      · exact Or.inl hold
      · refine Or.inr ?_
        rintro cover ⟨⟩
        exact ⟨Or.inl rfl, h.listed key⟩
    case h_2 key hn =>
      obtain rfl := Option.some.inj hs
      exact h.queue hstage hholds.1 hholds.2.pending
    case h_3 key hn =>
      obtain rfl := Option.some.inj hs
      exact h.jobs hstage fun job hjob => Or.inl (List.mem_of_mem_eraseIdx hjob)
    case h_4 => cases hs

theorem Inv.store {n : Nat} (h : s.Inv) (hs : s.step (.store n) = some s') : s'.Inv := by
  simp only [step] at hs
  split at hs
  case h_2 => cases hs
  case h_1 todo jobs pending hstage =>
    have hholds := h.holds
    rw [hstage] at hholds
    split at hs
    case h_2 => cases hs
    case h_1 key cover hn =>
      obtain rfl := Option.some.inj hs
      have hread := hholds.2.jobs _ (List.mem_of_getElem? hn) cover rfl
      refine h.queue hstage (fun other kept hkept => ?_) fun row hrow => ?_
      · rw [Table.get?_insert] at hkept
        split at hkept
        · rename_i hkey
          obtain rfl := Option.some.inj hkept
          exact hkey ▸ hread.2
        · exact hholds.1 other kept hkept
      · rcases List.mem_append.mp hrow with hold | hnew
        · exact hholds.2.pending row hold
        · rw [List.mem_singleton.mp hnew]
          exact hread.1

theorem inv_step {event : Event} (h : s.Inv) (hunedited : s.Unedited event)
    (hs : s.step event = some s') : s'.Inv := by
  cases event with
  | tick =>
    obtain rfl := Option.some.inj hs
    exact h.tick
  | edit key =>
    obtain rfl := Option.some.inj hs
    exact h.edit key
  | relist albums =>
    obtain rfl := Option.some.inj hs
    refine ⟨h.stamped, h.listed, h.stored, ?_⟩
    have hholds := h.holds
    cases hstage : s.stage <;> rw [hstage] at hholds
    case building => exact ⟨hholds.1, hholds.2.jobs, hholds.2.pending⟩
    all_goals exact hholds
  | list =>
    simp only [step] at hs
    split at hs
    case h_3 => cases hs
    all_goals
      obtain rfl := Option.some.inj hs
      exact h.list
  | warmUp =>
    simp only [step] at hs
    split at hs
    case h_2 => cases hs
    case h_1 identities hstage =>
      obtain rfl := Option.some.inj hs
      exact h.warmUp hstage
  | forget keys =>
    simp only [step] at hs
    split at hs
    case h_2 => cases hs
    case h_1 hstage =>
      obtain rfl := Option.some.inj hs
      have hholds := h.holds
      rw [hstage] at hholds
      refine ⟨h.stamped, h.listed, h.stored, ?_⟩
      simp only [hstage]
      intro key cover hcover
      rw [Table.get?_eraseAll] at hcover
      split at hcover
      · cases hcover
      · exact hholds key cover hcover
  | begin gone =>
    simp only [step] at hs
    split at hs
    case h_2 => cases hs
    case h_1 hstage =>
      obtain rfl := Option.some.inj hs
      have hholds := h.holds
      rw [hstage] at hholds
      exact h.persist hunedited ⟨hholds, by simp, by simp⟩
  | take =>
    simp only [step] at hs
    split at hs
    case h_2 => cases hs
    case h_1 key todo jobs pending hstage =>
      obtain rfl := Option.some.inj hs
      refine h.jobs hstage fun job hjob => ?_
      rcases List.mem_append.mp hjob with hold | hnew
      · exact Or.inl hold
      · rw [List.mem_singleton.mp hnew]
        exact Or.inr (by simp)
  | read n answer => exact h.read hs
  | store n => exact h.store hs
  | giveUp n =>
    simp only [step] at hs
    split at hs
    case h_2 => cases hs
    case h_1 todo jobs pending hstage =>
      split at hs
      · obtain rfl := Option.some.inj hs
        exact h.jobs hstage fun job hjob => Or.inl (List.mem_of_mem_eraseIdx hjob)
      · cases hs
  | stop =>
    simp only [step] at hs
    split at hs
    case h_2 => cases hs
    case h_1 todo jobs pending hstage =>
      obtain rfl := Option.some.inj hs
      exact h.jobs hstage fun job hjob => Or.inl hjob
  | finish =>
    simp only [step] at hs
    split at hs
    case h_2 => cases hs
    case h_1 pending hstage =>
      obtain rfl := Option.some.inj hs
      have hholds := h.holds
      rw [hstage] at hholds
      exact h.persist hunedited hholds.1
  | crash =>
    obtain rfl := Option.some.inj hs
    exact ⟨h.stamped, h.listed, h.stored, trivial⟩

theorem Inv.start (h : system.start s) : s.Inv := by
  obtain ⟨hstored, hstage, hclock, hlisted⟩ := h
  refine ⟨by simpa [hstored] using hclock, hlisted, fun key cover hcover => ?_, ?_⟩
  · simp [hstored] at hcover
  · rw [hstage]
    trivial

/-- **Covers follow their artwork**, in any run in which no album with a cover is edited between its
read and a stamp of the last check. -/
theorem covers_follow_artwork {s₀ : World} {events : List Event} (h₀ : system.start s₀)
    (hunedited : system.Along Unedited s₀ events) (hrun : system.exec s₀ events = some s) :
    s.FollowsArtwork :=
  (system.exec_induction (fun _ _ _ => inv_step) (Inv.start h₀) hunedited hrun).followsArtwork

/-! ## Runs -/

/-- The condition, computed. -/
def unedited (s : World) : Event → Bool
  | .begin _ | .finish => s.covers.rows.all fun row =>
      row.2.seen = s.edits row.1 || decide (s.clock ≤ s.modified row.1)
  | _ => true

theorem unedited_of_unedited {event : Event} (h : s.unedited event = true) : s.Unedited event := by
  cases event with
  | «begin» gone | finish =>
    intro key cover hcover
    have hrow := List.all_eq_true.mp h (key, cover) (Table.mem_rows.mpr hcover)
    simpa using hrow
  | _ => trivial

/-- A new installation, and a library of one album. -/
def fresh : World where
  clock := 0
  albums := ["abbey road"]
  modified := fun _ => 0
  edits := fun _ => 0
  listed := fun _ => 0
  stored := ⟨Table.empty, Table.empty, 0, none⟩
  covers := Table.empty
  paths := []
  noArt := Table.empty
  stage := .idle

theorem fresh_start : system.start fresh := ⟨rfl, rfl, le_rfl, fun _ => le_rfl⟩

/-- The album is edited after a build, and the next one dies before it has read it. -/
def editedBetween : List Event :=
  [.list, .warmUp, .begin [], .take, .read 0 (.found "old"), .store 0, .tick, .finish, .tick,
    .edit "abbey road", .list, .warmUp, .begin [], .take, .crash, .list, .warmUp, .begin [], .take,
    .read 0 (.found "new"), .store 0, .finish]

theorem covers_follow_artwork_editedBetween : ∃ s, system.exec fresh editedBetween = some s ∧
    s.FollowsArtwork ∧ s.stage = .finished ∧
      s.covers.get? "abbey road" = some { hash := "new", seen := 1 } := by
  have hrun : (system.exec fresh editedBetween).any (fun s => s.stage = .finished ∧
      s.covers.get? "abbey road" = some { hash := "new", seen := 1 }) = true := by decide +kernel
  have hguard : system.checked unedited fresh editedBetween = true := by decide +kernel
  obtain ⟨s, hexec, hfacts⟩ := (Option.any_eq_true _ _).mp hrun
  exact ⟨s, hexec, covers_follow_artwork fresh_start
    (system.along_of_checked (fun _ _ => unedited_of_unedited) hguard) hexec,
    of_decide_eq_true hfacts⟩

/-- The album is edited while the build that has read it goes on. -/
def editedDuring : List Event :=
  [.list, .warmUp, .begin [], .take, .read 0 (.found "old"), .store 0, .tick, .edit "abbey road",
    .tick, .finish, .list, .warmUp, .begin [], .finish]

/-- The album is edited after the listing of a build that dies. -/
def editedBefore : List Event :=
  [.list, .warmUp, .begin [], .take, .read 0 (.found "old"), .store 0, .tick, .finish, .list, .tick,
    .edit "abbey road", .tick, .warmUp, .begin [], .crash, .list, .warmUp, .begin [], .finish]

/-- The cover of an album that the listing knew to be edited since. -/
def outdated (s : World) (key : String) : Bool :=
  s.stage = .finished && (s.covers.get? key).any fun cover => cover.seen < s.listed key

theorem not_followsArtwork_of_outdated {key : String} (h : s.outdated key = true) :
    ¬ s.FollowsArtwork := by
  rw [outdated, Bool.and_eq_true] at h
  obtain ⟨hstage, hany⟩ := h
  obtain ⟨cover, hcover, hlt⟩ := (Option.any_eq_true _ _).mp hany
  exact fun hfollows =>
    not_le.mpr (of_decide_eq_true hlt) (hfollows (of_decide_eq_true hstage) key cover hcover)

/-- **An edit that is skipped for good**, during a build and before one that was interrupted. -/
theorem cover_outdated :
    (∃ s, system.exec fresh editedDuring = some s ∧ system.Reachable s ∧ ¬ s.FollowsArtwork) ∧
      ∃ s, system.exec fresh editedBefore = some s ∧ system.Reachable s ∧ ¬ s.FollowsArtwork := by
  have hduring : (system.exec fresh editedDuring).any (outdated · "abbey road") = true := by
    decide +kernel
  have hbefore : (system.exec fresh editedBefore).any (outdated · "abbey road") = true := by
    decide +kernel
  obtain ⟨s, hexec, hs⟩ := (Option.any_eq_true _ _).mp hduring
  obtain ⟨t, hexec', ht⟩ := (Option.any_eq_true _ _).mp hbefore
  exact ⟨⟨s, hexec, ⟨fresh, editedDuring, fresh_start, hexec⟩, not_followsArtwork_of_outdated hs⟩,
    t, hexec', ⟨fresh, editedBefore, fresh_start, hexec'⟩, not_followsArtwork_of_outdated ht⟩

end World

end Mbrc.CoverBuilds
