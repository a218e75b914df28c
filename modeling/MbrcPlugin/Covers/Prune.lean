import MbrcPlugin.Lib.OrderedTable
import MbrcPlugin.Lib.Transition
import Mathlib.Data.String.Basic

/-!
# The cover files and the prune

A cover is a file named by the hash of its bytes, and two indexes, of albums and of items, name the
hashes.  A call that keeps a cover writes the file first and enters the hash later; the prune takes
the hashes that are entered and then removes the files it meets under other names.  Every entry has
its file when all calls have ended, in the runs where the prune removes no file that is in use by
then (`entries_present`); a file that is written while the prune runs may go before it is entered.
-/

namespace Mbrc.Covers

abbrev Bytes := List UInt8

/-! ## The store -/

/-- Resizing, and the hash of a file. -/
structure Codec where
  resize : Bytes → Except String Bytes
  sha1 : Bytes → String

/-- A cover kept for one item, none where it has no artwork. -/
structure ItemCover where
  hash : Option String
  modified : Int
  checked : Int
  deriving DecidableEq

/-- What a cover is kept for. -/
inductive Owner where
  | album (key : String)
  | playing (key : String)
  | item (key : String) (modified checked : Int)
  deriving DecidableEq

/-- A call that has written its file and has not entered the hash. -/
structure Writer where
  owner : Owner
  hash : String
  deriving DecidableEq

/-- A prune, with the hashes it found entered: the albums' first, then the items'. -/
structure Prune where
  referenced : List String
  complete : Bool
  deriving DecidableEq

structure Store where
  covers : Table String String
  items : Table String ItemCover
  files : Table String Bytes
  writers : List Writer
  prunes : List Prune

namespace Store

def playingStart : String := "playing:"

def isPlaying (key : String) : Bool := playingStart.toList.isPrefixOf key.toList

/-- The hash is entered; of the playing tracks only the last is kept. -/
def enter (s : Store) : Writer → Store
  | { owner := .album key, hash } => { s with covers := s.covers.insert key hash }
  | { owner := .playing key, hash } =>
    let covers := s.covers.eraseAll ((s.covers.rows.map Prod.fst).filter isPlaying)
    { s with covers := covers.insert key hash }
  | { owner := .item key modified checked, hash } =>
    { s with items := s.items.insert key { hash := some hash, modified, checked } }

def coverHashes (s : Store) : List String := s.covers.rows.map Prod.snd

def itemHashes (s : Store) : List String := s.items.rows.filterMap fun row => row.2.hash

end Store

/-! ## Steps -/

inductive Event where
  /-- `store_cover`: the artwork is resized and the file is written. -/
  | storeCover (owner : Owner) (raw : Bytes)
  | enter (n : Nat)
  /-- An item without artwork is kept as that. -/
  | noArtwork (key : String) (modified checked : Int)
  | pruneCovers
  | pruneItems (n : Nat)
  /-- The listing of a prune comes to a file. -/
  | meet (n : Nat) (name : String)
  | pruned (n : Nat)
  deriving DecidableEq

variable (C : Codec)

def step (s : Store) : Event → Option Store
  | .storeCover owner raw =>
    match C.resize raw with
    | .ok jpeg =>
      let hash := C.sha1 jpeg
      some { s with files := s.files.insert hash jpeg, writers := s.writers ++ [{ owner, hash }] }
    | .error _ => some s
  | .enter n =>
    match s.writers[n]? with
    | some writer => some { s.enter writer with writers := s.writers.eraseIdx n }
    | none => none
  | .noArtwork key modified checked =>
    some { s with items := s.items.insert key { hash := none, modified, checked } }
  | .pruneCovers =>
    some { s with prunes := s.prunes ++ [{ referenced := s.coverHashes, complete := false }] }
  | .pruneItems n =>
    match s.prunes[n]? with
    | some { referenced, complete := false } =>
      let prune : Prune := { referenced := referenced ++ s.itemHashes, complete := true }
      some { s with prunes := s.prunes.set n prune }
    | _ => none
  | .meet n name =>
    match s.prunes[n]? with
    | some { referenced, complete := true } =>
      if name ∈ referenced then some s else some { s with files := s.files.erase name }
    | _ => none
  | .pruned n =>
    match s.prunes[n]? with
    | some { complete := true, .. } => some { s with prunes := s.prunes.eraseIdx n }
    | _ => none

/-- **What is promised**: every hash that is entered names a file. -/
structure Present (s : Store) : Prop where
  covers : ∀ key hash, s.covers.get? key = some hash → (s.files.get? hash).isSome
  items : ∀ key cover hash, s.items.get? key = some cover → cover.hash = some hash →
    (s.files.get? hash).isSome

def system : Transition.System Store Event where
  start s := Present s ∧ s.writers = [] ∧ s.prunes = []
  next := step C

/-- The hash is entered, or a call is about to enter it. -/
def Store.inUse (s : Store) (name : String) : Bool :=
  name ∈ s.coverHashes || name ∈ s.itemHashes || s.writers.any fun writer => writer.hash = name

/-- A prune removes no file in use. -/
def spares (s : Store) : Event → Bool
  | .meet n name =>
    match s.prunes[n]? with
    | some { referenced, .. } => name ∈ referenced || !s.inUse name
    | none => true
  | _ => true

/-! ## Every run -/

section

variable {C} {s s' : Store}

/-- Every hash in use names a file. -/
def Inv (s : Store) : Prop := ∀ name, s.inUse name = true → (s.files.get? name).isSome

theorem inUse_iff {name : String} : s.inUse name = true ↔
    (∃ key, s.covers.get? key = some name) ∨
      (∃ key cover, s.items.get? key = some cover ∧ cover.hash = some name) ∨
      ∃ writer ∈ s.writers, writer.hash = name := by
  rw [Store.inUse, Bool.or_eq_true, Bool.or_eq_true, decide_eq_true_iff, decide_eq_true_iff,
    List.any_eq_true, or_assoc]
  simp only [Store.coverHashes, Store.itemHashes, List.mem_map, List.mem_filterMap, Prod.exists,
    Table.mem_rows, exists_eq_right, decide_eq_true_eq]

theorem inv_iff : Inv s ↔ Present s ∧ ∀ writer ∈ s.writers, (s.files.get? writer.hash).isSome := by
  constructor
  · intro h
    refine ⟨⟨fun key hash hk => ?_, fun key cover hash hk hh => ?_⟩, fun writer hw => ?_⟩
    · exact h hash (inUse_iff.mpr (.inl ⟨key, hk⟩))
    · exact h hash (inUse_iff.mpr (.inr (.inl ⟨key, cover, hk, hh⟩)))
    · exact h _ (inUse_iff.mpr (.inr (.inr ⟨writer, hw, rfl⟩)))
  · rintro ⟨h, hwriters⟩ name hname
    rcases inUse_iff.mp hname with ⟨key, hk⟩ | ⟨key, cover, hk, hh⟩ | ⟨writer, hw, rfl⟩
    · exact h.covers key name hk
    · exact h.items key cover name hk hh
    · exact hwriters writer hw

/-- Files come and entries do not: what is in use was in use, or has its file. -/
theorem Inv.grow (h : Inv s)
    (hfiles : ∀ name, (s.files.get? name).isSome → (s'.files.get? name).isSome)
    (huse : ∀ name, s'.inUse name = true → s.inUse name = true ∨ (s'.files.get? name).isSome) :
    Inv s' := by
  intro name hname
  rcases huse name hname with hold | hnew
  · exact hfiles name (h name hold)
  · exact hnew

/-- A hash that is entered was its writer's. -/
theorem inUse_enter {n : Nat} {writer : Writer} {name : String} (hn : s.writers[n]? = some writer)
    (hname : Store.inUse { s.enter writer with writers := s.writers.eraseIdx n } name = true) :
    s.inUse name = true := by
  have hwriter : ∃ w ∈ s.writers, w.hash = writer.hash := ⟨writer, List.mem_of_getElem? hn, rfl⟩
  obtain ⟨owner, hash⟩ := writer
  rw [inUse_iff] at hname ⊢
  rcases hname with ⟨key, hk⟩ | ⟨key, cover, hk, hh⟩ | ⟨w, hw, hh⟩
  · cases owner with
    | album key' =>
      simp only [Store.enter, Table.get?_insert] at hk
      split at hk
      · obtain rfl := Option.some.inj hk
        exact Or.inr (Or.inr hwriter)
      · exact Or.inl ⟨key, hk⟩
    | playing key' =>
      simp only [Store.enter, Table.get?_insert, Table.get?_eraseAll] at hk
      split at hk
      · obtain rfl := Option.some.inj hk
        exact Or.inr (Or.inr hwriter)
      · split at hk
        · cases hk
        · exact Or.inl ⟨key, hk⟩
    | item key' modified checked => exact Or.inl ⟨key, hk⟩
  · cases owner with
    | album key' => exact Or.inr (Or.inl ⟨key, cover, hk, hh⟩)
    | playing key' => exact Or.inr (Or.inl ⟨key, cover, hk, hh⟩)
    | item key' modified checked =>
      simp only [Store.enter, Table.get?_insert] at hk
      split at hk
      · obtain rfl := Option.some.inj hk
        obtain rfl := Option.some.inj hh
        exact Or.inr (Or.inr hwriter)
      · exact Or.inr (Or.inl ⟨key, cover, hk, hh⟩)
  · exact Or.inr (Or.inr ⟨w, List.mem_of_mem_eraseIdx hw, hh⟩)

theorem files_enter (writer : Writer) : (s.enter writer).files = s.files := by
  obtain ⟨owner, hash⟩ := writer
  cases owner <;> rfl

theorem step_inv {event : Event} (h : Inv s) (hspares : spares s event = true)
    (hstep : step C s event = some s') : Inv s' := by
  cases event with
  | storeCover owner raw =>
    simp only [step] at hstep
    split at hstep <;> obtain rfl := Option.some.inj hstep
    · rename_i jpeg _
      refine h.grow (fun name hname => ?_) fun name hname => ?_
      · rw [Table.get?_insert]
        split
        · rfl
        · exact hname
      · rw [inUse_iff] at hname
        rcases hname with hk | hk | ⟨w, hw, rfl⟩
        · exact Or.inl (inUse_iff.mpr (.inl hk))
        · exact Or.inl (inUse_iff.mpr (.inr (.inl hk)))
        · rcases List.mem_append.mp hw with hw | hw
          · exact Or.inl (inUse_iff.mpr (.inr (.inr ⟨w, hw, rfl⟩)))
          · rw [List.mem_singleton.mp hw, Table.get?_insert, if_pos rfl]
            exact Or.inr rfl
    · exact h
  | enter n =>
    simp only [step] at hstep
    split at hstep
    · rename_i writer hn
      obtain rfl := Option.some.inj hstep
      refine h.grow (fun name hname => ?_) fun name hname => Or.inl (inUse_enter hn hname)
      rw [files_enter]
      exact hname
    · cases hstep
  | noArtwork key modified checked =>
    obtain rfl := Option.some.inj hstep
    refine h.grow (fun name hname => hname) fun name hname => ?_
    rw [inUse_iff] at hname ⊢
    rcases hname with hk | ⟨key', cover, hk, hh⟩ | hk
    · exact Or.inl (.inl hk)
    · rw [Table.get?_insert] at hk
      split at hk
      · obtain rfl := Option.some.inj hk
        cases hh
      · exact Or.inl (.inr (.inl ⟨key', cover, hk, hh⟩))
    · exact Or.inl (.inr (.inr hk))
  | pruneCovers =>
    obtain rfl := Option.some.inj hstep
    exact h
  | pruneItems n =>
    simp only [step] at hstep
    split at hstep
    · obtain rfl := Option.some.inj hstep
      exact h
    · cases hstep
  | meet n name =>
    simp only [step] at hstep
    split at hstep
    · rename_i referenced hn
      rw [spares, hn] at hspares
      split at hstep <;> obtain rfl := Option.some.inj hstep
      · exact h
      · rename_i hname
        intro other hother
        have hne : name ≠ other := by
          rintro rfl
          have huse : s.inUse name = true := hother
          simp [hname, huse] at hspares
        rw [Table.get?_erase, if_neg hne]
        exact h other hother
    · cases hstep
  | pruned n =>
    simp only [step] at hstep
    split at hstep
    · obtain rfl := Option.some.inj hstep
      exact h
    · cases hstep

/-- **Every entry has its file**, at every moment. -/
theorem entries_present {s₀ : Store} {events : List Event} (h₀ : (system C).start s₀)
    (hspares : (system C).Along (fun s event => spares s event = true) s₀ events)
    (he : (system C).exec s₀ events = some s) : Present s := by
  have hnext : ∀ s event s', Inv s → spares s event = true → (system C).next s event = some s' →
      Inv s' := fun s event s' h hs hn => step_inv h hs hn
  have hstart : Inv s₀ := by
    refine inv_iff.mpr ⟨h₀.1, fun writer hw => ?_⟩
    rw [h₀.2.1] at hw
    cases hw
  exact (inv_iff.mp ((system C).exec_induction hnext hstart hspares he)).1

end

/-! ## A prune beside a writer -/

/-- Artwork is a JPEG of its own, and the hash spells out one byte. -/
def plain : Codec where
  resize raw := if raw = [] then .error "empty image" else .ok raw
  sha1 raw := String.ofList (raw.map fun b => Char.ofNat b.toNat)

def empty : Store where
  covers := Table.empty
  items := Table.empty
  files := Table.empty
  writers := []
  prunes := []

theorem empty_start : (system plain).start empty :=
  ⟨⟨fun key hash h => by simp [empty] at h, fun key cover hash h => by simp [empty] at h⟩, rfl, rfl⟩

/-- Two covers are kept, one is kept over, and its file goes. -/
def oneByOne : List Event :=
  [.storeCover (.album "a") [65], .enter 0, .storeCover (.item "track:b" 7 9) [66], .enter 0,
    .storeCover (.album "a") [67], .enter 0, .pruneCovers, .pruneItems 0, .meet 0 "A", .meet 0 "B",
    .meet 0 "C", .pruned 0]

theorem entries_present_oneByOne : ∃ s, (system plain).exec empty oneByOne = some s ∧
    s.files.rows.map Prod.fst = ["B", "C"] ∧ Present s := by
  have hrun : ((system plain).exec empty oneByOne).any
      (fun s => s.files.rows.map Prod.fst = ["B", "C"]) = true := by decide +kernel
  have hspares : (system plain).checked spares empty oneByOne = true := by decide +kernel
  obtain ⟨s, hexec, hfiles⟩ := (Option.any_eq_true _ _).mp hrun
  exact ⟨s, hexec, of_decide_eq_true hfiles,
    entries_present empty_start ((system plain).along_of_checked (fun _ _ h => h) hspares) hexec⟩

/-- The cover of a track is written between the snapshot of a prune and its listing. -/
def writtenBeside : List Event :=
  [.pruneCovers, .pruneItems 0, .storeCover (.item "track:b" 7 9) [66], .meet 0 "B", .pruned 0,
    .enter 0]

/-- All calls have ended, and the item's file is gone. -/
theorem entry_missing : ∃ s, (system plain).Reachable s ∧ s.writers = [] ∧ s.prunes = [] ∧
    ¬ Present s := by
  have hrun : ((system plain).exec empty writtenBeside).any (fun s =>
      s.writers = [] ∧ s.prunes = [] ∧ s.files.get? "B" = none ∧
        s.items.get? "track:b" = some { hash := some "B", modified := 7, checked := 9 }) =
          true := by
    decide +kernel
  obtain ⟨s, hexec, hfacts⟩ := (Option.any_eq_true _ _).mp hrun
  obtain ⟨hwriters, hprunes, hfile, hitem⟩ := of_decide_eq_true hfacts
  refine ⟨s, ⟨empty, writtenBeside, empty_start, hexec⟩, hwriters, hprunes, fun hpresent => ?_⟩
  have hthere := hpresent.items "track:b" _ "B" hitem rfl
  rw [hfile] at hthere
  cases hthere

end Mbrc.Covers
