import Mathlib.Data.String.Basic
import Mathlib.Logic.Function.Basic
import MbrcPlugin.Lib.OrderedTable
import MbrcPlugin.Lib.Transition

/-!
# The kept tag-editing rows

The first question about a field reads every track's values from the host, in batches, and the rows
are kept.  An editor that has written a tag reads its file again and patches the kept row; the
scanner does the same for the files the host reports edited.  A patch and a change of the index bump
a generation, and a read that was overtaken by one is not kept.

An editor that finds no rows kept leaves the generation alone, though a read may have passed its
file already; one that cannot read its file leaves the old row; and two editors of a file patch in
any order.  Where none of the three leaves a row the host has replaced with nobody to mend it, the
kept rows are the host's once every editor, reader and index change is over
(`kept_rows_follow_edits`).
-/

namespace Mbrc.KeptRows

/-- The values of the tag-editing fields, in the order they are read. -/
abbrev Values := List String

abbrev TagRows := Table String Values

/-- Paths read per host call. -/
def rowBatch : Nat := 500

/-- What one host call answers is filed. -/
def fileRows (host : String → Values) (rows : TagRows) (batch : List String) : TagRows :=
  batch.foldl (fun rows path => rows.insert path (host path)) rows

/-- The rows of `patch_tag_rows`: a path with no kept row is skipped. -/
def patchRows (all : TagRows) (rows : List (String × Values)) : TagRows :=
  rows.foldl (fun all row => if (all.get? row.1).isSome then all.insert row.1 row.2 else all) all

/-! ## Editors and readers -/

/-- Where `refresh_rows` stands. -/
inductive Editor where
  /-- It is to look whether any rows are kept. -/
  | looking (paths : List String)
  | rereading (paths : List String)
  | patching (rows : List (String × Values))
  deriving DecidableEq

/-- Where the one read under way stands. -/
inductive Reader where
  | idle
  | began (generation : Nat)
  /-- It has the number of the index's tracks. -/
  | counted (generation count : Nat)
  | reading (generation : Nat) (todo : List String) (rows : TagRows)

structure World where
  /-- The values the host has for a file. -/
  host : String → Values
  /-- The tracks of the index, none while the cache is not validated. -/
  library : List String
  kept : Option TagRows
  generation : Nat
  /-- Index changes that are committed and have not dropped the rows yet. -/
  moving : Nat
  reader : Reader
  editors : List Editor
  /-- Files reported edited that the scanner has not taken. -/
  reported : List String
  /-- Files the scanner's pass has taken. -/
  batch : List String

inductive Event where
  /-- A client's write of a tag. -/
  | setTag (path : String) (values : Values)
  /-- An edit in the host's own window, which it reports. -/
  | edit (path : String) (values : Values)
  | report (path : String)
  | take
  /-- The pass is to refresh what it has taken of the library. -/
  | refresh
  | moveIndex (library : List String)
  | indexMoved
  | openRows
  | count
  /-- The reader takes the index's paths, or the host's listing where the index is empty. -/
  | list (paths : List String)
  | readBatch
  | failRead
  | keep
  | look (n : Nat)
  | reread (n : Nat) (answered : Bool)
  | patch (n : Nat)
  deriving DecidableEq

namespace World

def step (s : World) : Event → Option World
  | .setTag path values =>
    some { s with
      host := Function.update s.host path values
      editors := s.editors ++ [.looking [path]] }
  | .edit path values =>
    some { s with
      host := Function.update s.host path values, reported := s.reported ++ [path] }
  | .report path => some { s with reported := s.reported ++ [path] }
  | .take =>
    if s.batch = [] then some { s with batch := s.reported, reported := [] } else none
  | .refresh =>
    some { s with
      batch := [], editors := s.editors ++ [.looking (s.batch.filter (· ∈ s.library))] }
  | .moveIndex library => some { s with library, moving := s.moving + 1 }
  | .indexMoved =>
    if 0 < s.moving then
      some { s with moving := s.moving - 1, generation := s.generation + 1, kept := none }
    else none
  | .openRows =>
    match s.reader, s.kept with
    | .idle, none => some { s with reader := .began s.generation }
    | _, _ => none
  | .count =>
    match s.reader with
    | .began g => some { s with reader := .counted g s.library.length }
    | _ => none
  | .list paths =>
    match s.reader with
    | .counted g n =>
      some { s with reader := .reading g (if 0 < n then s.library.take n else paths) Table.empty }
    | _ => none
  | .readBatch =>
    match s.reader with
    | .reading g todo rows =>
      if todo = [] then none
      else
        some { s with
          reader := .reading g (todo.drop rowBatch) (fileRows s.host rows (todo.take rowBatch)) }
    | _ => none
  | .failRead => some { s with reader := .idle }
  | .keep =>
    match s.reader with
    | .reading g [] rows =>
      some { s with reader := .idle, kept := if g = s.generation then some rows else s.kept }
    | _ => none
  | .look n =>
    match s.editors[n]? with
    | some (.looking paths) =>
      if s.kept.isNone ∨ paths = [] then some { s with editors := s.editors.eraseIdx n }
      else some { s with editors := s.editors.set n (.rereading paths) }
    | _ => none
  | .reread n answered =>
    match s.editors[n]? with
    | some (.rereading paths) =>
      if answered then
        let rows := paths.map fun path => (path, s.host path)
        some { s with editors := s.editors.set n (.patching rows) }
      else some { s with editors := s.editors.eraseIdx n }
    | _ => none
  | .patch n =>
    match s.editors[n]? with
    | some (.patching rows) =>
      some { s with
        generation := s.generation + 1
        kept := s.kept.map (patchRows · rows)
        editors := s.editors.eraseIdx n }
    | _ => none

/-- No read or edit has begun. -/
def system : Transition.System World Event where
  start s := s.kept = none ∧ s.moving = 0 ∧ s.reader = .idle ∧ s.editors = []
  next := step

/-! ## What is promised -/

/-- Every editor, reader and index change is over. -/
structure Over (s : World) : Prop where
  reader : s.reader = .idle
  editors : s.editors = []
  reported : s.reported = []
  batch : s.batch = []
  moving : s.moving = 0

/-- **What is promised**: then the kept row of every track of the library is the host's. -/
def FollowsEdits (s : World) : Prop :=
  s.Over → ∀ rows, s.kept = some rows → ∀ path ∈ s.library, rows.get? path = some (s.host path)


/-- The editor will leave the row of the file as the host has it now. -/
def Mends (s : World) (path : String) : Editor → Prop
  | .looking paths | .rereading paths => path ∈ paths
  | .patching rows => (∃ v, (path, v) ∈ rows) ∧ ∀ v, (path, v) ∈ rows → v = s.host path

/-- The file is reported, or some editor will mend its row. -/
def Due (s : World) (path : String) : Prop :=
  path ∈ s.reported ∨ path ∈ s.batch ∨ ∃ editor ∈ s.editors, s.Mends path editor

def Keeps (s : World) (path : String) (v : Values) : Prop :=
  ∃ rows, s.kept = some rows ∧ rows.get? path = some v

/-- The read under way has the row, and will be kept unless something overtakes it. -/
def Reads (s : World) (path : String) (v : Values) : Prop :=
  ∃ todo rows, s.reader = .reading s.generation todo rows ∧ rows.get? path = some v

def Shows (s : World) (path : String) (v : Values) : Prop := s.Keeps path v ∨ s.Reads path v

/-- Nothing is lost with the `n`-th editor: the row is the host's, or is to be dropped, or mended by
another. -/
def Spared (s : World) (n : Nat) (path : String) (v : Values) : Prop :=
  v = s.host path ∨ 0 < s.moving ∨ Due { s with editors := s.editors.eraseIdx n } path

/-- An editor that finds no rows kept or cannot read its files leaves no row of them that it alone
would have mended, and one that patches a kept row brings what the host has, unless the row is to be
dropped or mended by another. -/
def Careful (s : World) : Event → Prop
  | .look n => s.kept = none → ∀ paths, s.editors[n]? = some (.looking paths) →
      ∀ path ∈ paths, path ∈ s.library → ∀ v, s.Shows path v → s.Spared n path v
  | .reread n false => ∀ paths, s.editors[n]? = some (.rereading paths) →
      ∀ path ∈ paths, path ∈ s.library → ∀ v, s.Shows path v → s.Spared n path v
  | .patch n => ∀ rows, s.editors[n]? = some (.patching rows) →
      ∀ path v, (path, v) ∈ rows → path ∈ s.library → (∃ w, s.Keeps path w) → s.Spared n path v
  | _ => True

end World

/-! ## Rows filed and patched -/

theorem get?_fileRows (host : String → Values) (rows : TagRows) (batch : List String)
    (path : String) : (fileRows host rows batch).get? path =
      if path ∈ batch then some (host path) else rows.get? path := by
  induction batch generalizing rows with
  | nil => rfl
  | cons a batch ih =>
    rw [fileRows, List.foldl_cons, ← fileRows, ih, Table.get?_insert]
    by_cases hbatch : path ∈ batch
    · simp [hbatch]
    · by_cases ha : a = path
      · simp [ha]
      · simp [hbatch, ha, Ne.symm ha]

theorem get?_patchRow (all : TagRows) (row : String × Values) (path : String) :
    (if (all.get? row.1).isSome then all.insert row.1 row.2 else all).get? path =
      if row.1 = path then (all.get? path).map fun _ => row.2 else all.get? path := by
  by_cases hsome : (all.get? row.1).isSome
  · rw [if_pos hsome, Table.get?_insert]
    split
    · rename_i heq
      obtain ⟨v, hv⟩ := Option.isSome_iff_exists.mp (heq ▸ hsome)
      rw [hv]
      rfl
    · rfl
  · rw [if_neg hsome]
    split
    · rename_i heq
      rw [← heq, Option.not_isSome_iff_eq_none.mp hsome]
      rfl
    · rfl

/-- A patch brings no row and drops none. -/
theorem isSome_get?_patchRows (all : TagRows) (rows : List (String × Values)) (path : String) :
    ((patchRows all rows).get? path).isSome = (all.get? path).isSome := by
  induction rows generalizing all with
  | nil => rfl
  | cons row rows ih =>
    rw [patchRows, List.foldl_cons, ← patchRows, ih, get?_patchRow]
    split
    · rw [Option.isSome_map]
    · rfl

/-- A row after the patch is the patch's, or one that the patch does not name. -/
theorem get?_patchRows {all : TagRows} {rows : List (String × Values)} {path : String} {v : Values}
    (h : (patchRows all rows).get? path = some v) :
    (path, v) ∈ rows ∨ (all.get? path = some v ∧ ∀ w, (path, w) ∉ rows) := by
  induction rows generalizing all with
  | nil => exact Or.inr ⟨h, fun w hw => by simp at hw⟩
  | cons row rows ih =>
    rw [patchRows, List.foldl_cons, ← patchRows] at h
    rcases ih h with hmem | ⟨hget, hnot⟩
    · exact Or.inl (List.mem_cons_of_mem _ hmem)
    · rw [get?_patchRow] at hget
      by_cases heq : row.1 = path
      · rw [if_pos heq] at hget
        obtain ⟨w, -, hw⟩ := Option.map_eq_some_iff.mp hget
        refine Or.inl ?_
        rw [← heq, ← hw]
        exact List.mem_cons_self
      · rw [if_neg heq] at hget
        refine Or.inr ⟨hget, fun w hw => ?_⟩
        rcases List.mem_cons.mp hw with hrow | hw
        · exact heq (congrArg Prod.fst hrow).symm
        · exact hnot w hw

/-! ## The invariant -/

namespace World

/-- What a read has of the index: all of it is read or still to be. -/
def Covers (s : World) : Reader → Prop
  | .idle => True
  | .began g => g ≤ s.generation
  | .counted g n =>
    g ≤ s.generation ∧ (g = s.generation → 0 < s.moving ∨ s.library.length ≤ n)
  | .reading g todo rows =>
    g ≤ s.generation ∧
      (g = s.generation → 0 < s.moving ∨
        ∀ path ∈ s.library, path ∈ todo ∨ (rows.get? path).isSome)

structure Inv (s : World) : Prop where
  /-- A row that differs from the host's is to be dropped or mended. -/
  mended : ∀ path ∈ s.library, ∀ v, s.Shows path v →
    v = s.host path ∨ 0 < s.moving ∨ s.Due path
  whole : ∀ rows, s.kept = some rows → 0 < s.moving ∨
    ∀ path ∈ s.library, (rows.get? path).isSome
  reader : s.Covers s.reader

variable {s s' : World}

theorem Inv.followsEdits (h : s.Inv) : s.FollowsEdits := by
  intro hover rows hkept path hpath
  have hnot : ¬ 0 < s.moving := by simp [hover.moving]
  obtain ⟨v, hv⟩ := Option.isSome_iff_exists.mp
    ((h.whole rows hkept).resolve_left hnot path hpath)
  rw [hv]
  refine congrArg some ?_
  rcases h.mended path hpath v (Or.inl ⟨rows, hkept, hv⟩) with
    hhost | hmoving | hreported | hbatch | ⟨editor, heditor, -⟩
  · exact hhost
  · exact absurd hmoving hnot
  · simp [hover.reported] at hreported
  · simp [hover.batch] at hbatch
  · simp [hover.editors] at heditor

/-! ## Steps of editors -/

/-- A step that moves files between the queue, the pass and the editors. -/
theorem Inv.reassign {editors : List Editor} {reported batch : List String} (h : s.Inv)
    (hdue : ∀ path ∈ s.library, ∀ v, s.Shows path v → s.Due path →
      v = s.host path ∨ 0 < s.moving ∨ Due { s with editors, reported, batch } path) :
    Inv { s with editors, reported, batch } := by
  refine ⟨fun path hpath v hv => ?_, h.whole, ?_⟩
  · rcases h.mended path hpath v hv with hhost | hmoving | hwas
    · exact Or.inl hhost
    · exact Or.inr (Or.inl hmoving)
    · exact hdue path hpath v hv hwas
  · have hreader := h.reader
    cases hr : s.reader <;> rw [hr] at hreader <;> exact hreader

/-- **An edit** leaves the other files' rows as they were, and its own to be mended. -/
theorem Inv.edit (h : s.Inv) (path : String) (values : Values) (editors : List Editor)
    (reported : List String)
    (hdue : Due { s with
      host := Function.update s.host path values
      editors := s.editors ++ editors, reported := s.reported ++ reported } path) :
    Inv { s with
      host := Function.update s.host path values
      editors := s.editors ++ editors, reported := s.reported ++ reported } := by
  refine ⟨fun other hother v hv => ?_, h.whole, ?_⟩
  · by_cases hsame : other = path
    · exact Or.inr (Or.inr (hsame ▸ hdue))
    have hhost : Function.update s.host path values other = s.host other :=
      Function.update_of_ne hsame values s.host
    dsimp only
    rw [hhost]
    refine (h.mended other hother v hv).imp_right (Or.imp_right ?_)
    rintro (hreported | hbatch | ⟨editor, heditor, hmends⟩)
    · exact Or.inl (List.mem_append_left _ hreported)
    · exact Or.inr (Or.inl hbatch)
    · refine Or.inr (Or.inr ⟨editor, List.mem_append_left _ heditor, ?_⟩)
      cases editor with
      | looking paths | rereading paths => exact hmends
      | patching rows =>
        refine ⟨hmends.1, fun w hw => ?_⟩
        dsimp only
        rw [hhost]
        exact hmends.2 w hw
  · have hreader := h.reader
    cases hr : s.reader <;> rw [hr] at hreader <;> exact hreader

/-- What another editor is to mend, it still is once one is done. -/
theorem Due.erase {n : Nat} {editor : Editor} {path : String} (h : s.Due path)
    (hn : s.editors[n]? = some editor) (hnot : ¬ s.Mends path editor) :
    Due { s with editors := s.editors.eraseIdx n } path := by
  refine Or.imp_right (Or.imp_right ?_) h
  rintro ⟨other, hother, hmends⟩
  obtain ⟨m, hm⟩ := List.mem_iff_getElem?.mp hother
  have hne : m ≠ n := by
    rintro rfl
    rw [hn] at hm
    exact hnot (Option.some.inj hm ▸ hmends)
  exact ⟨other, List.mem_eraseIdx_iff_getElem?.mpr ⟨m, hne, hm⟩, hmends⟩

/-- An editor that goes on mends what it was to mend. -/
theorem Due.advance {n : Nat} {editor editor' : Editor} {path : String} (h : s.Due path)
    (hn : s.editors[n]? = some editor) (hon : s.Mends path editor → s.Mends path editor') :
    Due { s with editors := s.editors.set n editor' } path := by
  refine Or.imp_right (Or.imp_right ?_) h
  rintro ⟨other, hother, hmends⟩
  obtain ⟨m, hm⟩ := List.mem_iff_getElem?.mp hother
  by_cases hmn : m = n
  · subst hmn
    rw [hn] at hm
    obtain ⟨hlt, -⟩ := List.getElem?_eq_some_iff.mp hn
    exact ⟨editor', List.mem_set hlt editor', hon (Option.some.inj hm ▸ hmends)⟩
  · refine ⟨other, List.mem_iff_getElem?.mpr ⟨m, ?_⟩, hmends⟩
    rw [List.getElem?_set_ne (Ne.symm hmn)]
    exact hm

/-- **An editor gives up**: what it alone was to mend is spared. -/
theorem Inv.giveUp {n : Nat} {paths : List String} {editor : Editor} (h : s.Inv)
    (hn : s.editors[n]? = some editor) (hmends : ∀ path, s.Mends path editor → path ∈ paths)
    (hspared : ∀ path ∈ paths, path ∈ s.library → ∀ v, s.Shows path v → s.Spared n path v) :
    Inv { s with editors := s.editors.eraseIdx n } := by
  refine h.reassign fun path hpath v hv hdue => ?_
  by_cases hits : s.Mends path editor
  · exact hspared path (hmends path hits) hpath v hv
  · exact Or.inr (Or.inr (hdue.erase hn hits))

theorem Inv.advance {n : Nat} {editor editor' : Editor} (h : s.Inv)
    (hn : s.editors[n]? = some editor)
    (hon : ∀ path, s.Mends path editor → s.Mends path editor') :
    Inv { s with editors := s.editors.set n editor' } :=
  h.reassign fun path _ _ _ hdue => Or.inr (Or.inr (hdue.advance hn (hon path)))

theorem Inv.look {n : Nat} (h : s.Inv) (hcareful : s.Careful (.look n))
    (hs : s.step (.look n) = some s') : s'.Inv := by
  simp only [step] at hs
  split at hs
  case h_2 => cases hs
  case h_1 paths hn =>
    split at hs <;> obtain rfl := Option.some.inj hs
    case isTrue hnone =>
      refine h.giveUp hn (fun _ hmends => hmends) fun path hmem hpath v hv => ?_
      rcases hnone with hnone | rfl
      · exact hcareful (Option.isNone_iff_eq_none.mp hnone) paths hn path hmem hpath v hv
      · exact absurd hmem List.not_mem_nil
    case isFalse => exact h.advance hn fun _ hmends => hmends

theorem Inv.reread {n : Nat} {answered : Bool} (h : s.Inv)
    (hcareful : s.Careful (.reread n answered)) (hs : s.step (.reread n answered) = some s') :
    s'.Inv := by
  simp only [step] at hs
  split at hs
  case h_2 => cases hs
  case h_1 paths hn =>
    cases answered with
    | false =>
      obtain rfl := Option.some.inj hs
      exact h.giveUp hn (fun _ hmends => hmends) (hcareful paths hn)
    | true =>
      obtain rfl := Option.some.inj hs
      refine h.advance hn fun path hmends => ⟨⟨s.host path, ?_⟩, fun v hv => ?_⟩
      · exact List.mem_map_of_mem hmends
      · obtain ⟨other, -, heq⟩ := List.mem_map.mp hv
        cases heq
        rfl

theorem Inv.patch {n : Nat} (h : s.Inv) (hcareful : s.Careful (.patch n))
    (hs : s.step (.patch n) = some s') : s'.Inv := by
  simp only [step] at hs
  split at hs
  case h_2 => cases hs
  case h_1 patched hn =>
    obtain rfl := Option.some.inj hs
    refine ⟨fun path hpath v hv => ?_, fun rows hrows => ?_, ?_⟩
    · rcases hv with ⟨rows, hrows, hget⟩ | ⟨todo, rows, hreader, -⟩
      · obtain ⟨all, hall, rfl⟩ := Option.map_eq_some_iff.mp hrows
        rcases get?_patchRows hget with hmem | ⟨hold, hnot⟩
        · -- the patch brought the row
          obtain ⟨w, hw⟩ := Option.isSome_iff_exists.mp
            ((isSome_get?_patchRows all patched path).symm.trans (by rw [hget]; rfl))
          exact hcareful patched hn path v hmem hpath ⟨w, all, hall, hw⟩
        · refine (h.mended path hpath v (Or.inl ⟨all, hall, hold⟩)).imp_right (Or.imp_right ?_)
          exact fun hdue => hdue.erase hn fun hmends => hnot _ hmends.1.choose_spec
      · -- a read that was under way is overtaken
        have hcovers := h.reader
        dsimp only at hreader
        rw [hreader] at hcovers
        exact absurd hcovers.1 (Nat.not_succ_le_self _)
    · obtain ⟨all, hall, rfl⟩ := Option.map_eq_some_iff.mp hrows
      refine (h.whole all hall).imp_right fun hwhole path hpath => ?_
      rw [isSome_get?_patchRows]
      exact hwhole path hpath
    · have hcovers := h.reader
      cases hr : s.reader <;> rw [hr] at hcovers
      · trivial
      · exact hcovers.trans (Nat.le_succ _)
      all_goals
        refine ⟨hcovers.1.trans (Nat.le_succ _), fun heq => ?_⟩
        dsimp only at heq
        have := hcovers.1
        omega

/-! ## Steps of the index and of the reader -/

theorem Inv.moveIndex (h : s.Inv) (library : List String) :
    Inv { s with library, moving := s.moving + 1 } := by
  refine ⟨fun _ _ _ _ => Or.inr (Or.inl (Nat.succ_pos _)), fun _ _ => Or.inl (Nat.succ_pos _), ?_⟩
  have hcovers := h.reader
  cases hr : s.reader <;> rw [hr] at hcovers
  · trivial
  · exact hcovers
  all_goals exact ⟨hcovers.1, fun _ => Or.inl (Nat.succ_pos _)⟩

theorem Inv.indexMoved (h : s.Inv) :
    Inv { s with moving := s.moving - 1, generation := s.generation + 1, kept := none } := by
  have hcovers := h.reader
  refine ⟨fun path hpath v hv => ?_, fun rows hrows => by simp at hrows, ?_⟩
  · rcases hv with ⟨rows, hrows, -⟩ | ⟨todo, rows, hreader, -⟩
    · cases hrows
    · dsimp only at hreader
      rw [hreader] at hcovers
      exact absurd hcovers.1 (Nat.not_succ_le_self _)
  · cases hr : s.reader <;> rw [hr] at hcovers
    · trivial
    · exact hcovers.trans (Nat.le_succ _)
    all_goals
      refine ⟨hcovers.1.trans (Nat.le_succ _), fun heq => ?_⟩
      dsimp only at heq
      have := hcovers.1
      omega

/-- A step of the reader that has no row yet, or none any more. -/
theorem Inv.reads {reader : Reader} (h : s.Inv) (hcovers : s.Covers reader)
    (hrows : ∀ todo rows, reader = .reading s.generation todo rows → ∀ path ∈ s.library, ∀ v,
      rows.get? path = some v → v = s.host path ∨ 0 < s.moving ∨ s.Due path) :
    Inv { s with reader } := by
  refine ⟨fun path hpath v hv => ?_, h.whole, ?_⟩
  · rcases hv with hkeeps | ⟨todo, rows, hreader, hget⟩
    · exact h.mended path hpath v (Or.inl hkeeps)
    · exact hrows todo rows hreader path hpath v hget
  · cases reader <;> exact hcovers

theorem Inv.list {paths : List String} (h : s.Inv) (hs : s.step (.list paths) = some s') :
    s'.Inv := by
  simp only [step] at hs
  split at hs
  case h_2 => cases hs
  case h_1 g n hreader =>
    obtain rfl := Option.some.inj hs
    have hcovers := h.reader
    rw [hreader] at hcovers
    refine h.reads ⟨hcovers.1, fun heq => (hcovers.2 heq).imp_right fun hcount path hpath => ?_⟩ ?_
    · left
      rw [if_pos (by have := List.length_pos_of_mem hpath; omega), List.take_of_length_le hcount]
      exact hpath
    · rintro todo rows ⟨⟩ path - v hv
      simp at hv

theorem Inv.readBatch (h : s.Inv) (hs : s.step .readBatch = some s') : s'.Inv := by
  simp only [step] at hs
  split at hs
  case h_2 => cases hs
  case h_1 g todo rows hreader =>
    split at hs
    case isTrue => cases hs
    case isFalse =>
      obtain rfl := Option.some.inj hs
      have hcovers := h.reader
      rw [hreader] at hcovers
      refine h.reads
        ⟨hcovers.1, fun heq => (hcovers.2 heq).imp_right fun hwhole path hpath => ?_⟩ ?_
      · rw [get?_fileRows]
        rcases hwhole path hpath with htodo | hrow
        · rw [← List.take_append_drop rowBatch todo, List.mem_append] at htodo
          rcases htodo with hbatch | hlater
          · exact Or.inr (by simp [hbatch])
          · exact Or.inl hlater
        · refine Or.inr ?_
          split
          · rfl
          · exact hrow
      · rintro _ _ ⟨⟩ path hpath v hv
        rw [get?_fileRows] at hv
        split at hv
        · exact Or.inl (Option.some.inj hv).symm
        · exact h.mended path hpath v (Or.inr ⟨todo, rows, hreader, hv⟩)

theorem Inv.keep (h : s.Inv) (hs : s.step .keep = some s') : s'.Inv := by
  simp only [step] at hs
  split at hs
  case h_2 => cases hs
  case h_1 g rows hreader =>
    obtain rfl := Option.some.inj hs
    have hcovers := h.reader
    rw [hreader] at hcovers
    by_cases hcurrent : g = s.generation
    · subst hcurrent
      simp only [if_true]
      refine ⟨fun path hpath v hv => ?_, fun rows' hrows' => ?_, trivial⟩
      · rcases hv with ⟨rows', hrows', hget⟩ | ⟨todo, rows', hnot, -⟩
        · obtain rfl := Option.some.inj hrows'
          exact h.mended path hpath v (Or.inr ⟨[], rows, hreader, hget⟩)
        · cases hnot
      · obtain rfl := Option.some.inj hrows'
        refine (hcovers.2 rfl).imp_right fun hwhole path hpath => ?_
        exact (hwhole path hpath).resolve_left List.not_mem_nil
    · simp only [if_neg hcurrent]
      exact h.reads trivial (by simp)

theorem inv_step {event : Event} (h : s.Inv) (hcareful : s.Careful event)
    (hs : s.step event = some s') : s'.Inv := by
  cases event with
  | setTag path values =>
    obtain rfl := Option.some.inj hs
    have hafter := h.edit path values [.looking [path]] []
      (Or.inr (Or.inr ⟨.looking [path], by simp, List.mem_singleton_self path⟩))
    simpa using hafter
  | edit path values =>
    obtain rfl := Option.some.inj hs
    have hafter := h.edit path values [] [path] (Or.inl (by simp))
    simpa using hafter
  | report path =>
    obtain rfl := Option.some.inj hs
    exact h.reassign fun _ _ _ _ hdue =>
      Or.inr (Or.inr (hdue.imp_left fun hin => List.mem_append_left _ hin))
  | take =>
    simp only [step] at hs
    split at hs
    case isFalse => cases hs
    case isTrue hbatch =>
      obtain rfl := Option.some.inj hs
      refine h.reassign fun path _ _ _ hdue => Or.inr (Or.inr ?_)
      rcases hdue with hin | hin | heditors
      · exact Or.inr (Or.inl hin)
      · simp [hbatch] at hin
      · exact Or.inr (Or.inr heditors)
  | refresh =>
    obtain rfl := Option.some.inj hs
    refine h.reassign fun path hpath _ _ hdue => Or.inr (Or.inr ?_)
    rcases hdue with hin | hin | ⟨editor, heditor, hmends⟩
    · exact Or.inl hin
    · refine Or.inr (Or.inr ⟨_, List.mem_append_right _ (List.mem_singleton_self _), ?_⟩)
      exact List.mem_filter.mpr ⟨hin, decide_eq_true hpath⟩
    · exact Or.inr (Or.inr ⟨editor, List.mem_append_left _ heditor, hmends⟩)
  | moveIndex library =>
    obtain rfl := Option.some.inj hs
    exact h.moveIndex library
  | indexMoved =>
    simp only [step] at hs
    split at hs
    · obtain rfl := Option.some.inj hs
      exact h.indexMoved
    · cases hs
  | openRows =>
    simp only [step] at hs
    split at hs
    case h_2 => cases hs
    case h_1 =>
      obtain rfl := Option.some.inj hs
      exact h.reads le_rfl (by simp)
  | count =>
    simp only [step] at hs
    split at hs
    case h_2 => cases hs
    case h_1 g hreader =>
      obtain rfl := Option.some.inj hs
      have hcovers := h.reader
      rw [hreader] at hcovers
      exact h.reads ⟨hcovers, fun _ => Or.inr le_rfl⟩ (by simp)
  | list paths => exact h.list hs
  | readBatch => exact h.readBatch hs
  | failRead =>
    obtain rfl := Option.some.inj hs
    exact h.reads trivial (by simp)
  | keep => exact h.keep hs
  | look n => exact h.look hcareful hs
  | reread n answered => exact h.reread hcareful hs
  | patch n => exact h.patch hcareful hs

theorem Inv.start (h : system.start s) : s.Inv := by
  obtain ⟨hkept, hmoving, hreader, heditors⟩ := h
  refine ⟨fun path _ v hv => ?_, fun rows hrows => by simp [hkept] at hrows, ?_⟩
  · rcases hv with ⟨rows, hrows, -⟩ | ⟨todo, rows, hnot, -⟩
    · simp [hkept] at hrows
    · simp [hreader] at hnot
  · rw [hreader]
    trivial

/-- **The kept rows follow every edit**, in any run whose editors leave no replaced row without one
to mend it. -/
theorem kept_rows_follow_edits {s₀ : World} {events : List Event} (h₀ : system.start s₀)
    (hcareful : system.Along Careful s₀ events) (hrun : system.exec s₀ events = some s) :
    s.FollowsEdits :=
  (system.exec_induction (fun _ _ _ => inv_step) (Inv.start h₀) hcareful hrun).followsEdits

/-! ## Runs -/

/-- A step that is careful in the simplest way: no editor gives up on a row, and what is patched is
the host's. -/
def plain (s : World) : Event → Bool
  | .look _ => s.kept.isSome ||
    match s.reader with
    | .reading _ _ _ => false
    | _ => true
  | .reread _ answered => answered
  | .patch n =>
    match s.editors[n]? with
    | some (.patching rows) => rows.all fun row => row.2 = s.host row.1
    | _ => true
  | _ => true

theorem careful_of_plain {event : Event} (h : s.plain event = true) : s.Careful event := by
  cases event with
  | look n =>
    rintro hnone paths - path - - v (⟨rows, hrows, -⟩ | ⟨todo, rows, hreader, -⟩)
    · rw [hnone] at hrows
      cases hrows
    · simp [plain, hnone, hreader] at h
  | reread n answered =>
    rw [plain] at h
    subst h
    trivial
  | patch n =>
    intro rows hn path v hmem _ _
    simp only [plain, hn, List.all_eq_true, decide_eq_true_eq] at h
    exact Or.inl (h (path, v) hmem)
  | _ => trivial

/-- Two tracks, and no rows kept. -/
def unread : World where
  host := fun _ => ["old"]
  library := ["a.mp3", "b.mp3"]
  kept := none
  generation := 0
  moving := 0
  reader := .idle
  editors := []
  reported := []
  batch := []

theorem unread_start : system.start unread := ⟨rfl, rfl, rfl, rfl⟩

def isOver (s : World) : Bool :=
  (match s.reader with
    | .idle => true
    | _ => false) && s.editors = [] && s.reported = [] && s.batch = [] && s.moving = 0

theorem over_of_isOver (h : s.isOver = true) : s.Over := by
  simp only [isOver, Bool.and_eq_true, decide_eq_true_eq] at h
  obtain ⟨⟨⟨⟨hreader, heditors⟩, hreported⟩, hbatch⟩, hmoving⟩ := h
  refine ⟨?_, heditors, hreported, hbatch, hmoving⟩
  split at hreader
  · assumption
  · cases hreader

/-- A client edits one track and the host another, with the rows kept. -/
def bothEdited : List Event :=
  [.openRows, .count, .list [], .readBatch, .keep, .setTag "a.mp3" ["new"], .look 0,
    .edit "b.mp3" ["other"], .reread 0 true, .patch 0, .take, .refresh, .look 0, .reread 0 true,
    .patch 0]

theorem kept_rows_follow_edits_bothEdited : ∃ s, system.exec unread bothEdited = some s ∧
    s.FollowsEdits ∧ s.Over ∧ s.kept.isSome = true ∧ s.host "b.mp3" = ["other"] := by
  have hrun : (system.exec unread bothEdited).any (fun s =>
      s.isOver = true ∧ s.kept.isSome = true ∧ s.host "b.mp3" = ["other"]) = true := by
    decide +kernel
  have hplain : system.checked plain unread bothEdited = true := by decide +kernel
  obtain ⟨s, hexec, hfacts⟩ := (Option.any_eq_true _ _).mp hrun
  obtain ⟨hover, hkept, hhost⟩ := of_decide_eq_true hfacts
  exact ⟨s, hexec, kept_rows_follow_edits unread_start
    (system.along_of_checked (fun _ _ => careful_of_plain) hplain) hexec,
    over_of_isOver hover, hkept, hhost⟩

/-- A client edits a track that the read under way has passed. -/
def editedBehind : List Event :=
  [.openRows, .count, .list [], .readBatch, .setTag "a.mp3" ["new"], .look 0, .keep]

/-- A client's editor has read its file, the host edits it again, the scanner's pass drops the rows
and a reader reads them anew; then the editor patches. -/
def patchedLate : List Event :=
  [.openRows, .count, .list [], .readBatch, .keep, .setTag "a.mp3" ["new"], .look 0, .reread 0 true,
    .edit "a.mp3" ["newer"], .take, .moveIndex ["a.mp3", "b.mp3"], .indexMoved, .refresh, .look 1,
    .openRows, .count, .list [], .readBatch, .keep, .patch 0]

/-- The kept row of a track is not the host's. -/
def stale (s : World) (path : String) : Bool :=
  path ∈ s.library && s.kept.any fun rows => rows.get? path ≠ some (s.host path)

theorem not_followsEdits_of_stale {path : String} (hover : s.isOver = true)
    (h : s.stale path = true) : ¬ s.FollowsEdits := by
  simp only [stale, Bool.and_eq_true, decide_eq_true_eq] at h
  obtain ⟨hpath, hany⟩ := h
  obtain ⟨rows, hrows, hne⟩ := (Option.any_eq_true _ _).mp hany
  exact fun hfollows =>
    of_decide_eq_true hne (hfollows (over_of_isOver hover) rows hrows path hpath)

/-- **A replaced value that stays**: behind a read under way, and by a patch that comes late. -/
theorem kept_row_replaced :
    (∃ s, system.exec unread editedBehind = some s ∧ system.Reachable s ∧ ¬ s.FollowsEdits) ∧
      ∃ s, system.exec unread patchedLate = some s ∧ system.Reachable s ∧ ¬ s.FollowsEdits := by
  have hbehind : (system.exec unread editedBehind).any (fun s =>
      s.isOver = true ∧ s.stale "a.mp3" = true) = true := by decide +kernel
  have hlate : (system.exec unread patchedLate).any (fun s =>
      s.isOver = true ∧ s.stale "a.mp3" = true) = true := by decide +kernel
  obtain ⟨s, hexec, hs⟩ := (Option.any_eq_true _ _).mp hbehind
  obtain ⟨t, hexec', ht⟩ := (Option.any_eq_true _ _).mp hlate
  obtain ⟨hover, hstale⟩ := of_decide_eq_true hs
  obtain ⟨hover', hstale'⟩ := of_decide_eq_true ht
  exact ⟨⟨s, hexec, ⟨unread, editedBehind, unread_start, hexec⟩,
      not_followsEdits_of_stale hover hstale⟩,
    t, hexec', ⟨unread, patchedLate, unread_start, hexec'⟩,
      not_followsEdits_of_stale hover' hstale'⟩

end World

end Mbrc.KeptRows
