import Mathlib.Order.Lattice
import Mathlib.Order.Basic
import Mathlib.Order.Defs.LinearOrder
import Mathlib.Order.Compare
import Mathlib.Data.List.Pairwise
import Mathlib.Data.List.TakeWhile
import Std.Data.ExtTreeMap

/-!
# Ordered key-value tables

A persistent table of an embedded store: a finite map whose rows are read in the order of
their keys.  It is the standard library's tree map, cut down to what a store offers (a point
read, an insert, a removal, the rows in key order, a range of them) and with its lemmas stated
for the order of the keys instead of a comparison function.
-/

/-- A finite map read in key order. -/
def Table (κ ν : Type) [LinearOrder κ] : Type := Std.ExtTreeMap κ ν compare

namespace Table

variable {κ ν : Type} [LinearOrder κ]

/-! ## Operations -/

/-- A table without rows. -/
def empty : Table κ ν := (∅ : Std.ExtTreeMap κ ν compare)

/-- The value filed under a key. -/
def get? (t : Table κ ν) (k : κ) : Option ν := Std.ExtTreeMap.get? t k

/-- Files a value under a key, over the one it had. -/
def insert (t : Table κ ν) (k : κ) (v : ν) : Table κ ν := Std.ExtTreeMap.insert t k v

/-- Drops the row of a key. -/
def erase (t : Table κ ν) (k : κ) : Table κ ν := Std.ExtTreeMap.erase t k

/-- Drops the rows of several keys. -/
def eraseAll (t : Table κ ν) (ks : List κ) : Table κ ν := ks.foldl erase t

/-- Every row, in key order. -/
def rows (t : Table κ ν) : List (κ × ν) := Std.ExtTreeMap.toList t

/-- The rows whose keys lie in a range, in key order. -/
def range (t : Table κ ν) (inRange : κ → Bool) : List (κ × ν) :=
  t.rows.filter fun row => inRange row.1

/-! ## Point reads -/

@[simp] theorem get?_empty (k : κ) : (empty : Table κ ν).get? k = none :=
  Std.ExtTreeMap.getElem?_empty

theorem get?_insert (t : Table κ ν) (k a : κ) (v : ν) :
    (t.insert k v).get? a = if k = a then some v else t.get? a := by
  have h := Std.ExtTreeMap.getElem?_insert (t := t) (k := k) (a := a) (v := v)
  simp only [compare_eq_iff_eq] at h
  exact h

theorem get?_erase (t : Table κ ν) (k a : κ) :
    (t.erase k).get? a = if k = a then none else t.get? a := by
  have h := Std.ExtTreeMap.getElem?_erase (t := t) (k := k) (a := a)
  simp only [compare_eq_iff_eq] at h
  exact h

theorem ext {t t' : Table κ ν} (h : ∀ k, t.get? k = t'.get? k) : t = t' :=
  Std.ExtTreeMap.ext_getElem? h

theorem erase_of_none {t : Table κ ν} {k : κ} (h : t.get? k = none) : t.erase k = t := by
  refine ext fun a => ?_
  rw [get?_erase]
  split
  · rename_i heq
    rw [← heq, h]
  · rfl

theorem get?_eraseAll (t : Table κ ν) (ks : List κ) (a : κ) :
    (t.eraseAll ks).get? a = if a ∈ ks then none else t.get? a := by
  induction ks generalizing t with
  | nil => simp [eraseAll]
  | cons k ks ih =>
    rw [eraseAll, List.foldl_cons, ← eraseAll, ih, get?_erase]
    by_cases ha : a ∈ ks
    · simp [ha]
    · simp [ha, eq_comm]

/-- Rows written one after the other leave the other keys alone. -/
theorem get?_foldl_insert {α : Type*} (key : α → κ) (value : α → ν) {rows : List α} {k : κ}
    (h : k ∉ rows.map key) (t : Table κ ν) :
    (rows.foldl (fun t row => t.insert (key row) (value row)) t).get? k = t.get? k := by
  induction rows generalizing t with
  | nil => rfl
  | cons row rows ih =>
    rw [List.map_cons, List.mem_cons, not_or] at h
    rw [List.foldl_cons, ih h.2, get?_insert, if_neg (Ne.symm h.1)]

/-- Of rows with keys of their own each is there at the end. -/
theorem get?_foldl_insert_of_mem {α : Type*} (key : α → κ) (value : α → ν) {rows : List α}
    {row : α} (hkeys : (rows.map key).Nodup) (hrow : row ∈ rows) (t : Table κ ν) :
    (rows.foldl (fun t row => t.insert (key row) (value row)) t).get? (key row) =
      some (value row) := by
  induction rows generalizing t with
  | nil => simp at hrow
  | cons a rows ih =>
    rw [List.map_cons, List.nodup_cons] at hkeys
    rw [List.foldl_cons]
    rcases List.mem_cons.mp hrow with rfl | hrow
    · rw [get?_foldl_insert key value hkeys.1, get?_insert, if_pos rfl]
    · exact ih hkeys.2 hrow _

/-- A key that is written has one of the rows written for it. -/
theorem get?_foldl_insert_of_key {α : Type*} (key : α → κ) (value : α → ν) {rows : List α} {k : κ}
    (h : k ∈ rows.map key) (t : Table κ ν) :
    ∃ row ∈ rows, key row = k ∧
      (rows.foldl (fun t row => t.insert (key row) (value row)) t).get? k = some (value row) := by
  induction rows generalizing t with
  | nil => simp at h
  | cons a rows ih =>
    rw [List.foldl_cons]
    by_cases hlater : k ∈ rows.map key
    · obtain ⟨row, hrow, hkey, hget⟩ := ih hlater (t.insert (key a) (value a))
      exact ⟨row, List.mem_cons_of_mem _ hrow, hkey, hget⟩
    · obtain rfl : k = key a := by
        rw [List.map_cons, List.mem_cons] at h
        exact h.resolve_right hlater
      refine ⟨a, List.mem_cons_self, rfl, ?_⟩
      rw [get?_foldl_insert key value hlater, get?_insert, if_pos rfl]

/-! ## The rows in key order -/

/-- A row of the table is a point read that answers. -/
theorem mem_rows {t : Table κ ν} {k : κ} {v : ν} : (k, v) ∈ t.rows ↔ t.get? k = some v :=
  Std.ExtTreeMap.mem_toList_iff_getElem?_eq_some

@[simp] theorem rows_empty : (empty : Table κ ν).rows = [] :=
  Std.ExtTreeMap.toList_eq_nil_iff.mpr rfl

theorem mem_range {t : Table κ ν} {p : κ → Bool} {k : κ} {v : ν} :
    (k, v) ∈ t.range p ↔ t.get? k = some v ∧ p k = true := by
  rw [range, List.mem_filter, mem_rows]

theorem rows_pairwise (t : Table κ ν) : t.rows.Pairwise fun a b => a.1 < b.1 := by
  have h : (Std.ExtTreeMap.toList t).Pairwise fun a b => compare a.1 b.1 = .lt :=
    by
    simpa using Std.ExtTreeMap.ordered_keys_toList (t := t)
  exact h.imp fun hab => compare_lt_iff_lt.mp hab

theorem range_pairwise (t : Table κ ν) (p : κ → Bool) :
    (t.range p).Pairwise fun a b => a.1 < b.1 :=
  t.rows_pairwise.filter _

/-! ## Counting rows -/

theorem rows_nodup (t : Table κ ν) : t.rows.Nodup :=
  t.rows_pairwise.imp fun hab h => (h ▸ hab).false

theorem keys_nodup (t : Table κ ν) : (t.rows.map Prod.fst).Nodup :=
  List.pairwise_map.mpr (t.rows_pairwise.imp fun h => ne_of_lt h)

/-- The rows of the other keys. -/
theorem rows_erase_perm (t : Table κ ν) (k : κ) :
    (t.erase k).rows.Perm (t.rows.filter fun row => row.1 ≠ k) := by
  apply (List.perm_ext_iff_of_nodup (rows_nodup _) (t.rows_nodup.filter _)).mpr
  rintro ⟨a, v⟩
  rw [List.mem_filter, mem_rows, mem_rows, get?_erase]
  by_cases h : k = a
  · simp [h]
  · simp [h, Ne.symm h]

theorem rows_insert_perm (t : Table κ ν) (k : κ) (v : ν) :
    (t.insert k v).rows.Perm ((k, v) :: (t.erase k).rows) := by
  have hnew : ((k, v) :: (t.erase k).rows).Nodup := by
    refine List.nodup_cons.mpr ⟨fun h => ?_, rows_nodup _⟩
    have := mem_rows.mp h
    simp [get?_erase] at this
  apply (List.perm_ext_iff_of_nodup (rows_nodup _) hnew).mpr
  rintro ⟨a, w⟩
  rw [List.mem_cons, mem_rows, mem_rows, get?_insert, get?_erase]
  by_cases h : k = a
  · simp [h, eq_comm]
  · simp [h, Ne.symm h]

theorem rows_insert_ne_nil (t : Table κ ν) (k : κ) (v : ν) : (t.insert k v).rows ≠ [] := by
  intro h
  have hperm := t.rows_insert_perm k v
  rw [h] at hperm
  exact absurd (List.nil_perm.mp hperm) (List.cons_ne_nil _ _)

/-- The row of a key, and the others. -/
theorem rows_perm_of_get? {t : Table κ ν} {k : κ} {v : ν} (h : t.get? k = some v) :
    t.rows.Perm ((k, v) :: (t.erase k).rows) := by
  have hsame : t.insert k v = t := by
    refine ext fun a => ?_
    rw [get?_insert]
    split
    · rename_i heq
      rw [← heq, h]
    · rfl
  simpa [hsame] using t.rows_insert_perm k v

/-- How many rows satisfy a test. -/
def count (t : Table κ ν) (test : κ × ν → Bool) : Nat := t.rows.countP test

variable (test : κ × ν → Bool)

@[simp] theorem count_empty : (empty : Table κ ν).count test = 0 := by simp [count]

theorem count_insert_none {t : Table κ ν} {k : κ} (h : t.get? k = none) (v : ν) :
    (t.insert k v).count test = t.count test + if test (k, v) then 1 else 0 := by
  have hrest : (t.erase k).rows.Perm t.rows := by
    refine (t.rows_erase_perm k).trans ?_
    rw [List.filter_eq_self.mpr]
    rintro ⟨a, w⟩ hrow
    have hget := mem_rows.mp hrow
    have hne : a ≠ k := by
      rintro rfl
      simp [h] at hget
    simpa using hne
  rw [count, (t.rows_insert_perm k v).countP_eq, List.countP_cons, hrest.countP_eq, count]

theorem count_erase {t : Table κ ν} {k : κ} {v : ν} (h : t.get? k = some v) :
    (t.erase k).count test + (if test (k, v) then 1 else 0) = t.count test := by
  rw [count, count, (rows_perm_of_get? h).countP_eq, List.countP_cons]

theorem count_insert_some {t : Table κ ν} {k : κ} {w : ν} (h : t.get? k = some w) (v : ν) :
    (t.insert k v).count test + (if test (k, w) then 1 else 0) =
      t.count test + if test (k, v) then 1 else 0 := by
  have herase := count_erase test h
  rw [count, (t.rows_insert_perm k v).countP_eq, List.countP_cons, ← count]
  omega

/-- Dropping rows that all satisfy the test. -/
theorem count_eraseAll {t : Table κ ν} {ks : List κ} (hks : ks.Nodup)
    (hrows : ∀ k ∈ ks, ∃ v, t.get? k = some v ∧ test (k, v) = true) :
    (t.eraseAll ks).count test + ks.length = t.count test := by
  induction ks generalizing t with
  | nil => simp [eraseAll]
  | cons k ks ih =>
    obtain ⟨hk, hks⟩ := List.nodup_cons.mp hks
    obtain ⟨v, hv, htest⟩ := hrows k List.mem_cons_self
    have herase := count_erase test hv
    have hrest := ih (t := t.erase k) hks fun a ha => by
      obtain ⟨w, hw, hwtest⟩ := hrows a (List.mem_cons_of_mem _ ha)
      have hne : k ≠ a := fun h => hk (h ▸ ha)
      exact ⟨w, by rw [get?_erase, if_neg hne, hw], hwtest⟩
    rw [eraseAll, List.foldl_cons, ← eraseAll, List.length_cons]
    rw [htest, if_pos rfl] at herase
    omega

/-- Dropping rows of which none satisfies the test. -/
theorem count_eraseAll_of_not {t : Table κ ν} {ks : List κ} (hks : ks.Nodup)
    (hrows : ∀ k ∈ ks, ∃ v, t.get? k = some v ∧ test (k, v) = false) :
    (t.eraseAll ks).count test = t.count test := by
  induction ks generalizing t with
  | nil => rfl
  | cons k ks ih =>
    obtain ⟨hk, hks⟩ := List.nodup_cons.mp hks
    obtain ⟨v, hv, htest⟩ := hrows k List.mem_cons_self
    have herase := count_erase test hv
    have hrest := ih (t := t.erase k) hks fun a ha => by
      obtain ⟨w, hw, hwtest⟩ := hrows a (List.mem_cons_of_mem _ ha)
      have hne : k ≠ a := fun h => hk (h ▸ ha)
      exact ⟨w, by rw [get?_erase, if_neg hne, hw], hwtest⟩
    rw [eraseAll, List.foldl_cons, ← eraseAll, hrest]
    simpa [htest] using herase

/-! ## A sorted list at a key -/

section

variable {l : List κ} {k a : κ}

/-- What is left of a sorted list when what lies below a key is passed over. -/
theorem mem_dropWhile_lt (hl : l.Pairwise (· < ·)) :
    a ∈ l.dropWhile (· < k) ↔ a ∈ l ∧ k ≤ a := by
  induction l with
  | nil => simp
  | cons b l ih =>
    obtain ⟨hb, hl⟩ := List.pairwise_cons.mp hl
    by_cases hlt : b < k
    · rw [List.dropWhile_cons_of_pos (by simpa using hlt), ih hl]
      constructor
      · rintro ⟨ha, hle⟩
        exact ⟨List.mem_cons_of_mem _ ha, hle⟩
      · rintro ⟨ha, hle⟩
        rcases List.mem_cons.mp ha with rfl | ha
        · exact absurd hle hlt.not_ge
        · exact ⟨ha, hle⟩
    · rw [List.dropWhile_cons_of_neg (by simpa using hlt)]
      constructor
      · intro ha
        refine ⟨ha, ?_⟩
        rcases List.mem_cons.mp ha with rfl | ha
        · exact not_lt.mp hlt
        · exact (not_lt.mp hlt).trans (hb a ha).le
      · exact fun h => h.1

theorem mem_takeWhile_lt (hl : l.Pairwise (· < ·)) :
    a ∈ l.takeWhile (· < k) ↔ a ∈ l ∧ a < k := by
  have hsplit : a ∈ l ↔ a ∈ l.takeWhile (· < k) ∨ a ∈ l.dropWhile (· < k) := by
    rw [← List.mem_append, List.takeWhile_append_dropWhile]
  constructor
  · intro ha
    exact ⟨hsplit.mpr (.inl ha), by simpa using List.mem_takeWhile_imp ha⟩
  · rintro ⟨ha, hlt⟩
    rcases hsplit.mp ha with h | h
    · exact h
    · exact absurd hlt ((mem_dropWhile_lt hl).mp h).2.not_gt

/-- The key itself comes first, if it is there. -/
theorem head?_dropWhile_lt (hl : l.Pairwise (· < ·)) :
    (l.dropWhile (· < k)).head? = some k ↔ k ∈ l := by
  constructor
  · intro h
    exact ((mem_dropWhile_lt hl).mp (List.mem_of_head? h)).1
  · intro h
    have hmem : k ∈ l.dropWhile (· < k) := (mem_dropWhile_lt hl).mpr ⟨h, le_refl k⟩
    have hrest : (l.dropWhile (· < k)).Pairwise (· < ·) := hl.sublist (List.dropWhile_sublist _)
    have hle : ∀ b ∈ l.dropWhile (· < k), k ≤ b := fun b hb => ((mem_dropWhile_lt hl).mp hb).2
    cases hd : l.dropWhile (· < k) with
    | nil => exact absurd (hd ▸ hmem) List.not_mem_nil
    | cons b rest =>
      rw [hd] at hmem hrest hle
      rcases List.mem_cons.mp hmem with rfl | hmem
      · rfl
      · exact absurd ((List.pairwise_cons.mp hrest).1 k hmem) (hle b List.mem_cons_self).not_gt

end

/-! ## Paging through rows in key order -/

/-- **A page of an ordered list.** What the page holds lies at or below its last element, what
is left of the list lies above it. -/
theorem take_split {α : Type} {key : α → κ} {l : List α} {n : Nat} {last : α}
    (h : l.Pairwise fun a b => key a < key b) (hlast : (l.take n).getLast? = some last) :
    (∀ a ∈ l.take n, key a ≤ key last) ∧ ∀ a ∈ l, a ∉ l.take n → key last < key a := by
  have hsplit : l.take n ++ l.drop n = l := List.take_append_drop _ _
  rw [← hsplit, List.pairwise_append] at h
  obtain ⟨htake, -, hcross⟩ := h
  obtain ⟨init, hinit⟩ := List.getLast?_eq_some_iff.mp hlast
  refine ⟨fun a ha => ?_, fun a ha hnot => ?_⟩
  · rw [hinit] at ha htake
    rcases List.mem_append.mp ha with ha | ha
    · exact ((List.pairwise_append.mp htake).2.2 a ha last (by simp)).le
    · rw [List.mem_singleton.mp ha]
  · rw [← hsplit] at ha
    rcases List.mem_append.mp ha with ha | ha
    · exact absurd ha hnot
    · exact hcross last (List.mem_of_getLast? hlast) a ha

end Table
