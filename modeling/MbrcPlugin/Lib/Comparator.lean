import Mathlib.Data.List.Sort
import Mathlib.Order.Compare

/-!
# Sorting by a comparison

A comparison that is oriented and transitive orders a list; ties are allowed, and a stable sort
keeps them as they stood.  `sortBy_pairwise` asks for the laws only of the elements of the list:
a comparison that is lawful on them alone is replaced by one that is lawful everywhere.
-/

namespace Comparator

variable {α : Type*}

/-- A stable sort. -/
def sortBy (cmp : α → α → Ordering) (l : List α) : List α :=
  l.insertionSort fun a b => (cmp a b).isLE = true

theorem sortBy_perm (cmp : α → α → Ordering) (l : List α) : (sortBy cmp l).Perm l :=
  List.perm_insertionSort _ l

theorem isLE_total (cmp : α → α → Ordering) [Std.OrientedCmp cmp] (a b : α) :
    (cmp a b).isLE = true ∨ (cmp b a).isLE = true := by
  have h : cmp b a = (cmp a b).swap := Std.OrientedCmp.eq_swap
  rw [h]
  cases cmp a b <;> simp

theorem ne_gt_of_isLE {o : Ordering} (h : o.isLE = true) : o ≠ .gt := by
  rintro rfl
  simp at h

theorem sortBy_congr {cmp cmp' : α → α → Ordering} {l : List α}
    (h : ∀ a ∈ l, ∀ b ∈ l, cmp a b = cmp' a b) : sortBy cmp l = sortBy cmp' l := by
  have := List.map_insertionSort (fun a b => (cmp a b).isLE = true)
    (fun a b => (cmp' a b).isLE = true) id l (fun a ha b hb => by rw [h a ha b hb]; rfl)
  simpa [sortBy] using this

/-- What cannot be told apart stays as it stood. -/
theorem sortBy_of_tied {cmp : α → α → Ordering} {l : List α}
    (h : ∀ a ∈ l, ∀ b ∈ l, cmp a b = .eq) : sortBy cmp l = l :=
  (List.pairwise_of_forall_mem_list fun a ha b hb => by rw [h a ha b hb]; rfl).insertionSort_eq

/-- **A sorted list is in order**, where the comparison agrees on its elements with a lawful
one. -/
theorem sortBy_pairwise {cmp : α → α → Ordering} (cmp' : α → α → Ordering) [Std.TransCmp cmp']
    {l : List α} (h : ∀ a ∈ l, ∀ b ∈ l, cmp a b = cmp' a b) :
    (sortBy cmp l).Pairwise fun a b => cmp a b ≠ .gt := by
  have htotal : Std.Total fun a b => (cmp' a b).isLE = true := ⟨isLE_total cmp'⟩
  have htrans : IsTrans α fun a b => (cmp' a b).isLE = true :=
    ⟨fun _ _ _ => Std.TransCmp.isLE_trans⟩
  have hsorted := List.pairwise_insertionSort (fun a b => (cmp' a b).isLE = true) l
  rw [sortBy_congr h]
  refine List.Pairwise.imp_of_mem (fun {a b} ha hb hab => ?_) hsorted
  have hmem : ∀ a ∈ sortBy cmp' l, a ∈ l := fun a => (sortBy_perm cmp' l).mem_iff.mp
  rw [h a (hmem a ha) b (hmem b hb)]
  exact ne_gt_of_isLE hab

/-- A comparison of what is read of the elements. -/
def via {β : Type*} (read : β → α) (cmp : α → α → Ordering) : β → β → Ordering :=
  fun a b => cmp (read a) (read b)

instance {β : Type*} (read : β → α) (cmp : α → α → Ordering) [Std.TransCmp cmp] :
    Std.TransCmp (via read cmp) where
  eq_swap := by
    intro a b
    have h : cmp (read a) (read b) = (cmp (read b) (read a)).swap := Std.OrientedCmp.eq_swap
    exact h
  isLE_trans := by
    intro a b c hab hbc
    have h : (cmp (read a) (read b)).isLE = true → (cmp (read b) (read c)).isLE = true →
      (cmp (read a) (read c)).isLE = true := Std.TransCmp.isLE_trans
    exact h hab hbc

/-! ## What holds of a sorted list -/

/-- A relation, of two elements in the order they are sorted in. -/
def Sorted (cmp : α → α → Ordering) (R : α → α → Prop) (a b : α) : Prop :=
  if (cmp a b).isLE = true then R a b else R b a

theorem pairwise_orderedInsert_iff {cmp : α → α → Ordering} [Std.TransCmp cmp]
    {R : α → α → Prop} (a : α) {l : List α}
    (hsorted : l.Pairwise fun a b => (cmp a b).isLE = true) :
    (l.orderedInsert (fun a b => (cmp a b).isLE = true) a).Pairwise R ↔
      (∀ b ∈ l, Sorted cmp R a b) ∧ l.Pairwise R := by
  induction l with
  | nil => simp
  | cons b l ih =>
    rw [List.pairwise_cons] at hsorted
    rw [List.orderedInsert_cons]
    by_cases hle : (cmp a b).isLE = true
    · have hall : ∀ c ∈ b :: l, (cmp a c).isLE = true := by
        intro c hc
        rcases List.mem_cons.mp hc with rfl | hc
        · exact hle
        · exact Std.TransCmp.isLE_trans hle (hsorted.1 c hc)
      rw [if_pos hle, List.pairwise_cons]
      refine and_congr_left fun _ => forall₂_congr fun c hc => ?_
      rw [Sorted, if_pos (hall c hc)]
    · have hb : Sorted cmp R a b ↔ R b a := by rw [Sorted, if_neg hle]
      rw [if_neg hle, List.pairwise_cons, ih hsorted.2, List.pairwise_cons]
      simp only [List.mem_orderedInsert, List.mem_cons, forall_eq_or_imp, hb]
      tauto

/-- **A relation of a sorted list**, said of the list as it was given. -/
theorem pairwise_sortBy_iff {cmp : α → α → Ordering} (cmp' : α → α → Ordering) [Std.TransCmp cmp']
    {l : List α} (h : ∀ a ∈ l, ∀ b ∈ l, cmp a b = cmp' a b) {R : α → α → Prop} :
    (sortBy cmp l).Pairwise R ↔ l.Pairwise (Sorted cmp R) := by
  have hlawful : (sortBy cmp' l).Pairwise R ↔ l.Pairwise (Sorted cmp' R) := by
    clear h
    induction l with
    | nil => simp [sortBy]
    | cons a l ih =>
      have htotal : Std.Total fun a b => (cmp' a b).isLE = true := ⟨isLE_total cmp'⟩
      have htrans : IsTrans α fun a b => (cmp' a b).isLE = true :=
        ⟨fun _ _ _ => Std.TransCmp.isLE_trans⟩
      have hsorted : (sortBy cmp' l).Pairwise fun a b => (cmp' a b).isLE = true :=
        List.pairwise_insertionSort _ l
      rw [sortBy, List.insertionSort_cons, List.pairwise_cons]
      refine (pairwise_orderedInsert_iff a hsorted).trans (and_congr ?_ ih)
      exact forall_congr' fun b => imp_congr_left (sortBy_perm cmp' l).mem_iff
  rw [sortBy_congr h, hlawful]
  refine List.Pairwise.iff_of_mem fun {a b} ha hb => ?_
  rw [Sorted, Sorted, h a ha b hb]

/-- **A relation of a list that is sorted and then read backwards or not.** -/
theorem pairwise_reversed_iff {cmp : α → α → Ordering} (cmp' : α → α → Ordering)
    [Std.TransCmp cmp'] {l : List α} (h : ∀ a ∈ l, ∀ b ∈ l, cmp a b = cmp' a b)
    {R : α → α → Prop} (descending : Bool) :
    (if descending then (sortBy cmp l).reverse else sortBy cmp l).Pairwise R ↔
      l.Pairwise (Sorted cmp fun a b => if descending then R b a else R a b) := by
  cases descending with
  | true =>
    rw [if_pos rfl, List.pairwise_reverse, pairwise_sortBy_iff cmp' h]
    rfl
  | false =>
    rw [if_neg Bool.false_ne_true, pairwise_sortBy_iff cmp' h]
    rfl

/-! ## What a sort may leave -/

/-- The comparison orders the elements of a list. -/
structure OrdersOn (cmp : α → α → Ordering) (l : List α) : Prop where
  swap : ∀ a ∈ l, ∀ b ∈ l, cmp b a = (cmp a b).swap
  trans : ∀ a ∈ l, ∀ b ∈ l, ∀ c ∈ l, cmp a b ≠ .gt → cmp b c ≠ .gt → cmp a c ≠ .gt

/-- A sort leaves the elements in any order at all where the comparison does not order them. -/
structure MaySort (cmp : α → α → Ordering) (l out : List α) : Prop where
  perm : out.Perm l
  pairwise : OrdersOn cmp l → out.Pairwise fun a b => cmp a b ≠ .gt

theorem isLE_of_ne_gt {o : Ordering} (h : o ≠ .gt) : o.isLE = true := by
  cases o <;> simp at h ⊢

/-- A lawful comparison orders every list, and so does one that agrees with it there. -/
theorem OrdersOn.of_lawful {cmp : α → α → Ordering} (cmp' : α → α → Ordering) [Std.TransCmp cmp']
    {l : List α} (h : ∀ a ∈ l, ∀ b ∈ l, cmp a b = cmp' a b) : OrdersOn cmp l where
  swap a ha b hb := by
    rw [h b hb a ha, h a ha b hb]
    exact Std.OrientedCmp.eq_swap
  trans a ha b hb c hc := by
    rw [h a ha b hb, h b hb c hc, h a ha c hc]
    intro hab hbc
    exact ne_gt_of_isLE (Std.TransCmp.isLE_trans (isLE_of_ne_gt hab) (isLE_of_ne_gt hbc))

/-- Read on the elements of the list alone, it is lawful. -/
theorem OrdersOn.transCmp {cmp : α → α → Ordering} {l : List α} (h : OrdersOn cmp l) :
    Std.TransCmp fun a b : { x // x ∈ l } => cmp a b where
  eq_swap {a b} := h.swap b b.2 a a.2
  isLE_trans {a b c} hab hbc := isLE_of_ne_gt
    (h.trans a a.2 b b.2 c c.2 (ne_gt_of_isLE hab) (ne_gt_of_isLE hbc))

theorem sortBy_maySort (cmp : α → α → Ordering) (l : List α) : MaySort cmp l (sortBy cmp l) where
  perm := sortBy_perm cmp l
  pairwise h := by
    have hlawful := h.transCmp
    have hattached := sortBy_pairwise (l := l.attach) (fun a b : { x // x ∈ l } => cmp a b)
      fun _ _ _ _ => rfl
    have hmap := List.map_insertionSort (fun a b : { x // x ∈ l } => (cmp a b).isLE = true)
      (fun a b => (cmp a b).isLE = true) Subtype.val l.attach (fun _ _ _ _ => Iff.rfl)
    rw [List.attach_map_subtype_val] at hmap
    rw [sortBy, ← hmap, List.pairwise_map]
    exact hattached

/-- Elements that are not ordered can be left out of order. -/
theorem exists_maySort_unordered [DecidableEq α] {cmp : α → α → Ordering} {l : List α}
    (hswap : ∀ a b, cmp b a = (cmp a b).swap) (h : ¬ OrdersOn cmp l) :
    ∃ out, MaySort cmp l out ∧ ¬ out.Pairwise fun a b => cmp a b ≠ .gt := by
  have hbroken : ∃ a ∈ l, ∃ c ∈ l, cmp a c = .gt := by
    by_contra hnone
    refine h ⟨fun a _ b _ => hswap a b, fun a ha b _ c hc _ _ hac => hnone ⟨a, ha, c, hc, hac⟩⟩
  obtain ⟨a, ha, c, hc, hac⟩ := hbroken
  have hne : c ≠ a := by
    rintro rfl
    have hself := hswap c c
    rw [hac] at hself
    cases hself
  have hrest : c ∈ l.erase a := (List.mem_erase_of_ne hne).mpr hc
  have hperm : (a :: c :: (l.erase a).erase c).Perm l :=
    ((List.perm_cons_erase hrest).symm.cons a).trans (List.perm_cons_erase ha).symm
  refine ⟨_, ⟨hperm, fun hordered => (h hordered).elim⟩, fun hpairwise => ?_⟩
  exact (List.pairwise_cons.mp hpairwise).1 c List.mem_cons_self hac

/-! ## Rows without a place -/

/-- A comparison in the asked direction, with the unplaced rows last either way. -/
def directed (unplaced : α → Bool) (cmp : α → α → Ordering) (descending : Bool) :
    α → α → Ordering :=
  fun a b =>
    match unplaced a, unplaced b with
    | true, false => .gt
    | false, true => .lt
    | true, true => cmp a b
    | false, false => if descending then (cmp a b).swap else cmp a b

instance (unplaced : α → Bool) (cmp : α → α → Ordering) [Std.TransCmp cmp] (descending : Bool) :
    Std.TransCmp (directed unplaced cmp descending) where
  eq_swap := by
    intro a b
    have h : cmp a b = (cmp b a).swap := Std.OrientedCmp.eq_swap
    unfold directed
    cases unplaced a <;> cases unplaced b <;> cases descending <;> simp [h]
  isLE_trans := by
    intro a b c hab hbc
    have hup : (cmp a b).isLE = true → (cmp b c).isLE = true → (cmp a c).isLE = true :=
      Std.TransCmp.isLE_trans
    have hdown : (cmp b a).isLE = true → (cmp c b).isLE = true → (cmp c a).isLE = true :=
      fun hba hcb => Std.TransCmp.isLE_trans hcb hba
    have hswap : ∀ x y, (cmp x y).swap = cmp y x := fun x y =>
      Std.OrientedCmp.eq_swap.symm
    unfold directed at hab hbc ⊢
    revert hab hbc
    -- every place the three rows can have, in both directions
    cases unplaced a <;> cases unplaced b <;> cases unplaced c <;> cases descending <;>
      simp only [hswap, if_true, Bool.false_eq_true, if_false] <;>
      first | exact hup | exact hdown | simp

theorem OrdersOn.directed {cmp : α → α → Ordering} {l : List α} (h : OrdersOn cmp l)
    (unplaced : α → Bool) (descending : Bool) : OrdersOn (directed unplaced cmp descending) l := by
  have hlawful := h.transCmp
  have hdirected : Std.TransCmp (Comparator.directed (fun a : { x // x ∈ l } => unplaced a)
    (fun a b : { x // x ∈ l } => cmp a b) descending) := inferInstance
  constructor
  · intro a ha b hb
    exact hdirected.eq_swap (a := ⟨b, hb⟩) (b := ⟨a, ha⟩)
  · intro a ha b hb c hc hab hbc
    exact ne_gt_of_isLE (hdirected.isLE_trans (a := ⟨a, ha⟩) (b := ⟨b, hb⟩) (c := ⟨c, hc⟩)
      (isLE_of_ne_gt hab) (isLE_of_ne_gt hbc))

end Comparator
