import MbrcPlugin.Commands.FieldsV6
import MbrcPlugin.Lib.Slots

/-!
# The slots a request names

`orders_highest_first` takes an array of distinct slots and puts the highest first
(`ordersHighestFirst_eq_ok`).  What a handler does with the places of a list is said by the set of
them alone.
-/

namespace Mbrc.CommandsV6

open Slots

/-- The integers of an array. -/
def askedOrders (data : Value) (field : String) : Option (List Int) :=
  match data.get field with
  | some (.array raw) => raw.mapM Value.asI64
  | _ => none

/-- Not empty, without repeats, and each of them an index the host can be sent. -/
structure Distinct (asked : List Int) : Prop where
  ne_nil : asked ≠ []
  bounds : ∀ o ∈ asked, 0 ≤ o ∧ o ≤ 2 ^ 31 - 1
  nodup : asked.Nodup

def highestFirst (asked : List Int) : List Int := asked.insertionSort fun a b => b ≤ a

theorem mapM_filter_eq_some {α β : Type} {f : α → Option β} {p : β → Prop} [DecidablePred p]
    {l : List α} {out : List β} :
    l.mapM (fun a => (f a).filter fun b => decide (p b)) = some out ↔
      l.mapM f = some out ∧ ∀ b ∈ out, p b := by
  induction l generalizing out with
  | nil =>
    simp only [List.mapM_nil, Option.pure_def, Option.some.injEq]
    constructor
    · rintro rfl
      exact ⟨rfl, fun b hb => absurd hb (List.not_mem_nil)⟩
    · exact And.left
  | cons a l ih =>
    simp only [List.mapM_cons, Option.pure_def, Option.bind_eq_bind, Option.bind_eq_some_iff,
      Option.some.injEq, Option.filter_eq_some_iff, decide_eq_true_iff]
    constructor
    · rintro ⟨b, ⟨hb, hpb⟩, bs, hbs, rfl⟩
      obtain ⟨hmap, hall⟩ := ih.mp hbs
      exact ⟨⟨b, hb, bs, hmap, rfl⟩, List.forall_mem_cons.mpr ⟨hpb, hall⟩⟩
    · rintro ⟨⟨b, hb, bs, hbs, rfl⟩, hall⟩
      obtain ⟨hpb, hrest⟩ := List.forall_mem_cons.mp hall
      exact ⟨b, ⟨hb, hpb⟩, bs, ih.mpr ⟨hbs, hrest⟩, rfl⟩

theorem ordersHighestFirst_eq_ok {data : Value} {field : String} {orders : List Int} :
    ordersHighestFirst data field = .ok orders ↔
      ∃ asked, askedOrders data field = some asked ∧ Distinct asked ∧
        orders = highestFirst asked := by
  unfold ordersHighestFirst askedOrders
  split
  · rename_i hget
    simp [hget]
  · rename_i hget
    rw [hget]
    constructor
    · intro h
      cases h
    · rintro ⟨asked, hasked, hdistinct, -⟩
      obtain rfl : [] = asked := Option.some.inj hasked
      exact absurd rfl hdistinct.ne_nil
  · rename_i raw hraw hget
    rw [hget]
    dsimp only
    have hfiltered (asked : List Int) :
        raw.mapM (fun v => v.asI64.filter fun o => decide (0 ≤ o ∧ o ≤ 2 ^ 31 - 1)) = some asked ↔
          raw.mapM Value.asI64 = some asked ∧ ∀ o ∈ asked, 0 ≤ o ∧ o ≤ 2 ^ 31 - 1 :=
      mapM_filter_eq_some
    split
    · rename_i hnone
      constructor
      · intro h
        cases h
      · rintro ⟨asked, hasked, hdistinct, -⟩
        rw [(hfiltered asked).mpr ⟨hasked, hdistinct.bounds⟩] at hnone
        cases hnone
    · rename_i asked hsome
      obtain ⟨hasked, hbounds⟩ := (hfiltered asked).mp hsome
      have hne : asked ≠ [] := by
        rintro rfl
        have hlength := length_of_mapM hasked
        exact hraw (List.eq_nil_of_length_eq_zero hlength.symm)
      constructor
      · intro h
        split at h
        · rename_i hnodup
          exact ⟨asked, hasked, ⟨hne, hbounds, hnodup⟩, (Except.ok.inj h).symm⟩
        · cases h
      · rintro ⟨asked', hasked', hdistinct, rfl⟩
        obtain rfl := Option.some.inj (hasked.symm.trans hasked')
        rw [if_pos hdistinct.nodup]
        rfl
  · rename_i hother hget
    constructor
    · intro h
      cases h
    · rintro ⟨asked, hasked, -, -⟩
      split at hasked
      · rename_i raw hraw
        exact (hother raw (Option.some.inj (hget.symm.trans hraw))).elim
      · cases hasked

section

variable {asked : List Int}

theorem mem_highestFirst {o : Int} : o ∈ highestFirst asked ↔ o ∈ asked :=
  List.mem_insertionSort _

theorem length_highestFirst : (highestFirst asked).length = asked.length :=
  List.length_insertionSort _ asked

theorem highestFirst_ne_nil (h : asked ≠ []) : highestFirst asked ≠ [] := by
  intro hnil
  have hlength := @length_highestFirst asked
  rw [hnil] at hlength
  exact h (List.eq_nil_of_length_eq_zero hlength.symm)

/-- Each is below the one before it. -/
theorem highestFirst_pairwise (h : asked.Nodup) :
    (highestFirst asked).Pairwise fun a b => b < a := by
  have hsorted : (highestFirst asked).Pairwise fun a b => b ≤ a :=
    List.pairwise_insertionSort _ asked
  have hnodup : (highestFirst asked).Nodup := (List.perm_insertionSort _ asked).nodup_iff.mpr h
  exact (hsorted.and hnodup).imp fun ⟨hle, hne⟩ => lt_of_le_of_ne hle (Ne.symm hne)

/-- Every slot is within a list where the highest is. -/
theorem headD_highestFirst (hne : asked ≠ []) (hbounds : ∀ o ∈ asked, 0 ≤ o) {n : Nat} :
    ((highestFirst asked).headD 0).toNat < n ↔ ∀ o ∈ asked, o < n := by
  cases hsort : highestFirst asked with
  | nil => exact absurd hsort (highestFirst_ne_nil hne)
  | cons top rest =>
    have htop : top ∈ asked := mem_highestFirst.mp (hsort ▸ List.mem_cons_self)
    have hsorted : (highestFirst asked).Pairwise fun a b => b ≤ a :=
      List.pairwise_insertionSort _ asked
    rw [hsort] at hsorted
    have htopnonneg := hbounds top htop
    show top.toNat < n ↔ _
    constructor
    · intro hlt o ho
      have hmem : o ∈ top :: rest := hsort ▸ mem_highestFirst.mpr ho
      rcases List.mem_cons.mp hmem with rfl | hrest
      · omega
      · have hle := List.rel_of_pairwise_cons hsorted hrest
        omega
    · intro hall
      have hlt := hall top htop
      omega

/-- The slots as places. -/
theorem decide_mem_toNat (hbounds : ∀ o ∈ asked, 0 ≤ o) (i : Nat) :
    decide (i ∈ asked.map Int.toNat) = decide ((i : Int) ∈ asked) := by
  refine decide_eq_decide.mpr ⟨fun h => ?_, fun h => ?_⟩
  · obtain ⟨o, ho, rfl⟩ := List.mem_map.mp h
    rwa [Int.toNat_of_nonneg (hbounds o ho)]
  · exact List.mem_map.mpr ⟨i, h, Int.toNat_natCast i⟩

theorem nodup_toNat (hnodup : asked.Nodup) (hbounds : ∀ o ∈ asked, 0 ≤ o) :
    (asked.map Int.toNat).Nodup := by
  refine hnodup.map_on fun a ha b hb hab => ?_
  have hapos := hbounds a ha
  have hbpos := hbounds b hb
  omega

/-- As many entries stand at the slots as there are slots. -/
theorem length_entriesAt_asked {α : Type} {l : List α} (hdistinct : Distinct asked)
    (hrange : ∀ o ∈ asked, o < l.length) :
    (entriesAt (fun i => decide ((i : Int) ∈ asked)) l).length = asked.length := by
  have hpos (o : Int) (ho : o ∈ asked) : 0 ≤ o := (hdistinct.bounds o ho).1
  have hlength := length_entriesAt_named (l := l) (nodup_toNat hdistinct.nodup hpos) fun i hi => by
    obtain ⟨o, ho, rfl⟩ := List.mem_map.mp hi
    have hlt := hrange o ho
    have hnonneg := hpos o ho
    omega
  rw [List.length_map] at hlength
  rw [← hlength]
  congr 2
  funext i
  exact (decide_mem_toNat hpos i).symm

end

end Mbrc.CommandsV6
