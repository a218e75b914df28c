import Mathlib.Data.List.Basic
import Mathlib.Data.Option.Basic

/-!
# A map in memory and the store behind it

Memory answers, and the store is written after it: a call changes memory first and files what it
made of one key later, when memory may have moved on.  `Behind` is the relation that a step of a
call keeps: at every key the store has memory's value, or a write that is still to come brings it.
When no write is to come the two agree (`Behind.agree`).
-/

namespace WriteBehind

variable {κ ν : Type*} {mem mem' store store' : κ → Option ν}
  {Pending Pending' : κ → Option ν → Prop}

/-- The store has memory's value, or is still to get it. -/
def Behind (mem store : κ → Option ν) (Pending : κ → Option ν → Prop) : Prop :=
  ∀ k, store k = mem k ∨ Pending k (mem k)

theorem Behind.agree (h : Behind mem store Pending) (hnone : ∀ k v, ¬ Pending k v) :
    store = mem := by
  funext k
  rcases h k with heq | hp
  · exact heq
  · exact absurd hp (hnone k _)

theorem Behind.mono (h : Behind mem store Pending) (hp : ∀ k v, Pending k v → Pending' k v) :
    Behind mem store Pending' := by
  intro k
  rcases h k with heq | hk
  · exact Or.inl heq
  · exact Or.inr (hp k _ hk)

/-- Memory changes where a write is under way that brings the new value. -/
theorem Behind.change (h : Behind mem store Pending)
    (hp : ∀ k, mem' k = mem k → Pending k (mem k) → Pending' k (mem k))
    (hnew : ∀ k, mem' k ≠ mem k → Pending' k (mem' k)) : Behind mem' store Pending' := by
  intro k
  by_cases hk : mem' k = mem k
  · rw [hk]
    rcases h k with heq | hpend
    · exact Or.inl heq
    · exact Or.inr (hp k hk hpend)
  · exact Or.inr (hnew k hk)

/-- A write ends at the keys in `W`: it brought memory's value, or another is to bring it. -/
theorem Behind.landAt {W : κ → Prop} (h : Behind mem store Pending)
    (hstore : ∀ k, ¬ W k → store' k = store k)
    (hp : ∀ k v, ¬ W k → Pending k v → Pending' k v)
    (hW : ∀ k, W k → store' k = mem k ∨ Pending' k (mem k)) : Behind mem store' Pending' := by
  intro k
  by_cases hk : W k
  · exact hW k hk
  · rw [hstore k hk]
    rcases h k with hsame | hpend
    · exact Or.inl hsame
    · exact Or.inr (hp k _ hk hpend)

/-- A write of one key ends. -/
theorem Behind.land {k : κ} (h : Behind mem store Pending)
    (hstore : ∀ k', k' ≠ k → store' k' = store k')
    (hp : ∀ k' v, k' ≠ k → Pending k' v → Pending' k' v)
    (hk : store' k = mem k ∨ Pending' k (mem k)) : Behind mem store' Pending' :=
  h.landAt hstore hp fun _ heq => heq ▸ hk

end WriteBehind

/-!
# Files that are written in place

`fs::write` truncates the file and then writes its text in pieces, each at the place the last one
ended, while others may read, truncate or write the same file.  `writeAt` is one piece;
`writeAt_take` says what an undisturbed writer leaves.  A `Codec` is how values stand in a file.
-/

namespace Files

variable {α : Type}

/-- What a file holds after a piece was written at a place: what is missing before it is filled. -/
def writeAt (zero : α) (content : List α) (offset : Nat) (piece : List α) : List α :=
  content.take offset ++ List.replicate (offset - content.length) zero ++ piece ++
    content.drop (offset + piece.length)

/-- A writer at the end of what it wrote writes on. -/
theorem writeAt_length (zero : α) (content piece : List α) :
    writeAt zero content content.length piece = content ++ piece := by
  unfold writeAt
  rw [List.take_length, Nat.sub_self, List.drop_of_length_le (by omega)]
  simp

/-- The beginning of a text, and what its writer adds. -/
theorem writeAt_take (zero : α) (text : List α) {written : Nat} (h : written ≤ text.length)
    (n : Nat) : writeAt zero (text.take written) written ((text.drop written).take n) =
      text.take (written + ((text.drop written).take n).length) := by
  have hlength : (text.take written).length = written := by
    rw [List.length_take]
    omega
  have hwrite := writeAt_length zero (text.take written) ((text.drop written).take n)
  rw [hlength] at hwrite
  rw [hwrite, List.take_add, List.length_take, List.length_drop]
  congr 1
  rcases Nat.le_total n (text.length - written) with hle | hle
  · rw [Nat.min_eq_left hle]
  · rw [Nat.min_eq_right hle, List.take_of_length_le (by rw [List.length_drop]; omega),
      List.take_of_length_le (Nat.le_of_eq (List.length_drop ..))]

/-- How values are written as text, and what a text reads as. -/
structure Codec (γ α : Type) where
  print : γ → List α
  read : List α → Option γ

/-- What was written reads back. -/
def Codec.Lawful {γ α : Type} (J : Codec γ α) : Prop := ∀ c, J.read (J.print c) = some c

end Files
