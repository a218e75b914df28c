import Mathlib.Logic.Function.Basic
import Mathlib.Tactic.Common

/-!
# Readings of a changing source

A source holds a value under each of its fields and changes one field at a time.  Those who read
it keep what they read for a while, so a reading may be out of date when it is used.  The source
counts its changes and dates each field with its last one; a reading is dated with the count it
was made at.  The dates are there to reason with: `Valid` says that a reading is right about every
field that has not changed since, and it stays so however the source goes on changing.
-/

namespace Readings

variable {F : Type*} {V : F → Type*}

/-- Values under the fields, the number of changes so far, and the last change of each field. -/
structure Source (V : F → Type*) where
  now : ∀ f, V f
  clock : Nat
  changedAt : F → Nat

/-- All values at once, and when. -/
structure Reading (V : F → Type*) where
  value : ∀ f, V f
  stamp : Nat

namespace Source

def read (s : Source V) : Reading V := ⟨s.now, s.clock⟩

/-- One field changes. -/
def set [DecidableEq F] (s : Source V) (f : F) (v : V f) : Source V :=
  { now := Function.update s.now f v
    clock := s.clock + 1
    changedAt := Function.update s.changedAt f (s.clock + 1) }

/-- No field is dated ahead of the clock. -/
def Timed (s : Source V) : Prop := ∀ f, s.changedAt f ≤ s.clock

/-- The reading is right about every field that has not changed since. -/
structure Valid (s : Source V) (r : Reading V) : Prop where
  stamp_le : r.stamp ≤ s.clock
  value_eq : ∀ f, s.changedAt f ≤ r.stamp → r.value f = s.now f

theorem valid_read (s : Source V) : s.Valid s.read := ⟨Nat.le_refl _, fun _ _ => rfl⟩

variable [DecidableEq F]

@[simp] theorem set_clock (s : Source V) (f : F) (v : V f) : (s.set f v).clock = s.clock + 1 := rfl

@[simp] theorem set_changedAt_self (s : Source V) (f : F) (v : V f) :
    (s.set f v).changedAt f = s.clock + 1 := Function.update_self ..

theorem set_changedAt_of_ne (s : Source V) {f g : F} (h : g ≠ f) (v : V f) :
    (s.set f v).changedAt g = s.changedAt g := Function.update_of_ne h ..

theorem set_now_of_ne (s : Source V) {f g : F} (h : g ≠ f) (v : V f) :
    (s.set f v).now g = s.now g := Function.update_of_ne h ..

theorem Timed.set {s : Source V} (h : s.Timed) (f : F) (v : V f) : (s.set f v).Timed := by
  intro g
  by_cases hg : g = f
  · subst hg
    simp
  · rw [set_changedAt_of_ne s hg, set_clock]
    exact Nat.le_succ_of_le (h g)

theorem changedAt_le_set {s : Source V} (h : s.Timed) (f g : F) (v : V f) :
    s.changedAt g ≤ (s.set f v).changedAt g := by
  by_cases hg : g = f
  · subst hg
    rw [set_changedAt_self]
    exact Nat.le_succ_of_le (h g)
  · exact Nat.le_of_eq (set_changedAt_of_ne s hg v).symm

/-- A change makes no reading wrong about a field it does not date. -/
theorem Valid.set {s : Source V} {r : Reading V} (h : s.Valid r) (f : F) (v : V f) :
    (s.set f v).Valid r := by
  refine ⟨Nat.le_succ_of_le h.stamp_le, fun g hg => ?_⟩
  by_cases hgf : g = f
  · subst hgf
    rw [set_changedAt_self] at hg
    exact absurd (Nat.le_trans hg h.stamp_le) (Nat.not_succ_le_self _)
  · rw [set_changedAt_of_ne s hgf] at hg
    rw [h.value_eq g hg, set_now_of_ne s hgf]

end Source

end Readings
