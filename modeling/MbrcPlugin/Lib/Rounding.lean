import Mathlib.Algebra.Order.Floor.Semiring
import Mathlib.Algebra.Order.Ring.Int
import Mathlib.Data.Int.Log
import Mathlib.Data.Rat.Floor
import Mathlib.Order.WithBot
import Mathlib.Tactic.FieldSimp
import Mathlib.Tactic.Linarith
import Mathlib.Tactic.Positivity
import Mathlib.Tactic.Ring

/-!
# Rounding to a binary format

A positive number rounded to the nearest one that a binary floating-point format has, to the even
one of two.  Of two formats whose last places differ, rounding to the coarse one and to the fine
one give the same number exactly when the fine one gives a whole number of the coarse last places
(`rounded_eq_iff`).
-/

namespace Rounding

/-! ## To a whole number -/

/-- The nearest whole number, the even one of two. -/
def nearest (r : ℚ) : ℤ :=
  if r - ⌊r⌋ < 1 / 2 then ⌊r⌋
  else if 1 / 2 < r - ⌊r⌋ then ⌊r⌋ + 1
  else if ⌊r⌋ % 2 = 0 then ⌊r⌋ else ⌊r⌋ + 1

theorem nearest_sub_le (r : ℚ) : (nearest r : ℚ) - r ≤ 1 / 2 := by
  have hlow := Int.floor_le r
  unfold nearest
  split_ifs <;> push_cast <;> linarith

theorem sub_nearest_le (r : ℚ) : r - nearest r ≤ 1 / 2 := by
  have hhigh := Int.lt_floor_add_one r
  unfold nearest
  split_ifs <;> push_cast <;> linarith

/-- Nearer than a half, there is no other. -/
theorem nearest_eq {r : ℚ} {n : ℤ} (hlow : (n : ℚ) - r < 1 / 2) (hhigh : r - n < 1 / 2) :
    nearest r = n := by
  have h₁ := nearest_sub_le r
  have h₂ := sub_nearest_le r
  have hle : (nearest r : ℚ) < n + 1 := by linarith
  have hge : (n : ℚ) < nearest r + 1 := by linarith
  have hle' : nearest r < n + 1 := by exact_mod_cast hle
  have hge' : n < nearest r + 1 := by exact_mod_cast hge
  omega

@[simp] theorem nearest_intCast (n : ℤ) : nearest n = n := nearest_eq (by simp) (by simp)

theorem nearest_mono {r s : ℚ} (h : r ≤ s) : nearest r ≤ nearest s := by
  by_contra hlt
  have hstep : (nearest s : ℚ) + 1 ≤ nearest r := by exact_mod_cast (by omega : nearest s + 1 ≤ _)
  have h₁ := nearest_sub_le r
  have h₂ := sub_nearest_le s
  have heq : r = s := le_antisymm h (by linarith)
  rw [heq] at hlt
  exact hlt le_rfl

/-- An even number takes in what lies half way above it. -/
theorem nearest_eq_of_even {r : ℚ} {n : ℤ} (heven : n % 2 = 0) (hlow : (n : ℚ) ≤ r) :
    nearest r = n ↔ r ≤ n + 1 / 2 := by
  constructor
  · intro h
    have hhigh := sub_nearest_le r
    rw [h] at hhigh
    linarith
  · intro hhigh
    have hfloor : ⌊r⌋ = n := Int.floor_eq_iff.mpr ⟨hlow, by linarith⟩
    unfold nearest
    rw [hfloor, if_neg (by linarith : ¬1 / 2 < r - n), if_pos heven, ite_self]

/-- Rounding again, `d` places coarser, keeps what is a whole number of these places. -/
theorem nearest_div_eq_iff {r : ℚ} {d : ℕ} (hd : 0 < d) :
    (nearest (r / 2 ^ d) : ℚ) * 2 ^ d = nearest r ↔ (2 : ℤ) ^ d ∣ nearest r := by
  have hpos : (0 : ℚ) < 2 ^ d := by positivity
  constructor
  · intro h
    have hint : nearest (r / 2 ^ d) * 2 ^ d = nearest r := by exact_mod_cast h
    exact ⟨nearest (r / 2 ^ d), by rw [← hint, mul_comm]⟩
  · rintro ⟨k, hk⟩
    have htwo : (2 : ℚ) ≤ 2 ^ d := by
      calc (2 : ℚ) = 2 ^ 1 := (pow_one _).symm
        _ ≤ 2 ^ d := pow_le_pow_right₀ (by norm_num) hd
    have h₁ := nearest_sub_le r
    have h₂ := sub_nearest_le r
    rw [hk] at h₁ h₂
    push_cast at h₁ h₂
    have hcoarse : nearest (r / 2 ^ d) = k := by
      apply nearest_eq
      · rw [sub_lt_iff_lt_add, ← sub_lt_iff_lt_add', lt_div_iff₀ hpos]
        linarith
      · rw [sub_lt_iff_lt_add, div_lt_iff₀ hpos]
        linarith
    rw [hcoarse, hk]
    push_cast
    ring

/-! ## To a format -/

/-- A binary format: the digits of a number, the last place of its smallest ones, and the power of
two from which on there are no numbers. -/
structure Format where
  precision : ℕ
  minPlace : ℤ
  maxExponent : ℤ

def single : Format := { precision := 24, minPlace := -149, maxExponent := 128 }

def double : Format := { precision := 53, minPlace := -1074, maxExponent := 1024 }

namespace Format

variable (format : Format)

/-- The exponent of the last place at a number. -/
def place (q : ℚ) : ℤ := max (Int.log 2 q - (format.precision - 1)) format.minPlace

/-- A number as a count of last places. -/
def rounded (q : ℚ) : ℚ := nearest (q / 2 ^ format.place q) * 2 ^ format.place q

/-- The nearest number of the format, infinite where that is too large. -/
def round (q : ℚ) : WithBot (WithTop ℚ) :=
  if format.rounded |q| < 2 ^ format.maxExponent then
    ((if q < 0 then -format.rounded |q| else format.rounded |q| : ℚ) : WithTop ℚ)
  else if q < 0 then ⊥ else (⊤ : WithTop ℚ)

/-- A whole number of the last places at `q`. -/
def OnGrid (q x : ℚ) : Prop := (x / 2 ^ format.place q).den = 1

instance (q x : ℚ) : Decidable (format.OnGrid q x) := inferInstanceAs (Decidable (_ = _))

variable {format}

theorem onGrid_iff {q x : ℚ} : format.OnGrid q x ↔ ∃ m : ℤ, x = m * 2 ^ format.place q := by
  have hpos : (0 : ℚ) < 2 ^ format.place q := zpow_pos two_pos _
  unfold OnGrid
  constructor
  · intro h
    refine ⟨(x / 2 ^ format.place q).num, ?_⟩
    rw [(Rat.den_eq_one_iff _).mp h, div_mul_cancel₀ _ hpos.ne']
  · rintro ⟨m, rfl⟩
    rw [mul_div_cancel_right₀ _ hpos.ne', Rat.den_intCast]

/-- A whole number of larger units is one of last places. -/
theorem exists_places {q : ℚ} {e : ℤ} (he : format.place q ≤ e) (m : ℤ) :
    ∃ n : ℤ, (m : ℚ) * 2 ^ e = n * 2 ^ format.place q := by
  obtain ⟨d, hd⟩ := Int.le.dest he
  refine ⟨m * 2 ^ d, ?_⟩
  rw [← hd, zpow_add₀ two_ne_zero, zpow_natCast]
  push_cast
  ring

/-- Rounding does not pass a number of the format on the way up, -/
theorem rounded_le {q : ℚ} {m e : ℤ} (he : format.place q ≤ e) (h : q ≤ m * 2 ^ e) :
    format.rounded q ≤ m * 2 ^ e := by
  have hpos : (0 : ℚ) < 2 ^ format.place q := zpow_pos two_pos _
  obtain ⟨n, hn⟩ := exists_places he m
  rw [hn] at h ⊢
  have hle : q / 2 ^ format.place q ≤ n := (div_le_iff₀ hpos).mpr h
  have hnearest : nearest (q / 2 ^ format.place q) ≤ n := by simpa using nearest_mono hle
  exact mul_le_mul_of_nonneg_right (by exact_mod_cast hnearest) hpos.le

/-- nor on the way down. -/
theorem le_rounded {q : ℚ} {m e : ℤ} (he : format.place q ≤ e) (h : m * 2 ^ e ≤ q) :
    m * 2 ^ e ≤ format.rounded q := by
  have hpos : (0 : ℚ) < 2 ^ format.place q := zpow_pos two_pos _
  obtain ⟨n, hn⟩ := exists_places he m
  rw [hn] at h ⊢
  have hle : (n : ℚ) ≤ q / 2 ^ format.place q := (le_div_iff₀ hpos).mpr h
  have hnearest : n ≤ nearest (q / 2 ^ format.place q) := by simpa using nearest_mono hle
  exact mul_le_mul_of_nonneg_right (by exact_mod_cast hnearest) hpos.le

theorem rounded_nonneg {q : ℚ} (hq : 0 ≤ q) : 0 ≤ format.rounded q := by
  simpa using le_rounded (m := 0) (e := format.place q) le_rfl (by simpa using hq)

/-- An even number of last places takes in what lies half a place above it. -/
theorem rounded_eq_of_even {q : ℚ} {n : ℤ} (heven : n % 2 = 0) (h : n * 2 ^ format.place q ≤ q) :
    format.rounded q = n * 2 ^ format.place q ↔
      q ≤ n * 2 ^ format.place q + 2 ^ format.place q / 2 := by
  have hpos : (0 : ℚ) < 2 ^ format.place q := zpow_pos two_pos _
  have hle : (n : ℚ) ≤ q / 2 ^ format.place q := (le_div_iff₀ hpos).mpr h
  unfold rounded
  rw [mul_left_inj' hpos.ne', Int.cast_inj, nearest_eq_of_even heven hle, div_le_iff₀ hpos]
  ring_nf

/-- **Two roundings of a number** give the same exactly when the finer one is a whole number of the
coarser last places. -/
theorem rounded_eq_iff {coarse fine : Format} {q : ℚ} (h : fine.place q < coarse.place q) :
    coarse.rounded q = fine.rounded q ↔ coarse.OnGrid q (fine.rounded q) := by
  rw [onGrid_iff]
  constructor
  · intro heq
    exact ⟨nearest (q / 2 ^ coarse.place q), heq.symm⟩
  · rintro ⟨m, hm⟩
    have hpos : (0 : ℚ) < 2 ^ fine.place q := zpow_pos two_pos _
    obtain ⟨d, hd⟩ := Int.le.dest h.le
    have hsplit : (2 : ℚ) ^ coarse.place q = 2 ^ d * 2 ^ fine.place q := by
      rw [← hd, add_comm, zpow_add₀ two_ne_zero, zpow_natCast]
    have hdvd : (2 : ℤ) ^ d ∣ nearest (q / 2 ^ fine.place q) := by
      refine ⟨m, ?_⟩
      unfold rounded at hm
      rw [hsplit, ← mul_assoc, mul_left_inj' hpos.ne'] at hm
      rw [mul_comm]
      exact_mod_cast hm
    have hagain := (nearest_div_eq_iff (by omega : 0 < d)).mpr hdvd
    unfold rounded
    rw [hsplit, ← hagain, div_mul_eq_div_div_swap, mul_assoc]

/-- The power of two below a number is no further up than the number rounds to. -/
theorem zpow_log_le_rounded {q : ℚ} (hq : 0 < q) (hprecision : 0 < format.precision)
    (hmin : format.minPlace ≤ Int.log 2 q) : (2 : ℚ) ^ Int.log 2 q ≤ format.rounded q := by
  have hplace : format.place q ≤ Int.log 2 q := max_le (by omega) hmin
  have hlog : ((2 : ℕ) : ℚ) ^ Int.log 2 q ≤ q := Int.zpow_log_le_self (by decide) hq
  simpa using le_rounded (m := 1) hplace (by simpa using hlog)

theorem round_of_nonneg {q : ℚ} (hq : 0 ≤ q)
    (h : format.rounded q < 2 ^ format.maxExponent) :
    format.round q = (format.rounded q : WithTop ℚ) := by
  rw [round, abs_of_nonneg hq, if_pos h, if_neg hq.not_gt]

theorem round_of_large {q : ℚ} (hq : 0 ≤ q)
    (h : ¬format.rounded q < 2 ^ format.maxExponent) : format.round q = (⊤ : WithTop ℚ) := by
  rw [round, abs_of_nonneg hq, if_neg h, if_neg hq.not_gt]

theorem round_nonpos {q : ℚ} (hq : q ≤ 0) : format.round q ≤ 0 := by
  have hnonneg : 0 ≤ format.rounded |q| := rounded_nonneg (abs_nonneg q)
  rcases hq.lt_or_eq with hneg | rfl
  · rw [round, if_pos hneg, if_pos hneg]
    split
    · exact_mod_cast neg_nonpos.mpr hnonneg
    · exact bot_le
  · have hnearest : nearest 0 = 0 := by exact_mod_cast nearest_intCast 0
    have hzero : format.rounded |0| = 0 := by simp [rounded, hnearest]
    rw [round, hzero, if_pos (zpow_pos two_pos _), if_neg (lt_irrefl _)]
    rfl

end Format

end Rounding
