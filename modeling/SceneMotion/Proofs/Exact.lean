import Mathlib
import SceneMotion.Scalar

namespace SceneMotion

-- A commutative ring in which scalars are added, subtracted and multiplied as in the ring.
class ExactRing (α : Type) extends Scalar α, CommRing α

-- An ordered field, with all that scalars have in common with it. What division leaves over is less than
-- the divisor and on the same side of zero as the dividend.
class ExactField (α : Type) extends ExactRing α, Field α, LinearOrder α, IsStrictOrderedRing α,
    LawfulBEq α where
  exists_rem (a b : α) : b ≠ 0 → ∃ n : ℤ, a = n * b + rem a b ∧ |rem a b| < |b| ∧ 0 ≤ a * rem a b

namespace Scalar

section Literals

variable {α : Type} [ExactRing α]

@[simp]
theorem zero_eq : @OfNat.ofNat α 0 (instOfNat 0) = 0 :=
  Nat.cast_zero

@[simp]
theorem one_eq : @OfNat.ofNat α 1 (instOfNat 1) = 1 :=
  Nat.cast_one

@[simp]
theorem ofNat_eq (n : ℕ) [n.AtLeastTwo] :
    @OfNat.ofNat α n (instOfNat n) = @OfNat.ofNat α n instOfNatAtLeastTwo :=
  rfl

end Literals

variable {α : Type} [ExactField α] {a b r r' : α} {m n : ℤ}

theorem abs_eq (a : α) : abs a = |a| := by
  rw [abs, zero_eq]
  split
  case isTrue h  => exact (abs_of_neg h).symm
  case isFalse h => exact (abs_of_nonneg (not_lt.mp h)).symm

-- Two numbers a whole number of periods apart are less than a period apart only if they are the same.
theorem eq_of_periods (hb : 0 < b) (h : n * b + r = m * b + r') (hr : |r' - r| < b) : r = r' := by
  have hd : ((n - m : ℤ) : α) * b = r' - r := by
    push_cast
    linear_combination h
  have hnm : |((n - m : ℤ) : α)| < 1 := by
    rw [← hd, abs_mul, abs_of_pos hb] at hr
    exact (mul_lt_iff_lt_one_left hb).mp hr
  have hz : n - m = 0 := Int.abs_lt_one_iff.mp (by exact_mod_cast hnm)
  rw [hz, Int.cast_zero, zero_mul] at hd
  exact (sub_eq_zero.mp hd.symm).symm

theorem exists_modulo (hb : 0 < b) (a : α) :
    ∃ n : ℤ, a = n * b + modulo a b ∧ 0 ≤ modulo a b ∧ modulo a b < b := by
  have ⟨n, ha, hlt, _⟩ := ExactField.exists_rem a b hb.ne'
  have ⟨m, hm, hlt', hs⟩ := ExactField.exists_rem (rem a b + b) b hb.ne'
  rw [abs_of_pos hb, abs_lt] at hlt hlt'
  have hpos : 0 < rem a b + b := by linarith
  refine ⟨n + m - 1, ?_, nonneg_of_mul_nonneg_right hs hpos, hlt'.right⟩
  rw [modulo]
  push_cast
  linear_combination ha + hm

theorem modulo_eq (hb : 0 < b) (h : a = n * b + r) (hr : 0 ≤ r) (hrb : r < b) : modulo a b = r := by
  have ⟨m, ha, hm, hmb⟩ := exists_modulo hb a
  exact eq_of_periods hb (ha.symm.trans h) (abs_lt.mpr ⟨by linarith, by linarith⟩)

theorem modulo_of_lt (ha : 0 ≤ a) (hab : a < b) : modulo a b = a :=
  modulo_eq (n := 0) (ha.trans_lt hab) (by simp) ha hab

-- Whole periods do not matter.
theorem modulo_add_periods (hb : 0 < b) (a : α) (m : ℤ) : modulo (a + m * b) b = modulo a b := by
  have ⟨n, ha, hr, hrb⟩ := exists_modulo hb a
  refine modulo_eq (n := n + m) hb ?_ hr hrb
  push_cast
  linear_combination ha

end Scalar

-- The whole number next to a number, on the way to zero.
noncomputable def truncate (x : ℝ) : ℤ :=
  if 0 ≤ x then ⌊x⌋ else ⌈x⌉

theorem abs_sub_truncate_lt (x : ℝ) : |x - truncate x| < 1 := by
  have := Int.floor_le x
  have := Int.lt_floor_add_one x
  have := Int.le_ceil x
  have := Int.ceil_lt_add_one x
  rw [truncate, abs_lt]
  split <;> constructor <;> linarith

theorem mul_sub_truncate_nonneg (x : ℝ) : 0 ≤ x * (x - truncate x) := by
  rw [truncate]
  split
  case isTrue h  => exact mul_nonneg h (sub_nonneg.mpr (Int.floor_le x))
  case isFalse h => exact mul_nonneg_of_nonpos_of_nonpos (not_le.mp h).le (sub_nonpos.mpr (Int.le_ceil x))

noncomputable instance : Scalar ℝ where
  toAdd := inferInstance
  toSub := inferInstance
  toMul := inferInstance
  toDiv := inferInstance
  toNeg := inferInstance
  toNatCast := inferInstance
  toLT := inferInstance
  toLE := inferInstance
  beq a b := decide (a = b)
  decLt := inferInstance
  decLe := inferInstance
  sqrt := Real.sqrt
  sin := Real.sin
  cos := Real.cos
  acos := Real.arccos
  pi := Real.pi
  rem a b := a - truncate (a / b) * b
  floor? a := some ⌊a⌋₊
  ofDecimal mantissa exponent := mantissa * (10 : ℝ) ^ exponent

noncomputable instance : ExactField ℝ where
  toScalar := inferInstance
  __ := (inferInstance : Field ℝ)
  __ := (inferInstance : LinearOrder ℝ)
  __ := (inferInstance : IsStrictOrderedRing ℝ)
  eq_of_beq := of_decide_eq_true
  rfl := decide_eq_true rfl
  exists_rem a b hb := by
    have hr : a - truncate (a / b) * b = (a / b - truncate (a / b)) * b := by
      rw [sub_mul, div_mul_cancel₀ a hb]
    refine ⟨truncate (a / b), (add_sub_cancel ..).symm, ?_, ?_⟩
    · change |a - truncate (a / b) * b| < |b|
      rw [hr, abs_mul]
      exact mul_lt_of_lt_one_left (abs_pos.mpr hb) (abs_sub_truncate_lt _)
    · have ha : a * (a - truncate (a / b) * b) = a / b * (a / b - truncate (a / b)) * b ^ 2 := by
        rw [hr]
        field_simp
      change 0 ≤ a * (a - truncate (a / b) * b)
      rw [ha]
      exact mul_nonneg (mul_sub_truncate_nonneg _) (sq_nonneg b)

end SceneMotion
