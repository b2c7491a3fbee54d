import SceneMotion.Proofs.Exact
import SceneMotion.Geometry.Mat3

namespace SceneMotion

attribute [ext] Vec3

namespace Vec3

section Products

variable {α : Type} [ExactRing α] (a b c : Vec3 α) (r : α)

theorem dot_comm : a.dot b = b.dot a := by
  simp only [dot]
  ring

theorem scale_dot : (a.scale r).dot b = r * a.dot b := by
  simp only [scale, dot]
  ring

theorem dot_scale : a.dot (b.scale r) = r * a.dot b := by
  simp only [scale, dot]
  ring

theorem neg_dot : a.neg.dot b = -a.dot b := by
  simp only [neg, dot]
  ring

theorem sub_dot : (a.sub b).dot c = a.dot c - b.dot c := by
  simp only [sub, dot]
  ring

theorem squaredLength_eq_dot : a.squaredLength = a.dot a :=
  rfl

theorem squaredLength_scale : (a.scale r).squaredLength = r * r * a.squaredLength := by
  simp only [scale, squaredLength]
  ring

theorem squaredLength_neg : a.neg.squaredLength = a.squaredLength := by
  simp only [neg, squaredLength]
  ring

theorem scale_scale (q : α) : (a.scale r).scale q = a.scale (r * q) := by
  simp only [scale, mul_assoc]

theorem scale_one : a.scale 1 = a := by
  simp only [scale, mul_one]

theorem add_scale_neg : a.add (b.scale (-r)) = a.sub (b.scale r) := by
  simp only [add, sub, scale, mul_neg, ← sub_eq_add_neg]

protected theorem add_sub_cancel_right : (a.add b).sub b = a := by
  simp [add, sub]

protected theorem sub_self : a.sub a = zero := by
  simp [sub, zero]

protected theorem neg_neg : a.neg.neg = a := by
  simp [neg]

theorem cross_dot_left : (a.cross b).dot a = 0 := by
  simp only [cross, dot]
  ring

theorem cross_dot_right : (a.cross b).dot b = 0 := by
  simp only [cross, dot]
  ring

theorem squaredLength_cross :
    (a.cross b).squaredLength = a.squaredLength * b.squaredLength - a.dot b * a.dot b := by
  simp only [cross, squaredLength, dot]
  ring

theorem cross_cross : a.cross (b.cross c) = (b.scale (a.dot c)).sub (c.scale (a.dot b)) := by
  ext <;> simp only [cross, scale, sub, dot] <;> ring

theorem neg_cross_neg : (a.neg.cross b).neg = a.cross b := by
  ext <;> simp only [cross, neg] <;> ring

theorem cross_scale : a.cross (b.scale r) = (a.cross b).scale r := by
  ext <;> simp only [cross, scale] <;> ring

theorem cross_sub_scale_self : a.cross (b.sub (a.scale r)) = a.cross b := by
  ext <;> simp only [cross, scale, sub] <;> ring

-- What is left of a direction once the part along a unit vector has been taken off is square to it.
theorem dot_sub_scale_dot (h : a.squaredLength = 1) : a.dot (b.sub (a.scale (a.dot b))) = 0 := by
  rw [dot_comm, sub_dot, scale_dot, ← squaredLength_eq_dot, h, mul_one, dot_comm b, sub_self]

theorem squaredLength_sub_scale_dot (h : a.squaredLength = 1) :
    (b.sub (a.scale (a.dot b))).squaredLength = b.squaredLength - a.dot b * a.dot b := by
  rw [squaredLength_eq_dot, sub_dot, scale_dot, dot_sub_scale_dot a b h, mul_zero, sub_zero,
    dot_comm b, sub_dot, scale_dot, squaredLength_eq_dot]

theorem neg_cross_cross (h : a.squaredLength = 1) (hab : a.dot b = 0) :
    a.neg.cross (a.cross b) = b := by
  rw [cross_cross, neg_dot, neg_dot, hab, ← squaredLength_eq_dot, h]
  simp [sub, scale]

end Products

variable {a b : Vec3 ℝ}

noncomputable def length (a : Vec3 ℝ) : ℝ :=
  √a.squaredLength

noncomputable def direction (a : Vec3 ℝ) : Vec3 ℝ :=
  a.scale (1 / a.length)

theorem squaredLength_nonneg (a : Vec3 ℝ) : 0 ≤ a.squaredLength :=
  add_nonneg (add_nonneg (mul_self_nonneg _) (mul_self_nonneg _)) (mul_self_nonneg _)

theorem squaredLength_eq_zero_iff : a.squaredLength = 0 ↔ a = .zero := by
  constructor
  · intro h
    have := mul_self_nonneg a.x
    have := mul_self_nonneg a.y
    have := mul_self_nonneg a.z
    rw [squaredLength] at h
    ext <;> simp only [zero, Scalar.zero_eq] <;> refine mul_self_eq_zero.mp ?_ <;> linarith
  · rintro rfl
    simp [squaredLength, zero]

protected theorem sub_ne_zero (h : a ≠ b) : a.sub b ≠ .zero := by
  intro hz
  simp only [sub, zero, Scalar.zero_eq, mk.injEq, sub_eq_zero] at hz
  exact h (Vec3.ext hz.left hz.right.left hz.right.right)

theorem squaredLength_pos (h : a ≠ .zero) : 0 < a.squaredLength :=
  a.squaredLength_nonneg.lt_of_ne' (mt squaredLength_eq_zero_iff.mp h)

theorem length_pos (h : a ≠ .zero) : 0 < a.length :=
  Real.sqrt_pos.mpr (squaredLength_pos h)

theorem normalize_of_ne_zero (h : a ≠ .zero) : a.normalize = a.direction := by
  simp only [normalize, Scalar.zero_eq, Scalar.one_eq, if_pos (squaredLength_pos h)]
  rfl

theorem normalize_zero : (zero : Vec3 ℝ).normalize = zero := by
  simp [normalize, squaredLength, scale, zero]

theorem squaredLength_direction (h : a ≠ .zero) : a.direction.squaredLength = 1 := by
  have hp := squaredLength_pos h
  rw [direction, squaredLength_scale, length, div_mul_div_comm, Real.mul_self_sqrt hp.le, mul_one,
    one_div_mul_cancel hp.ne']

theorem direction_scale_length (h : a ≠ .zero) : a.direction.scale a.length = a := by
  rw [direction, scale_scale, one_div_mul_cancel (length_pos h).ne', scale_one]

theorem ne_zero_of_unit (h : a.squaredLength = 1) : a ≠ .zero := by
  rintro rfl
  simp [squaredLength, zero] at h

theorem direction_of_unit (h : a.squaredLength = 1) : a.direction = a := by
  rw [direction, length, h, Real.sqrt_one, one_div_one, scale_one]

theorem normalize_of_unit (h : a.squaredLength = 1) : a.normalize = a := by
  rw [normalize_of_ne_zero (ne_zero_of_unit h), direction_of_unit h]

end Vec3

namespace Mat3

variable {α : Type} [ExactRing α] {x y z : Vec3 α}

-- Keeps lengths and angles, and the hand of the axes.
structure IsRotation (m : Mat3 α) : Prop where
  unit_x : m.x.squaredLength = 1
  unit_y : m.y.squaredLength = 1
  unit_z : m.z.squaredLength = 1
  x_dot_y : m.x.dot m.y = 0
  y_dot_z : m.y.dot m.z = 0
  z_dot_x : m.z.dot m.x = 0
  x_cross_y : m.x.cross m.y = m.z

-- Two of the axes give the third.
theorem isRotation_of_orthogonal (hx : x.squaredLength = 1) (hz : z.squaredLength = 1)
    (h : z.dot x = 0) : IsRotation ⟨x, z.cross x, z⟩ where
  unit_x    := hx
  unit_y    := by rw [Vec3.squaredLength_cross, hx, hz, h]; ring
  unit_z    := hz
  x_dot_y   := by rw [Vec3.dot_comm, Vec3.cross_dot_right]
  y_dot_z   := Vec3.cross_dot_left z x
  z_dot_x   := h
  x_cross_y := by
    rw [Vec3.cross_cross, ← Vec3.squaredLength_eq_dot, hx, Vec3.dot_comm x z, h]
    ext <;> simp [Vec3.sub, Vec3.scale]

end Mat3
end SceneMotion
