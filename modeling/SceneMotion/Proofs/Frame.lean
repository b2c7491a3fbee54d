import SceneMotion.Proofs.Geometry
import SceneMotion.Frame

namespace SceneMotion

attribute [ext] Mat3 Frame

variable {α : Type} [ExactRing α]

namespace Vec3

variable {a b c : Vec3 α}

def coords (v : Vec3 α) : Fin 3 → α :=
  ![v.x, v.y, v.z]

omit [ExactRing α] in
theorem coords_injective (h : a.coords = b.coords) : a = b :=
  Vec3.ext (congrFun h 0) (congrFun h 1) (congrFun h 2)

theorem coords_add : (a.add b).coords = a.coords + b.coords := by
  simp [coords, add]

theorem coords_zero : (zero : Vec3 α).coords = 0 := by
  simp [coords, zero]

protected theorem add_assoc : (a.add b).add c = a.add (b.add c) :=
  coords_injective <| by simp only [coords_add, add_assoc]

protected theorem zero_add : zero.add a = a :=
  coords_injective <| by rw [coords_add, coords_zero, zero_add]

protected theorem add_zero : a.add zero = a :=
  coords_injective <| by rw [coords_add, coords_zero, add_zero]

protected theorem add_right_cancel (h : a.add c = b.add c) : a = b := by
  rw [← a.add_sub_cancel_right c, h, b.add_sub_cancel_right]

end Vec3

namespace Mat3

variable {m n : Mat3 α} {v w : Vec3 α}

-- The matrix with the same columns.
def toMatrix (m : Mat3 α) : Matrix (Fin 3) (Fin 3) α :=
  .of fun i j => (![m.x, m.y, m.z] j).coords i

omit [ExactRing α] in
theorem getElem?_toList (i j : Fin 3) : m.toList[3 * j.val + i.val]? = some (m.toMatrix i j) := by
  fin_cases i <;> fin_cases j <;> rfl

theorem coords_apply : (m.apply v).coords = m.toMatrix.mulVec v.coords := by
  funext i
  fin_cases i <;> simp [toMatrix, Vec3.coords, apply, Matrix.mulVec, dotProduct, Fin.sum_univ_three] <;>
    ring

-- The columns of a product are the images of those of the second matrix.
theorem toMatrix_mul : (m.mul n).toMatrix = m.toMatrix * n.toMatrix := by
  ext i j
  have h (v : Vec3 α) : (m.apply v).coords i = m.toMatrix.mulVec v.coords i := congrFun coords_apply i
  fin_cases j <;> exact h _

theorem toMatrix_identity : (identity : Mat3 α).toMatrix = 1 := by
  ext i j
  fin_cases i <;> fin_cases j <;>
    simp [toMatrix, identity, Vec3.coords, Vec3.unitX, Vec3.unitY, Vec3.unitZ]

theorem apply_add : m.apply (v.add w) = (m.apply v).add (m.apply w) :=
  Vec3.coords_injective <| by simp only [coords_apply, Vec3.coords_add, Matrix.mulVec_add]

theorem apply_mul : (m.mul n).apply v = m.apply (n.apply v) :=
  Vec3.coords_injective <| by simp only [coords_apply, toMatrix_mul, Matrix.mulVec_mulVec]

theorem apply_identity : identity.apply v = v :=
  Vec3.coords_injective <| by rw [coords_apply, toMatrix_identity, Matrix.one_mulVec]

theorem apply_zero : m.apply .zero = .zero :=
  Vec3.coords_injective <| by rw [coords_apply, Vec3.coords_zero, Matrix.mulVec_zero]

theorem apply_unitX : m.apply .unitX = m.x := by
  simp [apply, Vec3.unitX]

theorem apply_unitY : m.apply .unitY = m.y := by
  simp [apply, Vec3.unitY]

theorem apply_unitZ : m.apply .unitZ = m.z := by
  simp [apply, Vec3.unitZ]

end Mat3

namespace Frame

variable {a b c : Frame α} {p : Vec3 α}

theorem apply_mul : (a.mul b).apply p = a.apply (b.apply p) := by
  simp only [mul, apply, Mat3.apply_mul, Mat3.apply_add, Vec3.add_assoc]

theorem apply_identity : identity.apply p = p := by
  rw [apply, identity, Mat3.apply_identity, Vec3.add_zero]

theorem coords_apply :
    (a.apply p).coords = a.rotation.toMatrix.mulVec p.coords + a.translation.coords := by
  rw [apply, Vec3.coords_add, Mat3.coords_apply]

theorem apply_zero : a.apply .zero = a.translation := by
  rw [apply, Mat3.apply_zero, Vec3.zero_add]

-- Where the origin goes is the translation, and where the axes go from there is the rotation.
theorem eq_of_apply (h : ∀ p, a.apply p = b.apply p) : a = b := by
  have ht : a.translation = b.translation := by
    rw [← apply_zero, h, apply_zero]
  have hr (v : Vec3 α) : a.rotation.apply v = b.rotation.apply v := by
    have hv := h v
    rw [apply, apply, ht] at hv
    exact Vec3.add_right_cancel hv
  refine Frame.ext (Mat3.ext ?_ ?_ ?_) ht
  · rw [← Mat3.apply_unitX, hr, Mat3.apply_unitX]
  · rw [← Mat3.apply_unitY, hr, Mat3.apply_unitY]
  · rw [← Mat3.apply_unitZ, hr, Mat3.apply_unitZ]

protected theorem mul_assoc : (a.mul b).mul c = a.mul (b.mul c) :=
  eq_of_apply fun p => by simp only [apply_mul]

protected theorem identity_mul : identity.mul a = a :=
  eq_of_apply fun p => by rw [apply_mul, apply_identity]

protected theorem mul_identity : a.mul identity = a :=
  eq_of_apply fun p => by rw [apply_mul, apply_identity]

end Frame
end SceneMotion
