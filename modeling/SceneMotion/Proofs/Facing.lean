import SceneMotion.Proofs.Geometry
import SceneMotion.Frame

namespace SceneMotion

open Vec3 (length direction)

namespace Frame

variable {f : Frame ℝ} {look up target : Vec3 ℝ}

theorem nearlyParallel_iff {a b : Vec3 ℝ} : nearlyParallel a b ↔ 99 / 100 < |a.dot b| := by
  simp only [nearlyParallel, Scalar.abs_eq, decide_eq_true_iff]

theorem nearlyParallel_eq_false_iff {a b : Vec3 ℝ} :
    nearlyParallel a b = false ↔ |a.dot b| ≤ 99 / 100 := by
  rw [Bool.eq_false_iff, ne_eq, nearlyParallel_iff, not_lt]

theorem useless_iff : (up.normalize.squaredLength == 0 || nearlyParallel look up.normalize) = true ↔
    (up ≠ .zero → 99 / 100 < |look.dot up.direction|) := by
  rw [Bool.or_eq_true, beq_iff_eq, nearlyParallel_iff]
  by_cases h : up = .zero
  case pos => simp [h, Vec3.normalize_zero, Vec3.squaredLength_eq_zero_iff]
  case neg => simp [h, Vec3.normalize_of_ne_zero h, Vec3.squaredLength_direction h]

theorem upFor_of_apart (h : up ≠ .zero) (hd : |look.dot up.direction| ≤ 99 / 100) :
    upFor look up = up.direction := by
  rw [upFor, Scalar.zero_eq, if_neg fun hu => (useless_iff.mp hu h).not_ge hd,
    Vec3.normalize_of_ne_zero h]

theorem upFor_of_near (h : up ≠ .zero → 99 / 100 < |look.dot up.direction|) :
    upFor look up = if nearlyParallel look .unitX then .unitY else .unitX := by
  rw [upFor, Scalar.zero_eq, if_pos (useless_iff.mpr h)]

theorem dot_unitX : look.dot .unitX = look.x := by
  simp [Vec3.dot, Vec3.unitX]

theorem dot_unitY : look.dot .unitY = look.y := by
  simp [Vec3.dot, Vec3.unitY]

theorem squaredLength_unitX : (Vec3.unitX : Vec3 ℝ).squaredLength = 1 := by
  simp [Vec3.squaredLength, Vec3.unitX]

theorem squaredLength_unitY : (Vec3.unitY : Vec3 ℝ).squaredLength = 1 := by
  simp [Vec3.squaredLength, Vec3.unitY]

-- No view is close to two of the axes.
theorem abs_y_le_of_lt_abs_x (hl : look.squaredLength = 1) (hx : 99 / 100 < |look.x|) :
    |look.y| ≤ 99 / 100 := by
  rw [Vec3.squaredLength] at hl
  refine abs_le_of_sq_le_sq ?_ (by norm_num)
  have hx : (99 / 100) ^ 2 < look.x ^ 2 := sq_lt_sq.mpr (by rwa [abs_of_pos (by norm_num)])
  nlinarith [mul_self_nonneg look.z]

-- The fallbacks are taken only where they are of use, so that a direction is always found that is not
-- along the view.
theorem upFor_spec (hl : look.squaredLength = 1) (up : Vec3 ℝ) :
    (upFor look up).squaredLength = 1 ∧ |look.dot (upFor look up)| ≤ 99 / 100 := by
  by_cases hn : up ≠ .zero → 99 / 100 < |look.dot up.direction|
  case neg =>
    obtain ⟨hz, hd⟩ := Classical.not_imp.mp hn
    rw [upFor_of_apart hz (not_lt.mp hd)]
    exact ⟨Vec3.squaredLength_direction hz, not_lt.mp hd⟩
  case pos =>
    rw [upFor_of_near hn]
    split
    case isTrue hx  =>
      rw [nearlyParallel_iff, dot_unitX] at hx
      exact ⟨squaredLength_unitY, dot_unitY ▸ abs_y_le_of_lt_abs_x hl hx⟩
    case isFalse hx =>
      exact ⟨squaredLength_unitX, nearlyParallel_eq_false_iff.mp (Bool.eq_false_iff.mpr hx)⟩

-- What the axes are, but for a positive factor.
theorem exists_lookRotation_eq (hl : look.squaredLength = 1) (up : Vec3 ℝ) : ∃ k : ℝ, 0 < k ∧
    k * k * (1 - look.dot (upFor look up) * look.dot (upFor look up)) = 1 ∧
    lookRotation look up = ⟨(look.cross (upFor look up)).scale k,
      ((upFor look up).sub (look.scale (look.dot (upFor look up)))).scale k, look.neg⟩ := by
  have ⟨hu, hd⟩ := upFor_spec hl up
  rw [lookRotation]
  generalize upFor look up = u at hu hd ⊢
  -- The part of the up direction that is square to the view.
  set v := u.sub (look.scale (look.dot u)) with hv
  have hvv : v.squaredLength = 1 - look.dot u * look.dot u :=
    hu ▸ Vec3.squaredLength_sub_scale_dot look u hl
  have hpos : 0 < 1 - look.dot u * look.dot u := by
    have := abs_le.mp hd
    nlinarith
  have hz : v ≠ .zero := by
    intro hz
    rw [Vec3.squaredLength_eq_zero_iff.mpr hz] at hvv
    exact hpos.ne hvv
  have hy : v.direction.squaredLength = 1 := Vec3.squaredLength_direction hz
  have hly : look.dot v.direction = 0 := by
    rw [direction, Vec3.dot_scale, hv, Vec3.dot_sub_scale_dot look u hl, mul_zero]
  have hx : (look.cross v.direction).squaredLength = 1 := by
    rw [Vec3.squaredLength_cross, hl, hy, hly]
    ring
  refine ⟨1 / v.length, one_div_pos.mpr (Vec3.length_pos hz), ?_, ?_⟩
  · rw [← hvv, ← Vec3.squaredLength_scale]
    exact hy
  · simp only [Vec3.add_scale_neg, ← hv, Vec3.normalize_of_ne_zero hz, Vec3.neg_cross_neg,
      Vec3.normalize_of_unit hx, Vec3.neg_cross_cross look _ hl hly]
    rw [direction, Vec3.cross_scale, hv, Vec3.cross_sub_scale_self]

theorem lookRotation_isRotation (hl : look.squaredLength = 1) (up : Vec3 ℝ) :
    (lookRotation look up).IsRotation := by
  have ⟨hu, _⟩ := upFor_spec hl up
  have ⟨k, _, hk, he⟩ := exists_lookRotation_eq hl up
  have hx : ((look.cross (upFor look up)).scale k).squaredLength = 1 := by
    rw [Vec3.squaredLength_scale, Vec3.squaredLength_cross, hl, hu, one_mul, hk]
  have hzx : look.neg.dot ((look.cross (upFor look up)).scale k) = 0 := by
    rw [Vec3.neg_dot, Vec3.dot_scale, Vec3.dot_comm, Vec3.cross_dot_left, mul_zero, neg_zero]
  have hr : lookRotation look up =
      ⟨(lookRotation look up).x, look.neg.cross (lookRotation look up).x, look.neg⟩ := rfl
  rw [hr, he]
  exact Mat3.isRotation_of_orthogonal hx ((Vec3.squaredLength_neg look).trans hl) hzx

-- An up direction that is of use is square to X and on the side of Y.
theorem lookRotation_up (hl : look.squaredLength = 1) (h : up ≠ .zero)
    (hd : |look.dot up.direction| ≤ 99 / 100) :
    (lookRotation look up).x.dot up = 0 ∧ 0 < (lookRotation look up).y.dot up := by
  have ⟨k, hk, hkk, he⟩ := exists_lookRotation_eq hl up
  have hu := Vec3.squaredLength_direction h
  have hs := Vec3.direction_scale_length h
  rw [upFor_of_apart h hd] at hkk he
  rw [he]
  generalize up.direction = u at hkk hu hs ⊢
  rw [← hs]
  have hpos : 0 < 1 - look.dot u * look.dot u :=
    (pos_iff_pos_of_mul_pos (hkk.symm ▸ one_pos)).mp (mul_pos hk hk)
  constructor
  · rw [Vec3.scale_dot, Vec3.dot_scale, Vec3.cross_dot_right, mul_zero, mul_zero]
  · rw [Vec3.scale_dot, Vec3.dot_scale, Vec3.sub_dot, Vec3.scale_dot, ← Vec3.squaredLength_eq_dot, hu]
    exact mul_pos hk (mul_pos (Vec3.length_pos h) hpos)

theorem lookAt_of_ne (h : target ≠ f.translation) : f.lookAt target up =
    ⟨lookRotation (target.sub f.translation).direction up, f.translation⟩ := by
  have hz := Vec3.sub_ne_zero h
  rw [lookAt, facing?, Scalar.zero_eq, if_neg, Vec3.normalize_of_ne_zero hz]
  · rfl
  · simpa using (Vec3.squaredLength_pos hz).ne'

theorem lookAt_faces (f : Frame ℝ) {target : Vec3 ℝ} (up : Vec3 ℝ) (h : target ≠ f.translation) :
    (f.lookAt target up).translation = f.translation ∧
    (f.lookAt target up).rotation.IsRotation ∧
    (f.lookAt target up).rotation.z.neg = (target.sub f.translation).direction ∧
    (up ≠ .zero → |(target.sub f.translation).direction.dot up.direction| ≤ 99 / 100 →
      (f.lookAt target up).rotation.x.dot up = 0 ∧ 0 < (f.lookAt target up).rotation.y.dot up) := by
  have hl := Vec3.squaredLength_direction (Vec3.sub_ne_zero h)
  rw [lookAt_of_ne h]
  exact ⟨rfl, lookRotation_isRotation hl up, Vec3.neg_neg _, lookRotation_up hl⟩

theorem lookAt_faces_ahead : (⟨1, 2, 2⟩ : Vec3 ℝ) ≠ ⟨1, 2, 3⟩ ∧
    ((⟨.identity, ⟨1, 2, 3⟩⟩ : Frame ℝ).lookAt ⟨1, 2, 2⟩ ⟨0, 3, 0⟩).rotation.z = ⟨0, 0, 1⟩ ∧
    0 < ((⟨.identity, ⟨1, 2, 3⟩⟩ : Frame ℝ).lookAt ⟨1, 2, 2⟩ ⟨0, 3, 0⟩).rotation.y.dot ⟨0, 3, 0⟩ := by
  have hne : (⟨1, 2, 2⟩ : Vec3 ℝ) ≠ ⟨1, 2, 3⟩ := by norm_num
  have hup : (⟨0, 3, 0⟩ : Vec3 ℝ) ≠ .zero := by simp [Vec3.zero]
  have hl : ((⟨1, 2, 2⟩ : Vec3 ℝ).sub ⟨1, 2, 3⟩).direction = ⟨0, 0, -1⟩ := by
    rw [Vec3.direction_of_unit] <;> norm_num [Vec3.sub, Vec3.squaredLength]
  obtain ⟨_, _, hz, hy⟩ := lookAt_faces ⟨.identity, ⟨1, 2, 3⟩⟩ ⟨0, 3, 0⟩ hne
  rw [hl] at hz hy
  refine ⟨hne, ?_, (hy hup ?_).right⟩
  · rw [← Vec3.neg_neg (Frame.rotation _).z, hz]
    simp [Vec3.neg]
  · norm_num [direction, Vec3.dot, Vec3.scale]

theorem apply_ahead (m : Mat3 ℝ) : m.apply .ahead = m.z.neg := by
  simp [Mat3.apply, Vec3.ahead, Vec3.neg]

theorem upright_eq (h : f.rotation.IsRotation) :
    f.upright = ⟨lookRotation f.rotation.z.neg .unitY, f.translation⟩ := by
  have hu : f.rotation.z.neg.squaredLength = 1 := (Vec3.squaredLength_neg _).trans h.unit_z
  have hs : (f.rotation.z.neg.add f.translation).sub f.translation = f.rotation.z.neg :=
    Vec3.add_sub_cancel_right ..
  have hne : f.rotation.z.neg.add f.translation ≠ f.translation := by
    intro he
    rw [he, Vec3.sub_self] at hs
    exact Vec3.ne_zero_of_unit hu hs.symm
  rw [upright, apply_ahead, lookAt_of_ne hne, hs, Vec3.direction_of_unit hu]

-- Where the vertical is of no use to tell what is up, X takes its place, and is itself not level then.
theorem lookRotation_level_iff (hl : look.squaredLength = 1) :
    (lookRotation look .unitY).x.y = 0 ↔ |look.y| ≤ 99 / 100 ∨ look.z = 0 := by
  have hy : (Vec3.unitY : Vec3 ℝ).direction = .unitY := Vec3.direction_of_unit squaredLength_unitY
  have ⟨k, hk, _, he⟩ := exists_lookRotation_eq hl .unitY
  rw [he]
  by_cases hd : |look.y| ≤ 99 / 100
  case pos =>
    have hu : upFor look .unitY = .unitY := by
      rw [upFor_of_apart (Vec3.ne_zero_of_unit squaredLength_unitY) (by rwa [hy, dot_unitY]), hy]
    rw [hu]
    simp [hd, Vec3.scale, Vec3.cross, Vec3.unitY]
  case neg =>
    have hx : nearlyParallel look .unitX = false := by
      rw [nearlyParallel_eq_false_iff, dot_unitX]
      exact not_lt.mp (mt (abs_y_le_of_lt_abs_x hl) hd)
    have hu : upFor look .unitY = .unitX := by
      rw [upFor_of_near fun _ => by rwa [hy, dot_unitY, ← not_le], hx]
      rfl
    rw [hu]
    simp [hd, hk.ne', Vec3.scale, Vec3.cross, Vec3.unitX]

theorem upright_level_iff (f : Frame ℝ) (h : f.rotation.IsRotation) :
    f.upright.translation = f.translation ∧
    f.upright.rotation.z = f.rotation.z ∧
    f.upright.rotation.IsRotation ∧
    (f.upright.rotation.x.y = 0 ↔ |f.rotation.z.y| ≤ 99 / 100 ∨ f.rotation.z.z = 0) := by
  have hl : f.rotation.z.neg.squaredLength = 1 := (Vec3.squaredLength_neg _).trans h.unit_z
  rw [upright_eq h]
  refine ⟨rfl, Vec3.neg_neg _, lookRotation_isRotation hl _, ?_⟩
  rw [lookRotation_level_iff hl]
  simp [Vec3.neg]

-- Looks up at a slope, without roll.
noncomputable def pitched (c s : ℝ) : Frame ℝ :=
  ⟨⟨⟨1, 0, 0⟩, ⟨0, c, s⟩, ⟨0, -s, c⟩⟩, ⟨1, 2, 3⟩⟩

theorem pitched_isRotation {c s : ℝ} (h : c * c + s * s = 1) : (pitched c s).rotation.IsRotation := by
  constructor <;> simp [pitched, Vec3.squaredLength, Vec3.dot, Vec3.cross] <;> linarith

theorem upright_pitched : (pitched (4 / 5) (3 / 5)).rotation.IsRotation ∧
    (pitched (4 / 5) (3 / 5)).upright.translation = ⟨1, 2, 3⟩ ∧
    (pitched (4 / 5) (3 / 5)).upright.rotation.z = ⟨0, -(3 / 5), 4 / 5⟩ ∧
    (pitched (4 / 5) (3 / 5)).upright.rotation.x.y = 0 := by
  have hr := pitched_isRotation (c := 4 / 5) (s := 3 / 5) (by norm_num)
  have ⟨ht, hz, _, hl⟩ := upright_level_iff _ hr
  exact ⟨hr, ht, hz, hl.mpr (.inl (by norm_num [pitched, abs_div]))⟩

-- It is steeper than eighty degrees, and rolls over.
theorem upright_not_level : ¬∀ f : Frame ℝ, f.rotation.IsRotation →
    ¬(f.rotation.z.x = 0 ∧ f.rotation.z.z = 0) →
    f.upright.translation = f.translation ∧ f.upright.rotation.z = f.rotation.z ∧
      f.upright.rotation.IsRotation ∧ f.upright.rotation.x.y = 0 := by
  intro h
  have hr := pitched_isRotation (c := 40 / 401) (s := 399 / 401) (by norm_num)
  have ⟨_, _, _, hl⟩ := h _ hr (by norm_num [pitched])
  have hz : (pitched (40 / 401) (399 / 401)).rotation.z.neg.squaredLength = 1 :=
    (Vec3.squaredLength_neg _).trans hr.unit_z
  rw [upright_eq hr, lookRotation_level_iff hz] at hl
  norm_num [pitched, Vec3.neg] at hl

end Frame
end SceneMotion
