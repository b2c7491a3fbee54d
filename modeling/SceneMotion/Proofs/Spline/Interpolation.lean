import SceneMotion.Proofs.Exact
import SceneMotion.Proofs.Spline

namespace SceneMotion

variable {α : Type} [ExactField α]

namespace Vec3

theorem lerp_zero (a b : Vec3 α) : a.lerp b 0 = a := by
  simp [lerp]

theorem lerp_one (a b : Vec3 α) : a.lerp b 1 = b := by
  simp [lerp]

end Vec3

namespace Spline

theorem cubic_zero (p₀ p₁ p₂ p₃ : α) : cubic p₀ p₁ p₂ p₃ 0 = p₁ := by
  simp [cubic, Scalar.half]

theorem cubic_one (p₀ p₁ p₂ p₃ : α) : cubic p₀ p₁ p₂ p₃ 1 = p₂ := by
  simp only [cubic, Scalar.half, Scalar.one_eq, Scalar.ofNat_eq]
  ring

theorem catmullRom_zero (p₀ p₁ p₂ p₃ : Vec3 α) : catmullRom p₀ p₁ p₂ p₃ 0 = p₁ := by
  simp only [catmullRom, cubic_zero]

theorem catmullRom_one (p₀ p₁ p₂ p₃ : Vec3 α) : catmullRom p₀ p₁ p₂ p₃ 1 = p₂ := by
  simp only [catmullRom, cubic_one]

variable {s : Spline α} {knots times : List α} {t : α} {i j k start : Nat}

theorem controlAt_of_lt (h : i < s.size) : s.controlAt i = s.control i := by
  rw [controlAt, controlIndex]
  cases s.extrapolation <;> simp only
  case cyclic => rw [Int.emod_eq_of_lt (by omega) (by omega), Int.toNat_natCast]
  all_goals congr 1; omega

theorem controlAt_size (hc : s.extrapolation = .cyclic) : s.controlAt s.size = s.control 0 := by
  simp [controlAt, controlIndex, hc]

theorem frameOn_zero_translation (h : i < s.size) :
    (s.frameOn i 0).translation = (s.control i).translation := by
  rw [← controlAt_of_lt h, frameOn, translationOn]
  cases s.interpolation
  case linear => exact Vec3.lerp_zero _ _
  case cubic  => exact catmullRom_zero ..

theorem frameOn_one_translation (s : Spline α) (i : Nat) :
    (s.frameOn i 1).translation = (s.controlAt (i + 1)).translation := by
  rw [frameOn, translationOn]
  cases s.interpolation
  case linear => exact Vec3.lerp_one _ _
  case cubic  => exact catmullRom_one ..

theorem isChain_of_descent? (h : descent? times = none) : times.IsChain (· < ·) := by
  induction times
  case nil => exact .nil
  case cons a rest hi =>
    cases rest
    case nil         => exact .singleton a
    case cons b rest =>
      rw [descent?] at h
      split at h
      case isTrue hab => exact .cons_cons hab (hi (Option.map_eq_none_iff.mp h))
      case isFalse    => cases h

theorem length_times_eq_size (s : Spline α) : s.times.length = s.size :=
  s.length_times

theorem times_ascending (s : Spline α) : s.times.Pairwise (· < ·) :=
  List.isChain_iff_pairwise.mp (isChain_of_descent? s.ascending)

theorem time_eq (h : i < s.times.length) : s.time i = s.times[i] :=
  List.getD_eq_getElem ..

theorem time_lt_time (hij : i < j) (hj : j < s.size) : s.time i < s.time j := by
  rw [← s.length_times_eq_size] at hj
  rw [time_eq hj, time_eq (hij.trans hj)]
  exact List.pairwise_iff_getElem.mp s.times_ascending i j _ _ hij

theorem first_le_time (h : k < s.size) : s.first ≤ s.time k := by
  rcases Nat.eq_zero_or_pos k with rfl | hk
  · exact le_rfl
  · exact (time_lt_time hk h).le

theorem time_le_last (h : k < s.size) : s.time k ≤ s.last := by
  rcases Nat.eq_or_lt_of_le (Nat.le_sub_one_of_lt h) with rfl | hk
  · exact le_rfl
  · exact (time_lt_time hk (by omega)).le

theorem first_lt_last (hs : 2 ≤ s.size) : s.first < s.last :=
  time_lt_time (by omega) (by omega)

theorem closingInterval_pos (hs : 2 ≤ s.size) : 0 < s.closingInterval := by
  rw [closingInterval]
  split
  case isTrue h  => simpa using h
  case isFalse h =>
    have hn : 0 < s.size - 1 := by omega
    rw [if_neg (by omega)]
    exact div_pos (sub_pos.mpr (first_lt_last hs)) (by exact_mod_cast hn)

theorem period_pos (hs : 2 ≤ s.size) : 0 < s.period :=
  add_pos (sub_pos.mpr (first_lt_last hs)) (closingInterval_pos hs)

theorem knots_ascending (hs : 2 ≤ s.size) : s.knots.Pairwise (· < ·) := by
  refine List.pairwise_append.mpr ⟨s.times_ascending, List.pairwise_singleton .., ?_⟩
  intro a ha b hb
  obtain ⟨i, hi, rfl⟩ := List.getElem_of_mem ha
  have hl : s.time i ≤ s.last := time_le_last (s.length_times_eq_size ▸ hi)
  have hc := closingInterval_pos hs
  rw [List.mem_singleton.mp hb, ← time_eq hi, period]
  linarith

theorem length_knots (s : Spline α) : s.knots.length = s.size + 1 := by
  rw [knots, List.length_append, s.length_times_eq_size]
  rfl

theorem knots_getElem (h : k < s.size) (hk : k < s.knots.length) : s.knots[k] = s.time k := by
  rw [← s.length_times_eq_size] at h
  exact (List.getElem_append_left h).trans (time_eq h).symm

theorem knots_getElem_size (h : s.size < s.knots.length) : s.knots[s.size] = s.first + s.period := by
  simp [knots, List.getElem_append_right, s.length_times_eq_size]

-- The time lies between a knot and the next, and not on the next.
def Brackets (knots : List α) (t : α) (i : Nat) : Prop :=
  ∃ h : i + 1 < knots.length, knots[i] ≤ t ∧ t < knots[i + 1]

-- The search goes down past the knots that are later than the time, and no further.
theorem segmentUpTo_spec (hs : start < knots.length) (h : knots[0] ≤ t) :
    (∃ hi : segmentUpTo knots t start < knots.length, knots[segmentUpTo knots t start] ≤ t) ∧
    ∀ j (hj : j < knots.length), segmentUpTo knots t start < j → j ≤ start → t < knots[j] := by
  induction start
  case zero => exact ⟨⟨hs, h⟩, fun j _ hj hjs => absurd (hj.trans_le hjs) (lt_irrefl _)⟩
  case succ start hi =>
    rw [segmentUpTo, List.getD_eq_getElem _ _ hs]
    split
    case isTrue ht  =>
      obtain ⟨hle, hlt⟩ := hi (by omega) h
      refine ⟨hle, fun j hj hij hjs => ?_⟩
      rcases Nat.eq_or_lt_of_le hjs with rfl | hjs
      · exact ht
      · exact hlt j hj hij (by omega)
    case isFalse ht =>
      exact ⟨⟨hs, not_lt.mp ht⟩, fun j _ hj hjs => absurd (hj.trans_le hjs) (lt_irrefl _)⟩

theorem brackets_segmentUpTo (hs : start + 1 < knots.length) (h : knots[0] ≤ t)
    (ht : t < knots[start + 1]) : Brackets knots t (segmentUpTo knots t start) := by
  have hi := segmentUpTo_le knots t start
  have ⟨⟨_, hle⟩, hlt⟩ := segmentUpTo_spec (Nat.lt_of_succ_lt hs) h
  refine ⟨by omega, hle, ?_⟩
  rcases Nat.eq_or_lt_of_le hi with he | hi
  · simpa only [he] using ht
  · exact hlt _ _ (Nat.lt_succ_self _) hi

-- No time lies in two segments.
theorem Brackets.unique (hk : knots.Pairwise (· < ·)) (hi : Brackets knots t i)
    (hj : Brackets knots t j) : i = j := by
  have key {i j : Nat} (hi : Brackets knots t i) (hj : Brackets knots t j) : ¬i < j := by
    intro hij
    obtain ⟨hil, _, hlt⟩ := hi
    obtain ⟨hjl, hle, _⟩ := hj
    have hle' : knots[i + 1] ≤ knots[j] := by
      rcases Nat.eq_or_lt_of_le (Nat.succ_le_of_lt hij) with rfl | hij
      · exact le_rfl
      · exact (List.pairwise_iff_getElem.mp hk _ _ _ _ hij).le
    exact absurd (hlt.trans_le (hle'.trans hle)) (lt_irrefl _)
  exact le_antisymm (not_lt.mp (key hj hi)) (not_lt.mp (key hi hj))

theorem getElem_zero_le (hk : knots.Pairwise (· < ·)) (h : i < knots.length) : knots[0] ≤ knots[i] := by
  rcases Nat.eq_zero_or_pos i with rfl | hi
  · exact le_rfl
  · exact (List.pairwise_iff_getElem.mp hk _ _ _ _ hi).le

-- At a knot the segment that begins there is found, and nothing of it has been gone yet.
theorem frameWithin_getElem (hk : knots.Pairwise (· < ·)) (hs : start + 1 < knots.length)
    (hi : i ≤ start) : s.frameWithin knots start knots[i] = s.frameOn i 0 := by
  have lt {i j : Nat} (hij : i < j) (hj : j < knots.length) : knots[i] < knots[j] :=
    List.pairwise_iff_getElem.mp hk _ _ _ _ hij
  have hb : Brackets knots knots[i] i := ⟨by omega, le_rfl, lt (Nat.lt_succ_self i) _⟩
  have hg : segmentUpTo knots knots[i] start = i :=
    (brackets_segmentUpTo hs (getElem_zero_le hk _) (lt (by omega) hs)).unique hk hb
  simp only [frameWithin, hg, List.getD_eq_getElem _ _ (show i < knots.length by omega), sub_self,
    zero_div]

theorem wrap_time (hs : 2 ≤ s.size) (h : k < s.size) : s.wrap (s.time k) = s.time k := by
  have hf := first_le_time h
  have hl := time_le_last h
  have hc := closingInterval_pos hs
  rw [wrap, Scalar.modulo_of_lt (by linarith) (by rw [period]; linarith)]
  ring

theorem frameAt_time (hs : 2 ≤ s.size) (h : k < s.size) :
    (s.frameAt (s.time k)).translation = (s.control k).translation := by
  have ⟨n, hn⟩ := Nat.exists_eq_add_of_le' hs
  rw [frameAt_of_size_eq hn]
  split
  case isTrue hc =>
    have hlen : s.size - 1 + 1 < s.knots.length := by rw [length_knots]; omega
    rw [wrap_time hs h, ← knots_getElem h (by omega),
      frameWithin_getElem (knots_ascending hs) hlen (by omega), frameOn_zero_translation h]
  case isFalse =>
    split
    case isTrue hf =>
      have hk : k = 0 := Nat.eq_zero_of_not_pos fun hk => (time_lt_time hk h).not_ge hf
      subst hk
      rw [frameBefore, if_pos (.inr (beq_self_eq_true s.first))]
      rfl
    case isFalse hf =>
      split
      case isTrue hl  =>
        have hk : k = s.size - 1 := by
          by_contra hk
          exact (time_lt_time (show k < s.size - 1 by omega) (by omega)).not_ge hl
        subst hk
        rw [frameAfter, if_pos (.inr (beq_self_eq_true s.last))]
        rfl
      case isFalse hl =>
        have hk : k < s.size - 1 := by
          by_contra hk
          exact hl (le_of_eq (congrArg s.time (by omega)))
        have hlen : s.size - 2 + 1 < s.times.length := by rw [s.length_times_eq_size]; omega
        rw [time_eq (by omega), frameWithin_getElem s.times_ascending hlen (by omega),
          frameOn_zero_translation h]

theorem wrap_add_periods (hs : 2 ≤ s.size) (t : α) (m : ℤ) :
    s.wrap (t + m * s.period) = s.wrap t := by
  rw [wrap, wrap, add_sub_right_comm, Scalar.modulo_add_periods (period_pos hs)]

theorem frameAt_add_periods (hs : 2 ≤ s.size) (hc : s.extrapolation = .cyclic) (t : α) (m : ℤ) :
    s.frameAt (t + m * s.period) = s.frameAt t := by
  have ⟨n, hn⟩ := Nat.exists_eq_add_of_le' hs
  rw [frameAt_of_size_eq hn, frameAt_of_size_eq hn, if_pos hc, if_pos hc, wrap_add_periods hs]

theorem brackets_times (hs : 2 ≤ s.size) (hf : s.first ≤ t) (hl : t < s.last) :
    Brackets s.times t (segmentUpTo s.times t (s.size - 2)) := by
  have hlen := s.length_times_eq_size
  have h₀ : s.times[0] = s.first := (time_eq (by omega)).symm
  have h₁ : s.times[s.size - 2 + 1] = s.last := by
    rw [last, time_eq (by omega)]
    congr 1
    omega
  exact brackets_segmentUpTo (by omega) (h₀.trans_le hf) (hl.trans_eq h₁.symm)

theorem brackets_knots (hs : 2 ≤ s.size) (hf : s.first ≤ t) (hl : t < s.first + s.period) :
    Brackets s.knots t (segmentUpTo s.knots t (s.size - 1)) := by
  have hlen := s.length_knots
  have h₀ : s.knots[0] = s.first := knots_getElem (by omega) (by omega)
  have h₁ : s.knots[s.size - 1 + 1] = s.first + s.period := by
    rw [← knots_getElem_size (by omega)]
    congr 1
    omega
  exact brackets_segmentUpTo (by omega) (h₀.trans_le hf) (hl.trans_eq h₁.symm)

-- All of it holds whatever happens between the controls and beyond them; only the closing segment and
-- the period are those of a cyclic spline.
theorem passes_and_repeats (s : Spline α) (hs : 2 ≤ s.size) :
    (∀ t, s.first ≤ t → t < s.last →
      Brackets s.times t (segmentUpTo s.times t (s.size - 2))) ∧
    (∀ t, s.first ≤ t → t < s.first + s.period →
      Brackets s.knots t (segmentUpTo s.knots t (s.size - 1))) ∧
    (∀ k < s.size, (s.frameAt (s.time k)).translation = (s.control k).translation) ∧
    (∀ i, i + 1 < s.size → (s.frameOn i 1).translation = (s.control (i + 1)).translation) ∧
    0 < s.period ∧
    (s.extrapolation = .cyclic →
      (s.frameOn (s.size - 1) 1).translation = (s.control 0).translation ∧
      ∀ (t : α) (m : ℤ), s.frameAt (t + m * s.period) = s.frameAt t) := by
  refine ⟨fun _ => brackets_times hs, fun _ => brackets_knots hs, fun _ => frameAt_time hs, ?joins,
    period_pos hs, fun hc => ⟨?closes, frameAt_add_periods hs hc⟩⟩
  case joins =>
    intro i hi
    rw [frameOn_one_translation, ← controlAt_of_lt hi, Nat.cast_succ]
  case closes =>
    have hn : ((s.size - 1 : ℕ) : ℤ) + 1 = s.size := by omega
    rw [frameOn_one_translation, hn, controlAt_size hc]

-- Goes round through three points at uneven times.
noncomputable def triangle : Spline ℝ where
  controls      := [⟨⟨0, 0, 0, 1⟩, ⟨0, 0, 0⟩⟩, ⟨⟨0, 0, 0, 1⟩, ⟨2, 0, 0⟩⟩, ⟨⟨0, 0, 0, 1⟩, ⟨0, 5, 0⟩⟩]
  times         := [0, 1, 3]
  extrapolation := .cyclic
  interpolation := .cubic
  finalInterval := -1
  length_times  := rfl
  ascending     := by norm_num [descent?]

theorem passes_and_repeats_triangle : 2 ≤ triangle.size ∧
    (triangle.frameAt (triangle.time 2)).translation = ⟨0, 5, 0⟩ ∧
    (triangle.frameOn 2 1).translation = ⟨0, 0, 0⟩ ∧
    ∀ (t : ℝ) (m : ℤ), triangle.frameAt (t + m * triangle.period) = triangle.frameAt t := by
  have hs : 2 ≤ triangle.size := by decide
  have ⟨_, _, hp, _, _, hc⟩ := passes_and_repeats triangle hs
  have ⟨hclose, hrepeat⟩ := hc rfl
  exact ⟨hs, hp 2 (by decide), hclose, hrepeat⟩

end Spline
end SceneMotion
