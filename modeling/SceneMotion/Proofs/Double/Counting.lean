import Mathlib
import SceneMotion.Double

namespace SceneMotion.Double

open Float.Model Float.Model.UnpackedFloat

variable {m n k : ℕ} {e : ℤ}

theorem log2_mul_two_pow (hm : m ≠ 0) (k : ℕ) : (m * 2 ^ k).log2 = m.log2 + k := by
  rw [Nat.log2_eq_iff (by positivity), add_right_comm, pow_add, pow_add]
  have hlt : m < 2 ^ (m.log2 + 1) := Nat.lt_log2_self
  exact ⟨Nat.mul_le_mul_right _ (Nat.log2_self_le hm), Nat.mul_lt_mul_of_pos_right hlt (by positivity)⟩

-- Whatever has been shifted up can be shifted down again without a loss.
theorem shiftRight_mul_two_pow (m k : ℕ) :
    (⟨m * 2 ^ k, false, false⟩ : ExtendedMantissa) >>> k = ⟨m, false, false⟩ := by
  induction k generalizing m
  case zero => simp [HShiftRight.hShiftRight, Nat.repeat]
  case succ k hi =>
    have hs : (⟨m * 2 ^ (k + 1), false, false⟩ : ExtendedMantissa) >>> k = ⟨m * 2, false, false⟩ := by
      rw [pow_succ', ← mul_assoc]
      exact hi (m * 2)
    change ExtendedMantissa.shiftRightOne ((⟨m * 2 ^ (k + 1), false, false⟩ : ExtendedMantissa) >>> k) = _
    rw [hs]
    simp [ExtendedMantissa.shiftRightOne]

-- A mantissa of full length is what rounding comes to, however far it has been shifted up.
theorem shiftToTargetExponent_mul_two_pow (hm : m ≠ 0) (hl : m.log2 = 52) (he : -1074 ≤ e) (k : ℕ) :
    shiftToTargetExponent .binary64 (m * 2 ^ k) (e - k) .exact = (⟨m, false, false⟩, e) := by
  have ht : Format.binary64.targetExponent (totalExponent (m * 2 ^ k) (e - k)) = e := by
    simp [Format.targetExponent, totalExponent, log2_mul_two_pow hm, hl, Format.mantissaBits,
      Format.minExponent]
    omega
  have hk : (e - (e - k)).toNat = k := by omega
  rw [shiftToTargetExponent, ht, shiftToExponent, hk]
  exact Prod.ext (shiftRight_mul_two_pow m k) (by simp)

theorem roundWithAccuracy_mul_two_pow (hm : 0 < m) (hl : m.log2 = 52) (he : -1074 ≤ e) (sign : Sign)
    (k : ℕ) : roundWithAccuracy .binary64 sign (m * 2 ^ k) (e - k) .exact = .finite sign m e hm := by
  have h₀ := shiftToTargetExponent_mul_two_pow hm.ne' hl he 0
  rw [pow_zero, mul_one, Nat.cast_zero, sub_zero] at h₀
  have hr : ExtendedMantissa.roundedMantissa ⟨m, false, false⟩ = m := rfl
  rw [roundWithAccuracy, shiftToTargetExponent_mul_two_pow hm.ne' hl he k]
  dsimp only
  rw [hr]
  simp only [h₀, hm.ne', dif_neg, not_false_eq_true]

-- The mantissa of a whole number other than zero, if it is of full length.
def countMantissa (n : ℕ) : ℕ :=
  n * 2 ^ (52 - n.log2)

theorem countMantissa_pos (hn : 0 < n) : 0 < countMantissa n := by
  rw [countMantissa]
  positivity

theorem log2_countMantissa (hn : 0 < n) (h : n < 2 ^ 53) : (countMantissa n).log2 = 52 := by
  have := (Nat.log2_lt hn.ne').mpr h
  rw [countMantissa, log2_mul_two_pow hn.ne']
  omega

theorem ofNat_eq (hn : 0 < n) (h : n < 2 ^ 53) : UnpackedFloat.ofNat .binary64 n =
    .finite .positive (countMantissa n) (n.log2 - 52) (countMantissa_pos hn) := by
  have hl := (Nat.log2_lt hn.ne').mpr h
  have hc : compare (n : ℤ) 0 = .gt := Int.compare_eq_gt.mpr (by omega)
  have ht : Format.binary64.targetExponent (totalExponent n 0) = (n.log2 : ℤ) - 52 := by
    simp [Format.targetExponent, totalExponent, Format.mantissaBits, Format.minExponent]
    omega
  have hs : (0 - ((n.log2 : ℤ) - 52)).toNat = 52 - n.log2 := by omega
  have hd : decreaseExponent n 0 ((n.log2 : ℤ) - 52) =
      (countMantissa n * 2 ^ 0, (n.log2 : ℤ) - 52 - (0 : ℕ)) := by
    rw [decreaseExponent, hs, Nat.shiftLeft_eq, countMantissa]
    refine Prod.ext (by simp) ?_
    dsimp only
    omega
  rw [UnpackedFloat.ofNat, UnpackedFloat.ofInt, UnpackedFloat.normalize, hc]
  dsimp only
  rw [Int.toNat_natCast, UnpackedFloat.round, ht, hd]
  exact roundWithAccuracy_mul_two_pow (countMantissa_pos hn) (log2_countMantissa hn h) (by omega) .positive 0

theorem ofBitVec_unpackSign (s : Sign) (x : BitVec 11) (f : BitVec 52) :
    Sign.ofBitVec (unpackSign (packComponents .binary64 s x f)) = s := by
  rw [unpackSign, packComponents, BitVec.extractLsb, BitVec.extractLsb'_append_eq_of_le (by decide),
    BitVec.extractLsb'_append_eq_of_le (by decide)]
  cases s <;> rfl

-- The leading bit is dropped on packing and put back on unpacking.
theorem toNat_append_ofNat (hm : m ≠ 0) (hl : m.log2 = 52) : (1#1 ++ BitVec.ofNat 52 m).toNat = m := by
  have ⟨hge, hlt⟩ := (Nat.log2_eq_iff hm).mp hl
  rw [BitVec.toNat_append, ← Nat.shiftLeft_add_eq_or_of_lt (BitVec.isLt _), BitVec.toNat_ofNat]
  simp [Nat.shiftLeft_eq]
  omega

theorem pack_finite {b : ℕ} (s : Sign) (hm : 0 < m) (hl : m.log2 = 52) (hb : b < 2047) :
    UnpackedFloat.pack .binary64 (.finite s m (b - 1075) hm) =
      packComponents .binary64 s (.ofNat 11 b) (.ofNat 52 m) := by
  have hx : ((b : ℤ) - 1075 + Format.exponentBias .binary64 + (52 : ℕ)).toNat = b := by
    simp [Format.exponentBias]
    omega
  rw [UnpackedFloat.pack.eq_def]
  dsimp only
  rw [hx, if_neg (by omega), if_pos (by simp [hl, Format.mantissaBits])]

theorem unpack_pack (s : Sign) (hm : 0 < m) (hl : m.log2 = 52) (he : -1074 ≤ e) (he' : e ≤ 971) :
    (Float.Model.pack (.finite s m e hm)).unpack = .finite s m e hm := by
  obtain ⟨b, rfl⟩ : ∃ b : ℕ, e = b - 1075 := ⟨(e + 1075).toNat, by omega⟩
  have hb : (BitVec.ofNat 11 b).toNat = b := by
    rw [BitVec.toNat_ofNat]
    omega
  -- The least and the greatest stored exponent are those of other kinds of numbers.
  have hleast : BitVec.ofNat 11 b ≠ 0#11 := by
    rw [ne_eq, ← BitVec.toNat_inj, hb, BitVec.toNat_ofNat]
    omega
  have hgreatest : BitVec.ofNat 11 b ≠ -1#11 := by
    rw [ne_eq, ← BitVec.toNat_inj, hb, BitVec.neg_one_eq_allOnes, BitVec.toNat_allOnes]
    omega
  change UnpackedFloat.unpack .binary64 (UnpackedFloat.pack .binary64 _) = _
  rw [pack_finite s hm hl (by omega), UnpackedFloat.unpack]
  simp only [unpackMantissa_packComponents, unpackExponent_packComponents, ofBitVec_unpackSign,
    hleast, hgreatest, if_false, hb, toNat_append_ofNat hm.ne' hl]
  rfl

theorem unpack_one :
    (Float.ofBits 0x3FF0000000000000).toModel.unpack = .finite .positive (2 ^ 52) (-52) (by decide) :=
  rfl

theorem unpack_mul_one {x : Float} {hm : 0 < m} (hx : x.toModel.unpack = .finite .positive m e hm)
    (hl : m.log2 = 52) (he : -1074 ≤ e) (he' : e ≤ 971) :
    (x * Float.ofBits 0x3FF0000000000000).toModel.unpack = .finite .positive m e hm := by
  change (Float.Model.pack (UnpackedFloat.mul .binary64 x.toModel.unpack
    (Float.ofBits 0x3FF0000000000000).toModel.unpack)).unpack = _
  rw [hx, unpack_one]
  change (Float.Model.pack (roundWithAccuracy .binary64 .positive (m * 2 ^ 52) (e - (52 : ℕ)) .exact)).unpack = _
  rw [roundWithAccuracy_mul_two_pow hm hl he]
  exact unpack_pack .positive hm hl he he'

-- A whole number is turned into a decimal first, which makes it the product with a power of ten. Here
-- this is one.
theorem ofNat_eq_mul_one (h : n < 2 ^ 53) :
    Float.ofNat n = n.toUInt64.toFloat * Float.ofBits 0x3FF0000000000000 := by
  change Float.ofScientific n false 0 = _
  rw [Float.ofScientific, dif_pos ⟨h, by decide⟩]
  rfl

theorem unpack_ofNat (hn : 0 < n) (h : n < 2 ^ 53) : (Float.ofNat n).toModel.unpack =
    .finite .positive (countMantissa n) (n.log2 - 52) (countMantissa_pos hn) := by
  have hl := (Nat.log2_lt hn.ne').mpr h
  have hm := log2_countMantissa hn h
  have hu : n.toUInt64.toNat = n := UInt64.toNat_ofNat_of_lt (h.trans (by decide))
  rw [ofNat_eq_mul_one h]
  refine unpack_mul_one ?_ hm (by omega) (by omega)
  change (Float.Model.pack (UnpackedFloat.ofNat .binary64 n.toUInt64.toNat)).unpack = _
  rw [hu, ofNat_eq hn h]
  exact unpack_pack .positive (countMantissa_pos hn) hm (by omega) (by omega)

theorem log2_le_log2_succ (hn : n ≠ 0) : n.log2 ≤ (n + 1).log2 :=
  (Nat.le_log2 n.succ_ne_zero).mpr ((Nat.log2_self_le hn).trans n.le_succ)

-- The next number has either a greater exponent, or the same one and a greater mantissa.
theorem compare_succ (hn : n ≠ 0) : (compare ((n.log2 : ℤ) - 52) (((n + 1).log2 : ℤ) - 52)).then
    (compare (countMantissa n) (countMantissa (n + 1))) = .lt := by
  cases (log2_le_log2_succ hn).lt_or_eq
  case inl hlt =>
    have hc : compare ((n.log2 : ℤ) - 52) (((n + 1).log2 : ℤ) - 52) = .lt := by
      rw [compare_lt_iff_lt]
      omega
    rw [hc]
    rfl
  case inr heq =>
    have hc : compare (countMantissa n) (countMantissa (n + 1)) = .lt := by
      rw [compare_lt_iff_lt, countMantissa, countMantissa, ← heq]
      exact Nat.mul_lt_mul_of_pos_right n.lt_succ_self (by positivity)
    rw [heq, hc, compare_eq_iff_eq.mpr rfl]
    rfl

-- Counting goes up.
theorem natCast_lt_succ (h : n + 1 < 2 ^ 53) : (n : Float) < ((n + 1 : ℕ) : Float) := by
  suffices hu : (Float.ofNat n).toModel.unpack.lt (Float.ofNat (n + 1)).toModel.unpack = true from
    decide_eq_true hu
  rw [unpack_ofNat n.succ_pos h]
  cases n.eq_zero_or_pos
  case inl hz =>
    subst hz
    rfl
  case inr hn =>
    rw [unpack_ofNat hn (by omega)]
    change (some ((compare _ _).then (compare _ _)) == some Ordering.lt) = true
    rw [compare_succ hn.ne']
    rfl

end SceneMotion.Double
