import Mathlib
import SceneMotion.Double

namespace SceneMotion

-- A sum with zero is the other summand, or both are zero.
class LawfulZero (α : Type) [Scalar α] : Prop where
  add_zero_cases (x : α) : x + 0 = x ∨ (x == 0) = true ∧ x + 0 = 0

-- Zero is equal to itself, as an undefined number would not be.
class DefinedZero (α : Type) [Scalar α] : Prop where
  zero_beq_zero : ((0 : α) == 0) = true

-- Being the same is an equivalence, also among undefined numbers, which are equal to none.
class LawfulSame (α : Type) [Scalar α] : Prop where
  equivalence : Equivalence fun a b : α => Scalar.same a b

-- A decimal is read as a number, if only an infinite one, and so is its negative.
class LawfulDecimal (α : Type) [Scalar α] : Prop where
  isNaN_ofDecimal (mantissa : Nat) (exponent : Int) :
    Scalar.isNaN (Scalar.ofDecimal mantissa exponent : α) = false
  isNaN_neg (x : α) : Scalar.isNaN x = false → Scalar.isNaN (-x) = false

namespace Double

open Float.Model Float.Model.UnpackedFloat

theorem toModel_add_zero (x : Float) :
    (x + 0).toModel = .pack (UnpackedFloat.add .binary64 x.toModel.unpack (.zero .positive)) := by
  have hz : (0 : Float).toModel.unpack = .zero .positive := rfl
  rw [← hz]
  rfl

theorem add_zero_cases (x : Float) : x + 0 = x ∨ (x == 0) = true ∧ x + 0 = 0 := by
  obtain ⟨x⟩ := x
  have hp : Float.Model.pack x.unpack = x := by
    obtain ⟨⟨b⟩, h⟩ := x
    simp only [Float.Model.pack, Float.Model.unpack, pack_unpack_of_valid h]
  have ha := toModel_add_zero ⟨x⟩
  have unchanged (h : UnpackedFloat.add .binary64 x.unpack (.zero .positive) = x.unpack) :
      (⟨x⟩ : Float) + 0 = ⟨x⟩ := by
    rw [h, hp] at ha
    exact congrArg Float.ofModel ha
  cases hx : x.unpack <;> rw [hx] at unchanged
  case infinity   => exact .inl (unchanged rfl)
  case notANumber => exact .inl (unchanged rfl)
  case finite     => exact .inl (unchanged rfl)
  case zero sign =>
    cases sign
    case positive => exact .inl (unchanged rfl)
    case negative =>
      rw [hx] at hp
      rw [← hp]
      exact .inr ⟨rfl, rfl⟩

variable {u v : UnpackedFloat}

-- Of all numbers only an infinite one takes up the greatest exponent.
theorem unpackMantissa_pack (spec : Format) (h : u.isNaN = false)
    (he : unpackExponent (UnpackedFloat.pack spec u) = -1#_) :
    unpackMantissa (UnpackedFloat.pack spec u) = 0#_ := by
  revert he
  fun_cases UnpackedFloat.pack spec u
  case case1 => exact absurd h (by decide)
  case case2 => simp [packedInfinity]
  case case3 => simp [packedZero]
  case case4 => simp [packedInfinity]
  case case5 biased hb _ =>
    intro he
    have hb : biased < 2 ^ spec.exponentBits - 1 := by omega
    have he := congrArg BitVec.toNat (unpackExponent_packComponents.symm.trans he)
    simp only [BitVec.toNat_ofNat, BitVec.neg_one_eq_allOnes, BitVec.toNat_allOnes] at he
    rw [Nat.mod_eq_of_lt (by omega)] at he
    omega
  case case6 =>
    simp [Nat.pos_iff_ne_zero.mp spec.he]

theorem isNaN_pack (h : u.isNaN = false) : (Float.Model.pack u).isNaN = false := by
  have hm := unpackMantissa_pack .binary64 h
  change (UnpackedFloat.unpack .binary64 (UnpackedFloat.pack .binary64 u)).isNaN = false
  fun_cases UnpackedFloat.unpack .binary64 (UnpackedFloat.pack .binary64 u)
  case case2 he hn => exact absurd (hm he) hn
  all_goals rfl

theorem isNaN_roundWithAccuracy (spec : Format) (sign : Sign) (m : Nat) (e : Int)
    (accuracy : Accuracy) : (roundWithAccuracy spec sign m e accuracy).isNaN = false := by
  fun_cases roundWithAccuracy spec sign m e accuracy <;> rfl

-- A finite number other than zero.
def isRegular : UnpackedFloat → Bool
  | .finite .. => true
  | _ => false

theorem isNaN_mul (spec : Format) (hu : u.isNaN = false) (hv : isRegular v) :
    (UnpackedFloat.mul spec u v).isNaN = false := by
  cases v <;> cases hv
  cases u
  case notANumber => exact absurd hu (by decide)
  case finite     => exact isNaN_roundWithAccuracy ..
  all_goals rfl

theorem isNaN_div (spec : Format) (hu : u.isNaN = false) (hv : isRegular v) :
    (UnpackedFloat.div spec u v).isNaN = false := by
  cases v <;> cases hv
  cases u
  case notANumber => exact absurd hu (by decide)
  case finite     => exact isNaN_roundWithAccuracy ..
  all_goals rfl

theorem isNaN_ofNat (spec : Format) (n : Nat) : (UnpackedFloat.ofNat spec n).isNaN = false := by
  rw [UnpackedFloat.ofNat, UnpackedFloat.ofInt, UnpackedFloat.normalize.eq_def]
  split
  · exact isNaN_roundWithAccuracy ..
  · rfl
  · exact isNaN_roundWithAccuracy ..

theorem isNaN_unpacked_ofScientific (spec : Format) (m : Nat) (e : Int) :
    (UnpackedFloat.ofScientific spec m e).isNaN = false := by
  fun_cases UnpackedFloat.ofScientific spec m e
  case case4 => exact isNaN_mul _ rfl rfl
  case case5 => exact isNaN_div _ rfl rfl
  all_goals rfl

theorem isNaN_eq (x : Float) : Scalar.isNaN x = x.isNaN := by
  rw [Scalar.isNaN, Bool.eq_iff_iff]
  simp

theorem isNaN_neg {x : Float} (h : x.isNaN = false) : (-x).isNaN = false := by
  refine isNaN_pack (u := x.toModel.unpack.neg) ?_
  change x.toModel.unpack.isNaN = false at h
  cases hx : x.toModel.unpack
  case notANumber => exact absurd (hx ▸ h) (by decide)
  all_goals rfl

theorem isRegular_powerOfTen : ∀ e : Fin Float.exactlyRepresentablePowersOfTen.size,
    isRegular Float.exactlyRepresentablePowersOfTen[e].toModel.unpack := by
  decide +kernel

theorem isNaN_ofScientific (m : Nat) (negative : Bool) (e : Nat) :
    (Float.ofScientific m negative e).isNaN = false := by
  rw [Float.ofScientific]
  split
  case isTrue h =>
    have hn : (m.toUInt64.toFloat).isNaN = false := isNaN_pack (isNaN_ofNat ..)
    have hp := isRegular_powerOfTen ⟨e, Nat.lt_succ_of_le h.right⟩
    cases negative
    case true  => exact isNaN_pack (isNaN_div _ hn hp)
    case false => exact isNaN_pack (isNaN_mul _ hn hp)
  case isFalse => exact isNaN_pack (isNaN_unpacked_ofScientific ..)

theorem isNaN_ofDecimal (m : Nat) (e : Int) : (ofDecimal m e).isNaN = false := by
  rw [ofDecimal]
  repeat' split
  · exact isNaN_ofScientific ..
  · rfl
  · exact isNaN_ofScientific ..
  · exact isNaN_ofScientific ..
  · exact isNaN_ofScientific ..

-- All that a number is the same as is what differs from it at most in the sign of a zero.
def withoutZeroSign : UnpackedFloat → UnpackedFloat
  | .zero _ => .zero .positive
  | u => u

theorem compare_sign_eq_iff {s s' : Sign} : compare s s' = .eq ↔ s = s' := by
  cases s <;> cases s'
  case negative.negative | positive.positive => exact iff_of_true rfl rfl
  case negative.positive | positive.negative => exact iff_of_false nofun nofun

theorem beq_or_isNaN_iff (u v : UnpackedFloat) : (u.beq v || (u.isNaN && v.isNaN)) ↔
    withoutZeroSign u = withoutZeroSign v := by
  rw [UnpackedFloat.beq]
  fun_cases UnpackedFloat.compare u v
  case case1 | case4 | case5 => cases v <;> simp_all [UnpackedFloat.isNaN, withoutZeroSign]
  case case2 | case6 | case7 => cases u <;> simp_all [UnpackedFloat.isNaN, withoutZeroSign]
  case case3 => simp [compare_sign_eq_iff, UnpackedFloat.isNaN, withoutZeroSign]
  case case13 | case16 =>
    simp [Ordering.then_eq_eq, and_comm, UnpackedFloat.isNaN, withoutZeroSign]
  all_goals simp [UnpackedFloat.isNaN, withoutZeroSign]

theorem same_iff (x y : Float) : Scalar.same x y ↔
    withoutZeroSign x.toModel.unpack = withoutZeroSign y.toModel.unpack := by
  rw [Scalar.same, isNaN_eq, isNaN_eq]
  exact beq_or_isNaN_iff ..

end Double

instance : LawfulZero Float where
  add_zero_cases := Double.add_zero_cases

instance : DefinedZero Float where
  zero_beq_zero := rfl

instance : LawfulSame Float where
  equivalence := by
    simp only [Double.same_iff]
    exact ⟨fun _ => rfl, Eq.symm, Eq.trans⟩

instance : LawfulDecimal Float where
  isNaN_ofDecimal m e := (Double.isNaN_eq _).trans (Double.isNaN_ofDecimal m e)
  isNaN_neg x h := (Double.isNaN_eq _).trans (Double.isNaN_neg ((Double.isNaN_eq x).symm.trans h))

end SceneMotion
