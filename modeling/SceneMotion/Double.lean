import SceneMotion.Scalar

namespace SceneMotion

namespace Double

-- A finite binary64 number, `(-1) ^ negative * mantissa * 2 ^ exponent`.
structure Parts where
  negative : Bool
  mantissa : Nat
  exponent : Int

-- The leading bit of a mantissa of full length, which is not stored.
def hiddenBit : Nat := 0x10000000000000

def isNegative (x : Float) : Bool :=
  x.toBits >>> 63 == 1

-- The parts of a finite number.
def parts? (x : Float) : Option Parts :=
  let bits := x.toBits
  let e := ((bits >>> 52) &&& 0x7FF).toNat
  let f := (bits &&& 0xFFFFFFFFFFFFF).toNat
  if e = 0x7FF then none
  else if e = 0 then some ⟨isNegative x, f, -1074⟩
  else some ⟨isNegative x, hiddenBit + f, (e : Int) - 1075⟩

namespace Parts

-- The mantissa once the exponent is lowered to a given one.
def mantissaAt (p : Parts) (exponent : Int) : Nat :=
  p.mantissa <<< (p.exponent - exponent).toNat

-- The whole part of the absolute value.
def whole (p : Parts) : Nat :=
  p.mantissa <<< p.exponent.toNat >>> (-p.exponent).toNat

end Parts

def nan : Float := 0 / 0

-- The exact remainder of truncated division.
def rem (x y : Float) : Float :=
  match parts? x, parts? y with
  | some a, some b =>
    if b.mantissa = 0 then nan
    else
      -- Over the smaller exponent this is the remainder of whole numbers. It is no longer than the
      -- mantissa that has this exponent, so nothing is lost on the way back.
      let e := min a.exponent b.exponent
      let r := (Float.ofNat (a.mantissaAt e % b.mantissaAt e)).scaleB e
      if a.negative then -r else r
  -- A finite number is left over whole when it is divided by an infinite one.
  | some _, none => if y.isNaN then nan else x
  | none, _ => nan

def floor? (x : Float) : Option Nat :=
  (parts? x).map fun p => if p.negative then 0 else p.whole

-- Reads a decimal to the nearest number, ties to even.
def ofDecimal (mantissa : Nat) (exponent : Int) : Float :=
  if mantissa = 0 then 0
  -- So far out the result is infinite or zero whatever the digits are, and the powers of ten would
  -- only be in the way.
  else if 400 < exponent then 1 / 0
  else if exponent + mantissa.log2 < -400 then 0
  else if 0 ≤ exponent then Float.ofScientific mantissa false exponent.toNat
  else Float.ofScientific mantissa true (-exponent).toNat

end Double

instance : Scalar Float where
  natCast := Float.ofNat
  decLt := fun a b => inferInstanceAs (Decidable (a < b))
  decLe := fun a b => inferInstanceAs (Decidable (a ≤ b))
  sqrt := Float.sqrt
  sin := Float.sin
  cos := Float.cos
  acos := Float.acos
  pi := 3.141592653589793
  rem := Double.rem
  floor? := Double.floor?
  ofDecimal := Double.ofDecimal

end SceneMotion
