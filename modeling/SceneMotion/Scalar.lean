namespace SceneMotion

-- No law is asked of these operations: binary64 numbers are scalars, and so is an exact field.
class Scalar (α : Type) extends
    Add α, Sub α, Mul α, Div α, Neg α, NatCast α, LT α, LE α, BEq α where
  decLt (a b : α) : Decidable (a < b)
  decLe (a b : α) : Decidable (a ≤ b)
  sqrt : α → α
  sin : α → α
  cos : α → α
  acos : α → α
  pi : α
  -- What truncated division leaves over; it has the sign of the dividend.
  rem : α → α → α
  -- The greatest natural number not above a finite number, and zero for a negative one.
  floor? : α → Option Nat
  -- The number `mantissa * 10 ^ exponent`.
  ofDecimal (mantissa : Nat) (exponent : Int) : α

namespace Scalar

variable {α : Type} [Scalar α]

instance (a b : α) : Decidable (a < b) :=
  decLt a b

instance (a b : α) : Decidable (a ≤ b) :=
  decLe a b

instance (priority := low) instOfNat (n : Nat) : OfNat α n where
  ofNat := (n : α)

def half : α := 1 / 2

def isNaN (a : α) : Bool :=
  !(a == a)

-- A number that differs from itself by zero: neither infinite nor undefined.
def isFinite (a : α) : Bool :=
  a - a == 0

-- Equality under which an undefined number is equal to itself.
def same (a b : α) : Bool :=
  a == b || (isNaN a && isNaN b)

def abs (a : α) : α :=
  if a < 0 then -a else a

-- The greater number; undefined if one is, and of two zeros the positive one.
def max (a b : α) : α :=
  if a < b then b
  else if b < a then a
  -- The sum of two zeros is the positive one if either is.
  else if a == b then (if a == 0 then a + b else a)
  -- One of the numbers is undefined, and so is the sum.
  else a + b

-- The remainder with the sign of the divisor.
def modulo (a b : α) : α :=
  rem (rem a b + b) b

def toRadians (degrees : α) : α :=
  degrees * (pi / 180)

end Scalar

end SceneMotion
