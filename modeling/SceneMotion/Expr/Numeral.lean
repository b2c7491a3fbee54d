import SceneMotion.Scalar
import SceneMotion.Text

namespace SceneMotion

structure Numeral where
  negative : Bool
  whole : Text
  fraction : Text
  exponent : Int
  -- The number of units the numeral takes up.
  length : Nat

namespace Numeral

-- The digits before and after the point, and the number of units they take up with it.
def scanDigits (s : Text) : Option (Text × Text × Nat) :=
  let whole := s.takeWhile Unit16.isDigit
  match s.dropWhile Unit16.isDigit with
  | [] => if whole = [] then none else some (whole, [], whole.length)
  | c :: rest =>
    if c = unit '.' then
      let fraction := rest.takeWhile Unit16.isDigit
      if whole = [] ∧ fraction = [] then none
      else some (whole, fraction, whole.length + 1 + fraction.length)
    else if whole = [] then none
    else some (whole, [], whole.length)

def isMinus (c : UInt16) : Bool :=
  c = unit '-'

def isSign (c : UInt16) : Bool :=
  c = unit '-' ∨ c = unit '+'

-- The exponent and the number of units it takes up; an `e` without digits is no exponent.
def scanExponent : Text → Int × Nat
  | [] => (0, 0)
  | c :: rest =>
    if c = unit 'e' ∨ c = unit 'E' then
      let sign := rest.takeWhile isSign |>.take 1
      let digits := (rest.drop sign.length).takeWhile Unit16.isDigit
      let size : Int := Text.toNat digits
      if digits = [] then (0, 0)
      else (if sign.any isMinus then -size else size, 1 + sign.length + digits.length)
    else
      (0, 0)

-- The longest numeral that a text begins with.
def scan? (s : Text) : Option Numeral :=
  let sign := s.takeWhile isMinus |>.take 1
  let body := s.drop sign.length
  (scanDigits body).map fun (whole, fraction, length) =>
    let (exponent, expLength) := scanExponent (body.drop length)
    ⟨sign ≠ [], whole, fraction, exponent, sign.length + length + expLength⟩

def magnitude {α : Type} [Scalar α] (n : Numeral) : α :=
  Scalar.ofDecimal (Text.toNat (n.whole ++ n.fraction)) (n.exponent - n.fraction.length)

def value {α : Type} [Scalar α] (n : Numeral) : α :=
  if n.negative then -n.magnitude else n.magnitude

end Numeral

end SceneMotion
