import SceneMotion.Double
import SceneMotion.Text

namespace SceneMotion

namespace Double

-- The number `digits * 10 ^ exponent`.
structure Decimal where
  digits : Nat
  exponent : Int

namespace Parts

-- The number lies just above a power of two, so that the gap below it is half the gap above.
def isNarrowBelow (p : Parts) : Bool :=
  p.mantissa = hiddenBit ∧ -1074 < p.exponent

-- A quarter of the unit of the mantissa, and the unit `10 ^ exponent`, in a common measure.
def units (p : Parts) (exponent : Int) : Nat × Nat :=
  let q := p.exponent - 2
  (Nat.pow 10 (-exponent).toNat <<< q.toNat, Nat.pow 10 exponent.toNat <<< (-q).toNat)

-- Whether `digits * 10 ^ exponent` is among the numbers that are read as this one.
def readsBack (p : Parts) (digits : Nat) (exponent : Int) : Bool :=
  let (quarter, one) := p.units exponent
  let low := (4 * p.mantissa - if p.isNarrowBelow then 1 else 2) * quarter
  let high := (4 * p.mantissa + 2) * quarter
  let d := digits * one
  (low < d && d < high) || (p.mantissa % 2 = 0 && (d = low || d = high))

-- The nearest number with the given exponent that reads back, if one does; of two equally near
-- the one with an even last digit.
def decimalAt? (p : Parts) (exponent : Int) : Option Decimal :=
  let (quarter, one) := p.units exponent
  -- If any number with this exponent reads back, so does a neighbour of the number itself.
  let below := 4 * p.mantissa * quarter / one
  let above := below + 1
  match p.readsBack below exponent, p.readsBack above exponent with
  | false, false => none
  | true, false => some ⟨below, exponent⟩
  | false, true => some ⟨above, exponent⟩
  | true, true =>
    match compare (8 * p.mantissa * quarter) ((below + above) * one) with
    | .lt => some ⟨below, exponent⟩
    | .gt => some ⟨above, exponent⟩
    | .eq => some ⟨if below % 2 = 0 then below else above, exponent⟩

-- A power of ten at least as large as the number.
def magnitude (p : Parts) : Int :=
  (p.mantissa.log2 + p.exponent) * 30103 / 100000 + 2

-- The shortest decimal that reads back.
def shortest (p : Parts) : Decimal :=
  -- Seventeen digits are always enough, so it is found well before these are used up.
  let exponents := (List.range 20).map fun (i : Nat) => p.magnitude - i
  (exponents.findSome? p.decimalAt?).getD
    ⟨(p.mantissa * Nat.pow 5 (-p.exponent).toNat) <<< p.exponent.toNat, min p.exponent 0⟩

end Parts

-- Digits laid out with a point after the first `place` of them.
def positional (digits : String) (place : Int) : String :=
  let zeros (n : Int) := String.ofList (List.replicate n.toNat '0')
  if place ≤ 0 then "0." ++ zeros (-place) ++ digits
  else if digits.length ≤ place then digits ++ zeros (place - digits.length)
  else String.ofList (digits.toList.take place.toNat) ++ "." ++
    String.ofList (digits.toList.drop place.toNat)

def scientific (digits : String) (exponent : Int) : String :=
  let head := digits.toList.take 1
  let tail := digits.toList.drop 1
  String.ofList (head ++ if tail = [] then [] else '.' :: tail) ++ "e" ++
    (if exponent < 0 then "-" else "+") ++ toString exponent.natAbs

def stripZeros (digits : String) : String :=
  String.ofList (digits.toList.reverse.dropWhile (· = '0')).reverse

-- From `1e-6` up to `1e21` all digits are laid out.
def Decimal.render (d : Decimal) : String :=
  let digits := toString d.digits
  let place := digits.length + d.exponent
  let short := stripZeros digits
  if -6 < place ∧ place ≤ 21 then positional short place else scientific short (place - 1)

-- A zero is written without a sign.
def render (x : Float) : Text :=
  match parts? x with
  | none => if x.isNaN then "NaN" else if x < 0 then "-Infinity" else "Infinity"
  | some p =>
    if p.mantissa = 0 then "0"
    else Text.ofString ((if p.negative then "-" else "") ++ p.shortest.render)

end Double

end SceneMotion
