namespace SceneMotion

-- Half of a surrogate pair is a unit like any other, so that no text is lost on the way through.
abbrev Text := List UInt16

namespace Text

instance : LawfulBEq Text :=
  inferInstanceAs (LawfulBEq (List UInt16))

-- The units of a character: one up to `U+FFFF`, a surrogate pair above.
def ofChar (c : Char) : Text :=
  if c.val < 0x10000 then
    [c.val.toUInt16]
  else
    let v : UInt32 := c.val - 0x10000
    [(v >>> 10).toUInt16 + 0xD800, (v &&& 0x3FF).toUInt16 + 0xDC00]

def ofString (s : String) : Text :=
  s.toList.flatMap ofChar

instance : Coe String Text where
  coe := ofString

-- Decimal digits without leading zeros.
def ofNat (n : Nat) : Text :=
  ofString (toString n)

def joinWith (sep : Text) (parts : List Text) : Text :=
  sep.intercalate parts

-- The part after the last occurrence of a unit, or all of it where the unit does not occur.
def afterLast (u : UInt16) (s : Text) : Text :=
  (s.reverse.takeWhile (· ≠ u)).reverse

end Text

-- The unit of a character of the basic plane.
def unit (c : Char) : UInt16 :=
  c.val.toUInt16

namespace Unit16

-- White space: the ASCII controls from tab to carriage return, the space separators, the two
-- line separators, and the byte order mark.
def isBlank (u : UInt16) : Bool :=
  (9 ≤ u && u ≤ 13) || u == 0x20 || u == 0xA0 || u == 0x1680 || (0x2000 ≤ u && u ≤ 0x200A) ||
    u == 0x2028 || u == 0x2029 || u == 0x202F || u == 0x205F || u == 0x3000 || u == 0xFEFF

def isDigit (u : UInt16) : Bool :=
  0x30 ≤ u && u ≤ 0x39

-- An ASCII letter or underscore.
def isNameStart (u : UInt16) : Bool :=
  (0x41 ≤ u && u ≤ 0x5A) || (0x61 ≤ u && u ≤ 0x7A) || u == 0x5F

def isNamePart (u : UInt16) : Bool :=
  isNameStart u || isDigit u

def toDigit (u : UInt16) : Nat :=
  (u - 0x30).toNat

-- Lower case for ASCII letters. No other unit has a lower case in the words compared here.
def toLower (u : UInt16) : UInt16 :=
  if 0x41 ≤ u && u ≤ 0x5A then u + 0x20 else u

end Unit16

namespace Text

def toLower (s : Text) : Text :=
  s.map Unit16.toLower

-- The number written by a sequence of digits.
def toNat (digits : Text) : Nat :=
  digits.foldl (fun n d => 10 * n + Unit16.toDigit d) 0

end Text

end SceneMotion
