import SceneMotion.Text

namespace SceneMotion

inductive Mark where
  | openParen
  | closeParen
  | openBrace
  | closeBrace
  | openBracket
  | closeBracket
  | comma
  | semicolon
  | equals
  deriving DecidableEq

namespace Mark

def toUnit : Mark → UInt16
  | openParen => unit '('
  | closeParen => unit ')'
  | openBrace => unit '{'
  | closeBrace => unit '}'
  | openBracket => unit '['
  | closeBracket => unit ']'
  | comma => unit ','
  | semicolon => unit ';'
  | equals => unit '='

def all : List Mark :=
  [openParen, closeParen, openBrace, closeBrace, openBracket, closeBracket, comma, semicolon,
    equals]

def ofUnit? (u : UInt16) : Option Mark :=
  all.find? (·.toUnit = u)

end Mark

inductive Token (α : Type) where
  | number (value : α)
  | text (value : Text)
  | name (value : Text)
  | mark (mark : Mark)

-- A token and the place of its first unit.
structure Lexeme (α : Type) where
  token : Token α
  position : Nat

end SceneMotion
