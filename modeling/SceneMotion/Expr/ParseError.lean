import SceneMotion.Expr.Token

namespace SceneMotion

inductive ParseFault where
  | unterminatedComment
  | unterminatedText
  | unexpectedUnit (u : UInt16)
  | unexpectedMark (m : Mark)
  | unexpectedEnd
  | trailingInput
  | expected (m : Mark)
  | expectedKey
  | reservedKey (key : Text)
  | duplicateKey (key : Text)
  deriving DecidableEq

structure ParseError where
  fault : ParseFault
  position : Nat
  deriving DecidableEq

namespace ParseFault

def message : ParseFault → Text
  | unterminatedComment => "Unterminated comment"
  | unterminatedText => "Unterminated string"
  | unexpectedUnit u => "Unexpected character '" ++ [u] ++ "'"
  | unexpectedMark m => "Unexpected '" ++ [m.toUnit] ++ "'"
  | unexpectedEnd => "Unexpected end of input"
  | trailingInput => "Unexpected input after expression"
  | expected m => "Expected '" ++ [m.toUnit] ++ "'"
  | expectedKey => "Expected a table key"
  | reservedKey key => "Reserved key " ++ key
  | duplicateKey key => "Duplicate key " ++ key

end ParseFault

def ParseError.message (e : ParseError) : Text :=
  e.fault.message ++ " at position " ++ Text.ofNat e.position

end SceneMotion
