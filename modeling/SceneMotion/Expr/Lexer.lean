import SceneMotion.Expr.Numeral
import SceneMotion.Expr.ParseError

namespace SceneMotion

namespace Lexer

-- The number of units of the line that a text begins with, its end included.
def lineLength : Text → Nat
  | [] => 0
  | c :: rest => if c = unit '\n' then 1 else lineLength rest + 1

-- The number of units up to and with the first `*/`.
def blockLength? : Text → Option Nat
  | [] => none
  | [_] => none
  | a :: b :: rest =>
    if a = unit '*' ∧ b = unit '/' then some 2
    else (blockLength? (b :: rest)).map (· + 1)

def unescape (u : UInt16) : UInt16 :=
  if u = unit 'n' then unit '\n' else if u = unit 't' then unit '\t' else u

-- The contents of a quoted text, and the number of units up to and with the closing quote. After
-- a backslash `n` and `t` stand for a line end and a tab, and every other unit for itself.
def quoted? : Text → Option (Text × Nat)
  | [] => none
  | [c] => if c = unit '"' then some ([], 1) else none
  | c :: d :: rest =>
    if c = unit '"' then some ([], 1)
    else if c = unit '\\' then (quoted? rest).map fun (s, n) => (unescape d :: s, n + 2)
    else (quoted? (d :: rest)).map fun (s, n) => (c :: s, n + 1)

-- The number of units of the name that a text begins with: identifiers joined by `::`.
def nameLength (s : Text) : Nat :=
  let head := s.takeWhile Unit16.isNamePart
  match h : s.dropWhile Unit16.isNamePart with
  | a :: b :: c :: rest =>
    -- Two colons belong to the name only if another identifier follows them.
    if a = unit ':' ∧ b = unit ':' ∧ Unit16.isNameStart c then
      head.length + 2 + nameLength (c :: rest)
    else
      head.length
  | _ => head.length
termination_by s.length
decreasing_by
  have := (List.dropWhile_sublist Unit16.isNamePart (l := s)).length_le
  grind

-- What stands at the beginning of a text: a token or nothing to be kept, and the number of units
-- it takes up after the first.
structure Piece (α : Type) where
  token? : Option (Token α)
  extra : Nat

variable {α : Type} [Scalar α]

def piece (c : UInt16) (rest : Text) : Except ParseFault (Piece α) :=
  if Unit16.isBlank c then
    .ok ⟨none, 0⟩
  else if c = unit '/' ∧ rest.head? = some (unit '/') then
    .ok ⟨none, lineLength rest⟩
  else if c = unit '/' ∧ rest.head? = some (unit '*') then
    match blockLength? rest.tail with
    | some n => .ok ⟨none, 1 + n⟩
    | none => .error .unterminatedComment
  else if c = unit '"' then
    match quoted? rest with
    | some (s, n) => .ok ⟨some (.text s), n⟩
    | none => .error .unterminatedText
  -- A minus or a point begins a numeral or nothing.
  else if let some n := Numeral.scan? (c :: rest) then
    .ok ⟨some (.number n.value), n.length - 1⟩
  else if Unit16.isNameStart c then
    let n := nameLength (c :: rest)
    .ok ⟨some (.name ((c :: rest).take n)), n - 1⟩
  else if let some m := Mark.ofUnit? c then
    .ok ⟨some (.mark m), 0⟩
  else
    .error (.unexpectedUnit c)

-- The tokens of a text that begins at a given position.
def tokensFrom (position : Nat) : Text → Except ParseError (List (Lexeme α))
  | [] => .ok []
  | c :: rest =>
    match piece c rest with
    | .error fault => .error ⟨fault, position⟩
    | .ok p =>
      match tokensFrom (position + 1 + p.extra) (rest.drop p.extra) with
      | .error e => .error e
      | .ok tokens =>
        .ok (match p.token? with
          | some token => ⟨token, position⟩ :: tokens
          | none => tokens)
termination_by s => s.length
decreasing_by
  simp only [List.length_drop, List.length_cons]
  omega

def tokens (s : Text) : Except ParseError (List (Lexeme α)) :=
  tokensFrom 0 s

end Lexer

end SceneMotion
