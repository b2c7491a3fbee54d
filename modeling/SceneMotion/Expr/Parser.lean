import SceneMotion.Expr
import SceneMotion.Expr.Lexer

namespace SceneMotion

namespace Parser

-- The three ways to write a sequence of expressions.
inductive Sequence where
  | parens
  | brackets
  | args (tag : Text)

namespace Sequence

def close : Sequence → Mark
  | brackets => .closeBracket
  | _ => .closeParen

def build {α : Type} : Sequence → List (Expr α) → Expr α
  | args tag, items => .tuple tag items
  | _, items => .list items

end Sequence

variable {α : Type}

-- A list or table around the value being read.
inductive Context (α : Type) where
  | item (kind : Sequence) (before : List (Expr α))
  | field (tag? : Option Text) (before : Fields (Expr α)) (key : Text)

-- What is looked for next.
inductive Goal (α : Type) where
  | value
  | item (kind : Sequence) (before : List (Expr α))
  | key (tag? : Option Text) (before : Fields (Expr α))
  | equals (tag? : Option Text) (before : Fields (Expr α)) (key : Text)
  -- A name is a value by itself unless an opening mark makes it a tag.
  | named (name : Text)
  | after (value : Expr α)

structure State (α : Type) where
  goal : Goal α
  stack : List (Context α)

namespace State

def start : State α :=
  ⟨.value, []⟩

-- Begins a value with its first token.
def beginValue (stack : List (Context α)) : Token α → Except ParseFault (State α)
  | .number x => .ok ⟨.after (.number x), stack⟩
  | .text s => .ok ⟨.after (.text s), stack⟩
  | .name s =>
    if s = Text.ofString "true" then .ok ⟨.after (.flag true), stack⟩
    else if s = Text.ofString "false" then .ok ⟨.after (.flag false), stack⟩
    else .ok ⟨.named s, stack⟩
  | .mark .openParen => .ok ⟨.item .parens [], stack⟩
  | .mark .openBracket => .ok ⟨.item .brackets [], stack⟩
  | .mark .openBrace => .ok ⟨.key none [], stack⟩
  | .mark m => .error (.unexpectedMark m)

-- What is missing when a complete value is not followed by a token that its context allows.
def missing : List (Context α) → ParseFault
  | [] => .trailingInput
  | .item kind _ :: _ => .expected kind.close
  | .field .. :: _ => .expected .closeBrace

-- Goes on behind a complete value.
def afterValue (v : Expr α) (stack : List (Context α)) (token : Token α) :
    Except ParseFault (State α) :=
  match stack, token with
  | .item kind before :: outer, .mark m =>
    if m = .comma then .ok ⟨.item kind (before ++ [v]), outer⟩
    else if m = kind.close then .ok ⟨.after (kind.build (before ++ [v])), outer⟩
    else .error (missing stack)
  | .field tag? before key :: outer, .mark m =>
    if m = .comma ∨ m = .semicolon then .ok ⟨.key tag? (before.set key v), outer⟩
    else if m = .closeBrace then .ok ⟨.after (.table tag? (before.set key v)), outer⟩
    else .error (missing stack)
  | _, _ => .error (missing stack)

def reserved : Text :=
  "__proto__"

-- Takes a key, which must be new to its table.
def takeKey (tag? : Option Text) (before : Fields (Expr α)) (key : Text)
    (stack : List (Context α)) : Except ParseFault (State α) :=
  if key = reserved then .error (.reservedKey key)
  else if before.has key then .error (.duplicateKey key)
  else .ok ⟨.equals tag? before key, stack⟩

-- Looks for a key or the end of the table.
def beginField (tag? : Option Text) (before : Fields (Expr α)) (stack : List (Context α)) :
    Token α → Except ParseFault (State α)
  | .mark .closeBrace => .ok ⟨.after (.table tag? before), stack⟩
  | .text s => takeKey tag? before s stack
  -- A qualified name is no key.
  | .name s => if s.contains (unit ':') then .error .expectedKey else takeKey tag? before s stack
  | _ => .error .expectedKey

def step (s : State α) (token : Token α) : Except ParseFault (State α) :=
  match s.goal with
  | .value => beginValue s.stack token
  | .item kind before =>
    match token with
    -- The sequence may end here, be it empty or behind a comma.
    | .mark m =>
      if m = kind.close then .ok ⟨.after (kind.build before), s.stack⟩
      else beginValue (.item kind before :: s.stack) token
    | _ => beginValue (.item kind before :: s.stack) token
  | .key tag? before => beginField tag? before s.stack token
  | .equals tag? before key =>
    match token with
    | .mark .equals => .ok ⟨.value, .field tag? before key :: s.stack⟩
    | _ => .error (.expected .equals)
  | .named name =>
    match token with
    | .mark .openParen => .ok ⟨.item (.args name) [], s.stack⟩
    | .mark .openBrace => .ok ⟨.key (some name) [], s.stack⟩
    | _ => afterValue (.text name) s.stack token
  | .after v => afterValue v s.stack token

-- The expression, if the text may end here.
def finish (s : State α) : Except ParseFault (Expr α) :=
  match s.goal, s.stack with
  | .value, _ => .error .unexpectedEnd
  | .item .., _ => .error .unexpectedEnd
  | .key .., _ => .error .expectedKey
  | .equals .., _ => .error (.expected .equals)
  | .named name, [] => .ok (.text name)
  | .named _, stack => .error (missing stack)
  | .after v, [] => .ok v
  | .after _, stack => .error (missing stack)

end State

-- Reads the tokens of a whole text of the given length.
def run (length : Nat) : State α → List (Lexeme α) → Except ParseError (Expr α)
  | s, [] => s.finish.mapError fun fault => ⟨fault, length⟩
  | s, t :: rest =>
    match s.step t.token with
    | .error fault => .error ⟨fault, t.position⟩
    | .ok s' => run length s' rest

end Parser

-- Reads an expression from its text.
def Expr.parse {α : Type} [Scalar α] (source : Text) : Except ParseError (Expr α) :=
  match Lexer.tokens source with
  | .error e => .error e
  | .ok tokens => Parser.run source.length .start tokens

end SceneMotion
