import SceneMotion.Value

namespace SceneMotion

inductive Expr (α : Type) where
  | number (value : α)
  | text (value : Text)
  | flag (value : Bool)
  | list (items : List (Expr α))
  | tuple (tag : Text) (args : List (Expr α))
  | table (tag? : Option Text) (fields : List (Text × Expr α))

namespace Expr

variable {α : Type}

def isTuple : Expr α → Bool
  | tuple .. => true
  | _ => false

def isTable : Expr α → Bool
  | table .. => true
  | _ => false

-- The tag of an expression that has one.
def tag? : Expr α → Option Text
  | tuple tag _ => some tag
  | table tag? _ => tag?
  | _ => none

-- A short description for diagnostics.
def describe : Expr α → Text
  | number _ => "number"
  | text _ => "string"
  | flag _ => "boolean"
  | list _ => "list"
  | tuple tag _ => tag
  | table tag? _ => tag?.getD "table"

-- The data form of a tuple.
def tupleValue (tag : Text) (args : List (Value α)) : Value α :=
  .object [("tag", .text tag), ("args", .list args)]

-- The data form of a table: an absent tag leaves no field behind.
def tableValue (tag? : Option Text) (fields : List (Text × Value α)) : Value α :=
  match tag? with
  | some tag => .object [("tag", .text tag), ("fields", .object fields)]
  | none => .object [("fields", .object fields)]

mutual

-- The data form of an expression.
def toValue : Expr α → Value α
  | number x => .number x
  | text s => .text s
  | flag b => .flag b
  | list items => .list (listToValue items)
  | tuple tag args => tupleValue tag (listToValue args)
  | table tag? fields => tableValue tag? (fieldsToValue fields)

def listToValue : List (Expr α) → List (Value α)
  | [] => []
  | e :: rest => toValue e :: listToValue rest

def fieldsToValue : List (Text × Expr α) → List (Text × Value α)
  | [] => []
  | (key, e) :: rest => (key, toValue e) :: fieldsToValue rest

end

end Expr

end SceneMotion
