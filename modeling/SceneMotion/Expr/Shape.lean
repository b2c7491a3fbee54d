import SceneMotion.Track.Literal

namespace SceneMotion

namespace Value

variable {α : Type}

def field? (v : Value α) (key : Text) : Option (Value α) :=
  match v with
  | object fields => fields.lookup key
  | _ => none

def isTuple (v : Value α) : Bool :=
  (v.field? "args").isSome

def isTable (v : Value α) : Bool :=
  (v.field? "fields").isSome

def tag? (v : Value α) : Option Text :=
  match v.field? "tag" with
  | some (text tag) => some tag
  | _ => none

def isFrameLiteral (v : Value α) : Bool :=
  (v.isTuple || v.isTable) &&
    v.tag?.any fun tag => Literal.isSplineTag tag || Literal.isFrameTag tag

-- A short description for diagnostics.
def describe (v : Value α) : Text :=
  match v with
  | object _ => v.tag?.getD "table"
  | list _ => "list"
  | number _ => "number"
  | text _ => "string"
  | flag _ => "boolean"
  | null => "object"

mutual

-- The expression that data with the shape of one stands for.
def toExpr? : Value α → Option (Expr α)
  | null => none
  | flag b => some (.flag b)
  | number x => some (.number x)
  | text s => some (.text s)
  | list items => (itemsToExpr? items).map .list
  | object fields =>
    let tag := (object fields).tag?
    match argsToExpr? fields with
    | some args => some (.tuple (tag.getD []) args)
    | none => (entriesToExpr? fields).map (.table tag)

def itemsToExpr? : List (Value α) → Option (List (Expr α))
  | [] => some []
  | v :: rest =>
    match toExpr? v, itemsToExpr? rest with
    | some e, some es => some (e :: es)
    | _, _ => none

def fieldsToExpr? : List (Text × Value α) → Option (List (Text × Expr α))
  | [] => some []
  | (key, v) :: rest =>
    match toExpr? v, fieldsToExpr? rest with
    | some e, some es => some ((key, e) :: es)
    | _, _ => none

-- The list under the key `args`.
def argsToExpr? : List (Text × Value α) → Option (List (Expr α))
  | [] => none
  | (key, v) :: rest =>
    if key = Text.ofString "args" then
      match v with
      | list items => itemsToExpr? items
      | _ => none
    else
      argsToExpr? rest

-- The object under the key `fields`.
def entriesToExpr? : List (Text × Value α) → Option (List (Text × Expr α))
  | [] => none
  | (key, v) :: rest =>
    if key = Text.ofString "fields" then
      match v with
      | object fields => fieldsToExpr? fields
      | _ => none
    else
      entriesToExpr? rest

end

-- The expression to read a spline from. What could be read as a tuple as well is a table here.
def toSplineExpr? (v : Value α) : Option (Expr α) :=
  match v with
  | object fields =>
    if v.isTable ∧ v.tag?.any Literal.isSplineTag then
      (entriesToExpr? fields).map (.table v.tag?)
    else
      v.toExpr?
  | _ => v.toExpr?

end Value

end SceneMotion
