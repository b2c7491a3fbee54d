import SceneMotion.Expr.Parser
import SceneMotion.Expr.Schema

namespace SceneMotion

structure EntityDescription (α : Type) where
  frame : Option (Expr α)
  track : Option (Expr α)
  canChange : Option Bool

structure Description (α : Type) where
  name : Option Text
  time : Option α
  editing : Option Bool
  entities : List (Text × EntityDescription α)

namespace Value

variable {α : Type} [Scalar α]

def checkFlag (path : List PathPart) : Value α → Checked Bool
  | flag b => .ok b
  | v => .fail path (.wrongKind .boolean v.kind)

def checkText (path : List PathPart) : Value α → Checked Text
  | text s => .ok s
  | v => .fail path (.wrongKind .string v.kind)

def checkFinite (path : List PathPart) (v : Value α) : Checked α :=
  match v with
  | number x =>
    if Scalar.isNaN x then .fail path (.wrongKind .number v.kind)
    else if Scalar.isFinite x then .ok x
    else .fail path .notFinite
  | _ => .fail path (.wrongKind .number v.kind)

-- A field that may be left out.
def checkOptional {β : Type} (check : List PathPart → Value α → Checked β) (path : List PathPart)
    (fields : List (Text × Value α)) (key : Text) : Checked (Option β) :=
  match fields.lookup key with
  | none => .ok none
  | some v => (check (path ++ [.key key]) v).map some

def checkEntity (path : List PathPart) (v : Value α) : Checked (EntityDescription α) :=
  match v with
  | object fields =>
    let frame := checkOptional checkExpr path fields "frame"
    let track := checkOptional checkExpr path fields "track"
    let canChange := checkOptional checkFlag path fields "canChange"
    ((frame.map₂ EntityDescription.mk track).map₂ (· ·) canChange).knowing
      ["frame", "track", "canChange"] path fields
  | _ => .fail path (.wrongKind .object v.kind)

def checkEntitiesFrom (path : List PathPart) :
    List (Text × Value α) → Checked (List (Text × EntityDescription α))
  | [] => .ok []
  | (key, v) :: rest =>
    (checkEntity (path ++ [.key key]) v).map₂
      (fun e es => if key = omittedKey then es else (key, e) :: es) (checkEntitiesFrom path rest)

def checkEntities (path : List PathPart) (fields : List (Text × Value α)) :
    Checked (List (Text × EntityDescription α)) :=
  let path := path ++ [.key "entities"]
  match fields.lookup (Text.ofString "entities") with
  | none => .fail path .required
  | some (object entities) => checkEntitiesFrom path entities
  | some v => .fail path (.wrongKind .object v.kind)

-- The description that some data is.
def checkDescription (v : Value α) : Checked (Description α) :=
  match v with
  | object fields =>
    let name := checkOptional checkText [] fields "name"
    let time := checkOptional checkFinite [] fields "time"
    let editing := checkOptional checkFlag [] fields "editing"
    let entities := checkEntities [] fields
    (((name.map₂ Description.mk time).map₂ (· ·) editing).map₂ (· ·) entities).knowing
      ["name", "time", "editing", "entities"] [] fields
  | _ => .fail [] (.wrongKind .object v.kind)

end Value

namespace Expr

variable {α : Type} [Scalar α]

-- The expression a description gives, either as it is or as text.
def resolve : Expr α → Except ParseError (Expr α)
  | text source => parse source
  | e => .ok e

end Expr

end SceneMotion
