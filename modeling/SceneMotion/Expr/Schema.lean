import SceneMotion.Expr
import SceneMotion.Issue

namespace SceneMotion

-- What a check has come to: a result unless it was cut short, and the issues met on the way.
structure Checked (β : Type) where
  result? : Option β
  issues : List Issue

namespace Checked

variable {β γ : Type}

def ok (b : β) : Checked β :=
  ⟨some b, []⟩

def failed (issues : List Issue) : Checked β :=
  ⟨none, issues⟩

def fail (path : List PathPart) (fault : IssueFault) : Checked β :=
  failed [⟨path, fault⟩]

-- Both results, if there are both.
def map₂ {δ : Type} (f : β → γ → δ) (a : Checked β) (b : Checked γ) : Checked δ :=
  ⟨match a.result?, b.result? with
    | some x, some y => some (f x y)
    | _, _ => none,
   a.issues ++ b.issues⟩

def map (f : β → γ) (a : Checked β) : Checked γ :=
  ⟨a.result?.map f, a.issues⟩

-- Reports the keys of an object that are not among the known ones.
def knowing {α : Type} (known : List Text) (path : List PathPart)
    (fields : List (Text × α)) (a : Checked β) : Checked β :=
  match (fields.map (·.1)).filter (· ∉ known) with
  | [] => a
  | unknown => ⟨a.result?, a.issues ++ [⟨path, .unknownKeys unknown⟩]⟩

def isValid (a : Checked β) : Bool :=
  a.result?.isSome && a.issues.isEmpty

-- The first of two alternatives that holds; failing that, the first that fails by unknown keys
-- alone; failing that, neither is said to hold.
def orElse (path : List PathPart) (a b : Checked β) : Checked β :=
  if a.isValid then a
  else if b.isValid then b
  -- What has a result all the same fails by unknown keys alone.
  else if a.result?.isSome then a
  else if b.result?.isSome then b
  else fail path .noAlternative

-- A single alternative: its own issues count only if they are unknown keys.
def alone (path : List PathPart) (a : Checked β) : Checked β :=
  if a.result?.isSome then a else fail path .noAlternative

def toExcept (a : Checked β) : Except (List Issue) β :=
  match a.result?, a.issues with
  | some b, [] => .ok b
  | _, issues => .error issues

end Checked

-- The key that an object of arbitrary keys leaves out.
def omittedKey : Text :=
  "__proto__"

namespace Value

variable {α : Type} [Scalar α]

-- The text under the key `tag`.
def checkTag (path : List PathPart) (fields : List (Text × Value α)) : Checked (Option Text) :=
  match fields.lookup (Text.ofString "tag") with
  | none => .ok none
  | some (text s) => .ok (some s)
  | some v => .fail (path ++ [.key "tag"]) (.wrongKind .string v.kind)

def requireTag (path : List PathPart) (fields : List (Text × Value α)) : Checked Text :=
  match fields.lookup (Text.ofString "tag") with
  | none => .fail (path ++ [.key "tag"]) .required
  | some (text s) => .ok s
  | some v => .fail (path ++ [.key "tag"]) (.wrongKind .string v.kind)

mutual

-- The expression that some data is.
def checkExpr (path : List PathPart) : Value α → Checked (Expr α)
  | null => .fail path .noAlternative
  | flag b => .ok (.flag b)
  | number x => if Scalar.isNaN x then .fail path .noAlternative else .ok (.number x)
  | text s => .ok (.text s)
  | list items => ((checkItems path 0 items).map .list).alone path
  | object fields =>
    let tuple := ((requireTag path fields).map₂ .tuple (checkArgs path fields)).knowing
      ["tag", "args"] path fields
    let table := ((checkTag path fields).map₂ .table (checkEntries path fields)).knowing
      ["tag", "fields"] path fields
    tuple.orElse path table

def checkItems (path : List PathPart) (index : Nat) : List (Value α) → Checked (List (Expr α))
  | [] => .ok []
  | v :: rest =>
    (checkExpr (path ++ [.index index]) v).map₂ (· :: ·) (checkItems path (index + 1) rest)

-- An object with keys of any kind.
def checkRecord (path : List PathPart) :
    List (Text × Value α) → Checked (List (Text × Expr α))
  | [] => .ok []
  | (key, v) :: rest =>
    -- The value has to be an expression even where its key is left out.
    (checkExpr (path ++ [.key key]) v).map₂
      (fun e es => if key = omittedKey then es else (key, e) :: es) (checkRecord path rest)

-- The list under the key `args`.
def checkArgs (path : List PathPart) : List (Text × Value α) → Checked (List (Expr α))
  | [] => .fail (path ++ [.key "args"]) .required
  | (key, v) :: rest =>
    if key = Text.ofString "args" then
      match v with
      | list items => checkItems (path ++ [.key "args"]) 0 items
      | _ => .fail (path ++ [.key "args"]) (.wrongKind .array v.kind)
    else
      checkArgs path rest

-- The object under the key `fields`.
def checkEntries (path : List PathPart) : List (Text × Value α) → Checked (List (Text × Expr α))
  | [] => .fail (path ++ [.key "fields"]) .required
  | (key, v) :: rest =>
    if key = Text.ofString "fields" then
      match v with
      | object fields => checkRecord (path ++ [.key "fields"]) fields
      | _ => .fail (path ++ [.key "fields"]) (.wrongKind .object v.kind)
    else
      checkEntries path rest

end

end Value

end SceneMotion
