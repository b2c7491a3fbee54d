import SceneMotion.Table

namespace SceneMotion

structure Variables (β : Type) where
  own : Table β
  -- The enclosing scopes, from the inside out.
  outer : List (Table β)

namespace Variables

variable {β : Type}

def empty : Variables β :=
  ⟨[], []⟩

def set (vars : Variables β) (name : Text) (b : β) : Variables β :=
  { vars with own := vars.own.set name b }

def lookup (vars : Variables β) (name : Text) : Option β :=
  (vars.own :: vars.outer).findSome? (·.get? name)

def has (vars : Variables β) (name : Text) : Bool :=
  (vars.lookup name).isSome

-- Opens a scope.
def extend (vars : Variables β) : Variables β :=
  ⟨[], vars.own :: vars.outer⟩

-- The enclosing scope.
def parent? (vars : Variables β) : Option (Variables β) :=
  match vars.outer with
  | [] => none
  | own :: outer => some ⟨own, outer⟩

def setAll (vars : Variables β) (bindings : List (Text × β)) : Variables β :=
  bindings.foldl (fun vars (name, b) => vars.set name b) vars

end Variables

end SceneMotion
