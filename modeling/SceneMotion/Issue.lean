import SceneMotion.Value

namespace SceneMotion

inductive PathPart where
  | key (key : Text)
  | index (i : Nat)
  deriving DecidableEq

def PathPart.name : PathPart → Text
  | key k => k
  | index i => Text.ofNat i

inductive IssueFault where
  | required
  | wrongKind (expected received : Value.Kind)
  | notFinite
  | unknownKeys (keys : List Text)
  | noAlternative
  deriving DecidableEq

def IssueFault.message : IssueFault → Text
  | required => "Required"
  | wrongKind expected received => "Expected " ++ expected.name ++ ", received " ++ received.name
  | notFinite => "Number must be finite"
  | unknownKeys keys =>
    "Unrecognized key(s) in object: " ++
      Text.joinWith ", " (keys.map fun key => "'" ++ key ++ "'")
  | noAlternative => "Invalid input"

def IssueFault.code : IssueFault → Text
  | required | wrongKind .. => "invalid_type"
  | notFinite => "not_finite"
  | unknownKeys _ => "unrecognized_keys"
  | noAlternative => "invalid_union"

structure Issue where
  path : List PathPart
  fault : IssueFault
  deriving DecidableEq

namespace Issue

def message (i : Issue) : Text :=
  i.fault.message

-- The path with its parts joined by points.
def place (i : Issue) : Text :=
  match Text.joinWith "." (i.path.map (·.name)) with
  | [] => "root"
  | s => s

end Issue

end SceneMotion
