import SceneMotion.Text

namespace SceneMotion

inductive DependencyError where
  | onItself (name : Text)
  | reversed (dependent dependency : Text)
  | duplicate (dependent dependency : Text)
  | missingEdge (dependent dependency : Text)
  -- The dependent was reached from the dependency; the cycle leads from the dependency along
  -- the edges back to it.
  | cycle (dependent dependency : Text) (names : List Text)
  | duplicateEntity (name : Text)
  | unknownEntity (name : Text)
  | notTrackDriven (name : Text)
  | notSampled (name : Text)
  deriving DecidableEq

namespace DependencyError

inductive Code where
  | invalidDependency
  | duplicateDependency
  | missingDependencyEdge
  | cycleDetected
  | duplicateEntity
  | unknownEntity
  deriving DecidableEq

def Code.name : Code → Text
  | invalidDependency => "InvalidDependency"
  | duplicateDependency => "DuplicateDependency"
  | missingDependencyEdge => "MissingDependencyEdge"
  | cycleDetected => "CycleDetected"
  | duplicateEntity => "DuplicateEntity"
  | unknownEntity => "UnknownEntity"

def code : DependencyError → Code
  | onItself _ | reversed .. => .invalidDependency
  | duplicate .. => .duplicateDependency
  | missingEdge .. => .missingDependencyEdge
  | cycle .. => .cycleDetected
  | duplicateEntity _ => .duplicateEntity
  | unknownEntity _ | notTrackDriven _ | notSampled _ => .unknownEntity

def entities : DependencyError → List Text
  | onItself name | duplicateEntity name | unknownEntity name | notTrackDriven name
  | notSampled name => [name]
  | reversed a b | duplicate a b | missingEdge a b | cycle a b _ => [a, b]

def cycle? : DependencyError → Option (List Text)
  | cycle _ _ names => some names
  | _ => none

def message : DependencyError → Text
  | onItself name => "Entity " ++ name ++ " cannot depend on itself"
  | reversed a b => "Tried to specify a cyclic dependency between " ++ a ++ " and " ++ b
  | duplicate a b => "Duplicate dependency: " ++ a ++ " already depends on " ++ b
  | missingEdge a b =>
    "Tried to remove a dependency that did not exist: " ++ a ++ " on " ++ b
  | cycle a b names =>
    "Dependency cycle detected containing " ++ a ++ " and " ++ b ++ ": " ++
      Text.joinWith " -> " names
  | duplicateEntity name => "Two entities with the same name, \"" ++ name ++ "\""
  | unknownEntity name => "No entity named \"" ++ name ++ "\""
  | notTrackDriven name => "No track-driven entity named \"" ++ name ++ "\""
  | notSampled name => "No entity named \"" ++ name ++ "\" to sample"

end DependencyError

end SceneMotion
