import SceneMotion.Clock
import SceneMotion.Dependency.Graph
import SceneMotion.Track.Error

namespace SceneMotion

inductive Warning where
  | skipped (name : Text) (error : TrackError)
  | dangling (dependent dependency : Text)
  | trackOnFixed (name : Text)

def Warning.message : Warning → Text
  | skipped name error => "[loadScene] Skipping entity " ++ name ++ ": " ++ error.message
  | dangling a b => "[Scene] " ++ a ++ " depends on " ++ b ++ ", which does not exist"
  | trackOnFixed name =>
    "[Entity] Track specified for " ++ name ++ ", which has canChange = false"

inductive Notice (α : Type) where
  | change (c : Change)
  | inserted (name : Text)
  | removed (name : Text)
  | sorted (order : List Text)
  | simulated (time : α) (delta : Delta α)
  | completed
  | warning (w : Warning)

end SceneMotion
