import SceneMotion.Dependency.Error
import SceneMotion.Track.Error

namespace SceneMotion

inductive SceneError where
  | track (error : TrackError)
  | dependency (error : DependencyError)
  | description (issues : List Issue)
  deriving DecidableEq

end SceneMotion
