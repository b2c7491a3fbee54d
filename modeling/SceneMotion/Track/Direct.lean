import SceneMotion.Dependency.Graph
import SceneMotion.Scene.Error
import SceneMotion.Track.Compile

namespace SceneMotion

namespace Track

variable {α : Type} [Scalar α]

-- The graph with the edges of a track, and the track. The edges stay if the compilation fails later.
-- A refused edge comes before such a failure, since it is met first.
def compileInto (g : Graph) (owner : Text) (v : Value α) : Graph × Except SceneError (Track α) :=
  let compiled := ofValue owner v
  match g.follow owner compiled.mentioned with
  | (g, .error e) => (g, .error (.dependency e))
  | (g, .ok _) => (g, compiled.result.mapError .track)

end Track

end SceneMotion
