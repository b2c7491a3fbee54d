import SceneMotion.Scene
import SceneMotion.Scene.Description

namespace SceneMotion

-- What loading has come to.
structure LoadReport where
  name : Option Text
  loaded : List Text
  skipped : List (Text × TrackError)

namespace Scene

variable {α : Type} [Scalar α]

def readFrame : Option (Expr α) → Except TrackError (Option (Frame α))
  | none => .ok none
  | some e => do
    let e ← e.resolve.mapError .parse
    return some (← e.toFrame)

-- Compiles the track of a description for its owner.
def compileTrack (owner : Text) (e : Expr α) : Track.Compiled α :=
  match e.resolve with
  | .ok e => Track.ofExpr owner e
  | .error fault => ⟨.error (.parse fault), []⟩

def adoptOptional (owner : Text) :
    Option (Expr α) → SceneM α (Except TrackError (Option (Track α)))
  | none => return .ok none
  | some e => return (← adopt owner (compileTrack owner e)).map some

-- Makes the entity of a description, unless its frame or its track is no good.
def describedEntity (name : Text) (d : EntityDescription α) :
    SceneM α (Except TrackError (Entity α)) := do
  match readFrame d.frame with
  | .error e => return .error e
  | .ok frame =>
    -- The track comes second, so an entity with a bad frame leaves nothing in the graph.
    match ← adoptOptional name d.track with
    | .error e => return .error e
    | .ok track =>
      let teleportDistance := some (← get).teleportDistance
      return .ok (← newEntity name
        { frame, track, canChange := d.canChange, teleportDistance })

def loadEntity (report : LoadReport) (name : Text) (d : EntityDescription α) :
    SceneM α LoadReport := do
  match ← describedEntity name d with
  | .ok e =>
    insert (.entity e)
    return { report with loaded := report.loaded ++ [name] }
  | .error e =>
    modify (·.warn (.skipped name e))
    return { report with skipped := report.skipped ++ [(name, e)] }

def loadEntities (report : LoadReport) :
    List (Text × EntityDescription α) → SceneM α LoadReport
  | [] => return report
  | (name, d) :: rest => do
    let report ← loadEntity report name d
    loadEntities report rest

-- Replaces what is in the scene by what a description says.
def loadDescription (d : Description α) : SceneM α LoadReport := do
  modify clear
  let report ← loadEntities ⟨d.name, [], []⟩ d.entities
  -- Going to the time sorts the entities, and so finds any cycle.
  modify (·.setEditing (d.editing.getD false))
  setTime (d.time.getD 0)
  return report

-- Replaces what is in the scene by what the data describes, if it is a description.
def load (v : Value α) : SceneM α LoadReport := do
  match v.checkDescription.toExcept with
  | .error issues => throw (.description issues)
  | .ok d => loadDescription d

end Scene

end SceneMotion
