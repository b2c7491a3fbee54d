import SceneMotion.Clock
import SceneMotion.Track

namespace SceneMotion

structure Entity (α : Type) [Scalar α] where
  name : Text
  canChange : Bool
  frame : Frame α
  previousFrame : Frame α
  track : Option (Track α)
  lastChangeTime : α
  movedSinceLoad : Bool
  -- Set by a move from outside; the next step then leaves the previous frame alone.
  movedSinceStep : Bool
  teleportDistance : α

namespace Entity

variable {α : Type} [Scalar α]

-- A move of more than this within one step is a teleport unless told otherwise.
def defaultTeleportDistance : α :=
  20

structure Options (α : Type) [Scalar α] where
  frame : Option (Frame α) := none
  previousFrame : Option (Frame α) := none
  track : Option (Track α) := none
  canChange : Option Bool := none
  teleportDistance : Option α := none

-- Where an entity with such options starts: where its track is at time zero, if it has one.
def Options.startFrame (o : Options α) (frameOf : Text → Option (Frame α)) : Frame α :=
  match o.track with
  | some track => track.frameAt frameOf 0
  | none => o.frame.getD .identity

-- A new entity at the given time of the clock.
def create (name : Text) (o : Options α) (frameOf : Text → Option (Frame α)) (now : α) :
    Entity α where
  name := name
  canChange := o.canChange.getD true
  frame := o.startFrame frameOf
  previousFrame := o.previousFrame.getD (o.startFrame frameOf)
  track := o.track
  lastChangeTime := now
  movedSinceLoad := false
  movedSinceStep := false
  teleportDistance := o.teleportDistance.getD defaultTeleportDistance

-- A track on an entity that cannot change is suspicious.
def isFixedWithTrack (e : Entity α) : Bool :=
  !e.canChange && e.track.isSome

-- Moves an entity from outside. The clock is read only if the frame is another one.
def setFrame (e : Entity α) (f : Frame α) (updatePrevious : Bool) (clock : Clock α) :
    Entity α × Clock α :=
  let e := if updatePrevious then { e with previousFrame := e.frame } else e
  if e.frame.same f then (e, clock)
  else
    ({ e with
        lastChangeTime := clock.read.value
        frame := f
        movedSinceLoad := true
        movedSinceStep := true },
     clock.read)

def setTrack (e : Entity α) (track : Option (Track α)) : Entity α :=
  { e with track := track }

-- Edits the spline that the entity runs along, or puts it on a new one.
def setSpline (e : Entity α) (curve : Spline α) : Entity α :=
  e.setTrack (some (Track.editSpline curve e.track))

-- Stamps an entity that has moved since the step before.
def stamp (e : Entity α) (clock : Clock α) : Entity α × Clock α :=
  if e.frame.same e.previousFrame then (e, clock)
  else ({ e with lastChangeTime := clock.read.value }, clock.read)

-- Carries the frame over to the previous frame if time has passed.
def carry (e : Entity α) (delta : Delta α) : Entity α :=
  if delta.elapses && !e.movedSinceStep then { e with previousFrame := e.frame } else e

-- Moves an entity to its place on the track; a teleport leaves no motion behind.
def follow (e : Entity α) (frameOf : Text → Option (Frame α)) (time : α) : Entity α :=
  match e.track with
  | none => e
  | some track =>
    let f := track.frameAt frameOf time
    -- Squares are compared, so the sign of the distance does not matter.
    if e.teleportDistance * e.teleportDistance < e.previousFrame.squaredDistance f then
      { e with frame := f, previousFrame := f }
    else
      { e with frame := f }

-- One step of the simulation.
def simulate (e : Entity α) (frameOf : Text → Option (Frame α)) (time : α) (delta : Delta α)
    (clock : Clock α) : Entity α × Clock α :=
  -- The stamp tells of the motion of the step before, and so comes first.
  let (e, clock) := e.stamp clock
  ({ (e.carry delta).follow frameOf time with movedSinceStep := false }, clock)

end Entity

-- A member of a scene that stays where it is and keeps the steps it was given.
structure Observer (α : Type) where
  name : Text
  lastChangeTime : α
  -- The steps, the last one first.
  steps : List (α × Delta α)

inductive Member (α : Type) [Scalar α] where
  | entity (e : Entity α)
  | observer (o : Observer α)

namespace Member

variable {α : Type} [Scalar α]

def name : Member α → Text
  | entity e => e.name
  | observer o => o.name

def frame : Member α → Frame α
  | entity e => e.frame
  | observer _ => .identity

def previousFrame : Member α → Frame α
  | entity e => e.previousFrame
  | observer _ => .identity

def track : Member α → Option (Track α)
  | entity e => e.track
  | observer _ => none

def lastChangeTime : Member α → α
  | entity e => e.lastChangeTime
  | observer o => o.lastChangeTime

def entity? : Member α → Option (Entity α)
  | entity e => some e
  | observer _ => none

def simulate (m : Member α) (frameOf : Text → Option (Frame α)) (time : α) (delta : Delta α)
    (clock : Clock α) : Member α × Clock α :=
  match m with
  | entity e =>
    let (e, clock) := e.simulate frameOf time delta clock
    (.entity e, clock)
  | observer o => (.observer { o with steps := (time, delta) :: o.steps }, clock)

end Member

end SceneMotion
