import SceneMotion.Motion

namespace SceneMotion

structure Track (α : Type) [Scalar α] where
  motion : Motion α
  -- The names of the entities that are followed, each once. They are put together along with the
  -- motion, as a walk through it would come to a shared part in each of its places.
  reads : List Text
  reads_eq : reads = motion.reads

namespace Track

variable {α : Type} [Scalar α]

def spline (curve : Spline α) (edited : Bool) : Track α :=
  ⟨.spline curve edited, [], rfl⟩

def entity (name : Text) (offset : Frame α) : Track α :=
  ⟨.entity name offset, [name], rfl⟩

def transform (a b : Track α) : Track α :=
  ⟨.transform a.motion b.motion, Motion.joinNames b.reads a.reads, by
    rw [a.reads_eq, b.reads_eq, Motion.reads]⟩

def combine (rotation translation : Track α) : Track α :=
  ⟨.combine rotation.motion translation.motion,
   Motion.joinNames translation.reads rotation.reads, by
    rw [rotation.reads_eq, translation.reads_eq, Motion.reads]⟩

def orbit (radius period : α) : Track α :=
  ⟨.orbit radius period, [], rfl⟩

def lookAt (base target : Track α) (up : Vec3 α) : Track α :=
  ⟨.lookAt base.motion target.motion up, Motion.joinNames target.reads base.reads, by
    rw [base.reads_eq, target.reads_eq, Motion.reads]⟩

def timeShift (track : Track α) (dt : α) : Track α :=
  ⟨.timeShift track.motion dt, track.reads, track.reads_eq⟩

def shared (label : Nat) (track : Track α) : Track α :=
  ⟨.shared label track.motion, track.reads, track.reads_eq⟩

-- The track without the label it may carry.
def core (track : Track α) : Track α :=
  ⟨track.motion.core, track.reads, by rw [Motion.reads_core, track.reads_eq]⟩

def kind (track : Track α) : Motion.Kind :=
  track.motion.kind

-- The frame at time `t`, given the frames of the entities.
def frameAt (frameOf : Text → Option (Frame α)) (t : α) (track : Track α) : Frame α :=
  track.motion.frameAt frameOf t

-- Whether the spline of a track that runs along one has been edited.
def edited? (track : Track α) : Option Bool :=
  match track.motion with
  | .spline _ edited => some edited
  | _ => none

def isSpline (track : Track α) : Bool :=
  track.kind = .spline

-- Only splines and orbits can be shifted in time.
def isShiftable (track : Track α) : Bool :=
  track.kind = .spline ∨ track.kind = .orbit

-- Replaces the spline of a track that runs along one; any other track gives way to a new one.
def editSpline (curve : Spline α) (track? : Option (Track α)) : Track α :=
  .spline curve (track?.any isSpline)

-- Replaces the offset of a track that follows an entity.
def setOffset (offset : Frame α) (track : Track α) : Track α :=
  match track.motion with
  | .entity name _ => .entity name offset
  | _ => track

end Track

end SceneMotion
