import SceneMotion.Spline

namespace SceneMotion

inductive Motion (α : Type) [Scalar α] where
  -- Runs along a spline, which may have been edited since it was compiled.
  | spline (curve : Spline α) (edited : Bool)
  -- Follows an entity at an offset in its object space.
  | entity (name : Text) (offset : Frame α)
  | transform (a b : Motion α)
  | combine (rotation translation : Motion α)
  -- Circles the Y axis in the XZ plane, facing along the direction of travel.
  | orbit (radius period : α)
  | lookAt (base target : Motion α) (up : Vec3 α)
  | timeShift (motion : Motion α) (dt : α)
  -- A motion that a name stands for. All occurrences with one label are one motion.
  | shared (label : Nat) (motion : Motion α)

namespace Motion

variable {α : Type} [Scalar α]

inductive Kind where
  | spline
  | entity
  | transform
  | combine
  | orbit
  | lookAt
  | timeShift
  deriving DecidableEq

def Kind.name : Kind → Text
  | spline => "spline"
  | entity => "entity"
  | transform => "transform"
  | combine => "combine"
  | orbit => "orbit"
  | lookAt => "lookAt"
  | timeShift => "timeShift"

def kind : Motion α → Kind
  | spline .. => .spline
  | entity .. => .entity
  | transform .. => .transform
  | combine .. => .combine
  | orbit .. => .orbit
  | lookAt .. => .lookAt
  | timeShift .. => .timeShift
  | shared _ motion => motion.kind

def isShared : Motion α → Bool
  | shared .. => true
  | _ => false

-- The motion without the label it may carry.
def core : Motion α → Motion α
  | shared _ motion => motion.core
  | motion => motion

def orbitFrame (radius period t : α) : Frame α :=
  let angle := Scalar.pi * 2 * t / period
  .ofYawPitchRoll ⟨Scalar.sin angle * radius, 0, Scalar.cos angle * radius⟩ angle 0 0

-- The frame at time `t`, given the frames of the entities. An entity that is not there leaves
-- its follower at the bare offset.
def frameAt (frameOf : Text → Option (Frame α)) (t : α) : Motion α → Frame α
  | spline curve _ => curve.frameAt t
  | entity name offset =>
    match frameOf name with
    | some f => f.mul offset
    | none => offset
  | transform a b => (a.frameAt frameOf t).mul (b.frameAt frameOf t)
  | combine rotation translation =>
    ⟨(rotation.frameAt frameOf t).rotation, (translation.frameAt frameOf t).translation⟩
  | orbit radius period => orbitFrame radius period t
  | lookAt base target up =>
    (base.frameAt frameOf t).lookAt (target.frameAt frameOf t).translation up
  | timeShift motion dt => motion.frameAt frameOf (t + dt)
  | shared _ motion => motion.frameAt frameOf t

-- The names in two lists, each once, in the order in which they come first.
def joinNames (a b : List Text) : List Text :=
  (a ++ b).eraseDups

-- The names of the entities that are followed, each once; those of the later part of a motion
-- come before those of the earlier.
def reads : Motion α → List Text
  | spline .. | orbit .. => []
  | entity name _ => [name]
  | transform a b => joinNames b.reads a.reads
  | combine rotation translation => joinNames translation.reads rotation.reads
  | lookAt base target _ => joinNames target.reads base.reads
  | timeShift motion _ => motion.reads
  | shared _ motion => motion.reads

theorem reads_core (m : Motion α) : m.core.reads = m.reads := by
  induction m with
  | shared _ _ ih => exact ih
  | _ => rfl

end Motion

end SceneMotion
