import SceneMotion.Geometry.Quat

namespace SceneMotion

structure Frame (α : Type) where
  rotation : Mat3 α
  translation : Vec3 α

namespace Frame

variable {α : Type} [Scalar α]

def identity : Frame α :=
  ⟨.identity, .zero⟩

def ofTranslation (v : Vec3 α) : Frame α :=
  ⟨.identity, v⟩

def ofRotation (m : Mat3 α) : Frame α :=
  ⟨m, .zero⟩

-- Position and heading, the angles in radians.
def ofYawPitchRoll (position : Vec3 α) (yaw pitch roll : α) : Frame α :=
  ⟨(Quat.ofYawPitchRoll yaw pitch roll).toMat3, position⟩

-- Position and heading, the angles in degrees.
def ofDegrees (position : Vec3 α) (yaw pitch roll : α) : Frame α :=
  ofYawPitchRoll position (Scalar.toRadians yaw) (Scalar.toRadians pitch) (Scalar.toRadians roll)

-- The image of a point of object space.
def apply (f : Frame α) (p : Vec3 α) : Vec3 α :=
  (f.rotation.apply p).add f.translation

-- The frame `b` given in the object space of `a`.
def mul (a b : Frame α) : Frame α :=
  ⟨a.rotation.mul b.rotation, a.apply b.translation⟩

-- Two directions so close that one of them is no use to tell up from the other.
def nearlyParallel (a b : Vec3 α) : Bool :=
  99 / 100 < Scalar.abs (a.dot b)

-- The up direction to use with a view direction: the wanted one, unless it is zero or nearly
-- along the view; then X, or Y where X is nearly along the view as well.
def upFor (look up : Vec3 α) : Vec3 α :=
  let wanted := up.normalize
  -- A zero vector stays zero when it is normalized.
  if wanted.squaredLength == 0 || nearlyParallel look wanted then
    if nearlyParallel look .unitX then .unitY else .unitX
  else
    wanted

-- The rotation that looks along a direction of length one.
def lookRotation (look up : Vec3 α) : Mat3 α :=
  let u := upFor look up
  -- The part of the up direction that is square to the view.
  let u := (u.add (look.scale (-(look.dot u)))).normalize
  let z := look.neg
  let x := (z.cross u).neg.normalize
  ⟨x, z.cross x, z⟩

-- The frame in the same place, turned until it looks at a target; none for a target that is no
-- distance away.
def facing? (f : Frame α) (target up : Vec3 α) : Option (Frame α) :=
  let look := target.sub f.translation
  if look.squaredLength == 0 then none
  else some ⟨lookRotation look.normalize up, f.translation⟩

-- Turns the frame to look at a target, if there is a direction to turn to.
def lookAt (f : Frame α) (target up : Vec3 α) : Frame α :=
  (f.facing? target up).getD f

-- The same place and heading with the roll taken out, so that X is level.
def upright (f : Frame α) : Frame α :=
  f.lookAt ((f.rotation.apply .ahead).add f.translation) .unitY

def same (a b : Frame α) : Bool :=
  a.rotation.same b.rotation && a.translation.same b.translation

-- The tolerance of `near` where none is asked for.
def tolerance : α :=
  1 / 1000000

def near (a b : Frame α) (ε : α) : Bool :=
  a.rotation.near b.rotation ε && decide (a.translation.distance b.translation ≤ ε)

def squaredDistance (a b : Frame α) : α :=
  a.translation.squaredDistance b.translation

end Frame

-- A frame whose rotation is a quaternion, the form in which a spline holds its controls.
structure Pose (α : Type) where
  rotation : Quat α
  translation : Vec3 α

namespace Pose

variable {α : Type} [Scalar α]

def ofFrame (f : Frame α) : Pose α :=
  ⟨(Quat.ofMat3 f.rotation).normalize, f.translation⟩

def toFrame (p : Pose α) : Frame α :=
  ⟨p.rotation.toMat3, p.translation⟩

end Pose

end SceneMotion
