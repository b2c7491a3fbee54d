import SceneMotion.Scalar

namespace SceneMotion

structure Vec3 (α : Type) where
  x : α
  y : α
  z : α

namespace Vec3

variable {α : Type} [Scalar α]

def zero : Vec3 α := ⟨0, 0, 0⟩
def unitX : Vec3 α := ⟨1, 0, 0⟩
def unitY : Vec3 α := ⟨0, 1, 0⟩
def unitZ : Vec3 α := ⟨0, 0, 1⟩

-- Straight ahead of a frame that is not turned.
def ahead : Vec3 α := ⟨0, 0, -1⟩

def toList (v : Vec3 α) : List α :=
  [v.x, v.y, v.z]

def add (a b : Vec3 α) : Vec3 α :=
  ⟨a.x + b.x, a.y + b.y, a.z + b.z⟩

def sub (a b : Vec3 α) : Vec3 α :=
  ⟨a.x - b.x, a.y - b.y, a.z - b.z⟩

def neg (a : Vec3 α) : Vec3 α :=
  ⟨-a.x, -a.y, -a.z⟩

def scale (a : Vec3 α) (s : α) : Vec3 α :=
  ⟨a.x * s, a.y * s, a.z * s⟩

-- The order of a sum matters where scalars round.
def dot (a b : Vec3 α) : α :=
  a.x * b.x + a.y * b.y + a.z * b.z

def cross (a b : Vec3 α) : Vec3 α :=
  ⟨a.y * b.z - a.z * b.y, a.z * b.x - a.x * b.z, a.x * b.y - a.y * b.x⟩

def squaredLength (a : Vec3 α) : α :=
  a.x * a.x + a.y * a.y + a.z * a.z

def squaredDistance (a b : Vec3 α) : α :=
  (b.sub a).squaredLength

def distance (a b : Vec3 α) : α :=
  Scalar.sqrt (squaredDistance a b)

-- The vector of length one in the same direction; a vector without a direction is scaled by its
-- own squared length.
def normalize (a : Vec3 α) : Vec3 α :=
  let n := a.squaredLength
  a.scale (if 0 < n then 1 / Scalar.sqrt n else n)

-- The point a fraction `t` of the way from `a` to `b`.
def lerp (a b : Vec3 α) (t : α) : Vec3 α :=
  ⟨a.x + t * (b.x - a.x), a.y + t * (b.y - a.y), a.z + t * (b.z - a.z)⟩

def same (a b : Vec3 α) : Bool :=
  Scalar.same a.x b.x && Scalar.same a.y b.y && Scalar.same a.z b.z

end Vec3

end SceneMotion
