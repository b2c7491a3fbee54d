import SceneMotion.Geometry.Mat3

namespace SceneMotion

structure Quat (α : Type) where
  x : α
  y : α
  z : α
  w : α

namespace Quat

variable {α : Type} [Scalar α]

def toList (q : Quat α) : List α :=
  [q.x, q.y, q.z, q.w]

def scale (q : Quat α) (s : α) : Quat α :=
  ⟨q.x * s, q.y * s, q.z * s, q.w * s⟩

def neg (q : Quat α) : Quat α :=
  ⟨-q.x, -q.y, -q.z, -q.w⟩

def squaredLength (q : Quat α) : α :=
  q.x * q.x + q.y * q.y + q.z * q.z + q.w * q.w

def length (q : Quat α) : α :=
  Scalar.sqrt q.squaredLength

-- The quaternion of length one in the same direction; one without a direction is scaled by its
-- own squared length.
def normalize (q : Quat α) : Quat α :=
  let n := q.squaredLength
  q.scale (if 0 < n then 1 / Scalar.sqrt n else n)

def mul (a b : Quat α) : Quat α :=
  ⟨a.x * b.w + a.w * b.x + a.y * b.z - a.z * b.y,
   a.y * b.w + a.w * b.y + a.z * b.x - a.x * b.z,
   a.z * b.w + a.w * b.z + a.x * b.y - a.y * b.x,
   a.w * b.w - a.x * b.x - a.y * b.y - a.z * b.z⟩

def dot (a b : Quat α) : α :=
  a.x * b.x + a.y * b.y + a.z * b.z + a.w * b.w

-- The turn by an angle about an axis of length one.
def ofAxisAngle (axis : Vec3 α) (angle : α) : Quat α :=
  let h := angle * Scalar.half
  let s := Scalar.sin h
  ⟨s * axis.x, s * axis.y, s * axis.z, Scalar.cos h⟩

-- Yaw about Y, then pitch about X, then roll about Z.
def ofYawPitchRoll (yaw pitch roll : α) : Quat α :=
  ((ofAxisAngle .unitY yaw).mul (ofAxisAngle .unitX pitch)).mul (ofAxisAngle .unitZ roll)

def toMat3 (q : Quat α) : Mat3 α :=
  let x2 := q.x + q.x
  let y2 := q.y + q.y
  let z2 := q.z + q.z
  let xx := q.x * x2
  let yx := q.y * x2
  let yy := q.y * y2
  let zx := q.z * x2
  let zy := q.z * y2
  let zz := q.z * z2
  let wx := q.w * x2
  let wy := q.w * y2
  let wz := q.w * z2
  ⟨⟨1 - yy - zz, yx + wz, zx - wy⟩,
   ⟨yx - wz, 1 - xx - zz, zy + wx⟩,
   ⟨zx + wy, zy - wx, 1 - xx - yy⟩⟩

-- The quaternion of a rotation whose trace is positive.
def ofTrace (m : Mat3 α) (trace : α) : Quat α :=
  let root := Scalar.sqrt (trace + 1)
  let f := Scalar.half / root
  ⟨(m.y.z - m.z.y) * f, (m.z.x - m.x.z) * f, (m.x.y - m.y.x) * f, Scalar.half * root⟩

-- The part along the axis `i` of greatest diagonal entry, the parts along the two axes `j` and
-- `k` after it in turn, and the real part; `ij` is the entry of column `i` and row `j`.
def aboutAxis (ii jj kk ij ji ik ki jk kj : α) : α × α × α × α :=
  let root := Scalar.sqrt (ii - jj - kk + 1)
  let f := Scalar.half / root
  (Scalar.half * root, (ji + ij) * f, (ki + ik) * f, (jk - kj) * f)

-- The quaternion of a rotation.
def ofMat3 (m : Mat3 α) : Quat α :=
  let trace := m.x.x + m.y.y + m.z.z
  if 0 < trace then
    ofTrace m trace
  else if m.z.z > (if m.y.y > m.x.x then m.y.y else m.x.x) then
    let (z, x, y, w) := aboutAxis m.z.z m.x.x m.y.y m.z.x m.x.z m.z.y m.y.z m.x.y m.y.x
    ⟨x, y, z, w⟩
  else if m.y.y > m.x.x then
    let (y, z, x, w) := aboutAxis m.y.y m.z.z m.x.x m.y.z m.z.y m.y.x m.x.y m.z.x m.x.z
    ⟨x, y, z, w⟩
  else
    let (x, y, z, w) := aboutAxis m.x.x m.y.y m.z.z m.x.y m.y.x m.x.z m.z.x m.y.z m.z.y
    ⟨x, y, z, w⟩

def combine (s : α) (a : Quat α) (t : α) (b : Quat α) : Quat α :=
  ⟨s * a.x + t * b.x, s * a.y + t * b.y, s * a.z + t * b.z, s * a.w + t * b.w⟩

-- The turn a fraction `t` of the way from `a` to `b`, the short way round. Nearly equal turns
-- are mixed linearly.
def slerp (a b : Quat α) (t : α) : Quat α :=
  let c := a.dot b
  -- A quaternion and its negative are the same turn; the one on the near side is the short way.
  let (c, b) := if c < 0 then (-c, b.neg) else (c, b)
  if 1 / 1000000 < 1 - c then
    let angle := Scalar.acos c
    let s := Scalar.sin angle
    combine (Scalar.sin ((1 - t) * angle) / s) a (Scalar.sin (t * angle) / s) b
  else
    combine (1 - t) a t b

end Quat

end SceneMotion
