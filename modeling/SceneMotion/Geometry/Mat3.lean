import SceneMotion.Geometry.Vec3

namespace SceneMotion

structure Mat3 (α : Type) where
  x : Vec3 α
  y : Vec3 α
  z : Vec3 α

namespace Mat3

variable {α : Type} [Scalar α]

def identity : Mat3 α :=
  ⟨.unitX, .unitY, .unitZ⟩

-- The entries column by column.
def toList (m : Mat3 α) : List α :=
  m.x.toList ++ m.y.toList ++ m.z.toList

def ofRows (a b c : Vec3 α) : Mat3 α :=
  ⟨⟨a.x, b.x, c.x⟩, ⟨a.y, b.y, c.y⟩, ⟨a.z, b.z, c.z⟩⟩

def apply (m : Mat3 α) (v : Vec3 α) : Vec3 α :=
  ⟨v.x * m.x.x + v.y * m.y.x + v.z * m.z.x,
   v.x * m.x.y + v.y * m.y.y + v.z * m.z.y,
   v.x * m.x.z + v.y * m.y.z + v.z * m.z.z⟩

-- The matrix that applies `b` first and then `a`.
def mul (a b : Mat3 α) : Mat3 α :=
  ⟨a.apply b.x, a.apply b.y, a.apply b.z⟩

def same (a b : Mat3 α) : Bool :=
  a.x.same b.x && a.y.same b.y && a.z.same b.z

-- No entry differs by more than `ε`.
def near (a b : Mat3 α) (ε : α) : Bool :=
  (List.zipWith (fun p q => decide (ε < Scalar.abs (p - q))) a.toList b.toList).all (! ·)

end Mat3

end SceneMotion
