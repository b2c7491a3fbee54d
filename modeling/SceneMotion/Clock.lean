import SceneMotion.Scalar

namespace SceneMotion

structure Clock (α : Type) where
  value : α
  step : α

namespace Clock

variable {α : Type} [Scalar α]

-- The clock after a reading; the reading is its new value.
def read (c : Clock α) : Clock α :=
  { c with value := c.value + c.step }

end Clock

-- How time goes on in a step: by an amount, or by a jump, which carries no motion across.
inductive Delta (α : Type) where
  | jump
  | by (dt : α)

namespace Delta

variable {α : Type} [Scalar α]

-- An undefined amount is a jump.
def ofNumber (dt : α) : Delta α :=
  if Scalar.isNaN dt then jump else .by dt

-- A jump does not move the time on.
def amount : Delta α → α
  | jump => 0
  | .by dt => dt

-- Whether motion is carried over, which it is not while time stands still.
def elapses : Delta α → Bool
  | jump => true
  | .by dt => !(dt == 0)

end Delta

end SceneMotion
