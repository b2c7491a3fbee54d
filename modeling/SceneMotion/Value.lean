import SceneMotion.Fields
import SceneMotion.Scalar

namespace SceneMotion

inductive Value (α : Type) where
  | null
  | flag (value : Bool)
  | number (value : α)
  | text (value : Text)
  | list (items : List (Value α))
  | object (fields : List (Text × Value α))

namespace Value

-- What sort of data a value is, as far as a description cares.
inductive Kind where
  | null
  | boolean
  | number
  | nan
  | string
  | array
  | object
  deriving DecidableEq

def Kind.name : Kind → Text
  | .null => "null"
  | .boolean => "boolean"
  | .number => "number"
  | .nan => "nan"
  | .string => "string"
  | .array => "array"
  | .object => "object"

variable {α : Type} [Scalar α]

def kind : Value α → Kind
  | null => .null
  | flag _ => .boolean
  | number x => if Scalar.isNaN x then .nan else .number
  | text _ => .string
  | list _ => .array
  | object _ => .object

end Value

end SceneMotion
