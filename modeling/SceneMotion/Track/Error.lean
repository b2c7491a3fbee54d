import SceneMotion.Expr.ParseError
import SceneMotion.Issue
import SceneMotion.Spline

namespace SceneMotion

-- What is wrong with the arguments of a tag.
inductive ArgumentFault where
  | notFinite (what : Text)
  | numberCount (least most got : Nat)
  | arity (least most got : Nat)
  | vector
  | rotation
  | zeroQuaternion
  | rotationAndTranslation
  | noArguments
  | axisAndAngle
  | frame
  | illegalKey (key : Text)
  | controlList
  | timeList
  | mode (allowed : List Text)
  | cyclicFlag
  | spline (error : SplineError)
  | entityName
  | followsItself (name : Text)
  | zeroPeriod
  | notShiftable
  | bindings
  deriving DecidableEq

namespace ArgumentFault

def countText (joint : Text) (least most : Nat) : Text :=
  if least = most then Text.ofNat least else Text.ofNat least ++ joint ++ Text.ofNat most

def message : ArgumentFault → Text
  | notFinite what => what ++ " must be a finite number"
  | numberCount least most got =>
    "expected " ++ countText " to " least most ++ " numbers, got " ++ Text.ofNat got
  | arity least most got =>
    "expected " ++ countText " or " least most ++ " arguments, got " ++ Text.ofNat got
  | vector => "expected Vector3(x, y, z)"
  | rotation => "expected a Matrix3 or Quat rotation"
  | zeroQuaternion => "quaternion must not be zero"
  | rotationAndTranslation => "expected (rotation, translation)"
  | noArguments => "expected no arguments"
  | axisAndAngle => "expected (axis, angle)"
  | frame => "expected a frame literal"
  | illegalKey key => "illegal table key " ++ key
  | controlList => "control must be a list of frames"
  | timeList => "time must be a list of numbers"
  | mode allowed => "expected one of " ++ Text.joinWith ", " allowed
  | cyclicFlag => "cyclic must be true or false"
  | spline error => error.message
  | entityName => "entity name must be a non-empty string"
  | followsItself name => name ++ " cannot follow itself"
  | zeroPeriod => "period must not be zero"
  | notShiftable => "requires a spline or orbit track"
  | bindings => "first argument must be a table of bindings"

end ArgumentFault

inductive TrackError where
  | parse (error : ParseError)
  | malformed (issue : Issue)
  | unboundVariable (name : Text)
  | unrecognizedTrack (tag : Text)
  | unrecognizedLiteral (tag : Text)
  | invalidArgument (tag : Text) (fault : ArgumentFault)
  | notImplemented (tag : Text)
  deriving DecidableEq

namespace TrackError

inductive Code where
  | unboundVariable
  | unrecognizedExpression
  | invalidArgument
  | notImplemented
  | parseError
  deriving DecidableEq

def Code.name : Code → Text
  | unboundVariable => "UnboundVariable"
  | unrecognizedExpression => "UnrecognizedExpression"
  | invalidArgument => "InvalidArgument"
  | notImplemented => "NotImplemented"
  | parseError => "ParseError"

def code : TrackError → Code
  | parse _ => .parseError
  | malformed _ | unrecognizedTrack _ | unrecognizedLiteral _ => .unrecognizedExpression
  | unboundVariable _ => .unboundVariable
  | invalidArgument .. => .invalidArgument
  | notImplemented _ => .notImplemented

-- The tag or name at fault.
def tag? : TrackError → Option Text
  | parse _ | malformed _ => none
  | unboundVariable tag | unrecognizedTrack tag | unrecognizedLiteral tag
  | invalidArgument tag _ | notImplemented tag => some tag

def position? : TrackError → Option Nat
  | parse e => some e.position
  | _ => none

def message : TrackError → Text
  | parse e => e.message
  | malformed i => "Malformed track expression at " ++ i.place ++ ": " ++ i.message
  | unboundVariable name => "Unbound variable " ++ name
  | unrecognizedTrack tag => "Unrecognized track type " ++ tag
  | unrecognizedLiteral tag => "Unrecognized frame literal " ++ tag
  | invalidArgument tag fault => tag ++ ": " ++ fault.message
  | notImplemented tag => tag ++ " tracks are not implemented"

end TrackError

end SceneMotion
