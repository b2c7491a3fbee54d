import SceneMotion.Expr
import SceneMotion.Track.Error

namespace SceneMotion

def Text.startsWithAny (s : Text) (starts : List Text) : Bool :=
  starts.any (·.isPrefixOf s)

namespace Literal

def splineTags : List Text :=
  ["PhysicsFrameSpline", "PFrameSpline", "UprightSpline"]

-- The controls of a spline with such a tag lose their roll.
def uprightTag : Text :=
  "UprightSpline"

def frameTags : List Text :=
  ["Point3", "Vector3", "Matrix3", "Matrix4", "CFrame", "CoordinateFrame", "PFrame", "PhysicsFrame"]

def isSplineTag (tag : Text) : Bool :=
  tag.startsWithAny splineTags

def isFrameTag (tag : Text) : Bool :=
  tag.startsWithAny frameTags

-- The ways to write a frame as a tuple, apart from a pair of rotation and translation.
inductive Form where
  | vector
  | matrix3
  | identity
  | axisAngle
  | matrix4
  | translation
  | degrees
  | radians
  deriving DecidableEq

def forms : Table Form :=
  [("Point3", .vector), ("Vector3", .vector),
   ("Matrix3", .matrix3),
   ("Matrix3::identity", .identity), ("Matrix4::identity", .identity),
   ("CFrame", .identity), ("CoordinateFrame", .identity),
   ("Matrix3::fromAxisAngle", .axisAngle),
   ("Matrix4", .matrix4), ("Matrix4::translation", .translation),
   ("CFrame::fromXYZYPRDegrees", .degrees), ("CoordinateFrame::fromXYZYPRDegrees", .degrees),
   ("CFrame::fromXYZYPRRadians", .radians), ("CoordinateFrame::fromXYZYPRRadians", .radians)]

-- The tags of a pair of rotation and translation.
def pairTags : List Text :=
  ["PFrame", "PhysicsFrame"]

end Literal

namespace Expr

open Literal

variable {α : Type} [Scalar α]

def isFrameLiteral : Expr α → Bool
  | tuple tag _ => isSplineTag tag || isFrameTag tag
  | table (some tag) _ => isSplineTag tag || isFrameTag tag
  | _ => false

-- The finite number that an expression must be.
def expectNumber (tag what : Text) : Expr α → Except TrackError α
  | number x =>
    if Scalar.isFinite x then .ok x else .error (.invalidArgument tag (.notFinite what))
  | _ => .error (.invalidArgument tag (.notFinite what))

-- Numbers that are called by a noun and their place in the list.
def expectNumbersFrom (tag noun : Text) (place : Nat) :
    List (Expr α) → Except TrackError (List α)
  | [] => .ok []
  | e :: rest => do
    let x ← e.expectNumber tag (noun ++ " " ++ Text.ofNat place)
    let xs ← expectNumbersFrom tag noun (place + 1) rest
    return x :: xs

-- The arguments of a tag that takes nothing but numbers, so many at least and at most.
def expectArgs (tag : Text) (args : List (Expr α)) (least most : Nat) :
    Except TrackError (List α) :=
  if args.length < least ∨ most < args.length then
    .error (.invalidArgument tag (.numberCount least most args.length))
  else
    expectNumbersFrom tag "argument" 1 args

def vectorTags : List Text :=
  ["Vector3", "Point3"]

def expectVector (tag : Text) (args : List (Expr α)) : Except TrackError (Vec3 α) := do
  let xs ← expectArgs tag args 3 3
  return ⟨xs.getD 0 0, xs.getD 1 0, xs.getD 2 0⟩

-- A vector, as a list of three numbers or with its tag.
def toVector (e : Expr α) : Except TrackError (Vec3 α) :=
  match e with
  | list items => expectVector "vector" items
  | tuple tag args =>
    if tag ∈ vectorTags then expectVector tag args
    else .error (.invalidArgument tag .vector)
  | _ => .error (.invalidArgument e.describe .vector)

def quaternionTag : Text :=
  "Quat"

-- A quaternion, brought to length one.
def toQuat (args : List (Expr α)) : Except TrackError (Quat α) := do
  let xs ← expectArgs quaternionTag args 4 4
  let q : Quat α := ⟨xs.getD 0 0, xs.getD 1 0, xs.getD 2 0, xs.getD 3 0⟩
  -- Very small components vanish when they are squared, and count as zero.
  if q.length == 0 then throw (.invalidArgument quaternionTag .zeroQuaternion)
  return q.normalize

-- The frame of a position and up to three angles, those left out being zero.
def headed (place : Vec3 α → α → α → α → Frame α) (xs : List α) : Frame α :=
  place ⟨xs.getD 0 0, xs.getD 1 0, xs.getD 2 0⟩ (xs.getD 3 0) (xs.getD 4 0) (xs.getD 5 0)

-- The upper left three by three entries of rows of a given width.
def rotationOfRows (width : Nat) (xs : List α) : Mat3 α :=
  let row (i : Nat) : Vec3 α :=
    ⟨xs.getD (i * width) 0, xs.getD (i * width + 1) 0, xs.getD (i * width + 2) 0⟩
  .ofRows (row 0) (row 1) (row 2)

-- The frame of a tuple of the given form.
def frameOfForm (tag : Text) (args : List (Expr α)) : Form → Except TrackError (Frame α)
  | .vector | .translation => return .ofTranslation (← expectVector tag args)
  | .matrix3 => return .ofRotation (rotationOfRows 3 (← expectArgs tag args 9 9))
  | .identity =>
    if args.isEmpty then .ok .identity else .error (.invalidArgument tag .noArguments)
  | .axisAngle =>
    match args with
    | [axis, angle] => do
      let axis ← axis.toVector
      let angle ← angle.expectNumber tag "angle"
      return .ofRotation (Quat.ofAxisAngle axis.normalize angle).toMat3
    | _ => .error (.invalidArgument tag .axisAndAngle)
  | .matrix4 => do
    let xs ← expectArgs tag args 16 16
    return ⟨rotationOfRows 4 xs, ⟨xs.getD 3 0, xs.getD 7 0, xs.getD 11 0⟩⟩
  | .degrees => return headed Frame.ofDegrees (← expectArgs tag args 3 6)
  | .radians => return headed Frame.ofYawPitchRoll (← expectArgs tag args 3 6)

def frameOfTag (tag : Text) (args : List (Expr α)) : Except TrackError (Frame α) :=
  match forms.get? tag with
  | some form => frameOfForm tag args form
  | none => .error (.unrecognizedLiteral tag)

def matrixTag : Text :=
  "Matrix3"

def toRotation (e : Expr α) : Except TrackError (Mat3 α) :=
  match e with
  | tuple tag args =>
    if tag = quaternionTag then return (← toQuat args).toMat3
    -- Of a frame only the rotation is taken.
    else if matrixTag.isPrefixOf tag then return (← frameOfTag tag args).rotation
    else .error (.invalidArgument tag .rotation)
  | _ => .error (.invalidArgument e.describe .rotation)

def frameOfTuple (tag : Text) (args : List (Expr α)) : Except TrackError (Frame α) :=
  if tag ∈ pairTags then
    match args with
    | [] => .ok .identity
    | [rotation, translation] => return ⟨← rotation.toRotation, ← translation.toVector⟩
    | _ => .error (.invalidArgument tag .rotationAndTranslation)
  else
    frameOfTag tag args

-- Takes one field of a frame; the case of its key does not matter.
def setFrameField (tag : Text) (f : Frame α) (field : Text × Expr α) :
    Except TrackError (Frame α) :=
  let key := Text.toLower field.1
  if key = Text.ofString "rotation" then
    return { f with rotation := ← field.2.toRotation }
  else if key = Text.ofString "translation" then
    return { f with translation := ← field.2.toVector }
  else
    .error (.invalidArgument tag (.illegalKey field.1))

def frameOfFields (tag : Text) (fields : List (Text × Expr α)) : Except TrackError (Frame α) :=
  fields.foldlM (setFrameField tag) .identity

def toFrame (e : Expr α) : Except TrackError (Frame α) :=
  match e with
  | tuple tag args =>
    if isFrameTag tag then frameOfTuple tag args else .error (.invalidArgument tag .frame)
  | table (some tag) fields =>
    if isFrameTag tag then frameOfFields tag fields else .error (.invalidArgument tag .frame)
  | _ => .error (.invalidArgument e.describe .frame)

-- The one of several names that an expression writes, in any case and with any qualifier.
def toMode {β : Type} (tag : Text) (allowed : List β) (name : β → Text) (e : Expr α) :
    Except TrackError β :=
  let found := match e with
    | text s => allowed.find? fun m => name m = Text.toLower (s.afterLast (unit ':'))
    | _ => none
  match found with
  | some m => .ok m
  | none => .error (.invalidArgument tag (.mode (allowed.map name)))

-- A control of a spline with the given tag.
def toControl (tag : Text) (e : Expr α) : Except TrackError (Pose α) := do
  let f ← e.toFrame
  return .ofFrame (if uprightTag.isPrefixOf tag then f.upright else f)

-- The fields of a spline as far as they have been read.
structure SplineFields (α : Type) where
  controls : List (Pose α) := []
  options : Spline.Options α := {}
  cyclic : Option Bool := none

inductive SplineKey where
  | control
  | time
  | extrapolationMode
  | interpolationMode
  | finalInterval
  | cyclic

def splineKeys : Table SplineKey :=
  [("control", .control), ("time", .time), ("extrapolationMode", .extrapolationMode),
   ("interpolationMode", .interpolationMode), ("finalInterval", .finalInterval),
   ("cyclic", .cyclic)]

def setSplineKey (tag : Text) (s : SplineFields α) (e : Expr α) :
    SplineKey → Except TrackError (SplineFields α)
  | .control =>
    match e with
    | list items => return { s with controls := ← items.mapM (toControl tag) }
    | _ => .error (.invalidArgument tag .controlList)
  | .time =>
    match e with
    | list items => do
      let times ← expectNumbersFrom tag "time" 1 items
      return { s with options.times := some times }
    | _ => .error (.invalidArgument tag .timeList)
  | .extrapolationMode => do
    let mode ← e.toMode tag Extrapolation.all Extrapolation.name
    return { s with options.extrapolation := some mode }
  | .interpolationMode => do
    let mode ← e.toMode tag Interpolation.all Interpolation.name
    return { s with options.interpolation := some mode }
  | .finalInterval => do
    let interval ← e.expectNumber tag "finalInterval"
    return { s with options.finalInterval := some interval }
  | .cyclic =>
    match e with
    | flag b => .ok { s with cyclic := some b }
    | _ => .error (.invalidArgument tag .cyclicFlag)

def setSplineField (tag : Text) (s : SplineFields α) (field : Text × Expr α) :
    Except TrackError (SplineFields α) :=
  match splineKeys.get? field.1 with
  | some key => setSplineKey tag s field.2 key
  | none => .error (.invalidArgument tag (.illegalKey field.1))

-- The options with the flag `cyclic` taken into account.
def SplineFields.resolved (s : SplineFields α) : Spline.Options α :=
  match s.options.extrapolation, s.cyclic with
  -- The flag counts only where no mode is given.
  | none, some cyclic =>
    { s.options with extrapolation := some (if cyclic then .cyclic else .linear) }
  | _, _ => s.options

def splineOfFields (tag : Text) (fields : List (Text × Expr α)) :
    Except TrackError (Spline α) := do
  let s ← fields.foldlM (setSplineField tag) {}
  (Spline.make s.controls s.resolved).mapError fun e => .invalidArgument tag (.spline e)

-- The spline through some frames, one unit of time apart.
def splineOfFrames (tag : Text) (frames : List (Expr α)) : Except TrackError (Spline α) := do
  let controls ← frames.mapM (toControl tag)
  (Spline.make controls {}).mapError fun e => .invalidArgument tag (.spline e)

-- A spline; a frame stands for the spline that stays there.
def toSpline (e : Expr α) : Except TrackError (Spline α) :=
  match e with
  | tuple tag args =>
    if isSplineTag tag then splineOfFrames tag args else return .constant (← e.toFrame)
  | table (some tag) fields =>
    if isSplineTag tag then splineOfFields tag fields else return .constant (← e.toFrame)
  | _ => return .constant (← e.toFrame)

end Expr

end SceneMotion
