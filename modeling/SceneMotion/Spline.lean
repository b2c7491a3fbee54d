import SceneMotion.Frame
import SceneMotion.Text

namespace SceneMotion

inductive Extrapolation where
  | cyclic
  | linear
  | clamp
  deriving DecidableEq

inductive Interpolation where
  | linear
  | cubic
  deriving DecidableEq

def Extrapolation.name : Extrapolation → Text
  | cyclic => "cyclic"
  | linear => "linear"
  | clamp => "clamp"

def Extrapolation.all : List Extrapolation :=
  [cyclic, linear, clamp]

def Interpolation.name : Interpolation → Text
  | linear => "linear"
  | cubic => "cubic"

def Interpolation.all : List Interpolation :=
  [linear, cubic]

-- Why controls and times make no spline.
inductive SplineError where
  | timeCount (controls times : Nat)
  | unordered (index : Nat)
  deriving DecidableEq

def SplineError.message : SplineError → Text
  | timeCount controls times =>
    "Spline has " ++ Text.ofNat controls ++ " control points but " ++ Text.ofNat times ++ " times"
  | unordered index =>
    "Spline times must be strictly increasing (index " ++ Text.ofNat index ++ ")"

-- The index of the first number that does not lie above the one before it.
def descent? {α : Type} [Scalar α] : List α → Option Nat
  | a :: b :: rest => if a < b then (descent? (b :: rest)).map (· + 1) else some 1
  | _ => none

structure Spline (α : Type) [Scalar α] where
  controls : List (Pose α)
  times : List α
  extrapolation : Extrapolation
  interpolation : Interpolation
  -- The time from the last control of a cyclic spline back to the first; the average interval
  -- between controls unless it is positive.
  finalInterval : α
  length_times : times.length = controls.length
  ascending : descent? times = none

namespace Spline

variable {α : Type} [Scalar α]

-- What may be left open about a spline.
structure Options (α : Type) where
  times : Option (List α) := none
  extrapolation : Option Extrapolation := none
  interpolation : Option Interpolation := none
  finalInterval : Option α := none

-- Unless told otherwise, controls follow one another after one unit of time each, and the spline
-- is a cubic one that goes round.
def make (controls : List (Pose α)) (options : Options α) : Except SplineError (Spline α) :=
  let times := options.times.getD ((List.range controls.length).map fun (i : Nat) => (i : α))
  if length_times : times.length = controls.length then
    match ascending : descent? times with
    | none => .ok {
        controls, times, length_times, ascending
        extrapolation := options.extrapolation.getD .cyclic
        interpolation := options.interpolation.getD .cubic
        finalInterval := options.finalInterval.getD (-1) }
    | some index => .error (.unordered index)
  else
    .error (.timeCount controls.length times.length)

-- The spline that stays at one frame.
def constant (f : Frame α) : Spline α where
  controls := [.ofFrame f]
  times := [0]
  extrapolation := .cyclic
  interpolation := .cubic
  finalInterval := -1
  length_times := rfl
  ascending := rfl

def size (s : Spline α) : Nat :=
  s.controls.length

def time (s : Spline α) (i : Nat) : α :=
  s.times.getD i 0

def control (s : Spline α) (i : Nat) : Pose α :=
  s.controls.getD i (.ofFrame .identity)

def first (s : Spline α) : α :=
  s.time 0

def last (s : Spline α) : α :=
  s.time (s.size - 1)

-- The time that the closing segment takes.
def closingInterval (s : Spline α) : α :=
  if 0 < s.finalInterval then s.finalInterval
  else if s.size < 2 then 1
  else (s.last - s.first) / ((s.size - 1 : Nat) : α)

def period (s : Spline α) : α :=
  s.last - s.first + s.closingInterval

-- The times of the controls and the time at which the first control comes round again.
def knots (s : Spline α) : List α :=
  s.times ++ [s.first + s.period]

-- The last index up to a given one whose time is not after `t`, or the first index.
def segmentUpTo (times : List α) (t : α) : Nat → Nat
  | 0 => 0
  | i + 1 => if t < times.getD (i + 1) 0 then segmentUpTo times t i else i + 1

-- The index of the control that stands for a control outside the spline: going round, or staying
-- at the end.
def controlIndex (s : Spline α) (i : Int) : Nat :=
  match s.extrapolation with
  | .cyclic => (i % s.size).toNat
  | _ => (min (max i 0) (s.size - 1)).toNat

def controlAt (s : Spline α) (i : Int) : Pose α :=
  s.control (s.controlIndex i)

def cubic (p₀ p₁ p₂ p₃ u : α) : α :=
  let u2 := u * u
  let u3 := u2 * u
  Scalar.half *
    (2 * p₁ + (-p₀ + p₂) * u + (2 * p₀ - 5 * p₁ + 4 * p₂ - p₃) * u2 +
      (-p₀ + 3 * p₁ - 3 * p₂ + p₃) * u3)

-- The cubic through `p₁` and `p₂` whose slopes there are those of the chords of the neighbours.
def catmullRom (p₀ p₁ p₂ p₃ : Vec3 α) (u : α) : Vec3 α :=
  ⟨cubic p₀.x p₁.x p₂.x p₃.x u, cubic p₀.y p₁.y p₂.y p₃.y u, cubic p₀.z p₁.z p₂.z p₃.z u⟩

-- The translation a fraction `u` of the way along segment `i`.
def translationOn (s : Spline α) (i : Nat) (u : α) : Vec3 α :=
  let p₁ := (s.controlAt i).translation
  let p₂ := (s.controlAt (i + 1)).translation
  match s.interpolation with
  | .linear => p₁.lerp p₂ u
  | .cubic =>
    catmullRom (s.controlAt (i - 1)).translation p₁ p₂ (s.controlAt (i + 2)).translation u

-- The frame a fraction `u` of the way along segment `i`.
def frameOn (s : Spline α) (i : Nat) (u : α) : Frame α :=
  let turn := (s.controlAt i).rotation.slerp (s.controlAt (i + 1)).rotation u
  -- A turn that was mixed linearly is no longer of length one.
  ⟨turn.normalize.toMat3, s.translationOn i u⟩

-- Goes on along the line from `a` to `b`, turned as `b` or `a` is at the end in question.
def beyond (a b : Pose α) (u : α) (turn : Quat α) : Frame α :=
  ⟨turn.toMat3, a.translation.lerp b.translation u⟩

-- A time brought into the first period.
def wrap (s : Spline α) (t : α) : α :=
  s.first + Scalar.modulo (t - s.first) s.period

def frameWithin (s : Spline α) (knots : List α) (start : Nat) (t : α) : Frame α :=
  let i := segmentUpTo knots t start
  s.frameOn i ((t - knots.getD i 0) / (knots.getD (i + 1) 0 - knots.getD i 0))

def frameBefore (s : Spline α) (t : α) : Frame α :=
  if s.extrapolation = .clamp ∨ (t == s.first) = true then
    (s.control 0).toFrame
  else
    beyond (s.control 0) (s.control 1) ((t - s.first) / (s.time 1 - s.first))
      (s.control 0).rotation

def frameAfter (s : Spline α) (t : α) : Frame α :=
  let n := s.size
  if s.extrapolation = .clamp ∨ (t == s.last) = true then
    (s.control (n - 1)).toFrame
  else
    beyond (s.control (n - 2)) (s.control (n - 1))
      ((t - s.time (n - 2)) / (s.last - s.time (n - 2))) (s.control (n - 1)).rotation

def frameAt (s : Spline α) (t : α) : Frame α :=
  match s.controls with
  | [] => .identity
  | [p] => p.toFrame
  -- With two controls at least, every segment has an end.
  | _ =>
    if s.extrapolation = .cyclic then s.frameWithin s.knots (s.size - 1) (s.wrap t)
    else if t ≤ s.first then s.frameBefore t
    else if s.last ≤ t then s.frameAfter t
    else s.frameWithin s.times (s.size - 2) t

end Spline

end SceneMotion
