import SceneMotion.Double.Shortest
import SceneMotion.Scene.Load

namespace SceneMotion

inductive SampleError (α : Type) where
  | step (step : α)
  | duration (duration : α)
  -- There are more samples than a list can have.
  | full
  | scene (error : SceneError)

def SampleError.stepMessage (step : Float) : Text :=
  "Sample step must be a positive number, got " ++ Double.render step

def SampleError.durationMessage (duration : Float) : Text :=
  "Sample duration must be a non-negative number, got " ++ Double.render duration

def SampleError.fullMessage : Text :=
  "Invalid array length"

structure Sample (α : Type) where
  time : α
  frames : Fields (Frame α)

namespace Scene

variable {α : Type} [Scalar α]

-- The present frames of some members.
def record (s : Scene α) (names : List Text) : Sample α where
  time := s.time
  frames := names.foldl
    (fun frames name =>
      match s.frameOf name with
      | some f => frames.set name f
      | none => frames)
    []

-- One record before the first step and one after each.
def recordSteps (names : List Text) (step : α) : Nat → SceneM α (List (Sample α))
  | 0 => return [(← get).record names]
  | n + 1 => do
    let sample := (← get).record names
    Scene.step (Delta.ofNumber step)
    return sample :: (← recordSteps names step n)

-- The steps that fit into a duration. A quotient just under a whole number counts as that
-- number.
def stepCount? (duration step : α) : Option Nat :=
  Scalar.floor? (duration / step + 1 / 1000000000)

-- The most samples that a list can have.
def mostSamples : Nat :=
  0xFFFFFFFF

-- The steps that are made. The first sample comes before them, so that the last step finds no room for
-- its own if there are as many steps as places. A finite duration may still be infinitely many times a
-- very small step.
def stepsMade (duration step : α) : Nat :=
  match stepCount? duration step with
  | some count => min count mostSamples
  | none => mostSamples

def requireMember (name : Text) : SceneM α Unit := do
  if !(← get).members.has name then
    throw (.dependency (.notSampled name))

-- The members to be recorded: those asked for, or all that were loaded.
def loadSampled (v : Value α) (names? : Option (List Text)) : SceneM α (List Text) := do
  let report ← load v
  let names := names?.getD report.loaded
  names.forM requireMember
  return names

-- Loads a description into a scene and records it.
def sample (s : Scene α) (v : Value α) (duration step : α) (names? : Option (List Text)) :
    Except (SampleError α) (List (Sample α)) × Scene α :=
  if !(decide (0 < step) && Scalar.isFinite step) then (.error (.step step), s)
  else if !(decide (0 ≤ duration) && Scalar.isFinite duration) then
    (.error (.duration duration), s)
  else
    match (loadSampled v names?).run.run s with
    | (.error e, s) => (.error (.scene e), s)
    | (.ok names, s) =>
      match (recordSteps names step (stepsMade duration step)).run.run s with
      | (.error e, s) => (.error (.scene e), s)
      | (.ok samples, s) =>
        if samples.length ≤ mostSamples then (.ok samples, s) else (.error .full, s)

end Scene

end SceneMotion
