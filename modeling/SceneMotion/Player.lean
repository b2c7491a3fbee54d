import SceneMotion.Scene.Load

namespace SceneMotion

namespace Player

-- What listeners are told.
inductive Event (α : Type) where
  | loaded (report : LoadReport)
  | skipped (name : Text) (error : TrackError)
  | loadFailed (error : SceneError)
  | tick (time dt : α)
  | jumped (time : α)
  | playing (isPlaying : Bool)
  | ordered (names : List Text)

-- What a listener can listen for.
inductive Topic where
  | loaded
  | loadError
  | tick
  | time
  | order
  deriving DecidableEq

def Topic.all : List Topic :=
  [loaded, loadError, tick, time, order]

def Topic.name : Topic → Text
  | loaded => "scene-loaded"
  | loadError => "load-error"
  | tick => "tick"
  | time => "time-changed"
  | order => "order-changed"

def Event.topic {α : Type} : Event α → Topic
  | loaded _ => .loaded
  | skipped .. | loadFailed _ => .loadError
  | tick .. => .tick
  | jumped _ | playing _ => .time
  | ordered _ => .order

-- What a listener does to the player whenever it is told of something. One that listens for the time is
-- taken not to play or pause: it would be told of that in turn, and so without end. If it does so all the
-- same, the player plays or pauses, but none of the listeners is told.
inductive Reaction (α : Type) where
  | none
  | play
  | pause
  | leave
  | setRate (rate : α)

structure Listener (α : Type) where
  topic : Topic
  id : Text
  reaction : Reaction α

def Listener.matches {α : Type} (l : Listener α) (topic : Topic) (id : Text) : Bool :=
  l.topic = topic ∧ l.id = id

end Player

open Player

structure Player (α : Type) [Scalar α] where
  scene : Scene α
  sceneName : Option Text
  currentTime : α
  playing : Bool
  rate : α
  -- The names of the members in the order of their update, as last heard of.
  entities : List Text
  listeners : List (Listener α)
  -- Whether the player still hears of changes of the order.
  watching : Bool
  -- Which listeners have been told what, the latest first.
  told : List (Text × Event α)
  -- The warnings of the scene, the latest first.
  warnings : List Warning

-- An operation that may be refused. What it has done before it is refused stays done.
abbrev PlayerM (α : Type) [Scalar α] := ExceptT SceneError (StateM (Player α))

namespace Player

variable {α : Type} [Scalar α]

structure Options (α : Type) extends Scene.Options α where
  isPlaying : Option Bool := none
  rate : Option α := none

-- A player without a scene.
def empty (o : Options α) (clock : Clock α) : Player α where
  scene := .create o.toOptions clock
  sceneName := none
  currentTime := 0
  playing := o.isPlaying.getD false
  rate := o.rate.getD 1
  entities := []
  listeners := []
  watching := true
  told := []
  warnings := []

-- A listener that is there already keeps its place.
def subscribe (p : Player α) (l : Listener α) : Player α :=
  if p.listeners.any (·.matches l.topic l.id) then p
  else { p with listeners := p.listeners ++ [l] }

def unsubscribe (p : Player α) (topic : Topic) (id : Text) : Player α :=
  { p with listeners := p.listeners.filter (! ·.matches topic id) }

def audience (p : Player α) (topic : Topic) : List (Listener α) :=
  p.listeners.filter (·.topic = topic)

-- Tells a listener and lets it react, short of telling anybody else.
def deliver (p : Player α) (l : Listener α) (e : Event α) : Player α :=
  -- It is told before it reacts.
  let p := { p with told := (l.id, e) :: p.told }
  match l.reaction with
  | .none => p
  | .play => { p with playing := true }
  | .pause => { p with playing := false }
  | .leave => p.unsubscribe l.topic l.id
  | .setRate rate => { p with rate }

-- Tells all listeners, and nobody what they do then.
def tellPlainly (p : Player α) (e : Event α) : Player α :=
  (p.audience e.topic).foldl (fun p l => p.deliver l e) p

-- What the others hear of a reaction.
def Reaction.event? : Reaction α → Option (Event α)
  | .play => some (.playing true)
  | .pause => some (.playing false)
  | _ => Option.none

-- Tells a listener and lets it react.
def notify (e : Event α) (p : Player α) (l : Listener α) : Player α :=
  let p := p.deliver l e
  match l.reaction.event? with
  | some e' => p.tellPlainly e'
  | none => p

-- Tells all listeners of an event, and of whatever they make the player do.
def tell (p : Player α) (e : Event α) : Player α :=
  if e.topic = .time then p.tellPlainly e
  else (p.audience e.topic).foldl (notify e) p

-- Takes note of what the scene has told.
def hear (p : Player α) : Notice α → Player α
  | .sorted order =>
    if p.watching then { p with entities := order }.tell (.ordered order) else p
  | .warning w => { p with warnings := w :: p.warnings }
  | _ => p

-- Runs an operation on the scene, and takes note of what the scene tells even if the operation is
-- refused.
def onScene {β : Type} (operation : SceneM α β) : PlayerM α β := do
  let p ← get
  let (result, scene) := operation.run.run p.scene
  let (notices, scene) := scene.collect
  set (notices.foldl hear { p with scene })
  match result with
  | .ok b => return b
  | .error e => throw e

-- Sets out what a load has brought.
def afterLoad (p : Player α) (report : LoadReport) : Player α :=
  let p := report.skipped.foldl (fun p (name, e) => p.tell (.skipped name e)) p
  { p with
    sceneName := report.name
    currentTime := p.scene.time
    entities := p.scene.order }.tell (.loaded report)

def load (v : Value α) : PlayerM α LoadReport := do
  let report ← tryCatch (onScene (Scene.load v)) fun e => do
    -- Listeners hear of the failure first, the caller second.
    modify (·.tell (.loadFailed e))
    throw e
  modify (·.afterLoad report)
  return report

-- A new player, with a scene if one is described.
def create (o : Options α) (clock : Clock α) (description? : Option (Value α)) :
    Except SceneError Unit × Player α :=
  match description? with
  | none => (.ok (), empty o clock)
  | some v => (discard (load v)).run.run (empty o clock)

-- Moves the scene on by an amount of time at the present rate, if it plays or is forced to.
def step (dt : α) (force : Bool) : PlayerM α Unit := do
  let p ← get
  if p.playing || force then
    let scaled := dt * p.rate
    onScene (Scene.step (Delta.ofNumber scaled))
    modify fun p => { p with currentTime := p.scene.time }.tell (.tick p.scene.time scaled)

def seek (t : α) : PlayerM α Unit := do
  onScene (Scene.setTime t)
  modify fun p => { p with currentTime := p.scene.time }.tell (.jumped t)

def setPlaying (p : Player α) (isPlaying : Bool) : Player α :=
  { p with playing := isPlaying }.tell (.playing isPlaying)

def setRate (p : Player α) (rate : α) : Player α :=
  { p with rate }

-- Takes leave of the listeners and of the scene.
def destroy (p : Player α) : Player α :=
  { p with watching := false, listeners := [], scene := p.scene.destroy }

end Player

end SceneMotion
