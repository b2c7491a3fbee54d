import SceneMotion.Dependency.UpdateOrder
import SceneMotion.Entity
import SceneMotion.Scene.Error
import SceneMotion.Scene.Notice
import SceneMotion.Track.Compile

namespace SceneMotion

structure Scene (α : Type) [Scalar α] where
  members : Table (Member α)
  -- The names of the members in the order of their update.
  order : List Text
  graph : Graph
  -- Whether the order may be out of date. It is brought up to date only when it is needed.
  needsSort : Bool
  time : α
  editing : Bool
  lastStructuralChangeTime : α
  lastChangeTime : α
  lastEditingTime : α
  clock : Clock α
  teleportDistance : α
  warnsOnDangling : Bool
  -- Whether anybody is still told what happens.
  live : Bool
  -- What has been told and not been collected yet, the latest first.
  log : List (Notice α)

-- An operation that may be refused. What it has done before it is refused stays done.
abbrev SceneM (α : Type) [Scalar α] := ExceptT SceneError (StateM (Scene α))

namespace Scene

variable {α : Type} [Scalar α]

structure Options (α : Type) where
  teleportDistance : Option α := none
  warnsOnDangling : Option Bool := none

def create (o : Options α) (clock : Clock α) : Scene α where
  members := []
  order := []
  graph := .empty
  needsSort := false
  time := 0
  editing := false
  lastStructuralChangeTime := clock.read.value
  lastChangeTime := clock.read.value
  lastEditingTime := clock.read.value
  clock := clock.read
  teleportDistance := o.teleportDistance.getD Entity.defaultTeleportDistance
  warnsOnDangling := o.warnsOnDangling.getD true
  live := true
  log := []

def member? (s : Scene α) (name : Text) : Option (Member α) :=
  s.members.get? name

def entity? (s : Scene α) (name : Text) : Option (Entity α) :=
  (s.member? name).bind (·.entity?)

-- The present frame of a member.
def frameOf (s : Scene α) (name : Text) : Option (Frame α) :=
  (s.member? name).map (·.frame)

def setMember (s : Scene α) (m : Member α) : Scene α :=
  { s with members := s.members.set m.name m }

-- Tells what has happened, if anybody is told.
def tell (s : Scene α) (n : Notice α) : Scene α :=
  if s.live then { s with log := n :: s.log } else s

-- Warnings are given whether anybody is told the rest or not.
def warn (s : Scene α) (w : Warning) : Scene α :=
  { s with log := .warning w :: s.log }

-- What has been told since the last time, and the scene that has told it.
def collect (s : Scene α) : List (Notice α) × Scene α :=
  (s.log.reverse, { s with log := [] })

def readClock (s : Scene α) : Scene α :=
  { s with clock := s.clock.read }

end Scene

-- Whether an edit can make an order invalid. Edges that go away with a name, or all at once,
-- cannot.
def Change.unsettles : Change → Bool
  | .set .. | .clear .. => true
  | .remove _ | .reset => false

namespace Scene

variable {α : Type} [Scalar α]

-- Puts the edited graph in place and tells of the edit.
def withGraph (s : Scene α) (c : Change) (g : Graph) : Scene α :=
  let told := if s.graph.announces c then s.tell (.change c) else s
  { told with graph := g, needsSort := s.needsSort || (s.live && c.unsettles) }

def editGraph (c : Change) : SceneM α Unit := do
  let s ← get
  match s.graph.edit c with
  | .ok g => set (s.withGraph c g)
  | .error e => throw (.dependency e)

def setOrder (dependent dependency : Text) : SceneM α Unit :=
  editGraph (.set dependent dependency)

def clearOrder (dependent dependency : Text) : SceneM α Unit :=
  editGraph (.clear dependent dependency)

-- Brings the update order up to date.
def sort : SceneM α Unit := do
  let s ← get
  if s.needsSort then
    -- Without edges any order will do, and nobody is told.
    if s.graph.isEmpty then
      set { s with needsSort := false }
    else
      let outcome := s.graph.sort s.order
      if s.warnsOnDangling then
        modify fun s => outcome.dangling.foldl (fun s (a, b) => s.warn (.dangling a b)) s
      match outcome.order with
      | .error e => throw (.dependency e)
      | .ok order => modify fun s => { s with order, needsSort := false }.tell (.sorted order)

-- One step of one member.
def simulateMember (s : Scene α) (name : Text) (delta : Delta α) : Scene α :=
  match s.member? name with
  | none => s
  | some m =>
    let (m, clock) := m.simulate s.frameOf s.time delta s.clock
    { s.setMember m with clock }

-- One step of one member, and the time of its latest change.
def updateMember (s : Scene α) (name : Text) (delta : Delta α) : Scene α :=
  let s := s.simulateMember name delta
  match s.member? name with
  | none => s
  | some m => { s with lastChangeTime := Scalar.max s.lastChangeTime m.lastChangeTime }

-- Moves the time on and all members after it.
def advance (s : Scene α) (delta : Delta α) : Scene α :=
  let s := { s with time := s.time + delta.amount }
  -- A member sees those before it in the order where they are now, and those after it where they
  -- were.
  let s := s.order.foldl (fun s name => s.updateMember name delta) s
  let s :=
    if s.editing then { s.readClock with lastEditingTime := s.readClock.clock.value } else s
  s.tell (.simulated s.time delta)

def step (delta : Delta α) : SceneM α Unit := do
  sort
  modify (·.advance delta)

-- Jumps to a time. The second step makes the previous frames those of the new time as well.
def setTime (t : α) : SceneM α Unit := do
  modify fun s => { s with time := t }
  step .jump
  step .jump

def setEditing (s : Scene α) (editing : Bool) : Scene α :=
  { s.readClock with editing, lastEditingTime := s.readClock.clock.value }

-- Makes an entity for a scene, without putting it in.
def newEntity (name : Text) (o : Entity.Options α) : SceneM α (Entity α) := do
  modify readClock
  let s ← get
  let e := Entity.create name o s.frameOf s.clock.value
  if e.isFixedWithTrack then
    modify (·.warn (.trackOnFixed name))
  return e

-- A scene with a new member, which has gone through no step yet. Edges that name it may be older
-- than the member.
def withMember (s : Scene α) (m : Member α) : Scene α :=
  { s.readClock with
    members := s.members.set m.name m
    order := s.order ++ [m.name]
    needsSort := s.needsSort || s.graph.involves m.name
    lastStructuralChangeTime := s.readClock.clock.value }

def insert (m : Member α) : SceneM α Unit := do
  let s ← get
  if s.members.has m.name then
    throw (.dependency (.duplicateEntity m.name))
  -- A step of no time puts the member on its track.
  set (((s.withMember m).simulateMember m.name (.by 0)).tell (.inserted m.name))

def remove (name : Text) : SceneM α Unit := do
  let s ← get
  if !s.members.has name then
    throw (.dependency (.unknownEntity name))
  editGraph (.remove name)
  -- The others keep their order: without the edges of the name it is no less valid.
  modify fun s =>
    { s.readClock with
      members := s.members.erase name
      order := s.order.erase name
      lastStructuralChangeTime := s.readClock.clock.value }.tell (.removed name)

-- Takes out everything and goes back to time zero.
def clear (s : Scene α) : Scene α :=
  let s := (s.withGraph .reset .empty).readClock
  { s with
    members := []
    order := []
    needsSort := false
    time := 0
    lastStructuralChangeTime := s.clock.value
    lastChangeTime := s.clock.value }

-- Puts an entity after others. If one of them is refused, those before it are taken back.
def commit (owner : Text) (added : List Text) : List Text → SceneM α Unit
  | [] => pure ()
  | name :: rest => do
    let s ← get
    match s.graph.setOrder owner name with
    | .ok g =>
      set (s.withGraph (.set owner name) g)
      commit owner (added ++ [name]) rest
    | .error e =>
      added.forM (clearOrder owner)
      throw (.dependency e)

-- Takes on the dependencies of a compiled track, all or none.
def adopt (owner : Text) (c : Track.Compiled α) : SceneM α (Except TrackError (Track α)) := do
  match c.result with
  | .error e => return .error e
  | .ok track =>
    let s ← get
    commit owner [] (c.mentioned.foldl (s.graph.note owner) [])
    return .ok track

-- Compiles a track and takes on its dependencies.
def createTrack (owner : Text) (source : Value α) : SceneM α (Track α) := do
  match ← adopt owner (Track.ofValue owner source) with
  | .ok track => return track
  | .error e => throw (.track e)

-- Drops an ordering, if it is there.
def dropOrder (dependent dependency : Text) : SceneM α Unit := do
  if (← get).graph.hasOrder dependent dependency then
    clearOrder dependent dependency

-- Puts an entity on a new track. The dependencies that only the old one had go.
def setEntityTrack (name : Text) (source : Value α) : SceneM α (Track α) := do
  match (← get).entity? name with
  | none => throw (.dependency (.notTrackDriven name))
  | some e =>
    let before := (e.track.map (·.reads)).getD []
    -- If the new track is refused, the old one stays, with all that it depends on.
    let track ← createTrack name source
    (before.filter (· ∉ track.reads)).forM (dropOrder name)
    modify (·.setMember (.entity (e.setTrack (some track))))
    return track

-- Says goodbye; from now on nobody is told anything.
def destroy (s : Scene α) : Scene α :=
  { s.tell .completed with live := false }

end Scene

end SceneMotion
