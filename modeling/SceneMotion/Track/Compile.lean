import SceneMotion.Expr.Schema
import SceneMotion.Track
import SceneMotion.Track.Literal
import SceneMotion.Track.Variables

namespace SceneMotion

namespace Track

-- The state of a compilation.
structure Notes where
  -- The label for the next name that is bound.
  label : Nat
  mentioned : List Text

abbrev CompileM := ExceptT TrackError (StateM Notes)

variable {α : Type} [Scalar α]

-- Notes that the owner mentions an entity, which stands even if the compilation fails later.
def mention (name : Text) : CompileM Unit :=
  modify fun n => { n with mentioned := n.mentioned ++ [name] }

-- Labels a track that a name is bound to, unless it is known under another name already.
def share (track : Track α) : CompileM (Track α) :=
  if track.motion.isShared then
    return track
  else do
    let n ← get
    set { n with label := n.label + 1 }
    return shared n.label track

def invalid {β : Type} (tag : Text) (fault : ArgumentFault) : CompileM β :=
  throw (.invalidArgument tag fault)

inductive Form where
  | entity
  | transform
  | combine
  | orbit
  | lookAt
  | timeShift
  | bind
  | follow
  deriving DecidableEq

def forms : Table Form :=
  [("entity", .entity), ("transform", .transform), ("combine", .combine), ("orbit", .orbit),
   ("lookAt", .lookAt), ("timeShift", .timeShift), ("with", .bind), ("follow", .follow)]

namespace Form

-- The least and the greatest number of arguments.
def arity : Form → Nat × Nat
  | entity => (1, 2)
  | lookAt => (2, 3)
  | _ => (2, 2)

end Form

-- The name in a mention of an entity. Nobody follows itself.
def entityName (owner tag : Text) : Expr α → Except TrackError Text
  | .text name =>
    if name = [] then .error (.invalidArgument tag .entityName)
    else if name = owner then .error (.invalidArgument tag (.followsItself name))
    else .ok name
  | _ => .error (.invalidArgument tag .entityName)

def compileEntity (owner tag : Text) (name : Expr α) (offset? : Option (Expr α)) :
    CompileM (Track α) := do
  let name ← entityName owner tag name
  -- The mention is noted last: an entity at an offset that is no frame is not mentioned.
  let offset ← match offset? with
    | some e => e.toFrame
    | none => pure .identity
  mention name
  return entity name offset

def compileOrbit (tag : Text) (radius period : Expr α) : CompileM (Track α) := do
  let radius ← radius.expectNumber tag "radius"
  let period ← period.expectNumber tag "period"
  if period == 0 then invalid tag .zeroPeriod
  return orbit radius period

-- Bindings stand in a table without a tag.
def isUntagged (tag? : Option Text) : Bool :=
  tag?.all (· = [])

mutual

def compile (owner : Text) (vars : Variables (Track α)) : Expr α → CompileM (Track α)
  | .text name =>
    match vars.lookup name with
    | some track => pure track
    | none => throw (.unboundVariable name)
  | .tuple tag args =>
    if (Expr.tuple tag args).isFrameLiteral then
      return spline (← (Expr.tuple tag args).toSpline) false
    else
      match forms.get? tag with
      | some form => compileForm owner vars tag form args
      | none => throw (.unrecognizedTrack tag)
  | e =>
    if e.isFrameLiteral then return spline (← e.toSpline) false
    else throw (.unrecognizedTrack e.describe)

-- Compiles the arguments of a tag.
def compileForm (owner : Text) (vars : Variables (Track α)) (tag : Text) :
    Form → List (Expr α) → CompileM (Track α)
  | .follow, _ => throw (.notImplemented tag)
  | .entity, [name] => compileEntity owner tag name none
  | .entity, [name, offset] => compileEntity owner tag name (some offset)
  | .transform, [a, b] => return transform (← compile owner vars a) (← compile owner vars b)
  | .combine, [a, b] => return combine (← compile owner vars a) (← compile owner vars b)
  | .orbit, [radius, period] => compileOrbit tag radius period
  | .lookAt, [base, target] =>
    return lookAt (← compile owner vars base) (← compile owner vars target) .unitY
  | .lookAt, [base, target, up] => do
    -- If the direction is no good, nothing in the tracks is mentioned.
    let up ← up.toVector
    return lookAt (← compile owner vars base) (← compile owner vars target) up
  | .timeShift, [track, dt] => do
    let track ← compile owner vars track
    -- What cannot be shifted is reported before an amount that is no number.
    if !track.isShiftable then invalid tag .notShiftable
    return timeShift track (← dt.expectNumber tag "dt")
  | .bind, [.table tag? fields, body] => do
    if !isUntagged tag? then invalid tag .bindings
    -- The names are in scope in the body alone, not in each other's values.
    let bindings ← compileBindings owner vars fields
    compile owner (vars.extend.setAll bindings) body
  | .bind, [_, _] => invalid tag .bindings
  | form, args => invalid tag (.arity form.arity.1 form.arity.2 args.length)

-- Every value is compiled in the scope around the bindings.
def compileBindings (owner : Text) (vars : Variables (Track α)) :
    List (Text × Expr α) → CompileM (List (Text × Track α))
  | [] => return []
  | (name, e) :: rest => do
    let track ← share (← compile owner vars e)
    return (name, track) :: (← compileBindings owner vars rest)

end

-- What compiling an expression comes to.
structure Compiled (α : Type) [Scalar α] where
  result : Except TrackError (Track α)
  -- The entities mentioned, up to the point of failure if there is one.
  mentioned : List Text

-- Compiles an expression for the entity that is to own the track.
def ofExpr (owner : Text) (e : Expr α) : Compiled α :=
  match (compile owner .empty e).run.run ⟨0, []⟩ with
  | (result, notes) => ⟨result.map core, notes.mentioned⟩

-- Compiles data, which must be an expression to begin with.
def ofValue (owner : Text) (v : Value α) : Compiled α :=
  match (v.checkExpr []).toExcept with
  | .ok e => ofExpr owner e
  | .error [] => ⟨.error (.malformed ⟨[], .noAlternative⟩), []⟩
  | .error (issue :: _) => ⟨.error (.malformed issue), []⟩

end Track

end SceneMotion
