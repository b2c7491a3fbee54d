import SceneMotion.Proofs.Scene.Exec

namespace SceneMotion

variable {α : Type} [Scalar α]

namespace Scene

variable {s : Scene α} {m : Member α} {name : Text} {c : Change} {g : Graph} {e : DependencyError}

theorem exec_editGraph_ok (h : s.graph.edit c = .ok g) :
    (editGraph c).exec s = (.ok (), s.withGraph c g) := by
  simp [editGraph, h]

theorem exec_editGraph_error (h : s.graph.edit c = .error e) :
    (editGraph c).exec s = (.error (.dependency e), s) := by
  simp [editGraph, h]

theorem exec_insert_of_has (h : s.members.has m.name) :
    (insert m).exec s = (.error (.dependency (.duplicateEntity m.name)), s) := by
  simp [insert, h]

theorem exec_insert_of_not_has (h : s.members.has m.name = false) : (insert m).exec s =
    (.ok (), ((s.withMember m).simulateMember m.name (.by 0)).tell (.inserted m.name)) := by
  simp [insert, h]

theorem exec_insert (h : s.members.has m.name = false) : ∃ log, (insert m).exec s =
    (.ok (), { (s.withMember m).simulateMember m.name (.by 0) with log }) := by
  have ⟨log, ht⟩ := tell_eq ((s.withMember m).simulateMember m.name (.by 0)) (.inserted m.name)
  exact ⟨log, by rw [exec_insert_of_not_has h, ht]⟩

theorem exec_remove_of_not_has (h : s.members.has name = false) :
    (remove name).exec s = (.error (.dependency (.unknownEntity name)), s) := by
  simp [remove, h]

-- A scene without a member whose edges have gone.
def withoutMember (s : Scene α) (name : Text) : Scene α :=
  { s.readClock with
    members := s.members.erase name
    order := s.order.erase name
    lastStructuralChangeTime := s.readClock.clock.value }

theorem exec_remove_of_has (h : s.members.has name) : (remove name).exec s =
    (.ok (), ((s.withGraph (.remove name) (s.graph.removeEntity name)).withoutMember name).tell
      (.removed name)) := by
  have hu : (!s.members.has name) = false := by simp [h]
  have he : (editGraph (.remove name)).exec s = _ := exec_editGraph_ok rfl
  simp only [remove, SceneM.exec_get_bind, hu, Bool.false_eq_true, if_false, SceneM.exec_bind_ok he]
  rfl

theorem exec_remove (h : s.members.has name) : ∃ log, (remove name).exec s = (.ok (), { s with
    graph := s.graph.removeEntity name
    members := s.members.erase name
    order := s.order.erase name
    clock := s.clock.read
    lastStructuralChangeTime := s.clock.read.value
    log }) := by
  have ⟨log₁, hw⟩ := s.withGraph_eq (.remove name) (s.graph.removeEntity name)
  simp only [Change.unsettles, Bool.and_false, Bool.or_false] at hw
  have ⟨log, ht⟩ := tell_eq
    (withoutMember { s with graph := s.graph.removeEntity name, log := log₁ } name) (.removed name)
  exact ⟨log, by rw [exec_remove_of_has h, hw, ht]; rfl⟩

theorem exec_newEntity (s : Scene α) (name : Text) (o : Entity.Options α) : ∃ e clock log,
    (newEntity name o).exec s = (.ok e, { s with clock, log }) ∧ e.name = name ∧
      e.track = o.track ∧ e.frame = o.startFrame s.frameOf := by
  simp only [newEntity, SceneM.exec_modify_bind, SceneM.exec_get_bind]
  split
  case isTrue  => exact ⟨_, _, _, rfl, rfl, rfl, rfl⟩
  case isFalse => exact ⟨_, _, _, rfl, rfl, rfl, rfl⟩

theorem preserves_loadEntities {P : Scene α → Prop}
    (h : ∀ report name d, SceneM.Preserves P (loadEntity report name d)) (report : LoadReport)
    (entities : List (Text × EntityDescription α)) :
    SceneM.Preserves P (loadEntities report entities) := by
  induction entities generalizing report
  case nil  => exact .pure
  case cons hi => exact .bind (h _ _ _) fun _ => hi _

-- Is not affected by an edit of the graph.
def StableUnderEdits (P : Scene α → Prop) : Prop :=
  ∀ s c g, s.graph.edit c = .ok g → P s → P (s.withGraph c g)

namespace StableUnderEdits

open SceneM (Preserves)

variable {P : Scene α → Prop}

theorem editGraph (h : StableUnderEdits P) (c : Change) : Preserves P (Scene.editGraph c) := by
  refine .get_bind fun s hs => ?_
  split
  case h_1 g he => exact h s c g he hs
  case h_2      => exact hs

-- A commit that is refused half way takes back what it has done edge by edge.
theorem commit (h : StableUnderEdits P) {owner : Text} {added names : List Text} :
    Preserves P (Scene.commit owner added names) := by
  induction names generalizing added <;> simp only [Scene.commit]
  case nil => exact .pure
  case cons hi =>
    refine .get_bind fun s hs => ?_
    split
    case h_1 g he => exact hi _ (h s (.set ..) g he hs)
    case h_2      => exact Preserves.bind (.forM fun _ => h.editGraph _) (fun _ => .throw) s hs

theorem adopt (h : StableUnderEdits P) (owner : Text) (c : Track.Compiled α) :
    Preserves P (Scene.adopt owner c) := by
  simp only [Scene.adopt]
  split
  case h_1 => exact .pure
  case h_2 => exact .get_bind fun s hs => Preserves.bind h.commit (fun _ => .pure) s hs

theorem createTrack (h : StableUnderEdits P) (owner : Text) (source : Value α) :
    Preserves P (Scene.createTrack owner source) := by
  refine .bind (h.adopt _ _) fun result => ?_
  split
  case h_1 => exact .pure
  case h_2 => exact .throw

theorem dropOrder (h : StableUnderEdits P) (owner name : Text) :
    Preserves P (Scene.dropOrder owner name) := by
  refine .get_bind fun s hs => ?_
  split
  case isTrue  => exact h.editGraph _ s hs
  case isFalse => exact hs

end StableUnderEdits
end Scene

-- A change to an entity by whoever holds it.
inductive EntityEdit (α : Type) [Scalar α]
  | frame (f : Frame α) (updatePrevious : Bool)
  | track (track : Option (Track α))
  | spline (curve : Spline α)
  | offset (f : Frame α)

def EntityEdit.apply (e : Entity α) (clock : Clock α) : EntityEdit α → Entity α × Clock α
  | frame f updatePrevious => e.setFrame f updatePrevious clock
  | track t                => (e.setTrack t, clock)
  | spline curve           => (e.setSpline curve, clock)
  | offset f               => (e.setTrack (e.track.map (·.setOffset f)), clock)

theorem EntityEdit.apply_name {e : Entity α} {clock : Clock α} {edit : EntityEdit α} :
    (edit.apply e clock).1.name = e.name := by
  cases edit <;> try rfl
  case frame f updatePrevious =>
    cases updatePrevious <;> simp only [apply, Entity.setFrame, Bool.false_eq_true, if_true, if_false]
    all_goals split <;> rfl

-- Everything that can be done to a scene before it is destroyed. The graph of a scene may be edited
-- directly, and so may its entities; the clock is not the scene's own.
inductive Operation (α : Type) [Scalar α]
  | insert (m : Member α)
  | remove (name : Text)
  | clear
  | editGraph (c : Change)
  | newEntity (name : Text) (o : Entity.Options α)
  | editEntity (name : Text) (edit : EntityEdit α)
  | createTrack (owner : Text) (source : Value α)
  | setEntityTrack (name : Text) (source : Value α)
  | sort
  | step (delta : Delta α)
  | setTime (t : α)
  | setEditing (editing : Bool)
  | load (v : Value α)
  | collect
  | setClock (clock : Clock α)

namespace Scene

-- An entity that is not there is not changed.
def editEntity (s : Scene α) (name : Text) (edit : EntityEdit α) : Scene α :=
  match s.entity? name with
  | none   => s
  | some e => { s.setMember (.entity (edit.apply e s.clock).1) with clock := (edit.apply e s.clock).2 }

end Scene

namespace Operation

def perform : Operation α → SceneM α PUnit
  | insert m                   => Scene.insert m
  | remove name                => Scene.remove name
  | clear                      => modify Scene.clear
  | editGraph c                => Scene.editGraph c
  | newEntity name o           => do let _ ← Scene.newEntity name o
  | editEntity name edit       => modify (·.editEntity name edit)
  | createTrack owner source   => do let _ ← Scene.createTrack owner source
  | setEntityTrack name source => do let _ ← Scene.setEntityTrack name source
  | sort                       => Scene.sort
  | step delta                 => Scene.step delta
  | setTime t                  => Scene.setTime t
  | setEditing editing         => modify (·.setEditing editing)
  | load v                     => do let _ ← Scene.load v
  | collect                    => modify (·.collect.2)
  | setClock clock             => modify fun s => { s with clock }

end Operation

namespace Scene

-- The scene after some operations, whether they went through or not.
def after (s : Scene α) (operations : List (Operation α)) : Scene α :=
  operations.foldl (fun s operation => (operation.perform.exec s).2) s

theorem after_append {s : Scene α} {earlier later : List (Operation α)} :
    s.after (earlier ++ later) = (s.after earlier).after later :=
  List.foldl_append

def Reachable (s : Scene α) : Prop :=
  ∃ o clock operations, s = (create o clock).after operations

end Scene
end SceneMotion
