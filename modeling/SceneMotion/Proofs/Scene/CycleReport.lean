import SceneMotion.Proofs.Dependency.Askers
import SceneMotion.Proofs.Dependency.Circuit
import SceneMotion.Proofs.Scene.Refusal

namespace SceneMotion

namespace Graph

variable {g : Graph} {c : Change} {e : DependencyError}

-- An edit meets no more than two names.
theorem edit_error_code (h : g.edit c = .error e) : e.code ≠ .cycleDetected := by
  cases c <;> simp only [edit] at h
  case set =>
    rw [setOrder] at h
    split at h
    case isTrue => cases h; exact DependencyError.Code.noConfusion
    split at h
    case isTrue => cases h; exact DependencyError.Code.noConfusion
    split at h <;> cases h
    exact DependencyError.Code.noConfusion
  case clear =>
    rw [clearOrder] at h
    split at h <;> cases h
    exact DependencyError.Code.noConfusion
  all_goals cases h

end Graph

namespace SceneM

variable {α β γ : Type} [Scalar α]

-- Holds of why an operation is refused and of the scene that it leaves behind then.
def Refuses (E : SceneError → Scene α → Prop) (x : SceneM α β) : Prop :=
  ∀ s e s', x.exec s = (.error e, s') → E e s'

namespace Refuses

variable {E : SceneError → Scene α → Prop} {x : SceneM α β}

protected theorem pure {b : β} : Refuses E (pure b : SceneM α β) := by
  rintro _ _ _ ⟨⟩

protected theorem throw {e : SceneError} (h : ∀ s, E e s) : Refuses E (throw e : SceneM α β) := by
  rintro s _ _ ⟨⟩
  exact h s

protected theorem modify {f : Scene α → Scene α} : Refuses E (modify f) := by
  rintro _ _ _ ⟨⟩

protected theorem set {s : Scene α} : Refuses E (set s : SceneM α PUnit) := by
  rintro _ _ _ ⟨⟩

protected theorem bind {f : β → SceneM α γ} (hx : Refuses E x) (hf : ∀ b, Refuses E (f b)) :
    Refuses E (x >>= f) := by
  intro s e s' h
  rcases hr : x.exec s with ⟨_ | b, s₁⟩
  case error =>
    cases (exec_bind_error hr).symm.trans h
    exact hx s _ _ hr
  case ok => exact hf b s₁ e s' ((exec_bind_ok hr).symm.trans h)

theorem get_bind {f : Scene α → SceneM α γ} (h : ∀ s, Refuses E (f s)) : Refuses E (get >>= f) :=
  fun s e s' he => h s s e s' (exec_get_bind.symm.trans he)

protected theorem forM {names : List γ} {f : γ → SceneM α PUnit} (h : ∀ b, Refuses E (f b)) :
    Refuses E (names.forM f) := by
  induction names
  case nil     => exact .pure
  case cons hi => exact .bind (h _) fun _ => hi

end Refuses
end SceneM

namespace Scene

open SceneM (Refuses)

variable {α : Type} [Scalar α] {s s' : Scene α} {e : DependencyError}

-- If it is a cycle that is reported, it is what sorting the members comes to.
def Attests : SceneError → Scene α → Prop
  | .dependency e, s => e.code = .cycleDetected → (s.graph.sort s.order).order = .error e
  | _, _             => True

theorem attests_of_code {e : DependencyError} (h : e.code ≠ .cycleDetected) (s : Scene α) :
    Attests (.dependency e) s :=
  fun hc => absurd hc h

namespace Attests

theorem sort : Refuses Attests (Scene.sort : SceneM α Unit) := by
  intro s e s' h
  cases hs : s.sorts
  case false => cases (exec_sort_of_not_sorts hs).symm.trans h
  case true  =>
    have ⟨log, hw⟩ := s.warned_eq
    rw [exec_sort_of_sorts hs, hw] at h
    cases ho : (s.graph.sort s.order).order <;> rw [ho] at h <;> cases h
    exact fun _ => ho

theorem editGraph (c : Change) : Refuses Attests (Scene.editGraph c : SceneM α Unit) := by
  intro s e s' h
  cases he : s.graph.edit c
  case ok    => cases (exec_editGraph_ok he).symm.trans h
  case error =>
    cases (exec_editGraph_error he).symm.trans h
    exact attests_of_code (Graph.edit_error_code he) s

theorem insert (m : Member α) : Refuses Attests (Scene.insert m) := by
  intro s e s' h
  cases hm : s.members.has m.name
  case false => cases (exec_insert_of_not_has hm).symm.trans h
  case true  =>
    cases (exec_insert_of_has hm).symm.trans h
    exact attests_of_code (by nofun) s

theorem remove (name : Text) : Refuses Attests (Scene.remove name : SceneM α Unit) := by
  intro s e s' h
  cases hm : s.members.has name
  case true  => cases (exec_remove_of_has hm).symm.trans h
  case false =>
    cases (exec_remove_of_not_has hm).symm.trans h
    exact attests_of_code (by nofun) s

theorem newEntity (name : Text) (o : Entity.Options α) :
    Refuses Attests (Scene.newEntity name o) := by
  intro s e s' h
  have ⟨_, _, _, hs, _⟩ := exec_newEntity s name o
  cases hs.symm.trans h

theorem commit (owner : Text) (added names : List Text) :
    Refuses Attests (Scene.commit owner added names : SceneM α Unit) := by
  induction names generalizing added <;> simp only [Scene.commit]
  case nil => exact .pure
  case cons name _ hi =>
    refine .get_bind fun s => ?_
    split
    case h_1 => exact .bind .set fun _ => hi _
    case h_2 e he =>
      have he : s.graph.edit (.set owner name) = .error e := he
      exact .bind (.forM fun _ => editGraph _) fun _ =>
        .throw (attests_of_code (Graph.edit_error_code he))

theorem adopt (owner : Text) (c : Track.Compiled α) : Refuses Attests (Scene.adopt owner c) := by
  simp only [Scene.adopt]
  split
  case h_1 => exact .pure
  case h_2 => exact .get_bind fun _ => .bind (commit _ _ _) fun _ => .pure

theorem createTrack (owner : Text) (source : Value α) :
    Refuses Attests (Scene.createTrack owner source) := by
  refine .bind (adopt _ _) fun result => ?_
  split
  case h_1 => exact .pure
  case h_2 => exact .throw fun _ => trivial

theorem dropOrder (owner name : Text) : Refuses Attests (Scene.dropOrder owner name : SceneM α Unit) := by
  refine .get_bind fun s => ?_
  split
  case isTrue  => exact editGraph _
  case isFalse => exact .pure

theorem setEntityTrack (name : Text) (source : Value α) :
    Refuses Attests (Scene.setEntityTrack name source) := by
  refine .get_bind fun s => ?_
  split
  case h_1 => exact .throw (attests_of_code (by nofun))
  case h_2 =>
    refine .bind (createTrack _ _) fun track => ?_
    exact .bind (.forM fun _ => dropOrder _ _) fun _ => .bind .modify fun _ => .pure

theorem step (delta : Delta α) : Refuses Attests (Scene.step delta) :=
  .bind sort fun _ => .modify

theorem setTime (t : α) : Refuses Attests (Scene.setTime t) :=
  .bind .modify fun _ => .bind (step _) fun _ => step _

theorem loadEntity (report : LoadReport) (name : Text) (d : EntityDescription α) :
    Refuses Attests (Scene.loadEntity report name d) := by
  refine .bind ?_ fun result => ?_
  · rw [describedEntity]
    split
    case h_1 => exact .pure
    case h_2 =>
      refine .bind ?_ fun result => ?_
      · cases d.track
        case none => exact .pure
        case some => exact .bind (adopt _ _) fun _ => .pure
      · split
        case h_1 => exact .pure
        case h_2 => exact .get_bind fun _ => .bind (newEntity _ _) fun _ => .pure
  · split
    case h_1 => exact .bind (insert _) fun _ => .pure
    case h_2 => exact .bind .modify fun _ => .pure

theorem loadEntities (report : LoadReport) (entities : List (Text × EntityDescription α)) :
    Refuses Attests (Scene.loadEntities report entities) := by
  induction entities generalizing report
  case nil     => exact .pure
  case cons hi => exact .bind (loadEntity _ _ _) fun _ => hi _

theorem load (v : Value α) : Refuses Attests (Scene.load v) := by
  rw [Scene.load]
  split
  case h_1 => exact .throw fun _ => trivial
  case h_2 =>
    refine .bind .modify fun _ => .bind (loadEntities _ _) fun _ => ?_
    exact .bind .modify fun _ => .bind (setTime _) fun _ => .pure

theorem perform (operation : Operation α) : Refuses Attests operation.perform := by
  cases operation
  case insert m       => exact insert m
  case remove name    => exact remove name
  case editGraph c    => exact editGraph c
  case newEntity      => exact .bind (newEntity _ _) fun _ => .pure
  case createTrack    => exact .bind (createTrack _ _) fun _ => .pure
  case setEntityTrack => exact .bind (setEntityTrack _ _) fun _ => .pure
  case sort           => exact sort
  case step delta     => exact step delta
  case setTime t      => exact setTime t
  case load v         => exact .bind (load v) fun _ => .pure
  all_goals exact .modify

end Attests

-- Whatever operation has sorted the members. What is reported is also what a pass finds that has only
-- kept in mind who has asked for whom.
theorem cycle_report_genuine (hr : s.Reachable ∨ s.Outlives) (operation : Operation α)
    (h : operation.perform.exec s = (.error (.dependency e), s')) (hc : e.code = .cycleDetected) :
    ∃ cycle, e.cycle? = some cycle ∧ s'.graph.Circuit s'.members.keys cycle ∧
      (∃ name dependency, e.entities = [name, dependency] ∧ [name, dependency] <:+ cycle) ∧
      (s'.graph.search s'.order).order = .error e := by
  have ht : Tidy s' := by
    have ht := Tidy.perform operation s (.of_reachable hr)
    rwa [h] at ht
  have hs : (s'.graph.sort s'.order).order = .error e := Attests.perform operation s _ s' h hc
  obtain ⟨cycle, hcycle, hround, hlast⟩ := Graph.sort_error_circuit ht.built ht.nodup hs
  refine ⟨cycle, hcycle, hround.mono fun a ha => ht.coherent.perm.mem_iff.mp ha, hlast, ?_⟩
  rw [Graph.search_eq_sort ht.nodup, hs]

def drone : Text := [68]

-- The camera asks for the base as well, but it is for the sake of the ship that the base is visited.
def tangle : Scene Float :=
  (create {} ⟨0, 0⟩).after
    [.insert (fixed camera 0), .insert (fixed ship 0), .insert (fixed base 0), .insert (fixed drone 0),
     .editGraph (.set camera base), .editGraph (.set camera ship), .editGraph (.set ship base),
     .editGraph (.set base drone), .editGraph (.set drone ship)]

def tangleGraph : Graph where
  dependencies := [(camera, [base, ship]), (ship, [base]), (base, [drone]), (drone, [ship])]
  dependents   := [(base, [camera, ship]), (ship, [camera, drone]), (drone, [base])]
  edgeCount    := 5

theorem tangle_graph : tangle.graph = tangleGraph := by
  have hd : tangle.graph.dependencies = tangleGraph.dependencies := by decide +kernel
  have hr : tangle.graph.dependents = tangleGraph.dependents := by decide +kernel
  have hc : tangle.graph.edgeCount = tangleGraph.edgeCount := by decide +kernel
  generalize tangle.graph = g at hd hr hc
  obtain ⟨_, _, _⟩ := g
  cases hd
  cases hr
  cases hc
  rfl

theorem tangle_order : tangle.order = [camera, ship, base, drone] := by
  decide +kernel

theorem tangle_sort : (tangle.graph.sort tangle.order).order =
    .error (.cycle drone ship [ship, base, drone, ship]) := by
  rw [tangle_graph, tangle_order]
  cbv

theorem sort_tangle : ∃ e s', sort.exec tangle = (.error (.dependency e), s') ∧
    e.cycle? = some [ship, base, drone, ship] ∧
    s'.graph.Circuit s'.members.keys [ship, base, drone, ship] ∧ e.entities = [drone, ship] := by
  have hs : tangle.sorts := by decide +kernel
  have h : sort.exec tangle = _ := exec_sort_of_sorts hs
  rw [tangle_sort] at h
  have ⟨cycle, hc, hround, _⟩ := cycle_report_genuine (.inl ⟨_, _, _, rfl⟩) .sort h rfl
  cases hc
  exact ⟨_, _, h, rfl, hround, rfl⟩

end Scene
end SceneMotion
