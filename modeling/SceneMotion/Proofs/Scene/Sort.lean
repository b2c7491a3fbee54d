import SceneMotion.Double
import SceneMotion.Proofs.Dependency.EdgeList
import SceneMotion.Proofs.Dependency.UpdateOrder
import SceneMotion.Proofs.Scene.Exec

namespace SceneMotion

-- Without edges any order will do.
theorem UpdateOrder.valid_of_isEmpty {g : Graph} (hg : g.Built) (he : g.isEmpty) (order : List Text) :
    Valid g order := by
  have ⟨edges, hr⟩ := hg.represents
  intro a _ b _ hab
  rw [hr.hasOrder_iff, hr.isEmpty_iff.mp he] at hab
  contradiction

namespace Scene

variable {α : Type} [Scalar α] {s : Scene α} {order : List Text} {e : DependencyError}

theorem exec_sort_of_not_needsSort (h : s.needsSort = false) : sort.exec s = (.ok (), s) := by
  simp [sort, h]

-- Whether there is anything to be sorted, and to be told when it is.
def sorts (s : Scene α) : Bool :=
  s.needsSort && !s.graph.isEmpty

-- The scene once dangling edges have been warned of.
def warned (s : Scene α) : Scene α :=
  if s.warnsOnDangling then
    (s.graph.sort s.order).dangling.foldl (fun s (a, b) => s.warn (.dangling a b)) s
  else
    s

-- What no such warning takes away is still there.
theorem warned_of {P : Scene α → Prop} (h : P s)
    (hw : ∀ s a b, P s → P (s.warn (.dangling a b))) : P s.warned := by
  rw [warned]
  split
  case isTrue  => exact List.foldlRecOn _ _ h fun s hs pair _ => hw s pair.1 pair.2 hs
  case isFalse => exact h

theorem warned_eq (s : Scene α) : ∃ log, s.warned = { s with log } := by
  refine warned_of (P := fun s' => ∃ log, s' = { s with log }) ⟨s.log, rfl⟩ ?_
  rintro _ a b ⟨log, rfl⟩
  exact ⟨_, rfl⟩

theorem exec_sort_of_sorts (h : s.sorts) : sort.exec s =
    match (s.graph.sort s.order).order with
    | .ok order => (.ok (), { s.warned with order, needsSort := false }.tell (.sorted order))
    | .error e  => (.error (.dependency e), s.warned) := by
  have ⟨hs, he⟩ : s.needsSort ∧ s.graph.isEmpty = false := by simpa [sorts] using h
  simp only [sort, SceneM.exec_get_bind, if_pos hs, he, Bool.false_eq_true, if_false, warned]
  split <;> cases (s.graph.sort s.order).order <;> rfl

theorem exec_sort_of_not_sorts (h : s.sorts = false) :
    sort.exec s = (.ok (), { s with needsSort := false }) := by
  cases hs : s.needsSort
  case false => rw [exec_sort_of_not_needsSort hs, ← hs]
  case true  =>
    have he : s.graph.isEmpty := by simpa [sorts, hs] using h
    simp [sort, hs, he]

theorem valid_of_not_sorts (hg : s.graph.Built)
    (hv : s.needsSort = false → UpdateOrder.Valid s.graph s.order) (hs : s.sorts = false) :
    UpdateOrder.Valid s.graph s.order := by
  rcases Bool.and_eq_false_iff.mp hs with hs | he
  · exact hv hs
  · exact UpdateOrder.valid_of_isEmpty hg (by simpa using he) s.order

-- A pass either leaves a valid order of the same names, or meets a cycle and leaves everything alone.
theorem exec_sort (hg : s.graph.Built) (hn : s.order.Nodup)
    (hv : s.needsSort = false → UpdateOrder.Valid s.graph s.order) :
    (∃ order log, sort.exec s = (.ok (), { s with order, needsSort := false, log }) ∧
      order.Perm s.order ∧ UpdateOrder.Valid s.graph order) ∨
    (∃ e log, sort.exec s = (.error (.dependency e), { s with log }) ∧
      e.code = .cycleDetected ∧ s.needsSort ∧ s.graph.Cyclic s.order) := by
  cases hs : s.sorts
  case false =>
    exact .inl ⟨s.order, s.log, exec_sort_of_not_sorts hs, .refl _, valid_of_not_sorts hg hv hs⟩
  case true =>
    have ⟨log, hw⟩ := s.warned_eq
    rw [exec_sort_of_sorts hs, hw]
    cases ho : (s.graph.sort s.order).order
    case ok order =>
      have ⟨log, ht⟩ := tell_eq { s with order, needsSort := false, log } (.sorted order)
      exact .inl ⟨order, log, congrArg (Except.ok (), ·) ht, Graph.sort_ok hn ho⟩
    case error e =>
      have ⟨path, name, dependency, hl, hc⟩ := Graph.sort_error hn ho
      exact .inr ⟨e, log, rfl, hc ▸ rfl, (Bool.and_eq_true_iff.mp hs).left, hl.cyclic⟩

-- The first name comes after the second and after one that is not there, the second after the third.
def followersFirst : Scene Float where
  __ := create {} ⟨0, 0⟩
  order     := [[67], [83], [68]]
  graph     := {
    dependencies := [([67], [[83], [71]]), ([83], [[68]])]
    dependents   := [([83], [[67]]), ([71], [[67]]), ([68], [[83]])]
    edgeCount    := 3 }
  needsSort := true

theorem followersFirst_built : followersFirst.graph.Built :=
  .edit (c := .set [83] [68]) (.edit (c := .set [67] [71])
    (.edit (c := .set [67] [83]) .empty rfl) rfl) rfl

theorem followersFirst_not_cyclic : ¬followersFirst.graph.Cyclic followersFirst.order := by
  have hv : UpdateOrder.Valid followersFirst.graph [[68], [83], [67]] := by
    unfold UpdateOrder.Valid
    decide
  exact hv.not_cyclic (by decide)

theorem sort_refuses_exactly_cycles (hg : s.graph.Built) (hn : s.order.Nodup) (hs : s.needsSort) :
    ((∃ e s', sort.exec s = (.error (.dependency e), s') ∧ e.code = .cycleDetected) ↔
      s.graph.Cyclic s.order) ∧
    (¬s.graph.Cyclic s.order → ∃ s', sort.exec s = (.ok (), s') ∧
      s'.order.Perm s.order ∧ UpdateOrder.Valid s'.graph s'.order ∧ s'.needsSort = false ∧
      s'.members = s.members ∧ s'.graph = s.graph) := by
  cases exec_sort hg hn (by simp [hs])
  case inl h =>
    have ⟨order, log, h, hp, hv⟩ := h
    refine ⟨⟨?_, fun hc => absurd hc (hv.not_cyclic hp)⟩, fun _ => ⟨_, h, hp, hv, rfl, rfl, rfl⟩⟩
    intro ⟨_, _, he, _⟩
    simp [h] at he
  case inr h =>
    have ⟨e, log, h, he, _, hc⟩ := h
    exact ⟨⟨fun _ => hc, fun _ => ⟨e, _, h, he⟩⟩, fun hn => absurd hc hn⟩

theorem sort_followersFirst : ∃ s', sort.exec followersFirst = (.ok (), s') ∧
    s'.order.Perm followersFirst.order ∧ UpdateOrder.Valid s'.graph s'.order ∧ s'.needsSort = false ∧
    s'.members = followersFirst.members ∧ s'.graph = followersFirst.graph :=
  (sort_refuses_exactly_cycles followersFirst_built (by decide) rfl).right followersFirst_not_cyclic

end Scene
end SceneMotion
