import SceneMotion.Double
import SceneMotion.Proofs.Dependency.Stability
import SceneMotion.Proofs.Scene.Sort

namespace SceneMotion.Scene

variable {α : Type} [Scalar α] {s : Scene α}

-- Whether the members are sorted or left alone, their order is the one that sorting them comes to.
theorem exec_sort_of_not_cyclic (hg : s.graph.Built) (hn : s.order.Nodup)
    (hv : s.needsSort = false → UpdateOrder.Valid s.graph s.order) (hc : ¬s.graph.Cyclic s.order) :
    ∃ order log, sort.exec s = (.ok (), { s with order, needsSort := false, log }) ∧
      (s.graph.sort s.order).order = .ok order := by
  cases hs : s.sorts
  case false =>
    have hv := valid_of_not_sorts hg hv hs
    exact ⟨s.order, s.log, exec_sort_of_not_sorts hs, Graph.sort_of_valid hn hv⟩
  case true  =>
    have ⟨log, hw⟩ := s.warned_eq
    rw [exec_sort_of_sorts hs, hw]
    cases ho : (s.graph.sort s.order).order
    case ok order =>
      have ⟨log, ht⟩ := tell_eq { s with order, needsSort := false, log } (.sorted order)
      exact ⟨order, log, congrArg (Except.ok (), ·) ht, rfl⟩
    case error =>
      have ⟨_, _, _, hl, _⟩ := Graph.sort_error hn ho
      exact absurd hl.cyclic hc

-- In particular, members that nobody depends on keep their order among themselves, an order that is
-- valid is left as it is, and so is one that has just been sorted.
theorem sort_moves_no_further (hg : s.graph.Built) (hn : s.order.Nodup)
    (hv : s.needsSort = false → UpdateOrder.Valid s.graph s.order) (hc : ¬s.graph.Cyclic s.order) :
    ∃ s', sort.exec s = (.ok (), s') ∧ s'.order.Perm s.order ∧ s.graph.Stable s.order s'.order ∧
      s'.order.filter (s.graph.isFree s.order) = s.order.filter (s.graph.isFree s.order) ∧
      (UpdateOrder.Valid s.graph s.order → s'.order = s.order) ∧
      ∃ s'', sort.exec { s' with needsSort := true } = (.ok (), s'') ∧ s''.order = s'.order := by
  obtain ⟨order, log, h, ho⟩ := exec_sort_of_not_cyclic hg hn hv hc
  have ⟨hp, hvalid⟩ := Graph.sort_ok hn ho
  have hn' := hp.nodup_iff.mpr hn
  have hstable := Graph.sort_stable hn ho
  refine ⟨_, h, hp, hstable, hstable.filter_isFree hp hn, fun hv => ?valid, ?again⟩
  case valid => exact Except.ok.inj (ho.symm.trans (Graph.sort_of_valid hn hv))
  case again =>
    obtain ⟨order', _, h', ho'⟩ := exec_sort_of_not_cyclic (s := { s with order, needsSort := true, log })
      hg hn' nofun (hvalid.not_cyclic (.refl _))
    exact ⟨_, h', Except.ok.inj (ho'.symm.trans (Graph.sort_of_valid hn' hvalid))⟩

-- The first name waits for the last one, and the third for the second, which stands before it anyway.
def convoy : Scene Float where
  __ := create {} ⟨0, 0⟩
  order     := [[67], [66], [68], [83]]
  graph     := {
    dependencies := [([67], [[83]]), ([68], [[66]])]
    dependents   := [([83], [[67]]), ([66], [[68]])]
    edgeCount    := 2 }
  needsSort := true

theorem convoy_built : convoy.graph.Built :=
  .edit (c := .set [68] [66]) (.edit (c := .set [67] [83]) .empty rfl) rfl

theorem convoy_not_cyclic : ¬convoy.graph.Cyclic convoy.order := by
  have hv : UpdateOrder.Valid convoy.graph [[83], [67], [66], [68]] := by
    unfold UpdateOrder.Valid
    decide
  exact hv.not_cyclic (by decide)

theorem sort_convoy : ∃ s', sort.exec convoy = (.ok (), s') ∧
    convoy.graph.Stable convoy.order s'.order ∧
    s'.order.filter (convoy.graph.isFree convoy.order) = [[67], [68]] := by
  have ⟨s', h, _, hs, hf, _⟩ :=
    sort_moves_no_further convoy_built (by decide) nofun convoy_not_cyclic
  exact ⟨s', h, hs, hf.trans (by decide)⟩

end SceneMotion.Scene
