import SceneMotion.Proofs.Scene.Jump

namespace SceneMotion

namespace Graph

variable {g : Graph} {names : List Text}

theorem Cyclic.isEmpty_eq_false (h : g.Cyclic names) (hg : g.Built) : g.isEmpty = false :=
  Bool.eq_false_iff.mpr fun he => (UpdateOrder.valid_of_isEmpty hg he names).not_cyclic (.refl _) h

end Graph

namespace Scene

variable {α : Type} [Scalar α] {s s' : Scene α} {e : SceneError}

-- What a pass warns of, the latest first: the edges that lead to names that are not there.
def danglings (s : Scene α) : List (Notice α) :=
  if s.warnsOnDangling then
    ((s.graph.sort s.order).dangling.map fun (a, b) => .warning (.dangling a b)).reverse
  else
    []

theorem foldl_warn (edges : EdgeList) (s : Scene α) :
    edges.foldl (fun s (a, b) => s.warn (.dangling a b)) s =
      { s with log := (edges.map fun (a, b) => .warning (.dangling a b)).reverse ++ s.log } := by
  induction edges generalizing s
  case nil          => rfl
  case cons edge rest hi =>
    rw [List.foldl_cons, hi]
    simp [warn]

theorem warned_eq_danglings : s.warned = { s with log := s.danglings ++ s.log } := by
  rw [warned, danglings]
  split
  case isTrue  => exact foldl_warn _ s
  case isFalse => rfl

-- The scene after a pass that has met a cycle.
def refused (s : Scene α) : Scene α :=
  { s with log := s.danglings ++ s.log }

theorem exec_sort_refused (hg : s.graph.Built) (hn : s.order.Nodup) (hs : s.needsSort)
    (hc : s.graph.Cyclic s.order) : ∃ e, (s.graph.sort s.order).order = .error e ∧
      e.code = .cycleDetected ∧ sort.exec s = (.error (.dependency e), s.refused) := by
  have hsorts : s.sorts := by simp [sorts, hs, hc.isEmpty_eq_false hg]
  rw [exec_sort_of_sorts hsorts, warned_eq_danglings]
  cases ho : (s.graph.sort s.order).order
  case ok order =>
    obtain ⟨hp, hv⟩ := Graph.sort_ok hn ho
    exact absurd hc (hv.not_cyclic hp)
  case error e =>
    obtain ⟨path, name, dependency, _, he⟩ := Graph.sort_error hn ho
    exact ⟨e, rfl, he ▸ rfl, rfl⟩

theorem exec_step_of_error (h : sort.exec s = (.error e, s')) (delta : Delta α) :
    (step delta).exec s = (.error e, s') :=
  SceneM.exec_bind_error h

-- The time has been set when the members are sorted. It is of no account to sorting, so the cycle that
-- is met is the same.
theorem exec_setTime_refused (hg : s.graph.Built) (hn : s.order.Nodup) (hs : s.needsSort)
    (hc : s.graph.Cyclic s.order) (t : α) : ∃ e, (s.graph.sort s.order).order = .error e ∧
      (setTime t).exec s = (.error (.dependency e), { s.refused with time := t }) := by
  have ⟨e, he, _, hsort⟩ := exec_sort_refused (s := { s with time := t }) hg hn hs hc
  rw [setTime, SceneM.exec_modify_bind]
  exact ⟨e, he, SceneM.exec_bind_error (exec_step_of_error hsort .jump)⟩

theorem simulation_refused (hr : s.Reachable ∨ s.Outlives) (hs : s.needsSort)
    (hc : s.graph.Cyclic s.order) :
    ∃ e, e.code = .cycleDetected ∧
      sort.exec s = (.error (.dependency e), s.refused) ∧
      (∀ delta, (step delta).exec s = (.error (.dependency e), s.refused)) ∧
      (∀ t, (setTime t).exec s = (.error (.dependency e), { s.refused with time := t })) := by
  have h := Tidy.of_reachable hr
  have ⟨e, he, hcode, hsort⟩ := exec_sort_refused h.built h.nodup hs hc
  refine ⟨e, hcode, hsort, exec_step_of_error hsort, fun t => ?_⟩
  have ⟨e', he', ht⟩ := exec_setTime_refused h.built h.nodup hs hc t
  cases he.symm.trans he'
  exact ht

-- Three members that wait for each other.
def ring : Scene Float :=
  (create {} ⟨0, 0⟩).after
    [.insert (fixed camera 0), .insert (fixed ship 0), .insert (fixed base 0),
     .editGraph (.set camera ship), .editGraph (.set ship base), .editGraph (.set base camera)]

theorem ring_coherent : Coherent ring :=
  (Coherent.create ..).after _

theorem ring_needsSort : ring.needsSort := by
  decide +kernel

theorem ring_cyclic : ring.graph.Cyclic ring.order := by
  have link (a b : Text) (h : a ∈ ring.order ∧ b ∈ ring.order ∧ b ∈ ring.graph.dependenciesOf a) :
      ring.graph.Links ring.order a b := h
  refine ⟨camera, .tail (.tail (.single (link camera ship ?_)) (link ship base ?_))
    (link base camera ?_)⟩
  all_goals decide +kernel

theorem step_ring : ∃ e, e.code = .cycleDetected ∧
    (step (.by 1)).exec ring = (.error (.dependency e), ring.refused) ∧
    (setTime 5).exec ring = (.error (.dependency e), { ring.refused with time := 5 }) := by
  have ⟨e, he, _, hs, ht⟩ := simulation_refused (.inl ⟨_, _, _, rfl⟩) ring_needsSort ring_cyclic
  exact ⟨e, he, hs _, ht 5⟩

theorem setTime_sets_time : ¬∀ (s : Scene Float) (t : Float), s.Reachable → s.needsSort →
    s.graph.Cyclic s.order → ∃ e s', (setTime t).exec s = (.error (.dependency e), s') ∧
      e.code = .cycleDetected ∧ s'.time = s.time := by
  intro h
  have ⟨_, s', hs', _, ht⟩ := h ring 5 ⟨_, _, _, rfl⟩ ring_needsSort ring_cyclic
  have ⟨_, _, hs⟩ := exec_setTime_refused ring_coherent.built ring_coherent.nodup ring_needsSort
    ring_cyclic 5
  cases hs'.symm.trans hs
  have hz : (ring.time == 0) = true := by decide +kernel
  rw [← ht] at hz
  exact absurd hz (by decide +kernel)

end Scene
end SceneMotion
