import SceneMotion.Proofs.Dependency.Dangling
import SceneMotion.Proofs.Scene.CycleReport

namespace SceneMotion

-- The warning that is given.
def Notice.warning? {α : Type} : Notice α → Option Warning
  | warning w => some w
  | _         => none

namespace Scene

variable {α : Type} [Scalar α] {s s' : Scene α} {a b : Text}

-- The warnings that have been given and not been collected yet, in their order.
def toldWarnings (s : Scene α) : List Warning :=
  s.log.reverse.filterMap Notice.warning?

theorem toldWarnings_tell {n : Notice α} (hn : n.warning? = none) :
    (s.tell n).toldWarnings = s.toldWarnings := by
  rw [tell]
  split
  case isTrue  => simp [toldWarnings, hn]
  case isFalse => rfl

theorem toldWarnings_warned : s.warned.toldWarnings = s.toldWarnings ++
    if s.warnsOnDangling then (s.graph.sort s.order).dangling.map fun e => .dangling e.1 e.2 else [] := by
  rw [warned_eq_danglings, danglings]
  split
  case isTrue  => simp [toldWarnings, List.filterMap_map, Function.comp_def, Notice.warning?]
  case isFalse => simp [toldWarnings]

-- Nothing else is warned of in a pass, whether it comes to an end or not.
theorem toldWarnings_exec_sort : (sort.exec s).2.toldWarnings = s.toldWarnings ++
    if s.sorts && s.warnsOnDangling then
      (s.graph.sort s.order).dangling.map fun e => .dangling e.1 e.2
    else
      [] := by
  cases hs : s.sorts
  case false =>
    rw [exec_sort_of_not_sorts hs]
    exact (List.append_nil _).symm
  case true =>
    rw [exec_sort_of_sorts hs, Bool.true_and, ← toldWarnings_warned]
    cases (s.graph.sort s.order).order
    case error => rfl
    case ok    => exact toldWarnings_tell rfl

-- A member comes after somebody who is not there.
def Dangles (s : Scene α) (a b : Text) : Prop :=
  s.graph.hasOrder a b ∧ s.members.has a ∧ s.members.has b = false

theorem dangles_iff (h : s.Tidy) : s.Dangles a b ↔ (a, b) ∈ s.graph.dangling s.order := by
  rw [Dangles, Graph.mem_dangling, Table.has_iff_mem_keys, Table.has_eq_false_iff,
    h.coherent.perm.mem_iff, h.coherent.perm.mem_iff]
  exact and_left_comm

theorem order_of_exec_sort (hs : s.sorts) (ho : (sort.exec s).1 = .ok ()) :
    ∃ order, (s.graph.sort s.order).order = .ok order := by
  rw [exec_sort_of_sorts hs] at ho
  cases hr : (s.graph.sort s.order).order <;> rw [hr] at ho
  case error    => cases ho
  case ok order => exact ⟨order, rfl⟩

-- Scenes are tidy whatever has been done to them (`Tidy.of_reachable`), and also between the changes that
-- a load is made of (`Tidy.lasting`). A pass that meets a cycle has not come to all of the edges.
theorem sort_warns_once (h : s.Tidy) : ∃ edges : EdgeList,
    (sort.exec s).2.toldWarnings = s.toldWarnings ++ edges.map (fun e => .dangling e.1 e.2) ∧
    edges.Nodup ∧ (∀ a b, (a, b) ∈ edges → s.Dangles a b) ∧
    (s.warnsOnDangling → s.sorts → (sort.exec s).1 = .ok () →
      ∀ a b, s.Dangles a b → (a, b) ∈ edges) ∧
    (s.warnsOnDangling = false ∨ s.sorts = false → edges = []) := by
  have hm := s.graph.sort_meets h.nodup
  rw [toldWarnings_exec_sort]
  split
  case isFalse hw =>
    rw [Bool.and_eq_true, not_and] at hw
    exact ⟨[], rfl, .nil, nofun, fun hd hs => absurd hd (hw hs), fun _ => rfl⟩
  case isTrue hw =>
    have ⟨hs, hd⟩ := Bool.and_eq_true_iff.mp hw
    refine ⟨_, rfl, ?once, ?sound, ?complete, ?off⟩
    case once =>
      have ⟨_, hp, hsub⟩ := hm.subperm
      exact hp.nodup_iff.mp (hsub.nodup (h.built.dangling_nodup h.nodup))
    case sound => exact fun a b hab => (dangles_iff h).mpr (hm.subperm.subset hab)
    case complete =>
      intro _ _ ho a b hab
      have ⟨order, ho⟩ := order_of_exec_sort hs ho
      exact (hm.perm order ho).mem_iff.mpr ((dangles_iff h).mp hab)
    case off => simp [hs, hd]

def ghost : Text := [71]

-- The drone is visited before the camera and the ship, which it asks for both. Those two ask for somebody
-- who is not there, and the camera asks for the ship once more.
def haunted : Scene Float :=
  (create {} ⟨0, 0⟩).after
    [.insert (fixed drone 0), .insert (fixed camera 0), .insert (fixed ship 0),
     .editGraph (.set camera ghost), .editGraph (.set camera ship), .editGraph (.set drone ship),
     .editGraph (.set drone camera), .editGraph (.set ship ghost)]

theorem haunted_coherent : Coherent haunted :=
  (Coherent.create ..).after _

theorem exec_sort_haunted : (sort.exec haunted).1 = .ok () := by
  have hv : UpdateOrder.Valid haunted.graph [ship, camera, drone] := by
    unfold UpdateOrder.Valid
    decide +kernel
  have ⟨_, hs⟩ := haunted_coherent.exists_exec_sort (hv.not_cyclic (by decide +kernel))
  rw [hs]

theorem sort_haunted : ∃ edges : EdgeList,
    (sort.exec haunted).2.toldWarnings = edges.map (fun e => .dangling e.1 e.2) ∧
    edges.Perm [(camera, ghost), (ship, ghost)] := by
  have h : haunted.Tidy := .of_coherent haunted_coherent
  obtain ⟨edges, ht, hn, hs, hc, _⟩ := sort_warns_once h
  have hw : haunted.toldWarnings = [] := List.isEmpty_iff.mp (by decide +kernel)
  have hd : haunted.graph.dangling haunted.order = [(camera, ghost), (ship, ghost)] := by
    decide +kernel
  rw [hw] at ht
  refine ⟨edges, ht, (List.perm_ext_iff_of_nodup hn (by decide)).mpr fun (a, b) => ?_⟩
  rw [← hd, ← dangles_iff h]
  exact ⟨hs a b, hc (by decide +kernel) (by decide +kernel) exec_sort_haunted a b⟩

end Scene
end SceneMotion
