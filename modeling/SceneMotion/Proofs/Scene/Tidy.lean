import SceneMotion.Proofs.Scene.Coherent

namespace SceneMotion
namespace Scene

variable {α : Type} [Scalar α] {s s' : Scene α}

-- The scenes that come of one that has been destroyed on the way.
def Outlives (s : Scene α) : Prop :=
  ∃ o clock earlier later, s = ((create o clock).after earlier).destroy.after later

-- Coherent, but for whether anybody is told and whether the order is known to be valid. That much is
-- true of a scene even after it has been destroyed.
def Tidy (s : Scene α) : Prop :=
  Coherent { s with live := true, needsSort := true }

namespace Tidy

theorem of_coherent (h : Coherent s) : Tidy s :=
  { h with live := rfl, valid := nofun }

theorem coherent (h : Tidy s) : Coherent { s with live := true, needsSort := true } :=
  h

theorem built (h : Tidy s) : s.graph.Built :=
  h.coherent.built

theorem named (h : Tidy s) : s.Named :=
  h.coherent.named

theorem nodup (h : Tidy s) : s.order.Nodup :=
  h.coherent.nodup

theorem congr (h : Tidy s) (hr : s'.roles = s.roles) (ho : s'.order = s.order)
    (hg : s'.graph = s.graph) : Tidy s' :=
  h.coherent.congr hr ho hg rfl rfl

theorem tell (h : Tidy s) (n : Notice α) : Tidy (s.tell n) := by
  have ⟨_, ht⟩ := s.tell_eq n
  rw [ht]
  exact h.congr rfl rfl rfl

theorem edit {c : Change} {g : Graph} (h : Tidy s) (he : s.graph.edit c = .ok g) :
    Tidy (s.withGraph c g) := by
  have ⟨_, hw⟩ := s.withGraph_eq c g
  rw [hw]
  exact { h with live := rfl, built := .edit h.built he, valid := nofun }

theorem sort : SceneM.Preserves Tidy (Scene.sort : SceneM α Unit) := by
  intro s h
  cases hs : s.sorts
  case false =>
    rw [exec_sort_of_not_sorts hs]
    exact h.congr rfl rfl rfl
  case true =>
    have ⟨_, hw⟩ := s.warned_eq
    rw [exec_sort_of_sorts hs, hw]
    cases ho : (s.graph.sort s.order).order
    case error e  => exact h.congr rfl rfl rfl
    case ok order =>
      have ⟨hp, _⟩ := Graph.sort_ok h.nodup ho
      have h' : Tidy { s with order } := { h with
        nodup := hp.nodup_iff.mpr h.nodup
        perm  := hp.trans h.coherent.perm
        valid := nofun }
      refine Tidy.tell ?_ (.sorted order)
      exact h'.congr rfl rfl rfl

theorem insert (m : Member α) : SceneM.Preserves Tidy (Scene.insert m) := by
  intro s h
  cases hm : s.members.has m.name
  case true  => rwa [exec_insert_of_has hm]
  case false =>
    have hw : Tidy (s.withMember m) := Coherent.congr (h.coherent.withMember hm) rfl rfl rfl rfl rfl
    have hr := roles_simulateMember hw.named m.name (.by 0)
    have ⟨_, _, hs⟩ := (s.withMember m).simulateMember_eq m.name (.by 0)
    rw [exec_insert_of_not_has hm]
    exact Tidy.tell (hw.congr hr (by rw [hs]) (by rw [hs])) (.inserted m.name)

theorem remove (name : Text) : SceneM.Preserves Tidy (Scene.remove name : SceneM α Unit) := by
  intro s h
  cases hm : s.members.has name
  case false => rwa [exec_remove_of_not_has hm]
  case true  =>
    have ⟨_, hs⟩ := exec_remove hm
    rw [hs]
    exact Coherent.congr (h.coherent.erase rfl) rfl rfl rfl rfl rfl

theorem editEntity (h : Tidy s) (name : Text) (edit : EntityEdit α) :
    Tidy (s.editEntity name edit) := by
  rw [Scene.editEntity]
  split
  case h_1 => exact h
  case h_2 e he =>
    have hn : (Member.entity (edit.apply e s.clock).1).name = e.name := EntityEdit.apply_name
    have hk : e.name ∈ s.members.keys := h.coherent.name_mem_keys he
    exact Coherent.congr (h.coherent.setMember (hn ▸ hk)) rfl rfl rfl rfl rfl

theorem lasting : Lasting (Tidy (α := α)) where
  edits      := fun _ _ _ he h => h.edit he
  sort       := sort
  newEntity  := by
    intro name o s h
    have ⟨_, _, _, hs, _⟩ := exec_newEntity s name o
    rw [hs]
    exact h.congr rfl rfl rfl
  insert     := insert
  remove     := remove
  editEntity := fun _ name edit h => h.editEntity name edit
  clear      := by
    intro s h
    have ⟨_, hc⟩ := s.clear_eq
    rw [hc]
    exact {
      live  := rfl
      built := .empty
      named := fun _ _ h => nomatch h
      nodup := .nil
      perm  := .refl _
      valid := nofun }
  advance    := fun _ delta h =>
    h.congr (roles_advance h.named delta) advance_order advance_graph
  time       := fun _ _ h => h.congr rfl rfl rfl
  editing    := fun _ _ h => h.congr rfl rfl rfl
  clock      := fun _ _ h => h.congr rfl rfl rfl
  warn       := fun _ _ h => h.congr rfl rfl rfl

theorem perform (operation : Operation α) : SceneM.Preserves Tidy operation.perform := by
  by_cases hc : operation = .collect
  case pos => exact hc ▸ .modify fun _ h => h.congr rfl rfl rfl
  case neg => exact lasting.perform hc

theorem after (h : Tidy s) (operations : List (Operation α)) : Tidy (s.after operations) := by
  induction operations generalizing s
  case nil => exact h
  case cons operation _ hi => exact hi (perform operation s h)

theorem destroy (h : Tidy s) : Tidy s.destroy :=
  (h.tell .completed).congr rfl rfl rfl

theorem of_reachable (h : s.Reachable ∨ s.Outlives) : Tidy s := by
  have hr {o : Options α} {clock : Clock α} (operations : List (Operation α)) :
      Tidy ((create o clock).after operations) := .of_coherent ((Coherent.create o clock).after _)
  obtain ⟨_, _, operations, rfl⟩ | ⟨_, _, earlier, later, rfl⟩ := h
  · exact hr operations
  · exact (hr earlier).destroy.after later

-- Edges that are made after a scene has been destroyed do not call for a sort any more, so that its order
-- is known to be valid, or about to be, only if that is said.
theorem of_reachable_or (h : s.Reachable ∨
    s.Outlives ∧ (s.needsSort = false → UpdateOrder.Valid s.graph s.order)) :
    s.Tidy ∧ (s.needsSort = false → UpdateOrder.Valid s.graph s.order) := by
  refine ⟨.of_reachable (h.imp_right And.left), ?_⟩
  obtain ⟨_, _, operations, rfl⟩ | ⟨_, hv⟩ := h
  · exact ((Coherent.create _ _).after operations).valid
  · exact hv

end Tidy

end Scene
end SceneMotion
