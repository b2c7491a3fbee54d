import SceneMotion.Proofs.Dependency.Refinement
import SceneMotion.Proofs.Scene.Lasting
import SceneMotion.Proofs.Scene.Members
import SceneMotion.Proofs.Scene.Sort

namespace SceneMotion

namespace Graph

variable {g g₁ g₂ : Graph} {c : Change} {changes : List Change} {name : Text}

-- Carries out some edits on a graph, as long as none of them is refused.
def replay (g : Graph) (changes : List Change) : Except DependencyError Graph :=
  changes.foldlM edit g

theorem replay_append (h : g.replay changes = .ok g₁) (later : List Change) :
    g.replay (changes ++ later) = g₁.replay later := by
  simp only [replay] at h ⊢
  rw [List.foldlM_append, h]
  rfl

theorem replay_singleton (h : g.edit c = .ok g₁) : g.replay [c] = .ok g₁ := by
  simp only [replay, List.foldlM_cons, h]
  rfl

-- What leads nowhere is not kept, and so there is nothing to be dropped.
theorem removeEntity_of_not_announces (h : g.Tight) (hc : g.announces (.remove name) = false) :
    g.removeEntity name = g := by
  simp only [announces, ne_eq, decide_eq_false_iff_not, not_or, not_not] at hc
  have ⟨hd, hs⟩ := hc
  have hdk : name ∉ g.dependencies.keys := fun hk =>
    h.dependencies.has_iff.mp (Table.has_iff_mem_keys.mpr hk) hd
  have hsk : name ∉ g.dependents.keys := fun hk =>
    h.dependents.has_iff.mp (Table.has_iff_mem_keys.mpr hk) hs
  simp only [removeEntity, hd, hs, List.foldl_nil, List.length_nil, Nat.add_zero, Nat.sub_zero,
    Table.erase_of_not_mem hdk, Table.erase_of_not_mem hsk]

theorem edit_of_not_announces (h : g.Tight) (hc : g.announces c = false) (he : g.edit c = .ok g₁) :
    g₁ = g := by
  cases c <;> try contradiction
  case remove name =>
    cases he
    exact removeEntity_of_not_announces h hc

end Graph

-- The edit of the graph that is told of.
def Notice.change? {α : Type} : Notice α → Option Change
  | change c => some c
  | _        => none

namespace Scene

variable {α : Type} [Scalar α] {s s' : Scene α} {g g' : Graph} {c : Change}

-- The edits that have been told of and not been collected yet, in their order.
def toldChanges (s : Scene α) : List Change :=
  s.log.reverse.filterMap Notice.change?

theorem toldChanges_tell_change (h : s.live) :
    (s.tell (.change c)).toldChanges = s.toldChanges ++ [c] := by
  simp [tell, h, toldChanges, Notice.change?]

theorem toldChanges_tell {n : Notice α} (hn : n.change? = none) :
    (s.tell n).toldChanges = s.toldChanges := by
  rw [tell]
  split
  case isTrue  => simp [toldChanges, hn]
  case isFalse => rfl

theorem toldChanges_warn (w : Warning) : (s.warn w).toldChanges = s.toldChanges := by
  simp [toldChanges, warn, Notice.change?]

theorem toldChanges_warned : s.warned.toldChanges = s.toldChanges :=
  warned_of (P := (·.toldChanges = s.toldChanges)) rfl fun _ _ _ h => (toldChanges_warn _).trans h

-- The graph is what has been told makes of an earlier one.
structure Retells (g : Graph) (s : Scene α) : Prop where
  live   : s.live
  tight  : s.graph.Tight
  replay : g.replay s.toldChanges = .ok s.graph

namespace Retells

theorem of_log_eq_nil (hl : s.live) (ht : s.graph.Tight) (h : s.log = []) : Retells s.graph s where
  live   := hl
  tight  := ht
  replay := by rw [toldChanges, h]; rfl

theorem congr (h : Retells g s) (hl : s'.live = s.live) (hg : s'.graph = s.graph)
    (ht : s'.toldChanges = s.toldChanges) : Retells g s' where
  live   := hl ▸ h.live
  tight  := hg ▸ h.tight
  replay := hg ▸ ht ▸ h.replay

theorem tell {n : Notice α} (h : Retells g s) (hn : n.change? = none) : Retells g (s.tell n) := by
  have ⟨_, ht⟩ := s.tell_eq n
  exact h.congr (by rw [ht]) (by rw [ht]) (toldChanges_tell hn)

theorem withGraph (h : Retells g s) (he : s.graph.edit c = .ok g') :
    Retells g (s.withGraph c g') := by
  cases hc : s.graph.announces c
  case false =>
    rw [Graph.edit_of_not_announces h.tight hc he, Scene.withGraph, if_neg (by simp [hc])]
    exact h.congr rfl rfl rfl
  case true =>
    obtain ⟨_, ht⟩ := s.tell_eq (.change c)
    rw [Scene.withGraph, if_pos hc]
    refine ⟨by rw [ht]; exact h.live, h.tight.edit he, ?_⟩
    change g.replay (s.tell (.change c)).toldChanges = .ok g'
    rw [toldChanges_tell_change h.live, Graph.replay_append h.replay, Graph.replay_singleton he]

theorem warned (h : Retells g s) : Retells g s.warned := by
  have ⟨_, hw⟩ := s.warned_eq
  exact h.congr (by rw [hw]) (by rw [hw]) toldChanges_warned

theorem sort : SceneM.Preserves (Retells g) (Scene.sort : SceneM α Unit) := by
  intro s h
  cases hs : s.sorts
  case false =>
    rw [exec_sort_of_not_sorts hs]
    exact h.congr rfl rfl rfl
  case true =>
    rw [exec_sort_of_sorts hs]
    cases (s.graph.sort s.order).order
    case error e  => exact h.warned
    case ok order =>
      have hw : Retells g { s.warned with order, needsSort := false } := h.warned.congr rfl rfl rfl
      exact hw.tell rfl

theorem newEntity (name : Text) (o : Entity.Options α) :
    SceneM.Preserves (Retells g) (Scene.newEntity name o) := by
  refine .bind (.modify fun s h => h.congr rfl rfl rfl) fun _ => .get_bind fun s h => ?_
  dsimp only
  split
  case isTrue  => exact h.congr rfl rfl (toldChanges_warn _)
  case isFalse => exact h

theorem simulateMember (h : Retells g s) (name : Text) (delta : Delta α) :
    Retells g (s.simulateMember name delta) := by
  have ⟨_, _, hs⟩ := s.simulateMember_eq name delta
  exact hs ▸ h.congr rfl rfl rfl

theorem insert (m : Member α) : SceneM.Preserves (Retells g) (Scene.insert m) := by
  intro s h
  cases hm : s.members.has m.name
  case true  => rwa [exec_insert_of_has hm]
  case false =>
    rw [exec_insert_of_not_has hm]
    have hw : Retells g (s.withMember m) := h.congr rfl rfl rfl
    exact (hw.simulateMember ..).tell rfl

theorem remove (name : Text) : SceneM.Preserves (Retells g) (Scene.remove name : SceneM α Unit) := by
  intro s h
  cases hm : s.members.has name
  case false => rwa [exec_remove_of_not_has hm]
  case true  =>
    rw [exec_remove_of_has hm]
    have hw := h.withGraph (c := .remove name) rfl
    exact Retells.tell (hw.congr rfl rfl rfl) rfl

theorem advance (h : Retells g s) (delta : Delta α) : Retells g (s.advance delta) := by
  have ⟨_, _, _, _, ha⟩ := s.advance_eq_tell delta
  rw [ha]
  exact Retells.tell (h.congr rfl rfl rfl) rfl

theorem editEntity (h : Retells g s) (name : Text) (edit : EntityEdit α) :
    Retells g (s.editEntity name edit) := by
  rw [Scene.editEntity]
  split
  case h_1 => exact h
  case h_2 => exact h.congr rfl rfl rfl

theorem lasting : Lasting (Retells (α := α) g) where
  edits      := fun _ _ _ he h => h.withGraph he
  sort       := sort
  newEntity  := newEntity
  insert     := insert
  remove     := remove
  editEntity := fun _ name edit h => h.editEntity name edit
  clear      := fun _ h => (h.withGraph (c := .reset) rfl).congr rfl rfl rfl
  advance    := fun _ delta h => h.advance delta
  time       := fun _ _ h => h.congr rfl rfl rfl
  editing    := fun _ _ h => h.congr rfl rfl rfl
  clock      := fun _ _ h => h.congr rfl rfl rfl
  warn       := fun _ w h => h.congr rfl rfl (toldChanges_warn w)

end Retells

-- Carries out operations, whether they go through or not, and collects what is told in their course.
def listen (s : Scene α) : List (Operation α) → List (Notice α) × Scene α
  | []                => ([], s)
  | operation :: rest =>
    let (told, s) := (operation.perform.exec s).2.collect
    let (later, s) := s.listen rest
    (told ++ later, s)

-- What has been told once an operation is over and collected.
theorem exec_perform_retells (hl : s.live) (ht : s.graph.Tight) (hn : s.log = [])
    (operation : Operation α) : let s' := (operation.perform.exec s).2
    s'.live ∧ s'.graph.Tight ∧ s.graph.replay s'.toldChanges = .ok s'.graph := by
  have h := Retells.of_log_eq_nil hl ht hn
  by_cases hc : operation = .collect
  case pos =>
    subst hc
    exact ⟨hl, ht, rfl⟩
  case neg =>
    have hr := Retells.lasting.perform hc s h
    exact ⟨hr.live, hr.tight, hr.replay⟩

theorem replay_listen (hl : s.live) (ht : s.graph.Tight) (hn : s.log = [])
    (operations : List (Operation α)) :
    s.graph.replay ((s.listen operations).1.filterMap Notice.change?) =
      .ok (s.listen operations).2.graph := by
  induction operations generalizing s
  case nil => rfl
  case cons operation rest hi =>
    have ⟨hl, ht, hr⟩ := exec_perform_retells hl ht hn operation
    rw [listen, List.filterMap_append]
    have hr := Graph.replay_append hr
    exact (hr _).trans (hi (s := { (operation.perform.exec s).2 with log := [] }) hl ht rfl)

-- The operations may stop anywhere, and so this is true after each of them.
theorem replay_listen_create (o : Options α) (clock : Clock α) (operations : List (Operation α)) :
    let heard := (create o clock).listen operations
    Graph.empty.replay (heard.1.filterMap Notice.change?) = .ok heard.2.graph :=
  replay_listen (s := create o clock) rfl .empty rfl operations

end Scene
end SceneMotion
