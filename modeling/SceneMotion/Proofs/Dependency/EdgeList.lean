import Mathlib.Data.List.Nodup
import Mathlib.Data.Prod.Basic
import SceneMotion.Dependency.Graph
import SceneMotion.Proofs.Table

namespace SceneMotion

-- Every edge leads from a dependent to its dependency.
abbrev EdgeList := List (Text × Text)

namespace EdgeList

def targets (edges : EdgeList) (name : Text) : List Text :=
  (edges.filter (·.1 = name)).map (·.2)

def flip (edges : EdgeList) : EdgeList :=
  edges.map Prod.swap

def without (edges : EdgeList) (name : Text) : EdgeList :=
  edges.filter fun e => e.1 ≠ name ∧ e.2 ≠ name

-- What is left of the edges after an edit that is not refused.
def edit (edges : EdgeList) : Change → EdgeList
  | .set dependent dependency   => edges ++ [(dependent, dependency)]
  | .clear dependent dependency => edges.erase (dependent, dependency)
  | .remove name                => edges.without name
  | .reset                      => []

variable {edges : EdgeList} {a b name : Text}

@[simp]
theorem mem_targets : b ∈ edges.targets a ↔ (a, b) ∈ edges := by
  simp [targets]

@[simp]
theorem mem_flip : (a, b) ∈ edges.flip ↔ (b, a) ∈ edges := by
  simp [flip]

@[simp]
theorem mem_without : (a, b) ∈ edges.without name ↔ (a, b) ∈ edges ∧ a ≠ name ∧ b ≠ name := by
  simp [without]

theorem targets_nodup (h : edges.Nodup) : (edges.targets name).Nodup := by
  refine List.Nodup.map_on ?_ (h.filter _)
  intro ⟨_, _⟩ h₁ ⟨_, _⟩ h₂ h
  simp only [List.mem_filter, decide_eq_true_eq] at h₁ h₂ h
  rw [h₁.right, h₂.right, h]

theorem flip_nodup (h : edges.Nodup) : edges.flip.Nodup :=
  h.map Prod.swap_injective

theorem flip_erase : flip (edges.erase (a, b)) = edges.flip.erase (b, a) :=
  List.map_erase Prod.swap_injective _

theorem flip_without : flip (edges.without name) = edges.flip.without name := by
  simp only [flip, without, List.filter_map, Function.comp_def, Prod.fst_swap, Prod.snd_swap]
  congr! 4
  exact and_comm

theorem targets_append : targets (edges ++ [(a, b)]) name =
    edges.targets name ++ if name = a then [b] else [] := by
  by_cases h : a = name
  case pos => simp [targets, h]
  case neg => simp [targets, h, Ne.symm h]

theorem targets_erase (h : edges.Nodup) : targets (edges.erase (a, b)) name =
    if name = a then (edges.targets name).erase b else edges.targets name := by
  rw [(targets_nodup h).erase_eq_filter, h.erase_eq_filter]
  simp only [targets, List.filter_filter, List.filter_map, Function.comp_def]
  split
  all_goals
    congr 1
    refine List.filter_congr ?_
    grind

-- Every edge at a name leads from it or to it, and none does both.
theorem length_without (h : ∀ e ∈ edges, e.1 ≠ e.2) (name : Text) :
    (edges.without name).length + ((edges.targets name).length + (edges.flip.targets name).length) =
      edges.length := by
  induction edges
  case nil => rfl
  case cons e rest hi =>
    have hr := hi fun e' h' => h e' (List.mem_cons_of_mem _ h')
    have he := h e List.mem_cons_self
    simp only [without, targets, flip, List.length_map, List.filter_cons, List.map_cons,
      Prod.fst_swap] at hr ⊢
    by_cases h₁ : e.1 = name
    case pos =>
      have h₂ : e.2 ≠ name := fun h₂ => he (h₁.trans h₂.symm)
      simp [h₁, h₂] at hr ⊢
      omega
    case neg =>
      by_cases h₂ : e.2 = name <;> simp [h₁, h₂] at hr ⊢ <;> omega

end EdgeList

namespace Adjacency

variable {t : Adjacency} {edges : EdgeList} {a b name : Text}

theorem of_set {others : List Text} :
    of (Table.set a others t) name = if name = a then others else t.of name := by
  simp only [of, Table.get?_set]
  split <;> rfl

theorem of_erase : of (Table.erase t a) name = if name = a then [] else t.of name := by
  simp only [of, Table.get?_erase]
  split <;> rfl

theorem of_append : (t.append a b).of name = t.of name ++ if name = a then [b] else [] := by
  rw [append, of_set]
  split
  case isTrue h  => rw [h]
  case isFalse h => simp

theorem of_remove : (t.remove a b).of name =
    if name = a then (t.of name).erase b else t.of name := by
  cases h : t.get? a <;> simp only [remove, h]
  case none =>
    split
    case isTrue hn  => simp [of, hn, h]
    case isFalse hn => rfl
  case some others =>
    have ho : t.of a = others := by simp [of, h]
    cases he : others.erase b
    case nil =>
      rw [of_erase]
      split
      case isTrue hn  => rw [hn, ho, he]
      case isFalse hn => rfl
    case cons =>
      rw [of_set]
      split
      case isTrue hn  => rw [hn, ho, he]
      case isFalse hn => rfl

-- Every name leads to what its edges lead to, in their order.
def Lists (t : Adjacency) (edges : EdgeList) : Prop :=
  ∀ name, t.of name = edges.targets name

namespace Lists

theorem append (h : t.Lists edges) : (t.append a b).Lists (edges ++ [(a, b)]) := by
  intro name
  rw [of_append, EdgeList.targets_append, h name]

theorem remove (h : t.Lists edges) (hn : edges.Nodup) :
    (t.remove a b).Lists (edges.erase (a, b)) := by
  intro name
  rw [of_remove, EdgeList.targets_erase hn, h name]

theorem removeEach (h : t.Lists edges) (hn : edges.Nodup) (name : Text) (others : List Text) :
    Lists (others.foldl (fun t other => t.remove other name) t)
      (edges.diff (others.map (·, name))) := by
  induction others generalizing t edges
  case nil => exact h
  case cons other rest hi =>
    rw [List.map_cons, List.diff_cons]
    exact hi (h.remove hn) (hn.erase _)

theorem erase (h : t.Lists edges) : Lists (Table.erase t a) (edges.filter (·.1 ≠ a)) := by
  intro name
  rw [of_erase]
  split
  case isTrue hn  => simp [EdgeList.targets, hn]
  case isFalse hn =>
    rw [h name, EdgeList.targets, EdgeList.targets, List.filter_filter]
    congr 1
    refine List.filter_congr ?_
    intro e _
    by_cases he : e.1 = name <;> simp [he, hn]

-- Takes out the edges to a name one by one, and those from it at once.
theorem removeName (h : t.Lists edges) (hn : edges.Nodup) {others : List Text}
    (ho : ∀ other, other ∈ others ↔ (other, name) ∈ edges) :
    Lists (Table.erase (others.foldl (fun (t : Adjacency) other => t.remove other name) t) name)
      (edges.without name) := by
  have h := (h.removeEach hn name others).erase (a := name)
  rw [hn.sdiff_eq_filter, List.filter_filter] at h
  suffices edges.without name = _ from this ▸ h
  refine List.filter_congr ?_
  intro ⟨x, y⟩ he
  by_cases hy : y = name
  case pos => simp [hy, (ho x).mpr (hy ▸ he)]
  case neg => simp [hy, Ne.symm hy]

end Lists
end Adjacency

namespace Graph

structure Represents (g : Graph) (edges : EdgeList) : Prop where
  dependencies : g.dependencies.Lists edges
  dependents   : g.dependents.Lists edges.flip
  edgeCount    : g.edgeCount = edges.length
  nodup        : edges.Nodup
  asymm        : ∀ a b, (a, b) ∈ edges → (b, a) ∉ edges

-- The graphs that edits can make, starting from nothing.
inductive Built : Graph → Prop
  | empty : Built empty
  | edit  : Built g → (g.edit c = .ok g') → Built g'

variable {g g' : Graph} {edges : EdgeList} {a b name : Text} {c : Change}

-- All that an ordering needs, and all that it does.
theorem setOrder_ok_iff : g.setOrder a b = .ok g' ↔
    (a ≠ b ∧ g.hasOrder b a = false ∧ g.hasOrder a b = false) ∧ g' = {
      dependencies := g.dependencies.append a b
      dependents   := g.dependents.append b a
      edgeCount    := g.edgeCount + 1 } := by
  rw [setOrder]
  by_cases hn : a = b
  case pos => simp [hn]
  case neg => cases g.hasOrder b a <;> cases g.hasOrder a b <;> simp [hn, eq_comm]

theorem clearOrder_ok_iff : g.clearOrder a b = .ok g' ↔ g.hasOrder a b ∧ g' = {
    dependencies := g.dependencies.remove a b
    dependents   := g.dependents.remove b a
    edgeCount    := g.edgeCount - 1 } := by
  rw [clearOrder]
  cases g.hasOrder a b <;> simp [eq_comm]

namespace Represents

theorem mem_dependenciesOf_iff (h : g.Represents edges) :
    b ∈ g.dependenciesOf a ↔ (a, b) ∈ edges := by
  rw [dependenciesOf, h.dependencies, EdgeList.mem_targets]

theorem mem_dependentsOf_iff (h : g.Represents edges) :
    b ∈ g.dependentsOf a ↔ (b, a) ∈ edges := by
  rw [dependentsOf, h.dependents, EdgeList.mem_targets, EdgeList.mem_flip]

theorem hasOrder_iff (h : g.Represents edges) : g.hasOrder a b ↔ (a, b) ∈ edges := by
  rw [hasOrder, decide_eq_true_iff, h.mem_dependenciesOf_iff]

theorem hasOrder_eq_false_iff (h : g.Represents edges) :
    g.hasOrder a b = false ↔ (a, b) ∉ edges := by
  rw [← h.hasOrder_iff, Bool.not_eq_true]

theorem isEmpty_iff (h : g.Represents edges) : g.isEmpty ↔ edges = [] := by
  rw [isEmpty, decide_eq_true_iff, h.edgeCount, List.length_eq_zero_iff]

theorem ne (h : g.Represents edges) (he : (a, b) ∈ edges) : a ≠ b :=
  fun hab => h.asymm a b he (hab ▸ hab ▸ he)

theorem not_mem_of_involves_eq_false (h : g.Represents edges) (hi : g.involves name = false) :
    (a, name) ∉ edges ∧ (name, a) ∉ edges := by
  simp only [involves, Bool.or_eq_false_iff, Table.has_eq_false_iff,
    ← Table.get?_eq_none_iff] at hi
  rw [← h.mem_dependenciesOf_iff (a := name), ← h.mem_dependentsOf_iff (a := name)]
  simp [dependenciesOf, dependentsOf, Adjacency.of, hi]

theorem empty : Graph.empty.Represents [] where
  dependencies := fun _ => rfl
  dependents   := fun _ => rfl
  edgeCount    := rfl
  nodup        := .nil
  asymm        := fun _ _ h => absurd h List.not_mem_nil

theorem setOrder (h : g.Represents edges) (he : g.setOrder a b = .ok g') :
    g'.Represents (edges ++ [(a, b)]) := by
  have ⟨⟨hab, hr, hd⟩, hg⟩ := setOrder_ok_iff.mp he
  rw [h.hasOrder_eq_false_iff] at hr hd
  cases hg
  exact {
    dependencies := h.dependencies.append
    dependents   := by simpa [EdgeList.flip] using h.dependents.append (a := b) (b := a)
    edgeCount    := by simp [h.edgeCount]
    nodup        := List.nodup_append.mpr ⟨h.nodup, List.nodup_singleton _, by grind⟩
    asymm        := by grind [h.asymm] }

theorem clearOrder (h : g.Represents edges) (he : g.clearOrder a b = .ok g') :
    g'.Represents (edges.erase (a, b)) := by
  have ⟨ho, hg⟩ := clearOrder_ok_iff.mp he
  cases hg
  exact {
    dependencies := h.dependencies.remove h.nodup
    dependents   := EdgeList.flip_erase ▸ h.dependents.remove (EdgeList.flip_nodup h.nodup)
    edgeCount    := by simp [h.edgeCount, List.length_erase_of_mem (h.hasOrder_iff.mp ho)]
    nodup        := h.nodup.erase _
    asymm        := fun x y hm hm' =>
      h.asymm x y (List.mem_of_mem_erase hm) (List.mem_of_mem_erase hm') }

theorem removeEntity (h : g.Represents edges) :
    (g.removeEntity name).Represents (edges.without name) where
  dependencies := h.dependencies.removeName h.nodup fun _ => h.mem_dependentsOf_iff
  dependents   :=
    EdgeList.flip_without ▸ h.dependents.removeName (EdgeList.flip_nodup h.nodup) fun _ => by
      rw [h.mem_dependenciesOf_iff, EdgeList.mem_flip]
  edgeCount    := by
    have := EdgeList.length_without (fun e he => h.ne he) name
    simp only [Graph.removeEntity, h.edgeCount, dependenciesOf, dependentsOf, h.dependencies name,
      h.dependents name]
    omega
  nodup        := h.nodup.filter _
  asymm        := fun x y hm hm' =>
    h.asymm x y (List.mem_of_mem_filter hm) (List.mem_of_mem_filter hm')

theorem edit (h : g.Represents edges) (he : g.edit c = .ok g') :
    g'.Represents (edges.edit c) := by
  cases c <;> simp only [Graph.edit] at he
  case set    => exact h.setOrder he
  case clear  => exact h.clearOrder he
  case remove => cases he; exact h.removeEntity
  case reset  => cases he; exact .empty

end Represents

theorem Built.represents {g : Graph} (h : g.Built) : ∃ edges, g.Represents edges := by
  induction h
  case empty       => exact ⟨[], .empty⟩
  case edit he hi =>
    have ⟨edges, hr⟩ := hi
    exact ⟨_, hr.edit he⟩

end Graph
end SceneMotion
