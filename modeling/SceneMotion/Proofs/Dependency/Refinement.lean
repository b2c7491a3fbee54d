import SceneMotion.Proofs.Dependency.EdgeList

namespace SceneMotion

namespace EdgeList

-- Whether an edit goes through. A new edge joins two names that are not joined yet.
def Accepts (edges : EdgeList) : Change → Prop
  | .set dependent dependency   => dependent ≠ dependency ∧
    (dependency, dependent) ∉ edges ∧ (dependent, dependency) ∉ edges
  | .clear dependent dependency => (dependent, dependency) ∈ edges
  | .remove _                   => True
  | .reset                      => True

instance (edges : EdgeList) : (c : Change) → Decidable (edges.Accepts c)
  | .set ..   => inferInstanceAs (Decidable (_ ∧ _ ∧ _))
  | .clear .. => inferInstanceAs (Decidable (_ ∈ _))
  | .remove _ => inferInstanceAs (Decidable True)
  | .reset    => inferInstanceAs (Decidable True)

-- The edges after some edits. An edit that is refused changes nothing.
def after (edges : EdgeList) (changes : List Change) : EdgeList :=
  changes.foldl (fun edges c => if edges.Accepts c then edges.edit c else edges) edges

def sources (edges : EdgeList) (name : Text) : List Text :=
  (edges.filter (·.2 = name)).map (·.1)

variable {edges : EdgeList} {name : Text}

theorem targets_flip : targets edges.flip name = edges.sources name := by
  simp [targets, flip, sources, List.filter_map, Function.comp_def]

theorem targets_eq_nil_iff : edges.targets name = [] ↔ ∀ e ∈ edges, e.1 ≠ name := by
  simp [targets]

theorem sources_eq_nil_iff : edges.sources name = [] ↔ ∀ e ∈ edges, e.2 ≠ name := by
  simp [sources]

end EdgeList

namespace Adjacency

-- No name is kept for an empty list.
def Tight (t : Adjacency) : Prop :=
  ∀ name, t.get? name ≠ some []

variable {t : Adjacency} {a b name : Text}

namespace Tight

theorem set {others : List Text} (h : t.Tight) (ho : others ≠ []) : Tight (Table.set a others t) := by
  intro name
  rw [Table.get?_set]
  split
  case isTrue  => simpa using ho
  case isFalse => exact h name

theorem erase (h : t.Tight) : Tight (Table.erase t a) := by
  intro name
  rw [Table.get?_erase]
  split
  case isTrue  => exact Option.some_ne_none _ |>.symm
  case isFalse => exact h name

theorem append (h : t.Tight) : (t.append a b).Tight :=
  h.set (by simp)

theorem remove (h : t.Tight) : (t.remove a b).Tight := by
  rw [Adjacency.remove]
  split
  case h_1 => exact h
  case h_2 =>
    split
    case h_1    => exact h.erase
    case h_2 hn => exact h.set hn

theorem removeEach (h : t.Tight) (others : List Text) :
    Tight (others.foldl (fun (t : Adjacency) other => t.remove other name) t) := by
  induction others generalizing t
  case nil     => exact h
  case cons hi => exact hi h.remove

-- A name that is kept leads somewhere.
theorem has_iff (h : t.Tight) : t.has name ↔ t.of name ≠ [] := by
  rw [Table.has_iff_mem_keys, ← Table.get?_isSome_iff, of]
  cases ho : t.get? name
  case none => simp
  case some others => simpa using fun hn : others = [] => h name (hn ▸ ho)

end Tight
end Adjacency

namespace Graph

-- The graph after some edits. An edit that is refused changes nothing.
def after (g : Graph) (changes : List Change) : Graph :=
  changes.foldl (fun g c => match g.edit c with | .ok g' => g' | .error _ => g) g

structure Tight (g : Graph) : Prop where
  dependencies : g.dependencies.Tight
  dependents   : g.dependents.Tight

-- What can be asked of a graph, and what a list of edges has to say to it.
structure Shows (g : Graph) (edges : EdgeList) : Prop where
  accepts        : ∀ c, (∃ g', g.edit c = .ok g') ↔ edges.Accepts c
  hasOrder       : ∀ a b, g.hasOrder a b ↔ (a, b) ∈ edges
  dependenciesOf : ∀ name, g.dependenciesOf name = edges.targets name
  dependentsOf   : ∀ name, g.dependentsOf name = edges.sources name
  involves       : ∀ name, g.involves name ↔ ∃ e ∈ edges, e.1 = name ∨ e.2 = name
  edgeCount      : g.edgeCount = edges.length
  isEmpty        : g.isEmpty ↔ edges = []

variable {g g' : Graph} {edges : EdgeList} {c : Change}

namespace Tight

theorem empty : Graph.empty.Tight where
  dependencies := nofun
  dependents   := nofun

theorem edit (h : g.Tight) (he : g.edit c = .ok g') : g'.Tight := by
  cases c <;> simp only [Graph.edit] at he
  case set =>
    obtain ⟨_, hg⟩ := setOrder_ok_iff.mp he
    exact hg ▸ ⟨h.dependencies.append, h.dependents.append⟩
  case clear =>
    obtain ⟨_, hg⟩ := clearOrder_ok_iff.mp he
    exact hg ▸ ⟨h.dependencies.remove, h.dependents.remove⟩
  case remove =>
    cases he
    exact ⟨(h.dependencies.removeEach _).erase, (h.dependents.removeEach _).erase⟩
  case reset =>
    cases he
    exact empty

end Tight

namespace Represents

theorem edit_ok_iff (h : g.Represents edges) : (∃ g', g.edit c = .ok g') ↔ edges.Accepts c := by
  cases c <;> simp only [Graph.edit, EdgeList.Accepts]
  case set    => simp [setOrder_ok_iff, h.hasOrder_eq_false_iff]
  case clear  => simp [clearOrder_ok_iff, h.hasOrder_iff]
  case remove => simp
  case reset  => simp

theorem shows (h : g.Represents edges) (ht : g.Tight) : g.Shows edges where
  accepts        := fun _ => h.edit_ok_iff
  hasOrder       := fun _ _ => h.hasOrder_iff
  dependenciesOf := h.dependencies
  dependentsOf   := fun name => (h.dependents name).trans EdgeList.targets_flip
  involves       := by
    intro name
    rw [Graph.involves, Bool.or_eq_true, ht.dependencies.has_iff, ht.dependents.has_iff,
      h.dependencies, h.dependents, EdgeList.targets_flip, ne_eq, ne_eq,
      EdgeList.targets_eq_nil_iff, EdgeList.sources_eq_nil_iff]
    grind
  edgeCount      := h.edgeCount
  isEmpty        := h.isEmpty_iff

end Represents

theorem represents_after (h : g.Represents edges) (ht : g.Tight) (changes : List Change) :
    (g.after changes).Represents (edges.after changes) ∧ (g.after changes).Tight := by
  induction changes generalizing g edges
  case nil => exact ⟨h, ht⟩
  case cons c rest hi =>
    simp only [Graph.after, EdgeList.after, List.foldl_cons] at hi ⊢
    cases he : g.edit c
    case ok g' =>
      rw [if_pos (h.edit_ok_iff.mp ⟨g', he⟩)]
      exact hi (h.edit he) (ht.edit he)
    case error =>
      rw [if_neg (mt h.edit_ok_iff.mpr (by simp [he]))]
      exact hi h ht

theorem shows_after (changes : List Change) :
    (Graph.empty.after changes).Shows (EdgeList.after [] changes) :=
  have ⟨h, ht⟩ := represents_after .empty .empty changes
  h.shows ht

end Graph
end SceneMotion
