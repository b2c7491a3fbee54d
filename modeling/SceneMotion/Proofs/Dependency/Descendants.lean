import Mathlib.Logic.Relation
import SceneMotion.Proofs.Dependency.Refinement
import SceneMotion.Proofs.Names

namespace SceneMotion

namespace Graph

variable {g : Graph} {roots stack rest unseen found : List Text} {a b name : Text}

-- Some root is reached from a name along one edge or more.
def Reaches (g : Graph) (roots : List Text) (name : Text) : Prop :=
  ∃ root ∈ roots, Relation.TransGen (fun a b => g.hasOrder a b) name root

-- Both directions of an edge are kept.
def Mutual (g : Graph) : Prop :=
  ∀ a b, a ∈ g.dependentsOf b ↔ g.hasOrder a b

theorem Represents.mutual {edges : EdgeList} (h : g.Represents edges) : g.Mutual :=
  fun _ _ => h.mem_dependentsOf_iff.trans h.hasOrder_iff.symm

theorem Reaches.of_hasOrder (h : g.hasOrder a b) (hb : b ∈ roots ∨ g.Reaches roots b) :
    g.Reaches roots a := by
  rcases hb with hb | ⟨root, hr, hb⟩
  · exact ⟨b, hb, .single h⟩
  · exact ⟨root, hr, .head h hb⟩

-- What is met first at a name.
def fresh (g : Graph) (unseen : List Text) (name : Text) : List Text :=
  (g.dependentsOf name).eraseDups.filter (· ∈ unseen)

@[simp]
theorem mem_fresh : a ∈ g.fresh unseen name ↔ a ∈ g.dependentsOf name ∧ a ∈ unseen := by
  simp [fresh]

theorem fresh_nodup (g : Graph) (unseen : List Text) (name : Text) : (g.fresh unseen name).Nodup :=
  (Names.nodup_eraseDups _).filter _

theorem collect_nil : g.collect [] unseen found = found := by
  rw [collect.eq_def]

theorem collect_cons : g.collect (name :: rest) unseen found =
    g.collect ((g.fresh unseen name).reverse ++ rest) (unseen.removeAll (g.fresh unseen name))
      (found ++ g.fresh unseen name) := by
  rw [collect.eq_def, fresh]
  dsimp only
  split
  case h_1 h => simp [h]
  case h_2 h => rw [h]

theorem mem_removeAll {names : List Text} : a ∈ names.removeAll found ↔ a ∈ names ∧ a ∉ found := by
  simp [List.removeAll]

-- How far a search for all that comes after some roots has come.
structure Search (g : Graph) (roots stack unseen found : List Text) : Prop where
  unmet   : ∀ a ∈ unseen, a ∉ roots ∧ a ∉ found
  known   : ∀ b, ∀ a ∈ g.dependentsOf b, a ∈ roots ∨ a ∈ found ∨ a ∈ unseen
  pending : ∀ a ∈ stack, a ∈ roots ∨ a ∈ found
  apart   : ∀ a ∈ found, a ∉ roots
  nodup   : found.Nodup
  reaches : ∀ a ∈ found, g.Reaches roots a
  -- Only at the names on the stack can anything be missing.
  closed  : ∀ b, b ∈ roots ∨ b ∈ found → b ∉ stack → ∀ a ∈ g.dependentsOf b, a ∈ roots ∨ a ∈ found

theorem mem_dependents (h : a ∈ g.dependentsOf b) : a ∈ g.dependents.flatMap (·.2) := by
  rw [dependentsOf, Adjacency.of] at h
  cases hb : g.dependents.get? b <;> rw [hb] at h
  case none        => cases h
  case some others =>
    obtain ⟨before, after, ht, _⟩ := List.lookup_eq_some_iff.mp hb
    simp [ht, show a ∈ others from h]

namespace Search

theorem start (g : Graph) (roots : List Text) : Search g roots roots.eraseDups.reverse
    ((g.dependents.flatMap (·.2)).eraseDups.filter (· ∉ roots.eraseDups)) [] where
  unmet   := by simp
  known   := by
    intro b a ha
    have := mem_dependents ha
    simp only [List.mem_filter, List.mem_eraseDups, decide_eq_true_eq]
    grind
  pending := by simp
  apart   := nofun
  nodup   := .nil
  reaches := nofun
  closed  := by
    intro b hb hs
    simp_all

theorem step (h : Search g roots (name :: rest) unseen found) (hg : g.Mutual) :
    Search g roots ((g.fresh unseen name).reverse ++ rest) (unseen.removeAll (g.fresh unseen name))
      (found ++ g.fresh unseen name) where
  unmet a ha := by
    have ⟨ha, hn⟩ := mem_removeAll.mp ha
    have ⟨hr, hf⟩ := h.unmet a ha
    exact ⟨hr, fun hm => (List.mem_append.mp hm).elim hf hn⟩
  known b a ha := by
    have := h.known b a ha
    simp only [mem_removeAll, List.mem_append]
    grind
  pending a ha := by
    have := h.pending a
    simp only [List.mem_append, List.mem_reverse, List.mem_cons] at *
    grind
  apart a ha := by
    rcases List.mem_append.mp ha with ha | ha
    · exact h.apart a ha
    · exact (h.unmet a (mem_fresh.mp ha).right).left
  nodup := by
    refine List.nodup_append.mpr ⟨h.nodup, fresh_nodup .., ?_⟩
    rintro a ha _ hb rfl
    exact (h.unmet a (mem_fresh.mp hb).right).right ha
  reaches a ha := by
    rcases List.mem_append.mp ha with ha | ha
    · exact h.reaches a ha
    · have hn := h.pending name List.mem_cons_self
      exact .of_hasOrder ((hg a name).mp (mem_fresh.mp ha).left) (hn.imp_right (h.reaches name))
  closed b hb hs a ha := by
    have hc := h.closed b
    have hk := h.known b a ha
    simp only [List.mem_append, List.mem_reverse, List.mem_cons, mem_fresh] at *
    grind

-- The search goes on until the stack is empty.
theorem collect (h : Search g roots stack unseen found) (hg : g.Mutual) :
    ∃ unseen', Search g roots [] unseen' (g.collect stack unseen found) := by
  induction stack, unseen, found using Graph.collect.induct g
  case case1 unseen found =>
    rw [collect_nil]
    exact ⟨unseen, h⟩
  case case2 unseen found name rest hf hi =>
    have hs := h.step hg
    rw [collect_cons]
    rw [show g.fresh unseen name = [] from hf] at hs ⊢
    simpa using hi (by simpa using hs)
  case case3 unseen found name rest a as hf hi =>
    have hs := h.step hg
    rw [collect_cons]
    rw [show g.fresh unseen name = a :: as from hf] at hs ⊢
    exact hi hs

theorem mem_iff (h : Search g roots [] unseen found) (hg : g.Mutual) :
    name ∈ found ↔ name ∉ roots ∧ g.Reaches roots name := by
  constructor
  case mp => exact fun hn => ⟨h.apart name hn, h.reaches name hn⟩
  case mpr =>
    rintro ⟨hn, root, hr, hp⟩
    suffices name ∈ roots ∨ name ∈ found from this.resolve_left hn
    clear hn
    -- The path is followed back from the root, and other roots may stand on it.
    induction hp using Relation.TransGen.head_induction_on
    case single ho    => exact h.closed root (.inl hr) List.not_mem_nil _ ((hg _ _).mpr ho)
    case head ho _ hi => exact h.closed _ hi List.not_mem_nil _ ((hg _ _).mpr ho)

end Search

-- Whatever has been done to the graph, and whatever the roots are.
theorem descendantsOf_after (changes : List Change) (roots : List Text) :
    ((Graph.empty.after changes).descendantsOf roots).Nodup ∧
    ∀ name, name ∈ (Graph.empty.after changes).descendantsOf roots ↔
      name ∉ roots ∧ ∃ root ∈ roots, Relation.TransGen
        (fun a b => (Graph.empty.after changes).hasOrder a b) name root := by
  have ⟨hr, _⟩ := represents_after .empty .empty changes
  have ⟨_, h⟩ := (Search.start _ roots).collect hr.mutual
  exact ⟨h.nodup, fun _ => h.mem_iff hr.mutual⟩

end Graph
end SceneMotion
