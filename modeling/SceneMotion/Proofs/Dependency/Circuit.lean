import SceneMotion.Proofs.Dependency.EdgeList
import SceneMotion.Proofs.Dependency.UpdateOrder

namespace SceneMotion

namespace Graph

-- A way along dependencies that comes back to where it begins and passes nobody else twice. Two names
-- are too few for it, as no graph puts them both after each other.
structure Circuit (g : Graph) (names cycle : List Text) : Prop where
  closed : cycle.head? = cycle.getLast?
  simple : cycle.dropLast.Nodup
  subset : ∀ a ∈ cycle, a ∈ names
  chain  : cycle.IsChain fun a b => g.hasOrder a b
  three  : 3 ≤ cycle.dropLast.length

theorem Circuit.mono {g : Graph} {names names' cycle : List Text} (h : g.Circuit names cycle)
    (hs : ∀ a ∈ names, a ∈ names') : g.Circuit names' cycle :=
  { h with subset := fun a ha => hs a (h.subset a ha) }

end Graph

namespace UpdateOrder

variable {g : Graph} {names path above below : List Text} {name dependency : Text}

theorem cycleThrough_eq (h : dependency ∉ above) :
    cycleThrough (above ++ dependency :: below) dependency =
      dependency :: above.reverse ++ [dependency] := by
  have ha : ∀ a ∈ above, decide (a ≠ dependency) := fun a hm =>
    decide_eq_true fun ha => h (ha ▸ hm)
  rw [cycleThrough, List.takeWhile_append_of_pos ha]
  simp

namespace Loop

-- What stands on the path above the name that has been met again.
theorem exists_above (l : Loop g names path name dependency) : ∃ above below,
    name :: path = above ++ dependency :: below ∧ dependency ∉ above := by
  have ⟨above, below, h⟩ := List.append_of_mem l.met
  have hn := h ▸ l.nodup
  exact ⟨above, below, h, fun ha => (List.nodup_append.mp hn).right.right _ ha _ List.mem_cons_self rfl⟩

-- At least two names stand there: the graph has no edges from a name to itself or back and forth.
theorem above_eq_cons_cons (l : Loop g names path name dependency) (hg : g.Built)
    (h : name :: path = above ++ dependency :: below) : ∃ next more, above = name :: next :: more := by
  have ⟨edges, hr⟩ := hg.represents
  have hc := hr.mem_dependenciesOf_iff.mp l.closes
  match above with
  | []               => exact absurd (List.cons.inj h).left (hr.ne hc)
  | [a]              =>
    obtain ⟨rfl, rfl⟩ := List.cons.inj h
    have hb := (List.isChain_cons_cons.mp l.chain).left
    exact absurd (hr.mem_dependenciesOf_iff.mp hb) (hr.asymm _ _ hc)
  | a :: next :: more => exact ⟨next, more, by rw [(List.cons.inj h).left]⟩

theorem chain_reverse (l : Loop g names path name dependency)
    (h : name :: path = above ++ dependency :: below) :
    (dependency :: above.reverse).IsChain fun a b => g.hasOrder a b := by
  have hc : (above ++ [dependency]).IsChain fun a b => g.hasOrder b a := by
    have hc := h ▸ l.chain
    rw [List.append_cons] at hc
    exact hc.left_of_append.imp fun _ _ => decide_eq_true
  simpa using List.isChain_reverse.mpr hc

theorem circuit (l : Loop g names path name dependency) (hg : g.Built) :
    g.Circuit names (cycleThrough (name :: path) dependency) ∧
      [name, dependency] <:+ cycleThrough (name :: path) dependency := by
  obtain ⟨above, below, h, hd⟩ := l.exists_above
  obtain ⟨next, more, rfl⟩ := l.above_eq_cons_cons hg h
  have hsub a (ha : a ∈ dependency :: (name :: next :: more).reverse) : a ∈ names := by
    refine l.subset a (h ▸ ?_)
    grind
  have hn : (dependency :: (name :: next :: more).reverse).Nodup := by
    have hn := (h ▸ l.nodup).of_append_left
    exact List.nodup_cons.mpr ⟨mt List.mem_reverse.mp hd, List.nodup_reverse.mpr hn⟩
  have hlast : (dependency :: (name :: next :: more).reverse).getLast? = some name := by
    rw [List.reverse_cons, ← List.cons_append, List.getLast?_concat]
  rw [h, cycleThrough_eq hd]
  refine ⟨⟨?closed, ?simple, ?subset, ?chain, ?three⟩, ?last⟩
  case closed => rw [List.getLast?_concat]; rfl
  case simple => rwa [List.dropLast_concat]
  case three  => simp
  case last   => exact ⟨dependency :: (next :: more).reverse, by simp⟩
  case subset =>
    intro a ha
    cases List.mem_append.mp ha
    case inl ha => exact hsub a ha
    case inr ha => exact hsub a (List.mem_singleton.mp ha ▸ List.mem_cons_self)
  case chain =>
    refine List.isChain_append.mpr ⟨l.chain_reverse h, .singleton _, ?_⟩
    rw [hlast]
    rintro _ ⟨⟩ _ ⟨⟩
    exact decide_eq_true l.closes

end Loop
end UpdateOrder

namespace Graph

variable {g : Graph} {names : List Text} {e : DependencyError}

-- The report names the two between which the way round closes.
theorem sort_error_circuit (hg : g.Built) (hn : names.Nodup) (h : (g.sort names).order = .error e) :
    ∃ cycle, e.cycle? = some cycle ∧ g.Circuit names cycle ∧
      ∃ name dependency, e.entities = [name, dependency] ∧ [name, dependency] <:+ cycle := by
  obtain ⟨path, name, dependency, l, rfl⟩ := sort_error hn h
  have ⟨hc, hs⟩ := l.circuit hg
  exact ⟨_, rfl, hc, name, dependency, rfl, hs⟩

end Graph
end SceneMotion
