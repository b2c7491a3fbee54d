import SceneMotion.Proofs.Dependency.Refinement
import SceneMotion.Proofs.Names

namespace SceneMotion

namespace Adjacency

variable {t : Adjacency} {a b name other : Text} {names others : List Text}

-- One name leads to several more.
def appendEach (t : Adjacency) (name : Text) (others : List Text) : Adjacency :=
  others.foldl (·.append name ·) t

-- Several names lead to one more.
def appendToEach (t : Adjacency) (names : List Text) (other : Text) : Adjacency :=
  names.foldl (·.append · other) t

theorem of_appendEach :
    (t.appendEach a others).of name = t.of name ++ if name = a then others else [] := by
  induction others generalizing t
  case nil => simp [appendEach]
  case cons other rest hi =>
    rw [appendEach, List.foldl_cons, ← appendEach, hi, of_append, List.append_assoc]
    split <;> rfl

theorem of_appendToEach (h : names.Nodup) :
    (t.appendToEach names b).of name = t.of name ++ if name ∈ names then [b] else [] := by
  induction names generalizing t
  case nil => simp [appendToEach]
  case cons a rest hi =>
    have ⟨ha, h⟩ := List.nodup_cons.mp h
    rw [appendToEach, List.foldl_cons, ← appendToEach, hi h, of_append, List.append_assoc]
    by_cases hn : name = a
    case pos => simp [hn, ha]
    case neg => simp [hn]

theorem remove_of_get? (h : t.get? name = some others) : t.remove name other =
    if others.erase other = [] then t.erase name else t.set name (others.erase other) := by
  rw [remove, h]
  dsimp only
  split
  case h_1 he => rw [if_pos he]
  case h_2 he => rw [if_neg he]

theorem appendEach_eq_set (h : others ≠ []) :
    t.appendEach name others = t.set name (t.of name ++ others) := by
  induction others generalizing t
  case nil => contradiction
  case cons other rest hi =>
    rw [appendEach, List.foldl_cons, ← appendEach]
    cases rest
    case nil  => rfl
    case cons =>
      rw [hi (List.cons_ne_nil _ _), append, of_set, if_pos rfl, Table.set_set, List.append_assoc]
      rfl

-- What is appended last leaves no trace when it is removed.
theorem remove_append (ht : t.Tight) (h : other ∉ t.of name) :
    (t.append name other).remove name other = t := by
  have hg : (t.append name other).get? name = some (t.of name ++ [other]) := by
    rw [append, Table.get?_set, if_pos rfl]
  have he : (t.of name ++ [other]).erase other = t.of name := by
    rw [List.erase_append_right _ h, List.erase_cons_head, List.append_nil]
  rw [remove_of_get? hg, he, append, Table.set_set]
  cases ho : t.get? name
  case none =>
    have hn : t.of name = [] := by rw [of, ho]; rfl
    rw [if_pos hn, Table.erase_set_of_not_mem (Table.get?_eq_none_iff.mp ho)]
  case some others =>
    have hn : t.of name = others := by rw [of, ho]; rfl
    have hne : others ≠ [] := fun he => ht name (he ▸ ho)
    rw [hn, if_neg hne, Table.set_of_get? ho]

theorem remove_appendEach_cons (ht : t.Tight) (h : other ∉ t.of name) :
    (t.appendEach name (other :: others)).remove name other = t.appendEach name others := by
  cases others
  case nil => exact remove_append ht h
  case cons next rest =>
    have hg : (t.appendEach name (other :: next :: rest)).get? name =
        some (t.of name ++ other :: next :: rest) := by
      rw [appendEach_eq_set (List.cons_ne_nil _ _), Table.get?_set, if_pos rfl]
    have he : (t.of name ++ other :: next :: rest).erase other = t.of name ++ next :: rest := by
      rw [List.erase_append_right _ h, List.erase_cons_head]
    rw [remove_of_get? hg, he, if_neg (by simp), appendEach_eq_set (List.cons_ne_nil _ _),
      Table.set_set, appendEach_eq_set (List.cons_ne_nil _ _)]

-- What is kept under different names is appended and removed in any order.
theorem remove_append_of_ne (h : b ≠ a) :
    (t.append a name).remove b other = (t.remove b other).append a name := by
  have hg : (t.append a name).get? b = t.get? b := by rw [append, Table.get?_set, if_neg h]
  cases ho : t.get? b
  case none => simp only [remove, hg, ho]
  case some others =>
    rw [remove_of_get? (hg.trans ho), remove_of_get? ho]
    split
    case isTrue  => rw [append, append, of_erase, if_neg h.symm, Table.erase_set_of_ne h]
    case isFalse =>
      rw [append, append, of_set, if_neg h.symm,
        Table.set_comm_of_mem h (Table.mem_keys_of_get? ho)]

theorem remove_appendToEach_of_not_mem (h : b ∉ names) :
    (t.appendToEach names name).remove b other = (t.remove b other).appendToEach names name := by
  induction names generalizing t
  case nil => rfl
  case cons a rest hi =>
    have ⟨hne, h⟩ := List.ne_and_not_mem_of_not_mem_cons h
    rw [appendToEach, List.foldl_cons, ← appendToEach, hi h, remove_append_of_ne hne]
    rfl

theorem remove_appendToEach_cons (ht : t.Tight) (h : other ∉ t.of name) (hn : name ∉ names) :
    (t.appendToEach (name :: names) other).remove name other = t.appendToEach names other := by
  have hr : ((t.append name other).appendToEach names other).remove name other = _ :=
    remove_appendToEach_of_not_mem hn
  rw [remove_append ht h] at hr
  exact hr

end Adjacency

namespace Graph

variable {g g' : Graph} {owner name a b : Text} {names more : List Text}

-- A graph in which an owner has been put after some more names.
def linked (g : Graph) (owner : Text) (names : List Text) : Graph where
  dependencies := g.dependencies.appendEach owner names
  dependents   := g.dependents.appendToEach names owner
  edgeCount    := g.edgeCount + names.length

@[simp]
theorem linked_nil : g.linked owner [] = g :=
  rfl

theorem linked_append : g.linked owner (names ++ more) = (g.linked owner names).linked owner more := by
  simp only [linked, Adjacency.appendEach, Adjacency.appendToEach, List.foldl_append,
    List.length_append, Nat.add_assoc]

theorem eq_linked_of_setOrder (h : g.setOrder owner name = .ok g') : g' = g.linked owner [name] :=
  (setOrder_ok_iff.mp h).right

theorem dependenciesOf_linked : (g.linked owner names).dependenciesOf a =
    g.dependenciesOf a ++ if a = owner then names else [] :=
  Adjacency.of_appendEach

theorem dependentsOf_linked (h : names.Nodup) : (g.linked owner names).dependentsOf b =
    g.dependentsOf b ++ if b ∈ names then [owner] else [] :=
  Adjacency.of_appendToEach h

theorem hasOrder_linked :
    (g.linked owner names).hasOrder a b = (g.hasOrder a b || decide (a = owner ∧ b ∈ names)) := by
  rw [Bool.eq_iff_iff, hasOrder, dependenciesOf_linked]
  by_cases h : a = owner <;> simp [h, hasOrder]

-- The first of the edges is taken back as if it had not been made.
theorem clearOrder_linked (ht : g.Tight) (hd : name ∉ g.dependenciesOf owner)
    (hs : owner ∉ g.dependentsOf name) (hn : name ∉ names) :
    (g.linked owner (name :: names)).clearOrder owner name = .ok (g.linked owner names) := by
  have ho : (g.linked owner (name :: names)).hasOrder owner name := by simp [hasOrder_linked]
  refine clearOrder_ok_iff.mpr ⟨ho, ?_⟩
  simp only [linked, Adjacency.remove_appendEach_cons ht.dependencies hd,
    Adjacency.remove_appendToEach_cons ht.dependents hs hn, List.length_cons, ← Nat.add_assoc,
    Nat.add_sub_cancel]

-- Those of some names that an owner does not come after as yet, each once.
def missing (g : Graph) (owner : Text) (names : List Text) : List Text :=
  names.eraseDups.filter fun name => !g.hasOrder owner name

theorem missing_cons_of_hasOrder (h : g.hasOrder owner name) :
    g.missing owner (name :: names) = g.missing owner names := by
  rw [missing, List.eraseDups_cons, List.filter_cons_of_neg (by simp [h]), Names.eraseDups_filter,
    List.filter_filter, missing]
  refine List.filter_congr fun other _ => ?_
  grind

theorem missing_cons (h : g.hasOrder owner name = false) :
    g.missing owner (name :: names) = name :: (g.missing owner names).filter (· ≠ name) := by
  rw [missing, List.eraseDups_cons, List.filter_cons_of_pos (by simp [h]), Names.eraseDups_filter,
    List.filter_comm, missing]
  congr 1
  refine List.filter_congr fun other _ => ?_
  grind

-- Names that are noted one by one are missing, apart from those that have been noted before.
theorem foldl_note (pending : List Text) : names.foldl (g.note owner) pending =
    pending ++ (g.missing owner names).filter (· ∉ pending) := by
  induction names generalizing pending
  case nil => simp [missing]
  case cons name rest hi =>
    rw [List.foldl_cons, hi, note]
    cases ho : g.hasOrder owner name
    case true  => rw [missing_cons_of_hasOrder ho, Bool.true_or, if_pos rfl]
    case false =>
      rw [missing_cons ho, Bool.false_or]
      by_cases hm : name ∈ pending
      case pos =>
        rw [if_pos (by simp [hm]), List.filter_cons_of_neg (by simp [hm]), List.filter_filter]
        congr 1
        refine List.filter_congr fun other _ => ?_
        grind
      case neg =>
        rw [if_neg (by simp [hm]), List.filter_cons_of_pos (by simp [hm]), List.filter_filter,
          List.append_assoc, List.singleton_append]
        congr 2
        refine List.filter_congr fun other _ => ?_
        grind

theorem foldl_note_nil : names.foldl (g.note owner) [] = g.missing owner names := by
  rw [foldl_note, List.nil_append, List.filter_eq_self]
  simp

theorem missing_linked :
    (g.linked owner [name]).missing owner names = (g.missing owner names).filter (· ≠ name) := by
  rw [missing, missing, List.filter_filter]
  refine List.filter_congr fun other _ => ?_
  rw [hasOrder_linked]
  grind

-- If nothing stands in the way, an owner comes to follow what it has not followed before.
theorem follow_eq_linked (h : ∀ name ∈ names, name ≠ owner ∧ g.hasOrder name owner = false) :
    g.follow owner names = (g.linked owner (g.missing owner names), .ok ()) := by
  induction names generalizing g
  case nil => rfl
  case cons name rest hi =>
    have hrest := fun other ho => h other (List.mem_cons_of_mem _ ho)
    have ⟨hne, hr⟩ := h name List.mem_cons_self
    cases ho : g.hasOrder owner name
    case true  => rw [follow, if_pos ho, missing_cons_of_hasOrder ho, hi hrest]
    case false =>
      have hs : g.setOrder owner name = .ok (g.linked owner [name]) :=
        setOrder_ok_iff.mpr ⟨⟨hne.symm, hr, ho⟩, rfl⟩
      rw [follow, if_neg (by simp [ho]), hs, missing_cons ho, ← missing_linked]
      dsimp only
      rw [hi, ← linked_append]
      · rfl
      · intro other hm
        have ⟨hne, hr⟩ := hrest other hm
        exact ⟨hne, by simp [hasOrder_linked, hr, hne]⟩

end Graph
end SceneMotion
