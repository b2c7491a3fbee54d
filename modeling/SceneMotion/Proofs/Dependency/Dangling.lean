import Mathlib.Data.List.Perm.Subperm
import SceneMotion.Proofs.Dependency.EdgeList
import SceneMotion.Proofs.Dependency.UpdateOrder

namespace SceneMotion

namespace Graph

-- The dependencies of a name on names that do not exist.
def danglingOf (g : Graph) (names : List Text) (name : Text) : EdgeList :=
  ((g.dependenciesOf name).filter (· ∉ names)).map (name, ·)

def dangling (g : Graph) (names : List Text) : EdgeList :=
  names.flatMap (g.danglingOf names)

variable {g : Graph} {names : List Text} {a b name : Text}

theorem mem_danglingOf :
    (a, b) ∈ g.danglingOf names name ↔ a = name ∧ g.hasOrder a b ∧ b ∉ names := by
  simp only [danglingOf, List.mem_map, List.mem_filter, Prod.mk.injEq, decide_eq_true_iff, hasOrder]
  constructor
  · rintro ⟨_, hb, rfl, rfl⟩
    exact ⟨rfl, hb⟩
  · rintro ⟨rfl, hb⟩
    exact ⟨b, hb, rfl, rfl⟩

theorem mem_dangling : (a, b) ∈ g.dangling names ↔ a ∈ names ∧ g.hasOrder a b ∧ b ∉ names := by
  simp only [dangling, List.mem_flatMap, mem_danglingOf]
  constructor
  · rintro ⟨_, ha, rfl, h⟩
    exact ⟨ha, h⟩
  · rintro ⟨ha, h⟩
    exact ⟨a, ha, rfl, h⟩

theorem Built.dangling_nodup (hg : g.Built) (hn : names.Nodup) : (g.dangling names).Nodup := by
  have ⟨edges, hr⟩ := hg.represents
  refine List.nodup_flatMap.mpr ⟨fun name _ => ?once, hn.imp fun hab => ?apart⟩
  case once =>
    have hd : (g.dependenciesOf name).Nodup := by
      rw [dependenciesOf, hr.dependencies]
      exact EdgeList.targets_nodup hr.nodup
    exact (hd.filter _).map (Prod.mk_right_injective name)
  case apart =>
    rintro ⟨_, _⟩ ha hb
    exact hab ((mem_danglingOf.mp ha).left.symm.trans (mem_danglingOf.mp hb).left)

end Graph

namespace UpdateOrder

variable {g : Graph} {names ds order : List Text} {name d : Text} {p q : Pass} {o : Outcome}

theorem push_dangling (h : push names name p d = .ok q) :
    q.dangling = (if d ∈ names then [] else [(name, d)]) ++ p.dangling := by
  grind [push]

theorem push_error_dangling (h : push names name p d = .error o) : o.dangling = p.dangling.reverse := by
  grind [push]

-- What the name is to meet with the dependency counts as met afterwards.
theorem push_dangling_perm (h : push names name p d = .ok q) (ds : List Text) :
    (q.dangling ++ (ds.filter (· ∉ names)).map (name, ·)).Perm
      (p.dangling ++ ((d :: ds).filter (· ∉ names)).map (name, ·)) := by
  rw [push_dangling h]
  by_cases hd : d ∈ names
  case pos => simp [hd]
  case neg => simpa [hd] using List.perm_middle.symm

theorem foldlM_push_dangling (h : ds.foldlM (push names name) p = .ok q) :
    q.dangling.Perm (p.dangling ++ (ds.filter (· ∉ names)).map (name, ·)) := by
  induction ds generalizing p
  case nil => cases h; simp
  case cons d ds hi =>
    cases hr : push names name p d <;> simp only [List.foldlM_cons, hr, bind, Except.bind] at h
    case error => contradiction
    case ok    => exact (hi h).trans (push_dangling_perm hr ds)

-- What comes after the dependency that closes a cycle has not been met.
theorem foldlM_push_error_dangling (h : ds.foldlM (push names name) p = .error o) :
    o.dangling.Subperm (p.dangling ++ (ds.filter (· ∉ names)).map (name, ·)) := by
  induction ds generalizing p
  case nil => cases h
  case cons d ds hi =>
    cases hr : push names name p d <;> simp only [List.foldlM_cons, hr, bind, Except.bind] at h
    case ok    => exact (hi h).trans (push_dangling_perm hr ds).subperm
    case error =>
      cases h
      rw [push_error_dangling hr]
      exact p.dangling.reverse_perm.subperm.trans (List.sublist_append_left ..).subperm

-- A pass that comes to an end has met all of the edges, and one that does not has met some of them; none
-- of them is met twice.
structure Outcome.Meets (o : Outcome) (edges : EdgeList) : Prop where
  subperm : o.dangling.Subperm edges
  perm    : ∀ order, o.order = .ok order → o.dangling.Perm edges

theorem Outcome.Meets.of_perm {edges edges' : EdgeList} (h : o.Meets edges) (hp : edges.Perm edges') :
    o.Meets edges' where
  subperm := h.subperm.trans hp.subperm
  perm    := fun order ho => (h.perm order ho).trans hp

-- What a pass has met, with what it is to meet when it visits the other names.
def Pass.meetings (g : Graph) (names : List Text) (p : Pass) : EdgeList :=
  p.dangling ++ p.fresh.flatMap (g.danglingOf names)

theorem meetings_perm (hf : name ∈ p.fresh) : (p.meetings g names).Perm
    (p.dangling ++ g.danglingOf names name ++ (p.fresh.erase name).flatMap (g.danglingOf names)) := by
  rw [List.append_assoc]
  exact ((List.perm_cons_erase hf).flatMap_right _).append_left _

theorem meetings_visit {path : List Text} (hf : name ∈ p.fresh)
    (hq : (g.dependenciesOf name).foldlM (push names name)
      { p with fresh := p.fresh.erase name, path } = .ok q) :
    (q.meetings g names).Perm (p.meetings g names) := by
  refine List.Perm.trans ?_ (meetings_perm hf).symm
  rw [Pass.meetings, foldlM_push_fresh hq]
  exact (foldlM_push_dangling hq).append_right _

theorem run_meets (h : Invariant g names p) (hn : names.Nodup) :
    (run g names p).Meets (p.meetings g names) := by
  fun_induction run g names p
  case case1 p hp =>
    have hf : p.fresh = [] := List.eq_nil_iff_forall_not_mem.mpr fun a ha =>
      List.not_mem_nil (hp ▸ h.waiting a ha)
    have hd : p.dangling.reverse.Perm (p.meetings g names) := by
      simp [Pass.meetings, hf]
    exact ⟨hd.subperm, fun _ _ => hd⟩
  case case2 hp hf hd hi =>
    refine (hi (h.place hn hp hf hd)).of_perm (List.Perm.trans ?_ (meetings_perm hf).symm)
    simp [Pass.meetings, Graph.danglingOf, hd]
  case case3 hp hf _ _ _ hq hi => exact (hi (h.visit hn hp hf hq)).of_perm (meetings_visit hf hq)
  case case4 hp hf _ _ _ ho =>
    obtain ⟨_, _, _, _, he⟩ := foldlM_push_error ho
    refine ⟨?_, fun _ ho => by cases he.symm.trans ho⟩
    refine (foldlM_push_error_dangling ho).trans ?_
    exact (List.sublist_append_left ..).subperm.trans (meetings_perm hf).symm.subperm
  case case5 hp hf hm hi => exact hi (h.finish hn hp hm)
  case case6 hp hf hm hi => exact hi (h.skip hp hf hm)

end UpdateOrder

namespace Graph

theorem sort_meets {g : Graph} {names : List Text} (hn : names.Nodup) :
    (g.sort names).Meets (g.dangling names) :=
  UpdateOrder.run_meets .initial hn

end Graph
end SceneMotion
