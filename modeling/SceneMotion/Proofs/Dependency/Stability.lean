import Mathlib.Order.Lattice.Nat
import SceneMotion.Proofs.Dependency.UpdateOrder

namespace SceneMotion

namespace Graph

-- The first place at which a name stands, or one that depends on it by way of the names.
noncomputable def rank (g : Graph) (names : List Text) (name : Text) : Nat :=
  sInf {i | ∃ a, names[i]? = some a ∧ Relation.ReflTransGen (g.Links names) a name}

variable {g : Graph} {names : List Text} {a b name : Text} {i : Nat}

theorem rank_le (hi : names[i]? = some a) (h : Relation.ReflTransGen (g.Links names) a name) :
    g.rank names name ≤ i :=
  Nat.sInf_le ⟨a, hi, h⟩

theorem exists_rank (h : name ∈ names) : ∃ a, names[g.rank names name]? = some a ∧
    Relation.ReflTransGen (g.Links names) a name := by
  have ⟨i, hi⟩ := List.mem_iff_getElem?.mp h
  exact Nat.sInf_mem (s := {i | ∃ a, names[i]? = some a ∧ Relation.ReflTransGen (g.Links names) a name})
    ⟨i, name, hi, .refl⟩

-- Whoever depends on a name has a rank of its own, and the name has none behind it.
theorem rank_le_rank (ha : a ∈ names) (h : Relation.ReflTransGen (g.Links names) a b) :
    g.rank names b ≤ g.rank names a :=
  have ⟨_, hr, ht⟩ := exists_rank (g := g) ha
  rank_le hr (ht.trans h)

-- The names of one rank stand together, and the one that they all wait for comes last.
structure Stable (g : Graph) (names order : List Text) : Prop where
  ascending : order.Pairwise fun a b => g.rank names a ≤ g.rank names b
  last      : ∀ name ∈ order, ∃ head, names[g.rank names name]? = some head ∧
    g.rank names head = g.rank names name ∧ order.idxOf name ≤ order.idxOf head

end Graph

namespace UpdateOrder

variable {g : Graph} {names order mid rest : List Text} {p q : Pass} {a name : Text} {k : Nat}

theorem Valid.idxOf_le (h : Valid g order) (hp : order.Perm names)
    (hr : Relation.ReflTransGen (g.Links names) a name) : order.idxOf name ≤ order.idxOf a := by
  induction hr
  case refl         => exact Nat.le_refl _
  case tail _ hl hi =>
    have hl := h _ (hp.mem_iff.mpr hl.left) _ (hp.mem_iff.mpr hl.right.left) (decide_eq_true hl.right.right)
    exact hl.le.trans hi

theorem Settled.closed_of_reaches {placed : List Text} (h : Settled g names placed)
    (hr : Relation.ReflTransGen (g.Links names) a name) (ha : a ∈ placed) : name ∈ placed := by
  induction hr
  case refl         => exact ha
  case tail _ hl hi => exact h.closed hi hl.right.right hl.right.left

-- So many of the names that the pass has begun with have come up. What stands above the others on the
-- stack is there for the last one of them.
structure Phase (g : Graph) (names : List Text) (p : Pass) (k : Nat) (mid : List Text) : Prop where
  pending   : p.pending = mid ++ names.drop k
  reached   : ∀ a ∈ mid, ∃ i root, k = i + 1 ∧ names[i]? = some root ∧
    Relation.ReflTransGen (g.Links names) root a
  earlier   : ∀ i a, i < k → names[i]? = some a → a ∈ p.placed ∨ (i + 1 = k ∧ a ∈ mid)
  placed    : ∀ a ∈ p.placed, g.rank names a < k
  ascending : p.placed.Pairwise fun a b => g.rank names b ≤ g.rank names a

namespace Phase

theorem initial : Phase g names ⟨names, names, [], [], []⟩ 0 [] where
  pending   := rfl
  reached   := nofun
  earlier   := nofun
  placed    := nofun
  ascending := .nil

-- Once everything has been placed for the sake of one name, the next one comes up.
theorem next (h : Phase g names p k []) (hp : p.pending = name :: rest) :
    Phase g names p (k + 1) [name] := by
  have hd : names.drop k = name :: rest := h.pending.symm.trans hp
  have hk : names[k]? = some name := by rw [← List.head?_drop, hd]; rfl
  refine ⟨?pending, ?reached, ?earlier, fun a ha => Nat.lt_succ_of_lt (h.placed a ha), h.ascending⟩
  case pending =>
    rw [hp, ← List.drop_drop, hd]
    rfl
  case reached =>
    intro a ha
    exact ⟨k, name, rfl, hk, List.mem_singleton.mp ha ▸ .refl⟩
  case earlier =>
    intro i a hi ha
    cases Nat.lt_succ_iff_lt_or_eq.mp hi
    case inl hi => exact (h.earlier i a hi ha).imp_right fun h => absurd h.right List.not_mem_nil
    case inr hi =>
      cases hi
      cases hk.symm.trans ha
      exact .inr ⟨rfl, List.mem_singleton_self _⟩

theorem exists_mid (h : ∃ k mid, Phase g names p k mid) (hp : p.pending = name :: rest) :
    ∃ k mid, Phase g names p k (name :: mid) ∧ rest = mid ++ names.drop k := by
  obtain ⟨k, _ | ⟨top, mid⟩, h⟩ := h
  case nil  =>
    have h := h.next hp
    exact ⟨k + 1, [], h, (List.cons.inj (hp.symm.trans h.pending)).right⟩
  case cons =>
    obtain ⟨rfl, hr⟩ := List.cons.inj (hp.symm.trans h.pending)
    exact ⟨k, mid, h, hr⟩

-- The earlier names have been placed with all that they depend on.
theorem rank_add_one (h : Phase g names p k (name :: mid)) (hs : Settled g names p.placed)
    (hm : name ∈ names) (hn : name ∉ p.placed) : g.rank names name + 1 = k := by
  obtain ⟨i, root, rfl, hi, hr⟩ := h.reached name List.mem_cons_self
  have hle := Graph.rank_le hi hr
  obtain ⟨a, ha, hra⟩ := Graph.exists_rank (g := g) hm
  have hlt : ¬g.rank names name < i := by
    intro hlt
    cases h.earlier _ a (Nat.lt_succ_of_lt hlt) ha
    case inl hp => exact hn (hs.closed_of_reaches hra hp)
    case inr hk => omega
  omega

theorem put (h : Phase g names p k (name :: mid)) (hi : Invariant g names p) (hm : name ∈ names)
    (hn : name ∉ p.placed) (hp : q.pending = mid ++ names.drop k) (hq : q.placed = name :: p.placed) :
    Phase g names q k mid := by
  have hk := h.rank_add_one hi.settled hm hn
  refine ⟨hp, fun a ha => h.reached a (List.mem_cons_of_mem _ ha), ?earlier, ?placed, ?ascending⟩
  case earlier =>
    intro i a hi ha
    rw [hq]
    cases h.earlier i a hi ha
    case inl hp => exact .inl (List.mem_cons_of_mem _ hp)
    case inr hr =>
      cases List.mem_cons.mp hr.right
      case inl ha => exact .inl (ha ▸ List.mem_cons_self)
      case inr ha => exact .inr ⟨hr.left, ha⟩
  case placed =>
    rw [hq]
    exact List.forall_mem_cons.mpr ⟨by omega, h.placed⟩
  case ascending =>
    rw [hq]
    refine List.pairwise_cons.mpr ⟨fun a ha => ?_, h.ascending⟩
    have := h.placed a ha
    omega

theorem skip (h : Phase g names p k (name :: mid)) (hn : name ∈ p.placed) :
    Phase g names { p with pending := mid ++ names.drop k } k mid where
  pending   := rfl
  reached   := fun a ha => h.reached a (List.mem_cons_of_mem _ ha)
  earlier   := by
    intro i a hi ha
    cases h.earlier i a hi ha
    case inl hp => exact .inl hp
    case inr hr =>
      cases List.mem_cons.mp hr.right
      case inl ha => exact .inl (ha ▸ hn)
      case inr ha => exact .inr ⟨hr.left, ha⟩
  placed    := h.placed
  ascending := h.ascending

-- What a name asks for is there for the same name of the beginning.
theorem visit {fresh path : List Text} (h : Phase g names p k (name :: mid)) (hm : name ∈ names)
    (hq : (g.dependenciesOf name).foldlM (push names name) { p with fresh, path } = .ok q) :
    ∃ mid, Phase g names q k mid := by
  have ⟨above, hq, ha, _⟩ := foldlM_push_ok hq
  rw [hq]
  refine ⟨above ++ name :: mid, by simp [h.pending], ?_, ?_, h.placed, h.ascending⟩
  · intro a hm'
    cases List.mem_append.mp hm'
    case inr hm' => exact h.reached a hm'
    case inl hm' =>
      have ⟨hd, hn, _⟩ := (ha a).mp hm'
      have ⟨i, root, hk, hi, hr⟩ := h.reached name List.mem_cons_self
      exact ⟨i, root, hk, hi, hr.tail ⟨hm, hn, hd⟩⟩
  · intro i a hi ha
    exact (h.earlier i a hi ha).imp_right fun h => ⟨h.left, List.mem_append_right _ h.right⟩

end Phase

theorem run_ascending (hi : Invariant g names p) (hn : names.Nodup)
    (h : ∃ k mid, Phase g names p k mid) (ho : (run g names p).order = .ok order) :
    order.Pairwise fun a b => g.rank names a ≤ g.rank names b := by
  fun_induction run g names p
  case case1 =>
    cases ho
    obtain ⟨_, _, h⟩ := h
    exact List.pairwise_reverse.mpr h.ascending
  case case2 hp hf hd ih =>
    obtain ⟨k, mid, h, rfl⟩ := Phase.exists_mid h hp
    have hm := hi.pending _ (hp ▸ List.mem_cons_self)
    refine ih (hi.place hn hp hf hd) ⟨k, mid, h.put hi hm ?_ rfl rfl⟩ ho
    exact hi.not_placed_of_mem hn (.inl hf)
  case case3 hp hf _ _ _ hq ih =>
    obtain ⟨k, mid, h, rfl⟩ := Phase.exists_mid h hp
    have hm := hi.pending _ (hp ▸ List.mem_cons_self)
    exact ih (hi.visit hn hp hf hq) ⟨k, h.visit hm hq⟩ ho
  case case4 hp _ _ _ _ he =>
    obtain ⟨_, _, _, _, he⟩ := foldlM_push_error he
    cases he.symm.trans ho
  case case5 hp hf hm ih =>
    obtain ⟨k, mid, h, rfl⟩ := Phase.exists_mid h hp
    have hm' := hi.pending _ (hp ▸ List.mem_cons_self)
    refine ih (hi.finish hn hp hm) ⟨k, mid, h.put hi hm' ?_ rfl rfl⟩ ho
    exact hi.not_placed_of_mem hn (.inr hm)
  case case6 hp hf hm ih =>
    obtain ⟨k, mid, h, rfl⟩ := Phase.exists_mid h hp
    have hm' := hi.pending _ (hp ▸ List.mem_cons_self)
    exact ih (hi.skip hp hf hm) ⟨k, mid, h.skip (hi.mem_placed hm' hf hm)⟩ ho

end UpdateOrder

namespace Graph

variable {g : Graph} {names order : List Text} {a b name : Text} {i : Nat}

theorem sort_stable (hn : names.Nodup) (h : (g.sort names).order = .ok order) :
    g.Stable names order := by
  have ⟨hp, hv⟩ := sort_ok hn h
  refine ⟨UpdateOrder.run_ascending .initial hn ⟨0, [], .initial⟩ h, fun name hm => ?_⟩
  obtain ⟨head, hh, hr⟩ := exists_rank (g := g) (hp.mem_iff.mp hm)
  have hle := rank_le_rank (List.mem_of_getElem? hh) hr
  exact ⟨head, hh, (rank_le hh .refl).antisymm hle, hv.idxOf_le hp hr⟩

def isFree (g : Graph) (names : List Text) (name : Text) : Bool :=
  names.all fun a => !g.hasOrder a name

-- Such a name waits for nobody but itself.
theorem getElem?_rank_of_isFree (hm : name ∈ names) (h : g.isFree names name) :
    names[g.rank names name]? = some name := by
  obtain ⟨a, ha, hr⟩ := exists_rank (g := g) hm
  cases hr
  case refl         => exact ha
  case tail c _ hl =>
    have hc := List.all_eq_true.mp h c hl.left
    simp [hasOrder, hl.right.right] at hc

theorem rank_of_isFree (hn : names.Nodup) (hi : names[i]? = some name) (h : g.isFree names name) :
    g.rank names name = i := by
  have hr := getElem?_rank_of_isFree (List.mem_of_getElem? hi) h
  have hlt := (List.getElem?_eq_some_iff.mp hr).choose
  exact (List.getElem?_inj hlt hn).mp (hr.trans hi.symm)

theorem Stable.filter_isFree (h : g.Stable names order) (hp : order.Perm names) (hn : names.Nodup) :
    order.filter (g.isFree names) = names.filter (g.isFree names) := by
  refine List.Perm.eq_of_pairwise ?antisymm (h.ascending.filter _) ?ascending (hp.filter _)
  case antisymm =>
    intro a b ha hb hab hba
    have ⟨ha, hfa⟩ := List.mem_filter.mp ha
    have ⟨hb, hfb⟩ := List.mem_filter.mp hb
    have ha := getElem?_rank_of_isFree (hp.mem_iff.mp ha) hfa
    rw [hab.antisymm hba, getElem?_rank_of_isFree hb hfb] at ha
    exact (Option.some.inj ha).symm
  case ascending =>
    rw [List.pairwise_filter, List.pairwise_iff_getElem]
    intro i j hi hj hij hfi hfj
    rw [rank_of_isFree hn (List.getElem?_eq_getElem hi) hfi,
      rank_of_isFree hn (List.getElem?_eq_getElem hj) hfj]
    exact hij.le

end Graph
end SceneMotion
