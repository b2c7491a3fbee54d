import Mathlib.Data.List.Chain
import Mathlib.Data.List.Nodup
import Mathlib.Logic.Relation
import SceneMotion.Dependency.UpdateOrder

namespace SceneMotion

namespace Graph

-- A dependency of one of the names on another.
def Links (g : Graph) (names : List Text) (a b : Text) : Prop :=
  a ∈ names ∧ b ∈ names ∧ b ∈ g.dependenciesOf a

-- Some name depends on itself by way of the names alone.
def Cyclic (g : Graph) (names : List Text) : Prop :=
  ∃ name, Relation.TransGen (g.Links names) name name

end Graph

namespace UpdateOrder

-- Every name stands after those of the names that it depends on.
def Valid (g : Graph) (order : List Text) : Prop :=
  ∀ a ∈ order, ∀ b ∈ order, g.hasOrder a b → order.idxOf b < order.idxOf a

variable {g : Graph} {names order : List Text}

theorem Valid.not_cyclic (h : Valid g order) (hp : order.Perm names) : ¬g.Cyclic names := by
  intro ⟨name, hc⟩
  suffices ∀ a b, Relation.TransGen (g.Links names) a b → order.idxOf b < order.idxOf a from
    Nat.lt_irrefl _ (this name name hc)
  have step a b (hl : g.Links names a b) : order.idxOf b < order.idxOf a :=
    h a (hp.mem_iff.mpr hl.left) b (hp.mem_iff.mpr hl.right.left) (decide_eq_true hl.right.right)
  intro a b hab
  induction hab
  case single hl      => exact step _ _ hl
  case tail _ hl hi   => exact (step _ _ hl).trans hi

-- Each name of the list, read from its end, comes after all that it depends on.
def Settled (g : Graph) (names : List Text) : List Text → Prop
  | []             => True
  | name :: placed =>
    (∀ d ∈ g.dependenciesOf name, d ∈ names → d ∈ placed) ∧ Settled g names placed

namespace Settled

variable {placed : List Text}

theorem closed (h : Settled g names placed) (ha : a ∈ placed) (hd : d ∈ g.dependenciesOf a)
    (hn : d ∈ names) : d ∈ placed := by
  induction placed
  case nil => contradiction
  case cons name placed hi =>
    cases List.mem_cons.mp ha
    case inl ha => exact List.mem_cons_of_mem _ (h.left d (ha ▸ hd) hn)
    case inr ha => exact List.mem_cons_of_mem _ (hi h.right ha)

theorem valid (h : Settled g names placed) (hn : placed.Nodup) (hs : ∀ a ∈ placed, a ∈ names) :
    Valid g placed.reverse := by
  induction placed
  case nil => simp [Valid]
  case cons name placed hi =>
    have ⟨hm, hn⟩ := List.nodup_cons.mp hn
    have hs' a (ha : a ∈ placed) : a ∈ names := hs a (List.mem_cons_of_mem _ ha)
    replace hi := hi h.right hn hs'
    intro a ha b hb hab
    rw [Graph.hasOrder, decide_eq_true_iff] at hab
    rw [List.mem_reverse] at ha hb
    rw [List.reverse_cons]
    cases List.mem_cons.mp ha
    case inl ha =>
      have hb : b ∈ placed := h.left b (ha ▸ hab) (hs b hb)
      rw [List.idxOf_append_of_mem (List.mem_reverse.mpr hb), ha,
        List.idxOf_append_of_notMem (by simpa using hm)]
      exact Nat.lt_add_right _ (List.idxOf_lt_length_of_mem (List.mem_reverse.mpr hb))
    case inr ha =>
      -- What comes later is no dependency of what has been placed before.
      have hb : b ∈ placed := h.right.closed ha hab (hs b hb)
      rw [List.idxOf_append_of_mem (List.mem_reverse.mpr hb),
        List.idxOf_append_of_mem (List.mem_reverse.mpr ha)]
      exact hi a (List.mem_reverse.mpr ha) b (List.mem_reverse.mpr hb) (decide_eq_true hab)

end Settled

-- `above` is what stands on the stack above a name of the path, down to the next one, and `done` are
-- the names that it need not wait for any more.
structure Waits (g : Graph) (names done path above : List Text) (name : Text) : Prop where
  asked   : ∀ d ∈ above, d ∈ g.dependenciesOf name
  apart   : ∀ d ∈ above, d ∉ name :: path
  awaited : ∀ d ∈ g.dependenciesOf name, d ∈ names → d ∈ done ∨ d ∈ above

-- The names of the path stand on the stack in its order, and above each of them what it waits for.
-- A name of the path may be on the stack more than once, but its other places are further down.
def Stacked (g : Graph) (names : List Text) : (done path pending : List Text) → Prop
  | _, [], _                    => True
  | done, name :: path, pending => ∃ above below,
    pending = above ++ name :: below ∧ Waits g names done path above name ∧
      Stacked g names (name :: done) path below

namespace Stacked

variable {done done' path pending : List Text} {name : Text}

theorem mono (h : Stacked g names done path pending) (hd : ∀ d ∈ done, d ∈ done') :
    Stacked g names done' path pending := by
  induction path generalizing done done' pending
  case nil => trivial
  case cons v path hi =>
    have ⟨above, below, hp, hw, hs⟩ := h
    refine ⟨above, below, hp, ⟨hw.asked, hw.apart, ?_⟩, hi hs ?_⟩
    · intro d hm hn
      exact (hw.awaited d hm hn).imp_left (hd d)
    · intro d hm
      exact List.mem_cons.mpr <| (List.mem_cons.mp hm).imp_right (hd d)

-- Nobody but the head of the path has waited for the name on top of the stack.
theorem drop (h : Stacked g names done path (name :: pending)) (hp : name ∉ path) :
    Stacked g names (name :: done) path pending := by
  cases path
  case nil => trivial
  case cons v path =>
    have ⟨above, below, ha, hw, hs⟩ := h
    cases above
    case nil => exact absurd (List.cons.inj ha).left (List.ne_of_not_mem_cons hp)
    case cons top above =>
      have ⟨hn, hr⟩ := List.cons.inj ha
      refine ⟨above, below, hr, ⟨?_, ?_, ?_⟩, hs.mono ?_⟩
      · exact fun d hd => hw.asked d (List.mem_cons_of_mem _ hd)
      · exact fun d hd => hw.apart d (List.mem_cons_of_mem _ hd)
      · intro d hm hd
        cases hw.awaited d hm hd
        case inl h => exact .inl (List.mem_cons_of_mem _ h)
        case inr h => grind
      · grind

theorem top_asked (h : Stacked g names done (v :: path) (name :: pending)) (hp : name ∉ v :: path) :
    name ∈ g.dependenciesOf v := by
  have ⟨above, _, ha, hw, _⟩ := h
  cases above
  case nil            => exact absurd (List.cons.inj ha).left (List.ne_of_not_mem_cons hp)
  case cons top above => exact hw.asked name ((List.cons.inj ha).left ▸ List.mem_cons_self)

-- A name that comes up for the second time is the head of the path and waits for nothing.
theorem top_of_mem (h : Stacked g names done path (name :: pending)) (hp : name ∈ path) :
    ∃ path', path = name :: path' ∧
      (∀ d ∈ g.dependenciesOf name, d ∈ names → d ∈ done) ∧
      Stacked g names (name :: done) path' pending := by
  cases path
  case nil => contradiction
  case cons v path =>
    have ⟨above, below, ha, hw, hs⟩ := h
    cases above
    case nil =>
      have ⟨hv, hb⟩ := List.cons.inj ha
      subst hv hb
      exact ⟨path, rfl, fun d hm hd => (hw.awaited d hm hd).resolve_right List.not_mem_nil, hs⟩
    case cons top above =>
      have ⟨ht, _⟩ := List.cons.inj ha
      exact absurd (ht ▸ hp) (hw.apart top List.mem_cons_self)

end Stacked

section

variable {name d : Text} {ds : List Text} {p q : Pass} {o : Outcome}

theorem push_ok (h : push names name p d = .ok q) : ∃ above,
    q = { p with pending := above ++ p.pending, dangling := q.dangling } ∧
    (∀ a, a ∈ above ↔ a = d ∧ d ∈ names ∧ d ∈ p.fresh) ∧ (d ∈ names → d ∉ p.path) := by
  simp only [push] at h
  split at h
  case isTrue hn => cases h; exact ⟨[], rfl, by simp [hn], fun h => absurd h hn⟩
  case isFalse hn =>
    split at h <;> try contradiction
    case isFalse hp =>
      split at h <;> cases h
      case isTrue hf  => exact ⟨[d], rfl, by simp [not_not.mp hn, hf], fun _ => hp⟩
      case isFalse hf => exact ⟨[], rfl, by simp [hf], fun _ => hp⟩

theorem push_error (h : push names name p d = .error o) :
    d ∈ names ∧ d ∈ p.path ∧ o.order = .error (.cycle name d (cycleThrough p.path d)) := by
  simp only [push] at h
  split at h <;> try contradiction
  split at h
  case isTrue hn hp => cases h; exact ⟨not_not.mp hn, hp, rfl⟩
  case isFalse      => split at h <;> contradiction

-- On top of the stack come those of the dependencies that have not been visited yet.
theorem foldlM_push_ok (h : ds.foldlM (push names name) p = .ok q) : ∃ above,
    q = { p with pending := above ++ p.pending, dangling := q.dangling } ∧
    (∀ a, a ∈ above ↔ a ∈ ds ∧ a ∈ names ∧ a ∈ p.fresh) ∧ ∀ a ∈ ds, a ∈ names → a ∉ p.path := by
  induction ds generalizing p
  case nil => cases h; exact ⟨[], rfl, by simp, by simp⟩
  case cons d ds hi =>
    cases hr : push names name p d <;> simp only [List.foldlM_cons, hr, bind, Except.bind] at h
    case error => contradiction
    case ok r =>
      have ⟨above₁, hq₁, hm₁, hp₁⟩ := push_ok hr
      have ⟨above₂, hq₂, hm₂, hp₂⟩ := hi h
      have hf : r.fresh = p.fresh := push_fresh hr
      have hp : r.path = p.path := by rw [hq₁]
      refine ⟨above₂ ++ above₁, ?_, ?_, ?_⟩
      · rw [hq₂, hq₁]; simp
      · intro a
        rw [List.mem_append, hm₁, hm₂, hf, List.mem_cons]
        grind
      · intro a ha hn
        cases List.mem_cons.mp ha
        case inl ha => exact ha ▸ hp₁ (ha ▸ hn)
        case inr ha => exact hp ▸ hp₂ a ha hn

theorem foldlM_push_error (h : ds.foldlM (push names name) p = .error o) :
    ∃ d ∈ ds, d ∈ names ∧ d ∈ p.path ∧
      o.order = .error (.cycle name d (cycleThrough p.path d)) := by
  induction ds generalizing p
  case nil => cases h
  case cons d ds hi =>
    cases hr : push names name p d <;> simp only [List.foldlM_cons, hr, bind, Except.bind] at h
    case error =>
      cases h
      exact ⟨d, List.mem_cons_self, push_error hr⟩
    case ok r =>
      have ⟨_, hq, _, _⟩ := push_ok hr
      have ⟨d', hd, hn, hp, ho⟩ := hi h
      have hpath : r.path = p.path := by rw [hq]
      exact ⟨d', List.mem_cons_of_mem _ hd, hn, hpath ▸ hp, hpath ▸ ho⟩

end

structure Invariant (g : Graph) (names : List Text) (p : Pass) : Prop where
  perm    : (p.fresh ++ (p.path ++ p.placed)).Perm names
  pending : ∀ a ∈ p.pending, a ∈ names
  waiting : ∀ a ∈ p.fresh, a ∈ p.pending
  stacked : Stacked g names p.placed p.path p.pending
  chain   : p.path.IsChain fun a b => a ∈ g.dependenciesOf b
  settled : Settled g names p.placed

namespace Invariant

variable {p q : Pass} {name : Text} {rest : List Text}

theorem initial : Invariant g names ⟨names, names, [], [], []⟩ where
  perm    := by simp
  pending := by simp
  waiting := by simp
  stacked := trivial
  chain   := .nil
  settled := trivial

theorem nodup (h : Invariant g names p) (hn : names.Nodup) :
    (p.fresh ++ (p.path ++ p.placed)).Nodup :=
  h.perm.nodup_iff.mpr hn

theorem fresh_nodup (h : Invariant g names p) (hn : names.Nodup) : p.fresh.Nodup :=
  (h.nodup hn).of_append_left

theorem not_fresh_of_mem_path (h : Invariant g names p) (hn : names.Nodup) (hp : a ∈ p.path) :
    a ∉ p.fresh := by
  intro hf
  exact (List.nodup_append.mp (h.nodup hn)).right.right a hf a (List.mem_append_left _ hp) rfl

theorem not_path_of_mem_fresh (h : Invariant g names p) (hn : names.Nodup) (hf : a ∈ p.fresh) :
    a ∉ p.path :=
  (h.not_fresh_of_mem_path hn · hf)

theorem not_placed_of_mem (h : Invariant g names p) (hn : names.Nodup) (ha : a ∈ p.fresh ∨ a ∈ p.path) :
    a ∉ p.placed := by
  intro hp
  have hnodup := h.nodup hn
  rw [← List.append_assoc] at hnodup
  exact (List.nodup_append.mp hnodup).right.right a (List.mem_append.mpr ha) a hp rfl

theorem mem_placed (h : Invariant g names p) (ha : a ∈ names) (hf : a ∉ p.fresh)
    (hp : a ∉ p.path) : a ∈ p.placed := by
  have := h.perm.mem_iff.mpr ha
  simp_all

theorem place (h : Invariant g names p) (hn : names.Nodup) (hp : p.pending = name :: rest)
    (hf : name ∈ p.fresh) (hd : g.dependenciesOf name = []) :
    Invariant g names
      { p with pending := rest, fresh := p.fresh.erase name, placed := name :: p.placed } where
  perm    := by
    refine List.Perm.trans ?_ h.perm
    refine List.Perm.trans ?_ ((List.perm_cons_erase hf).symm.append_right _)
    rw [← List.append_assoc, ← List.append_assoc]
    exact List.perm_middle
  pending := fun a ha => h.pending a (hp ▸ List.mem_cons_of_mem _ ha)
  waiting := by
    intro a ha
    have := h.waiting a (List.mem_of_mem_erase ha)
    rw [hp] at this
    refine (List.mem_cons.mp this).resolve_left ?_
    have := h.fresh_nodup hn
    grind
  stacked := (hp ▸ h.stacked).drop (h.not_path_of_mem_fresh hn hf)
  chain   := h.chain
  settled := ⟨by simp [hd], h.settled⟩

theorem mem_names_of_mem_path (h : Invariant g names p) (ha : a ∈ p.path) : a ∈ names :=
  h.perm.mem_iff.mp (List.mem_append_right _ (List.mem_append_left _ ha))

-- A new name is on top of the stack for the sake of the one that was visited last.
theorem chain_cons (h : Invariant g names p) (hp : p.pending = name :: rest) (hm : name ∉ p.path) :
    (name :: p.path).IsChain fun a b => a ∈ g.dependenciesOf b := by
  have hs := h.stacked
  cases hv : p.path
  case nil => exact .singleton _
  case cons v path =>
    rw [hv] at hm hs
    exact .cons_cons ((hp ▸ hs).top_asked hm) (hv ▸ h.chain)

-- The dependencies of the name go on top of it, but for those that have been placed.
theorem visit (h : Invariant g names p) (hn : names.Nodup) (hp : p.pending = name :: rest)
    (hf : name ∈ p.fresh)
    (hq : (g.dependenciesOf name).foldlM (push names name)
      { p with fresh := p.fresh.erase name, path := name :: p.path } = .ok q) :
    Invariant g names q := by
  have ⟨above, hq, ha, hd⟩ := foldlM_push_ok hq
  have hfresh a : a ∈ p.fresh.erase name ↔ a ≠ name ∧ a ∈ p.fresh :=
    (h.fresh_nodup hn).mem_erase_iff
  have hpath := h.not_path_of_mem_fresh hn hf
  rw [hq]
  refine ⟨?perm, ?pending, ?waiting, ⟨above, rest, by simp [hp], ⟨?asked, ?apart, ?awaited⟩, ?below⟩,
    ?chain, h.settled⟩
  case perm =>
    refine List.Perm.trans ?_ h.perm
    refine List.Perm.trans ?_ ((List.perm_cons_erase hf).symm.append_right _)
    exact List.perm_middle
  case pending =>
    intro a hm
    cases List.mem_append.mp hm
    case inl hm => exact ((ha a).mp hm).right.left
    case inr hm => exact h.pending a hm
  case waiting =>
    intro a hm
    exact List.mem_append_right _ (h.waiting a ((hfresh a).mp hm).right)
  case asked => exact fun a hm => ((ha a).mp hm).left
  case apart =>
    intro a hm hm'
    have ⟨hne, hf⟩ := (hfresh a).mp ((ha a).mp hm).right.right
    exact h.not_path_of_mem_fresh hn hf ((List.mem_cons.mp hm').resolve_left hne)
  case awaited =>
    intro a hm hm'
    have hv := hd a hm hm'
    rw [List.mem_cons, not_or] at hv
    by_cases hf : a ∈ p.fresh
    case pos => exact .inr <| (ha a).mpr ⟨hm, hm', (hfresh a).mpr ⟨hv.left, hf⟩⟩
    case neg => exact .inl <| h.mem_placed hm' hf hv.right
  case below => exact (hp ▸ h.stacked).drop hpath
  case chain => exact h.chain_cons hp hpath

theorem finish (h : Invariant g names p) (hn : names.Nodup) (hp : p.pending = name :: rest)
    (hm : name ∈ p.path) :
    Invariant g names
      { p with pending := rest, path := p.path.erase name, placed := name :: p.placed } := by
  have ⟨path, hv, hd, hs⟩ := (hp ▸ h.stacked).top_of_mem hm
  have hf := h.not_fresh_of_mem_path hn hm
  have hchain := h.chain
  have hperm := h.perm
  rw [hv] at hchain hperm
  rw [hv, List.erase_cons_head]
  refine ⟨?perm, ?pending, ?waiting, hs, hchain.tail, ⟨hd, h.settled⟩⟩
  case perm    => exact (List.perm_middle.append_left _).trans hperm
  case pending => exact fun a ha => h.pending a (hp ▸ List.mem_cons_of_mem _ ha)
  case waiting =>
    intro a ha
    have := h.waiting a ha
    rw [hp] at this
    exact (List.mem_cons.mp this).resolve_left fun hne => hf (hne ▸ ha)

theorem skip (h : Invariant g names p) (hp : p.pending = name :: rest) (hf : name ∉ p.fresh)
    (hm : name ∉ p.path) : Invariant g names { p with pending := rest } where
  perm    := h.perm
  pending := fun a ha => h.pending a (hp ▸ List.mem_cons_of_mem _ ha)
  waiting := by
    intro a ha
    have := h.waiting a ha
    rw [hp] at this
    exact (List.mem_cons.mp this).resolve_left fun hne => hf (hne ▸ ha)
  stacked := by
    have hn : name ∈ names := h.pending name (hp ▸ List.mem_cons_self)
    refine ((hp ▸ h.stacked).drop hm).mono ?_
    intro a ha
    cases List.mem_cons.mp ha
    case inl ha => exact ha ▸ h.mem_placed hn hf hm
    case inr ha => exact ha
  chain   := h.chain
  settled := h.settled

-- When nothing is pending any more, everything has been placed.
theorem placed_perm (h : Invariant g names p) (hp : p.pending = []) : p.placed.Perm names := by
  have hf : p.fresh = [] := by
    refine List.eq_nil_iff_forall_not_mem.mpr fun a ha => ?_
    exact List.not_mem_nil (hp ▸ h.waiting a ha)
  have hv : p.path = [] := by
    have hs := h.stacked
    cases hv : p.path
    case nil  => rfl
    case cons =>
      rw [hv, hp] at hs
      have ⟨_, _, hs, _⟩ := hs
      simp at hs
  simpa [hf, hv] using h.perm

end Invariant

-- The path, down from the name that is being visited, has met one of its own names again.
structure Loop (g : Graph) (names path : List Text) (name dependency : Text) : Prop where
  chain  : (name :: path).IsChain fun a b => a ∈ g.dependenciesOf b
  nodup  : (name :: path).Nodup
  subset : ∀ a ∈ name :: path, a ∈ names
  closes : dependency ∈ g.dependenciesOf name
  met    : dependency ∈ name :: path

theorem links_of_chain {path : List Text} {name a : Text}
    (hc : (name :: path).IsChain fun a b => a ∈ g.dependenciesOf b)
    (hs : ∀ a ∈ name :: path, a ∈ names) (ha : a ∈ name :: path) :
    Relation.ReflTransGen (g.Links names) a name := by
  induction path generalizing name
  case nil => rw [List.mem_singleton.mp ha]
  case cons b path hi =>
    have ⟨hb, hc⟩ := List.isChain_cons_cons.mp hc
    have hs' x (hx : x ∈ b :: path) : x ∈ names := hs x (List.mem_cons_of_mem _ hx)
    cases List.mem_cons.mp ha
    case inl ha => rw [ha]
    case inr ha =>
      exact (hi hc hs' ha).tail ⟨hs' b List.mem_cons_self, hs name List.mem_cons_self, hb⟩

theorem Loop.cyclic {path : List Text} {name dependency : Text}
    (l : Loop g names path name dependency) : g.Cyclic names :=
  ⟨name, .head' ⟨l.subset name List.mem_cons_self, l.subset dependency l.met, l.closes⟩
    (links_of_chain l.chain l.subset l.met)⟩

theorem run_order {p : Pass} (h : Invariant g names p) (hn : names.Nodup) :
    match (run g names p).order with
    | .ok order => order.Perm names ∧ Valid g order
    | .error e  => ∃ path name dependency, Loop g names path name dependency ∧
      e = .cycle name dependency (cycleThrough (name :: path) dependency) := by
  fun_induction run g names p
  case case1 p hp =>
    have hperm := h.placed_perm hp
    have hplaced : p.placed.Nodup := hperm.nodup_iff.mpr hn
    exact ⟨p.placed.reverse_perm.trans hperm,
      h.settled.valid hplaced fun a ha => hperm.mem_iff.mp ha⟩
  case case2 hp hf hd hi => exact hi (h.place hn hp hf hd)
  case case3 hp hf _ _ _ hq hi => exact hi (h.visit hn hp hf hq)
  case case4 p name rest hp hf _ _ _ ho =>
    have ⟨dependency, hd, _, hm, ho⟩ := foldlM_push_error ho
    rw [ho]
    have hpath := h.not_path_of_mem_fresh hn hf
    refine ⟨p.path, name, dependency, ⟨h.chain_cons hp hpath, ?_, ?_, hd, hm⟩, rfl⟩
    · exact List.nodup_cons.mpr ⟨hpath, (h.nodup hn).of_append_right.of_append_left⟩
    · intro a ha
      cases List.mem_cons.mp ha
      case inl ha => exact ha ▸ h.pending name (hp ▸ List.mem_cons_self)
      case inr ha => exact h.mem_names_of_mem_path ha
  case case5 hp hf hm hi => exact hi (h.finish hn hp hm)
  case case6 hp hf hm hi => exact hi (h.skip hp hf hm)

-- A pass over names that are in order: those in front have been placed, and of the others at most the
-- first one is being visited.
inductive InOrder (names : List Text) : Pass → Prop
  | next {placed rest dangling} (h : names = placed.reverse ++ rest) :
    InOrder names ⟨rest, rest, [], placed, dangling⟩
  | visiting {name placed rest dangling} (h : names = placed.reverse ++ name :: rest) :
    InOrder names ⟨name :: rest, rest, [name], placed, dangling⟩

namespace Valid

variable {placed rest : List Text} {name d : Text}

theorem not_mem_self (h : Valid g names) (hm : name ∈ names) : name ∉ g.dependenciesOf name :=
  fun hd => Nat.lt_irrefl _ (h name hm name hm (decide_eq_true hd))

-- What a name depends on stands before it.
theorem not_mem_of_dependency (h : Valid g (placed.reverse ++ name :: rest))
    (hn : (placed.reverse ++ name :: rest).Nodup) (hd : d ∈ g.dependenciesOf name) : d ∉ rest := by
  intro hr
  have hlt := h name (by simp) d (by simp [hr]) (decide_eq_true hd)
  have ⟨_, hnr, hdis⟩ := List.nodup_append.mp hn
  have hname : name ∉ placed.reverse := fun hp => hdis name hp name List.mem_cons_self rfl
  have hdp : d ∉ placed.reverse := fun hp => hdis d hp d (List.mem_cons_of_mem _ hr) rfl
  have hne : name ≠ d := fun h => (List.nodup_cons.mp hnr).left (h ▸ hr)
  rw [List.idxOf_append_of_notMem hname, List.idxOf_append_of_notMem hdp, List.idxOf_cons_self,
    List.idxOf_cons_ne _ hne] at hlt
  omega

end Valid

namespace InOrder

variable {p q : Pass} {name : Text} {rest : List Text}

-- A name that has not been visited comes up only while no other is being visited.
theorem next_of_mem (h : InOrder names p) (hn : names.Nodup) (hp : p.pending = name :: rest)
    (hf : name ∈ p.fresh) : names = p.placed.reverse ++ name :: rest ∧
      p = ⟨name :: rest, name :: rest, [], p.placed, p.dangling⟩ := by
  cases h <;> cases hp
  case next h     => exact ⟨h, rfl⟩
  case visiting h => exact absurd hf (List.nodup_cons.mp (h ▸ hn).of_append_right).left

theorem place (h : InOrder names p) (hn : names.Nodup) (hp : p.pending = name :: rest)
    (hf : name ∈ p.fresh) : InOrder names
      { p with pending := rest, fresh := p.fresh.erase name, placed := name :: p.placed } := by
  have ⟨h, hp⟩ := h.next_of_mem hn hp hf
  rw [hp, List.erase_cons_head]
  exact .next (by simpa using h)

-- Nothing goes on top of the name, since all that it depends on has been placed.
theorem visit (h : InOrder names p) (hn : names.Nodup) (hv : Valid g names)
    (hp : p.pending = name :: rest) (hf : name ∈ p.fresh)
    (hq : (g.dependenciesOf name).foldlM (push names name)
      { p with fresh := p.fresh.erase name, path := name :: p.path } = .ok q) : InOrder names q := by
  have ⟨h, hp⟩ := h.next_of_mem hn hp hf
  have ⟨above, hq, ha, _⟩ := foldlM_push_ok hq
  rw [hp, List.erase_cons_head] at hq ha
  have habove : above = [] := by
    refine List.eq_nil_iff_forall_not_mem.mpr fun a hm => ?_
    have ⟨hd, _, hf⟩ := (ha a).mp hm
    exact (h ▸ hv).not_mem_of_dependency (h ▸ hn) hd hf
  rw [hq, habove]
  exact .visiting h

theorem not_error {o : Outcome} (h : InOrder names p) (hn : names.Nodup) (hv : Valid g names)
    (hp : p.pending = name :: rest) (hf : name ∈ p.fresh) :
    (g.dependenciesOf name).foldlM (push names name)
      { p with fresh := p.fresh.erase name, path := name :: p.path } ≠ .error o := by
  intro ho
  have ⟨h, hp⟩ := h.next_of_mem hn hp hf
  have ⟨d, hd, hm, hpath, _⟩ := foldlM_push_error ho
  rw [hp, List.mem_singleton] at hpath
  exact hv.not_mem_self (hpath ▸ hm) (hpath ▸ hd)

theorem finish (h : InOrder names p) (hp : p.pending = name :: rest) (hm : name ∈ p.path) :
    InOrder names
      { p with pending := rest, path := p.path.erase name, placed := name :: p.placed } := by
  cases h <;> cases hp
  case next h     => contradiction
  case visiting h =>
    rw [List.erase_cons_head]
    exact .next (by simpa using h)

theorem mem (h : InOrder names p) (hp : p.pending = name :: rest) : name ∈ p.fresh ∨ name ∈ p.path := by
  cases h <;> cases hp
  case next     => exact .inl List.mem_cons_self
  case visiting => exact .inr List.mem_cons_self

end InOrder

theorem run_of_valid {p : Pass} (h : InOrder names p) (hn : names.Nodup) (hv : Valid g names) :
    (run g names p).order = .ok names := by
  fun_induction run g names p
  case case1 p hp =>
    cases h <;> cases hp
    case next h => simpa using h.symm
  case case2 hp hf _ hi           => exact hi (h.place hn hp hf)
  case case3 hp hf _ _ _ hq hi    => exact hi (h.visit hn hv hp hf hq)
  case case4 hp hf _ _ _ ho       => exact absurd ho (h.not_error hn hv hp hf)
  case case5 hp _ hm hi           => exact hi (h.finish hp hm)
  case case6 hp hf hm _           => exact absurd (h.mem hp) (not_or.mpr ⟨hf, hm⟩)

end UpdateOrder

namespace Graph

variable {g : Graph} {names order : List Text} {e : DependencyError}

theorem sort_ok (hn : names.Nodup) (h : (g.sort names).order = .ok order) :
    order.Perm names ∧ UpdateOrder.Valid g order := by
  have := UpdateOrder.run_order (g := g) .initial hn
  rwa [← sort, h] at this

theorem sort_error (hn : names.Nodup) (h : (g.sort names).order = .error e) :
    ∃ path name dependency, UpdateOrder.Loop g names path name dependency ∧
      e = .cycle name dependency (UpdateOrder.cycleThrough (name :: path) dependency) := by
  have := UpdateOrder.run_order (g := g) .initial hn
  rwa [← sort, h] at this

-- Names that are in order stay where they are.
theorem sort_of_valid (hn : names.Nodup) (h : UpdateOrder.Valid g names) :
    (g.sort names).order = .ok names :=
  UpdateOrder.run_of_valid (.next rfl) hn h

end Graph
end SceneMotion
