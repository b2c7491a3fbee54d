import SceneMotion.Proofs.Dependency.UpdateOrder
import SceneMotion.Proofs.Table

namespace SceneMotion

namespace UpdateOrder

-- A name on the stack and the name that it was put there for. The names that a pass begins with stand
-- there for themselves.
structure Request where
  name   : Text
  asker? : Option Text

-- A pass that takes the names being visited for a mere set.
structure Search where
  pending  : List Request
  fresh    : List Text
  visiting : List Text
  -- What the names were visited for.
  askers   : Table (Option Text)
  placed   : List Text
  dangling : List (Text × Text)

-- The way from a name to another, from asker to asker.
def wayBack (askers : Table (Option Text)) (target : Text) : Nat → Text → List Text
  | 0, name         => [name]
  | steps + 1, name =>
    if name = target then [name]
    else
      match (askers.get? name).getD none with
      | none       => [name]
      | some asker => name :: wayBack askers target steps asker

namespace Search

-- Nobody is visited twice, so that there are no more steps than names being visited.
def cycle (q : Search) (name dependency : Text) : List Text :=
  (wayBack q.askers dependency q.visiting.length name).reverse ++ [dependency]

def push (names : List Text) (name : Text) (q : Search) (dependency : Text) :
    Except Outcome Search :=
  if dependency ∉ names then
    .ok { q with dangling := (name, dependency) :: q.dangling }
  else if dependency ∈ q.visiting then
    .error ⟨.error (.cycle name dependency (q.cycle name dependency)), q.dangling.reverse⟩
  else if dependency ∈ q.fresh then
    .ok { q with pending := ⟨dependency, some name⟩ :: q.pending }
  else
    .ok q

theorem push_fresh {names : List Text} {name dependency : Text} {q q' : Search}
    (h : push names name q dependency = .ok q') : q'.fresh = q.fresh := by
  grind [push]

theorem foldlM_push_fresh {names : List Text} {name : Text} {q q' : Search}
    {dependencies : List Text} (h : dependencies.foldlM (push names name) q = .ok q') :
    q'.fresh = q.fresh := by
  induction dependencies generalizing q
  case nil => cases h; rfl
  case cons d ds hi =>
    cases hd : push names name q d <;> simp only [List.foldlM_cons, hd, bind, Except.bind] at h
    case error => contradiction
    case ok r  => exact (hi h).trans (push_fresh hd)

-- The request that a name is visited for is the one that counts.
def take (q : Search) (r : Request) : Search :=
  { q with
    fresh    := q.fresh.erase r.name
    visiting := r.name :: q.visiting
    askers   := q.askers.set r.name r.asker? }

def run (g : Graph) (names : List Text) (q : Search) : Outcome :=
  match _hp : q.pending with
  | []              => ⟨.ok q.placed.reverse, q.dangling.reverse⟩
  | request :: rest =>
    if _hf : request.name ∈ q.fresh then
      match g.dependenciesOf request.name with
      | [] => run g names { q with
          pending := rest
          fresh   := q.fresh.erase request.name
          placed  := request.name :: q.placed }
      | dependencies =>
        match _h : dependencies.foldlM (push names request.name) (q.take request) with
        | .ok q'         => run g names q'
        | .error outcome => outcome
    else if request.name ∈ q.visiting then
      run g names { q with
        pending  := rest
        visiting := q.visiting.erase request.name
        placed   := request.name :: q.placed }
    else
      run g names { q with pending := rest }
termination_by (q.fresh.length, q.pending.length)
decreasing_by
  · apply Prod.Lex.left
    have := List.length_pos_of_mem _hf
    simp only [List.length_erase_of_mem _hf]
    omega
  · apply Prod.Lex.left
    have := List.length_pos_of_mem _hf
    rw [foldlM_push_fresh _h]
    simp only [take, List.length_erase_of_mem _hf]
    omega
  · apply Prod.Lex.right
    simp [_hp]
  · apply Prod.Lex.right
    simp [_hp]

section

variable {g : Graph} {names : List Text} {q : Search} {r : Request} {pending : List Request}

theorem run_nil (hq : q.pending = []) : q.run g names = ⟨.ok q.placed.reverse, q.dangling.reverse⟩ := by
  rw [run.eq_def]
  split
  case h_1     => rfl
  case h_2 hq' => cases hq.symm.trans hq'

theorem run_cons (hq : q.pending = r :: pending) : q.run g names =
    if r.name ∈ q.fresh then
      if g.dependenciesOf r.name = [] then
        run g names { q with
          pending
          fresh  := q.fresh.erase r.name
          placed := r.name :: q.placed }
      else
        match (g.dependenciesOf r.name).foldlM (push names r.name) (q.take r) with
        | .ok q'         => run g names q'
        | .error outcome => outcome
    else if r.name ∈ q.visiting then
      run g names { q with
        pending
        visiting := q.visiting.erase r.name
        placed   := r.name :: q.placed }
    else
      run g names { q with pending } := by
  rw [run.eq_def]
  split
  case h_1 hq' => cases hq.symm.trans hq'
  case h_2 hq' =>
    cases hq.symm.trans hq'
    by_cases hf : r.name ∈ q.fresh
    case neg =>
      rw [dif_neg hf, if_neg hf]
    case pos =>
      rw [dif_pos hf, if_pos hf]
      split
      case h_1 hd => rw [if_pos hd]
      case h_2 hd =>
        rw [if_neg hd]
        split
        case h_1 h => rw [h]
        case h_2 h => rw [h]

end

-- Each name of the path stands on the stack, with the next name of the path as its asker, and above it
-- stands nothing but what it has asked for.
def Asked (askers : Table (Option Text)) : List Text → List Request → Prop
  | [], pending           => ∀ r ∈ pending, r.asker? = none
  | name :: path, pending => ∃ above below, pending = above ++ ⟨name, path.head?⟩ :: below ∧
    (∀ r ∈ above, r.name ≠ name ∧ r.asker? = some name) ∧
    askers.get? name = some path.head? ∧ Asked askers path below

namespace Asked

variable {askers : Table (Option Text)} {path : List Text} {pending : List Request}
variable {name target : Text} {asker? : Option Text} {r : Request}

-- What stands on top has been asked for by the name that was visited last.
theorem top_asker (h : Asked askers path (r :: pending)) (hr : r.name ∉ path) :
    r.asker? = path.head? := by
  cases path
  case nil => exact h r List.mem_cons_self
  case cons v path =>
    obtain ⟨above, below, hp, ha, _⟩ := h
    cases above
    case nil =>
      obtain ⟨rfl, _⟩ := List.cons.inj hp
      exact absurd List.mem_cons_self hr
    case cons top above =>
      obtain ⟨rfl, _⟩ := List.cons.inj hp
      exact (ha _ List.mem_cons_self).right

theorem drop (h : Asked askers path (r :: pending)) (hr : r.name ∉ path) :
    Asked askers path pending := by
  cases path
  case nil => exact fun r' hr' => h r' (List.mem_cons_of_mem _ hr')
  case cons v path =>
    obtain ⟨above, below, hp, ha, hs⟩ := h
    cases above
    case nil =>
      obtain ⟨rfl, _⟩ := List.cons.inj hp
      exact absurd List.mem_cons_self hr
    case cons top above =>
      exact ⟨above, below, (List.cons.inj hp).right, fun r' hr' => ha r' (List.mem_cons_of_mem _ hr'), hs⟩

theorem finish (h : Asked askers (r.name :: path) (r :: pending)) : Asked askers path pending := by
  obtain ⟨above, below, hp, ha, _, hs⟩ := h
  cases above
  case nil => exact (List.cons.inj hp).right ▸ hs
  case cons top above =>
    obtain ⟨rfl, _⟩ := List.cons.inj hp
    exact absurd rfl (ha _ List.mem_cons_self).left

-- It makes no difference to the path what a name outside of it was visited for.
theorem set (h : Asked askers path pending) (hn : name ∉ path) :
    Asked (askers.set name asker?) path pending := by
  induction path generalizing pending
  case nil => exact h
  case cons v path hi =>
    obtain ⟨above, below, hp, ha, hv, hs⟩ := h
    rw [List.mem_cons, not_or] at hn
    exact ⟨above, below, hp, ha, by rwa [Table.get?_set, if_neg (Ne.symm hn.left)], hi hs hn.right⟩

theorem wayBack_eq (h : Asked askers (name :: path) pending) (ht : target ∈ name :: path) :
    ∀ steps, path.length ≤ steps →
      wayBack askers target steps name = (name :: path).takeWhile (· ≠ target) ++ [target] := by
  induction path generalizing name pending
  case nil =>
    intro steps _
    obtain rfl := List.mem_singleton.mp ht
    cases steps <;> simp [wayBack]
  case cons v path hi =>
    intro steps hl
    obtain ⟨steps, rfl⟩ := Nat.exists_eq_add_of_le' (Nat.le_of_add_left_le hl)
    obtain ⟨_, below, _, _, hn, hs⟩ := h
    rw [wayBack]
    by_cases he : name = target
    case pos => simp [he]
    case neg =>
      have ht := (List.mem_cons.mp ht).resolve_left (Ne.symm he)
      have hi := hi hs ht steps (Nat.le_of_succ_le_succ hl)
      rw [if_neg he, hn, List.takeWhile_cons_of_pos (by simpa using he)]
      simp [hi]

theorem visit (h : Asked askers path (r :: pending)) (hr : r.name ∉ path) :
    Asked (askers.set r.name r.asker?) (r.name :: path) (r :: pending) := by
  have ha := h.top_asker hr
  refine ⟨[], pending, by rw [← ha]; rfl, nofun, ?_, (h.drop hr).set hr⟩
  rw [Table.get?_set, if_pos rfl, ha]

theorem push (h : Asked askers (name :: path) pending) (hn : target ≠ name) :
    Asked askers (name :: path) (⟨target, some name⟩ :: pending) := by
  obtain ⟨above, below, rfl, ha, hs⟩ := h
  exact ⟨_ :: above, below, rfl, List.forall_mem_cons.mpr ⟨⟨hn, rfl⟩, ha⟩, hs⟩

end Asked

structure Mirrors (q : Search) (p : Pass) : Prop where
  pending  : q.pending.map (·.name) = p.pending
  fresh    : q.fresh = p.fresh
  visiting : q.visiting = p.path
  placed   : q.placed = p.placed
  dangling : q.dangling = p.dangling
  asked    : Asked q.askers p.path q.pending

namespace Mirrors

variable {names path : List Text} {name d : Text} {q : Search} {p : Pass}

theorem cycle_eq (h : Mirrors q p) (hp : p.path = name :: path) (hd : d ∈ p.path) :
    q.cycle name d = cycleThrough p.path d := by
  have ha := hp ▸ h.asked
  have hl : path.length ≤ q.visiting.length := by
    rw [h.visiting, hp]
    exact Nat.le_succ _
  rw [cycle, ha.wayBack_eq (hp ▸ hd) _ hl, cycleThrough, hp]
  simp

theorem push (h : Mirrors q p) (hp : p.path = name :: path) (hf : name ∉ p.fresh) (names : List Text)
    (d : Text) :
    (∃ o, UpdateOrder.push names name p d = .error o ∧ Search.push names name q d = .error o) ∨
    (∃ p' q', UpdateOrder.push names name p d = .ok p' ∧ Search.push names name q d = .ok q' ∧
      Mirrors q' p' ∧ p'.path = p.path ∧ p'.fresh = p.fresh) := by
  have hv : d ∈ q.visiting ↔ d ∈ p.path := by rw [h.visiting]
  have hfresh : d ∈ q.fresh ↔ d ∈ p.fresh := by rw [h.fresh]
  rw [UpdateOrder.push, Search.push]
  simp only [hv, hfresh]
  split
  case isTrue =>
    exact .inr ⟨_, _, rfl, rfl, { h with dangling := by rw [h.dangling] }, rfl, rfl⟩
  case isFalse =>
    split
    case isTrue hd =>
      rw [h.cycle_eq hp hd, h.dangling]
      exact .inl ⟨_, rfl, rfl⟩
    case isFalse hd =>
      split
      case isFalse   => exact .inr ⟨_, _, rfl, rfl, h, rfl, rfl⟩
      case isTrue hm =>
        have ha := hp ▸ h.asked
        have ha := ha.push (ne_of_mem_of_not_mem hm hf)
        refine .inr ⟨_, _, rfl, rfl, { h with pending := ?_, asked := hp ▸ ha }, rfl, rfl⟩
        rw [List.map_cons, h.pending]

theorem foldlM_push (h : Mirrors q p) (hp : p.path = name :: path) (hf : name ∉ p.fresh)
    (ds : List Text) :
    (∃ o, ds.foldlM (UpdateOrder.push names name) p = .error o ∧
      ds.foldlM (Search.push names name) q = .error o) ∨
    (∃ p' q', ds.foldlM (UpdateOrder.push names name) p = .ok p' ∧
      ds.foldlM (Search.push names name) q = .ok q' ∧ Mirrors q' p') := by
  induction ds generalizing p q
  case nil => exact .inr ⟨p, q, rfl, rfl, h⟩
  case cons d ds hi =>
    rw [List.foldlM_cons, List.foldlM_cons]
    obtain ⟨o, he, he'⟩ | ⟨p', q', ho, ho', h', hp', hf'⟩ := h.push hp hf names d
    · rw [he, he']
      exact .inl ⟨o, rfl, rfl⟩
    · rw [ho, ho']
      exact hi h' (hp' ▸ hp) (hf' ▸ hf)

variable {r : Request} {pending : List Request}

theorem visit (h : Mirrors q p) (hq : q.pending = r :: pending) (hr : r.name ∉ p.path) :
    Mirrors (q.take r) { p with fresh := p.fresh.erase r.name, path := r.name :: p.path } where
  pending  := h.pending
  fresh    := by rw [take, h.fresh]
  visiting := by rw [take, h.visiting]
  placed   := h.placed
  dangling := h.dangling
  asked    := by
    have ha := hq ▸ h.asked
    exact hq ▸ ha.visit hr

theorem drop (h : Mirrors q p) (hq : q.pending = r :: pending) (hr : r.name ∉ p.path) :
    Mirrors { q with pending } { p with pending := pending.map (·.name) } :=
  { h with pending := rfl, asked := (hq ▸ h.asked).drop hr }

theorem place (h : Mirrors q p) (hq : q.pending = r :: pending) (hr : r.name ∉ p.path) :
    Mirrors { q with
        pending
        fresh  := q.fresh.erase r.name
        placed := r.name :: q.placed }
      { p with
        pending := pending.map (·.name)
        fresh   := p.fresh.erase r.name
        placed  := r.name :: p.placed } :=
  { h.drop hq hr with fresh := by rw [h.fresh], placed := by rw [h.placed] }

theorem finish (h : Mirrors q p) (hq : q.pending = r :: pending) (hp : p.path = r.name :: path) :
    Mirrors { q with
        pending
        visiting := q.visiting.erase r.name
        placed   := r.name :: q.placed }
      { p with
        pending := pending.map (·.name)
        path    := p.path.erase r.name
        placed  := r.name :: p.placed } where
  pending  := rfl
  fresh    := h.fresh
  visiting := by rw [h.visiting]
  placed   := by rw [h.placed]
  dangling := h.dangling
  asked    := by
    have ha := hq ▸ h.asked
    rw [hp] at ha ⊢
    rw [List.erase_cons_head]
    exact ha.finish

theorem run_eq {g : Graph} (h : Mirrors q p) (hi : Invariant g names p) (hn : names.Nodup) :
    q.run g names = UpdateOrder.run g names p := by
  fun_induction UpdateOrder.run g names p generalizing q
  case case1 hp =>
    rw [run_nil (List.map_eq_nil_iff.mp (h.pending.trans hp)), h.placed, h.dangling]
  case case2 hp hf hd ih =>
    obtain ⟨r, pending, hq, rfl, rfl⟩ := List.map_eq_cons_iff.mp (h.pending.trans hp)
    have hr := hi.not_path_of_mem_fresh hn hf
    rw [run_cons hq, if_pos (h.fresh ▸ hf), if_pos hd]
    exact ih (h.place hq hr) (hi.place hn hp hf hd)
  case case3 hp hf _ p' hd ho ih =>
    obtain ⟨r, pending, hq, rfl, rfl⟩ := List.map_eq_cons_iff.mp (h.pending.trans hp)
    have hr := hi.not_path_of_mem_fresh hn hf
    rw [run_cons hq, if_pos (h.fresh ▸ hf), if_neg hd]
    cases (h.visit hq hr).foldlM_push rfl (hi.fresh_nodup hn).not_mem_erase (g.dependenciesOf r.name)
    case inl he =>
      obtain ⟨_, he, _⟩ := he
      cases ho.symm.trans he
    case inr ho' =>
      obtain ⟨_, q', ho', hq', h'⟩ := ho'
      cases ho.symm.trans ho'
      rw [hq']
      exact ih h' (hi.visit hn hp hf ho)
  case case4 hp hf _ _ hd ho =>
    obtain ⟨r, pending, hq, rfl, rfl⟩ := List.map_eq_cons_iff.mp (h.pending.trans hp)
    have hr := hi.not_path_of_mem_fresh hn hf
    rw [run_cons hq, if_pos (h.fresh ▸ hf), if_neg hd]
    cases (h.visit hq hr).foldlM_push rfl (hi.fresh_nodup hn).not_mem_erase (g.dependenciesOf r.name)
    case inl he =>
      obtain ⟨_, he, hq'⟩ := he
      cases ho.symm.trans he
      rw [hq']
    case inr ho' =>
      obtain ⟨_, _, ho', _⟩ := ho'
      cases ho.symm.trans ho'
  case case5 hp hf hm ih =>
    obtain ⟨r, pending, hq, rfl, rfl⟩ := List.map_eq_cons_iff.mp (h.pending.trans hp)
    obtain ⟨path, hpath, _⟩ := (hp ▸ hi.stacked).top_of_mem hm
    rw [run_cons hq, if_neg (h.fresh ▸ hf), if_pos (h.visiting ▸ hm)]
    exact ih (h.finish hq hpath) (hi.finish hn hp hm)
  case case6 hp hf hm ih =>
    obtain ⟨r, pending, hq, rfl, rfl⟩ := List.map_eq_cons_iff.mp (h.pending.trans hp)
    rw [run_cons hq, if_neg (h.fresh ▸ hf), if_neg (h.visiting ▸ hm)]
    exact ih (h.drop hq hm) (hi.skip hp hf hm)

theorem initial (names : List Text) :
    Mirrors ⟨names.map (⟨·, none⟩), names, [], [], [], []⟩ ⟨names, names, [], [], []⟩ where
  pending  := List.map_map.trans (List.map_id names)
  fresh    := rfl
  visiting := rfl
  placed   := rfl
  dangling := rfl
  asked    := by simp [Asked]

end Mirrors
end Search
end UpdateOrder

namespace Graph

-- Sorts like a pass does, but finds the way round by going back from asker to asker.
def search (g : Graph) (names : List Text) : UpdateOrder.Outcome :=
  UpdateOrder.Search.run g names ⟨names.map (⟨·, none⟩), names, [], [], [], []⟩

theorem search_eq_sort {g : Graph} {names : List Text} (hn : names.Nodup) :
    g.search names = g.sort names :=
  (UpdateOrder.Search.Mirrors.initial names).run_eq .initial hn

end Graph
end SceneMotion
