import SceneMotion.Dependency.Graph

namespace SceneMotion

namespace UpdateOrder

-- A pass half way.
structure Pass where
  -- What is still to be visited, the next name first.
  pending : List Text
  -- The names that have not been visited.
  fresh : List Text
  -- The names being visited, each a dependency of the next.
  path : List Text
  -- The names that have been placed, the last one first.
  placed : List Text
  -- The dependencies met on names that do not exist, the last one first.
  dangling : List (Text × Text)

-- What a pass comes to.
structure Outcome where
  order : Except DependencyError (List Text)
  -- The dependencies met on names that do not exist.
  dangling : List (Text × Text)

-- The names on the way from a name on the path back to itself.
def cycleThrough (path : List Text) (dependency : Text) : List Text :=
  dependency :: (path.takeWhile (· ≠ dependency)).reverse ++ [dependency]

-- Puts one dependency of a name that is being visited on the stack, unless it has been placed,
-- does not exist, or is being visited itself.
def push (names : List Text) (name : Text) (p : Pass) (dependency : Text) :
    Except Outcome Pass :=
  if dependency ∉ names then
    .ok { p with dangling := (name, dependency) :: p.dangling }
  else if dependency ∈ p.path then
    .error ⟨.error (.cycle name dependency (cycleThrough p.path dependency)), p.dangling.reverse⟩
  else if dependency ∈ p.fresh then
    .ok { p with pending := dependency :: p.pending }
  else
    .ok p

theorem push_fresh {names : List Text} {name dependency : Text} {p q : Pass}
    (h : push names name p dependency = .ok q) : q.fresh = p.fresh := by
  grind [push]

theorem foldlM_push_fresh {names : List Text} {name : Text} {p q : Pass} {dependencies : List Text}
    (h : dependencies.foldlM (push names name) p = .ok q) : q.fresh = p.fresh := by
  induction dependencies generalizing p with
  | nil => cases h; rfl
  | cons d ds ih =>
    cases hd : push names name p d with
    | error e => simp [hd, bind, Except.bind] at h
    | ok r =>
      simp only [List.foldlM_cons, hd, bind, Except.bind] at h
      exact (ih h).trans (push_fresh hd)

-- A name is placed when it comes up for the second time, after everything it depends on.
def run (g : Graph) (names : List Text) (p : Pass) : Outcome :=
  match _hp : p.pending with
  | [] => ⟨.ok p.placed.reverse, p.dangling.reverse⟩
  | name :: rest =>
    if _hf : name ∈ p.fresh then
      match g.dependenciesOf name with
      -- Nothing has to come before it, so it need not come up again.
      | [] => run g names {
          p with pending := rest, fresh := p.fresh.erase name, placed := name :: p.placed }
      -- It stays on the stack, below its dependencies, and comes up again after them.
      | dependencies =>
        let visiting := { p with fresh := p.fresh.erase name, path := name :: p.path }
        match _h : dependencies.foldlM (push names name) visiting with
        | .ok q => run g names q
        | .error outcome => outcome
    else if name ∈ p.path then
      -- Everything it depends on has been placed by now.
      run g names {
        p with pending := rest, path := p.path.erase name, placed := name :: p.placed }
    else
      -- It was asked for more than once, and has been placed already.
      run g names { p with pending := rest }
termination_by (p.fresh.length, p.pending.length)
decreasing_by
  · apply Prod.Lex.left
    have := List.length_pos_of_mem _hf
    simp only [List.length_erase_of_mem _hf]
    omega
  · apply Prod.Lex.left
    have := List.length_pos_of_mem _hf
    rw [foldlM_push_fresh _h]
    simp only [visiting, List.length_erase_of_mem _hf]
    omega
  · apply Prod.Lex.right
    simp [_hp]
  · apply Prod.Lex.right
    simp [_hp]

end UpdateOrder

namespace Graph

-- Sorts names, none of which occurs twice. Names that nothing is said about keep their places.
def sort (g : Graph) (names : List Text) : UpdateOrder.Outcome :=
  UpdateOrder.run g names ⟨names, names, [], [], []⟩

end Graph

end SceneMotion
