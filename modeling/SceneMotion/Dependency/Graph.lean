import SceneMotion.Dependency.Error
import SceneMotion.Table

namespace SceneMotion

-- Lists of names under names. No name is kept for an empty list.
abbrev Adjacency := Table (List Text)

namespace Adjacency

def of (t : Adjacency) (name : Text) : List Text :=
  (t.get? name).getD []

def append (t : Adjacency) (name other : Text) : Adjacency :=
  t.set name (t.of name ++ [other])

def remove (t : Adjacency) (name other : Text) : Adjacency :=
  match t.get? name with
  | none => t
  | some others =>
    match others.erase other with
    | [] => t.erase name
    | rest => t.set name rest

end Adjacency

-- An edit of a graph.
inductive Change where
  | set (dependent dependency : Text)
  | clear (dependent dependency : Text)
  | remove (name : Text)
  | reset
  deriving DecidableEq

structure Graph where
  dependencies : Adjacency
  dependents : Adjacency
  edgeCount : Nat

namespace Graph

def empty : Graph :=
  ⟨[], [], 0⟩

def isEmpty (g : Graph) : Bool :=
  g.edgeCount = 0

-- What a name must be updated after.
def dependenciesOf (g : Graph) (name : Text) : List Text :=
  g.dependencies.of name

-- What must be updated after a name.
def dependentsOf (g : Graph) (name : Text) : List Text :=
  g.dependents.of name

def hasOrder (g : Graph) (dependent dependency : Text) : Bool :=
  dependency ∈ g.dependenciesOf dependent

def involves (g : Graph) (name : Text) : Bool :=
  g.dependencies.has name || g.dependents.has name

-- Puts one name after another. Only the edge straight back stands in the way; longer cycles show
-- when the names are sorted.
def setOrder (g : Graph) (dependent dependency : Text) : Except DependencyError Graph :=
  if dependent = dependency then .error (.onItself dependent)
  else if g.hasOrder dependency dependent then .error (.reversed dependent dependency)
  else if g.hasOrder dependent dependency then .error (.duplicate dependent dependency)
  else .ok {
    dependencies := g.dependencies.append dependent dependency
    dependents := g.dependents.append dependency dependent
    edgeCount := g.edgeCount + 1 }

def clearOrder (g : Graph) (dependent dependency : Text) : Except DependencyError Graph :=
  if g.hasOrder dependent dependency then .ok {
    dependencies := g.dependencies.remove dependent dependency
    dependents := g.dependents.remove dependency dependent
    edgeCount := g.edgeCount - 1 }
  else .error (.missingEdge dependent dependency)

-- Drops every edge on either side of a name.
def removeEntity (g : Graph) (name : Text) : Graph where
  dependencies :=
    ((g.dependentsOf name).foldl (fun t other => t.remove other name) g.dependencies).erase name
  dependents :=
    ((g.dependenciesOf name).foldl (fun t other => t.remove other name) g.dependents).erase name
  edgeCount := g.edgeCount - ((g.dependenciesOf name).length + (g.dependentsOf name).length)

-- Carries out an edit.
def edit (g : Graph) : Change → Except DependencyError Graph
  | .set dependent dependency => g.setOrder dependent dependency
  | .clear dependent dependency => g.clearOrder dependent dependency
  | .remove name => .ok (g.removeEntity name)
  | .reset => .ok empty

-- Whether an edit that was carried out is worth telling: a name without edges leaves none
-- behind.
def announces (g : Graph) : Change → Bool
  | .remove name => g.dependenciesOf name ≠ [] ∨ g.dependentsOf name ≠ []
  | _ => true

-- Adds a dependency to those that are to be put before a name, unless it comes before it already or is
-- one of them.
def note (g : Graph) (dependent : Text) (pending : List Text) (dependency : Text) : List Text :=
  if g.hasOrder dependent dependency || dependency ∈ pending then pending
  else pending ++ [dependency]

-- Puts a name after others, one by one, skipping those it already comes after, until one of them
-- is refused.
def follow (g : Graph) (dependent : Text) : List Text → Graph × Except DependencyError Unit
  | [] => (g, .ok ())
  | dependency :: rest =>
    if g.hasOrder dependent dependency then g.follow dependent rest
    else
      match g.setOrder dependent dependency with
      | .ok g' => g'.follow dependent rest
      | .error e => (g, .error e)

theorem length_removeAll_lt {names next : List Text} {a : Text} (h : a ∈ names) (h' : a ∈ next) :
    (names.removeAll next).length < names.length := by
  have := List.length_filter_lt_length_iff_exists (p := fun x => !next.elem x) (l := names)
  exact this.mpr ⟨a, h, by simp [h']⟩

-- Collects what depends on the names of a stack, as far as it has not been collected before.
def collect (g : Graph) (stack unseen found : List Text) : List Text :=
  match stack with
  | [] => found
  | name :: rest =>
    -- Each name goes on the stack once, so the unseen names run out.
    match _h : (g.dependentsOf name).eraseDups.filter (· ∈ unseen) with
    | [] => g.collect rest unseen found
    | a :: as =>
      g.collect ((a :: as).reverse ++ rest) (unseen.removeAll (a :: as)) (found ++ (a :: as))
termination_by (unseen.length, stack.length)
decreasing_by
  · exact Prod.Lex.right _ (by simp)
  · have ha : a ∈ a :: as := List.mem_cons_self
    have := List.mem_filter.mp (_h ▸ ha : a ∈ (g.dependentsOf name).eraseDups.filter (· ∈ unseen))
    exact Prod.Lex.left _ _ (length_removeAll_lt (by simpa using this.2) ha)

-- Everything that comes after one of the roots, directly or not, without the roots.
def descendantsOf (g : Graph) (roots : List Text) : List Text :=
  let roots := roots.eraseDups
  let names := (g.dependents.flatMap (·.2)).eraseDups
  g.collect roots.reverse (names.filter (· ∉ roots)) []

end Graph

end SceneMotion
