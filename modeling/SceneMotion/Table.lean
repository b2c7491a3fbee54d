import SceneMotion.Text

namespace SceneMotion

abbrev Table (β : Type u) := List (Text × β)

namespace Table

variable {β : Type u}

def get? (t : Table β) (key : Text) : Option β :=
  t.lookup key

def has (t : Table β) (key : Text) : Bool :=
  t.any (·.1 = key)

def keys (t : Table β) : List Text :=
  t.map (·.1)

-- A key that is there keeps its place; a new one goes to the end.
def set (key : Text) (value : β) : Table β → Table β
  | [] => [(key, value)]
  | (k, v) :: rest => if k = key then (key, value) :: rest else (k, v) :: set key value rest

def erase (t : Table β) (key : Text) : Table β :=
  t.filter (·.1 ≠ key)

end Table

end SceneMotion
