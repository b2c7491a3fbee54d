import SceneMotion.Table

namespace SceneMotion

-- The number a key writes, if it writes one in its shortest form and below `2 ^ 32 - 1`.
def Text.index? (key : Text) : Option Nat :=
  match key with
  | [] => none
  | d :: rest =>
    if key.all Unit16.isDigit ∧ (d ≠ unit '0' ∨ rest = []) ∧ Text.toNat key < 0xFFFFFFFF then
      some (Text.toNat key)
    else
      none

-- Keys that write a number come first and ascend. All others follow in the order of their arrival.
abbrev Fields (β : Type u) := Table β

namespace Fields

variable {β : Type u}

-- Whether a new key stands in front of one that is there already.
def precedes (key other : Text) : Bool :=
  match key.index?, other.index? with
  | some i, some j => i < j
  | some _, none => true
  | none, _ => false

-- A key that is there keeps its place; a new one goes where the key order puts it.
def set (key : Text) (value : β) : Fields β → Fields β
  | [] => [(key, value)]
  | (k, v) :: rest =>
    if k = key then (key, value) :: rest
    else if precedes key k then (key, value) :: (k, v) :: rest
    else (k, v) :: set key value rest

-- Of two values for one key the later counts.
def ofList (entries : List (Text × β)) : Fields β :=
  entries.foldl (fun fields (key, value) => fields.set key value) []

end Fields

end SceneMotion
