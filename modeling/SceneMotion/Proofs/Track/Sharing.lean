import Mathlib
import SceneMotion.Proofs.Track.Ledger

namespace SceneMotion

variable {α : Type} [Scalar α]

namespace Motion

-- One motion occurs in another, or is the same.
def Reaches : Motion α → Motion α → Prop :=
  Relation.ReflTransGen fun m part => part ∈ m.parts

-- All occurrences with one label are one motion.
def Coherent (m : Motion α) : Prop :=
  ∀ label a b, m.Reaches (shared label a) → m.Reaches (shared label b) → a = b

variable {m a x : Motion α} {label : Nat}

theorem reaches_iff : m.Reaches x ↔ m = x ∨ ∃ y ∈ m.parts, y.Reaches x :=
  Relation.ReflTransGen.cases_head_iff

theorem sizeOf_parts (m : Motion α) : (m.parts.map sizeOf).sum < sizeOf m := by
  cases m <;> simp [parts] <;> omega

theorem sizeOf_lt_of_mem_parts (h : x ∈ m.parts) : sizeOf x < sizeOf m :=
  Nat.lt_of_le_of_lt (List.le_sum_of_mem (List.mem_map_of_mem h)) m.sizeOf_parts

theorem Reaches.sizeOf_le (h : m.Reaches x) : sizeOf x ≤ sizeOf m := by
  induction h using Relation.ReflTransGen.head_induction_on
  case refl         => exact Nat.le_refl _
  case head hp _ hi => exact Nat.le_trans hi (Nat.le_of_lt (sizeOf_lt_of_mem_parts hp))

theorem Coherent.of_reaches (h : m.Coherent) (hx : m.Reaches x) : x.Coherent :=
  fun label a b ha hb => h label a b (hx.trans ha) (hx.trans hb)

theorem reaches_shared_iff (h : m.isShared = false) :
    m.Reaches (shared label a) ↔ ∃ x ∈ m.parts, x.Reaches (shared label a) := by
  rw [reaches_iff, or_iff_right]
  rintro rfl
  cases h

-- The labels are places in a list, where the motions stand that carry them.
def Labelled (bound : List (Motion α)) (m : Motion α) : Prop :=
  ∀ label a, m.Reaches (shared label a) → bound[label]? = some a

namespace Labelled

variable {bound bound' : List (Motion α)}

theorem coherent (h : m.Labelled bound) : m.Coherent :=
  fun label a b ha hb => Option.some.inj ((h label a ha).symm.trans (h label b hb))

theorem of_reaches (h : m.Labelled bound) (hx : m.Reaches x) : x.Labelled bound :=
  fun label a ha => h label a (hx.trans ha)

theorem mono (h : m.Labelled bound) (hb : bound <+: bound') : m.Labelled bound' := by
  obtain ⟨more, rfl⟩ := hb
  intro label a ha
  have ⟨hl, _⟩ := List.getElem?_eq_some_iff.mp (h label a ha)
  rw [List.getElem?_append_left hl, h label a ha]

theorem of_parts (hm : m.isShared = false) (h : ∀ x ∈ m.parts, x.Labelled bound) :
    m.Labelled bound := by
  intro label a ha
  obtain ⟨x, hx, ha⟩ := (reaches_shared_iff hm).mp ha
  exact h x hx label a ha

theorem leaf (hm : m.isShared = false) (hp : m.parts = []) : m.Labelled bound :=
  .of_parts hm (hp ▸ nofun)

-- The next label is that of the next place.
theorem shared (h : m.Labelled bound) : (shared bound.length m).Labelled (bound ++ [m]) := by
  intro label a ha
  rcases reaches_iff.mp ha with he | ⟨x, hx, hr⟩
  · cases he
    simp
  · cases List.mem_singleton.mp hx
    exact h.mono ⟨_, rfl⟩ label a hr

end Labelled

theorem reaches_core (m : Motion α) : m.Reaches m.core := by
  induction m
  case shared hi => exact .head List.mem_cons_self hi
  all_goals exact .refl

end Motion

namespace Track

variable {owner : Text} {track : Track α}

-- The next label goes to the motion that is labelled next.
def labels : Ledger α (List (Motion α)) where
  Grows bound bound' := bound <+: bound'
  Fits bound n       := n.label = bound.length
  Holds bound m      := m.Labelled bound
  refl _             := List.prefix_rfl
  trans              := List.IsPrefix.trans
  mono hs hm         := hm.mono hs
  node hm _ hp       := .of_parts hm hp
  entity hn          := ⟨_, List.prefix_rfl, hn, fun _ => .leaf rfl rfl⟩
  shared {bound n m} hn hm := by
    refine ⟨bound ++ [m], ⟨_, rfl⟩, ?_, hn ▸ hm.shared⟩
    rw [List.length_append, ← hn]
    rfl

-- In a compiled track all occurrences with one label are one motion.
theorem ofExpr_coherent {e : Expr α} (h : (ofExpr owner e).result = .ok track) :
    track.motion.Coherent := by
  obtain ⟨_, bound, _, _, _, _, ho⟩ := labels.ofExpr_keeps (s := []) rfl owner e
  obtain ⟨m, hl, hc⟩ := ho track h
  rw [hc]
  exact (hl.of_reaches (Motion.reaches_core m)).coherent

end Track
end SceneMotion
