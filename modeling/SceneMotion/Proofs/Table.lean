import Mathlib.Data.List.Forall2
import Mathlib.Data.List.Nodup
import SceneMotion.Table

namespace SceneMotion.Table

variable {β : Type u} {t : Table β} {key k : Text} {value : β}

@[simp]
theorem get?_nil : get? ([] : Table β) k = none :=
  rfl

theorem get?_cons {entry : Text × β} :
    get? (entry :: t) k = if k = entry.1 then some entry.2 else t.get? k := by
  obtain ⟨key, _⟩ := entry
  simp only [get?, List.lookup_cons]
  by_cases h : k = key
  case pos => simp [h]
  case neg => simp [h, beq_eq_false_iff_ne.mpr h]

@[simp]
theorem keys_cons {entry : Text × β} : keys (entry :: t) = entry.1 :: t.keys :=
  rfl

theorem get?_set : (t.set key value).get? k = if k = key then some value else t.get? k := by
  induction t <;> simp only [set]
  case nil => simp [get?_cons]
  case cons entry rest hi =>
    by_cases h : entry.1 = key <;> simp only [h, if_true, if_false, get?_cons]
    case pos => split <;> rfl
    case neg =>
      rw [hi]
      by_cases hk : k = entry.1
      case pos => simp [hk, h]
      case neg => simp [hk]

theorem get?_erase : (t.erase key).get? k = if k = key then none else t.get? k := by
  induction t
  case nil => simp [erase]
  case cons entry rest hi =>
    simp only [erase, List.filter_cons] at hi ⊢
    by_cases h : entry.1 = key <;> simp only [h, ne_eq, not_true, not_false_iff, decide_true,
      decide_false, if_true, Bool.false_eq_true, if_false, get?_cons, hi]
    case pos => split <;> rfl
    case neg =>
      by_cases hk : k = entry.1
      case pos => simp [hk, h]
      case neg => simp [hk]

theorem has_iff_mem_keys : t.has key ↔ key ∈ t.keys := by
  simp [has, keys]

theorem has_eq_false_iff : t.has key = false ↔ key ∉ t.keys := by
  rw [← has_iff_mem_keys, Bool.not_eq_true]

theorem get?_eq_none_iff : t.get? key = none ↔ key ∉ t.keys := by
  induction t
  case nil => simp [keys]
  case cons entry rest hi => by_cases h : key = entry.1 <;> simp [get?_cons, h, hi]

theorem get?_isSome_iff : (t.get? key).isSome ↔ key ∈ t.keys := by
  rw [← not_iff_not, ← get?_eq_none_iff, Option.not_isSome_iff_eq_none]

theorem mem_keys_of_get? (h : t.get? key = some value) : key ∈ t.keys :=
  get?_isSome_iff.mp (h ▸ rfl)

theorem exists_get?_of_mem_keys (h : key ∈ t.keys) : ∃ value, t.get? key = some value :=
  Option.isSome_iff_exists.mp (get?_isSome_iff.mpr h)

-- A key that is there keeps its place.
theorem keys_set_of_mem (h : key ∈ t.keys) : (t.set key value).keys = t.keys := by
  induction t
  case nil => simp [keys] at h
  case cons entry rest hi =>
    by_cases hk : entry.1 = key
    case pos => simp [set, hk]
    case neg => simp [set, hk, hi <| (List.mem_cons.mp h).resolve_left (Ne.symm hk)]

theorem set_of_not_mem (h : key ∉ t.keys) : t.set key value = t ++ [(key, value)] := by
  induction t
  case nil => rfl
  case cons entry rest hi =>
    rw [keys_cons, List.mem_cons, not_or] at h
    simp [set, Ne.symm h.left, hi h.right]

theorem get?_append_singleton (h : key ∉ t.keys) :
    get? (t ++ [(key, value)]) k = if k = key then some value else t.get? k := by
  rw [← get?_set, set_of_not_mem h]

theorem keys_set_of_not_mem (h : key ∉ t.keys) : (t.set key value).keys = t.keys ++ [key] := by
  simp [set_of_not_mem h, keys]

theorem keys_erase (h : t.keys.Nodup) : (t.erase key).keys = t.keys.erase key := by
  rw [h.erase_eq_filter, keys, erase, keys, List.filter_map]
  congr 2
  ext entry
  by_cases hk : entry.1 = key <;> simp [hk]

theorem erase_of_not_mem (h : key ∉ t.keys) : t.erase key = t := by
  refine List.filter_eq_self.mpr fun entry he => decide_eq_true fun hk => ?_
  exact h (List.mem_map.mpr ⟨entry, he, hk⟩)

variable {other : Text} {value' : β}

theorem set_set : set key value' (t.set key value) = t.set key value' := by
  induction t
  case nil => simp [set]
  case cons entry rest hi => by_cases hk : entry.1 = key <;> simp [set, hk, hi]

theorem set_of_get? (h : t.get? key = some value) : t.set key value = t := by
  induction t
  case nil => simp at h
  case cons entry rest hi =>
    rw [get?_cons] at h
    by_cases hk : entry.1 = key
    case pos =>
      rw [if_pos hk.symm, Option.some.injEq] at h
      simp [set, ← hk, ← h]
    case neg =>
      rw [if_neg (Ne.symm hk)] at h
      simp [set, hk, hi h]

-- A new entry goes to the end, so that nothing is left of it once it is erased.
theorem erase_set_of_not_mem (h : key ∉ t.keys) : erase (t.set key value) key = t := by
  rw [set_of_not_mem h, erase, List.filter_append, ← erase, erase_of_not_mem h]
  simp

theorem erase_cons {entry : Text × β} : erase (entry :: t) key =
    if entry.1 = key then t.erase key else entry :: t.erase key := by
  by_cases h : entry.1 = key <;> simp [erase, h]

theorem erase_set_of_ne (h : other ≠ key) :
    erase (t.set key value) other = set key value (t.erase other) := by
  induction t
  case nil => simp [set, erase, h.symm]
  case cons entry rest hi =>
    by_cases hk : entry.1 = key
    case pos => simp [set, erase_cons, hk, h.symm]
    case neg => by_cases ho : entry.1 = other <;> simp [set, erase_cons, hk, ho, hi, h]

-- A key that is there keeps its place, whatever is set before or after it.
theorem set_comm_of_mem (h : other ≠ key) (ho : other ∈ t.keys) :
    set other value' (t.set key value) = set key value (t.set other value') := by
  induction t
  case nil => simp [keys] at ho
  case cons entry rest hi =>
    rw [keys_cons, List.mem_cons] at ho
    by_cases hk : entry.1 = key
    case pos => simp [set, hk, h.symm]
    case neg =>
      by_cases he : entry.1 = other
      case pos => simp [set, he, h]
      case neg => simp [set, hk, he, hi (ho.resolve_left (Ne.symm he))]

variable {γ : Type v}

-- The same keys in the same places, and values that correspond.
def Rel (r : β → γ → Prop) (t : Table β) (t' : Table γ) : Prop :=
  List.Forall₂ (fun entry entry' => entry.1 = entry'.1 ∧ r entry.2 entry'.2) t t'

namespace Rel

variable {r : β → γ → Prop} {t' : Table γ} {b : β} {c : γ}

theorem keys_eq (h : Rel r t t') : t.keys = t'.keys := by
  induction h
  case nil          => rfl
  case cons he _ hi => rw [keys_cons, keys_cons, he.left, hi]

theorem has_eq (h : Rel r t t') (key : Text) : t.has key = t'.has key := by
  rw [Bool.eq_iff_iff, has_iff_mem_keys, has_iff_mem_keys, h.keys_eq]

theorem get? (h : Rel r t t') (key : Text) : Option.Rel r (t.get? key) (t'.get? key) := by
  induction h
  case nil          => exact .none
  case cons he _ hi =>
    rw [get?_cons, get?_cons, he.left]
    split
    case isTrue  => exact .some he.right
    case isFalse => exact hi

theorem set (h : Rel r t t') (hb : r b c) : Rel r (t.set key b) (t'.set key c) := by
  induction h
  case nil           => exact .cons ⟨rfl, hb⟩ .nil
  case cons he ht hi =>
    simp only [Table.set, he.left]
    split
    case isTrue  => exact .cons ⟨rfl, hb⟩ ht
    case isFalse => exact .cons ⟨rfl, he.right⟩ hi

theorem erase (h : Rel r t t') (key : Text) : Rel r (t.erase key) (t'.erase key) := by
  induction h
  case nil           => exact .nil
  case cons he ht hi =>
    simp only [Table.erase, List.filter_cons, he.left] at hi ⊢
    split
    case isTrue  => exact .cons he hi
    case isFalse => exact hi

end Rel
end SceneMotion.Table
