import Mathlib.Data.List.Induction
import SceneMotion.Fields
import SceneMotion.Proofs.Table

namespace SceneMotion.Fields

variable {β : Type u} {fields : Fields β} {a b c key k : Text} {value : β} {arrivals keys : List Text}

theorem has_set : (fields.set key value).has k ↔ k = key ∨ fields.has k := by
  induction fields
  case nil => simp [set, Table.has, eq_comm]
  case cons entry rest hi =>
    simp only [Table.has] at hi ⊢
    rw [set]
    split
    case isTrue => grind
    case isFalse =>
      split
      case isTrue  => grind
      case isFalse => grind

theorem get?_set : (fields.set key value).get? k = if k = key then some value else fields.get? k := by
  induction fields
  case nil => simp [set, Table.get?_cons]
  case cons entry rest hi =>
    rw [set, Table.get?_cons]
    split
    case isTrue he => grind [Table.get?_cons]
    case isFalse   =>
      split
      case isTrue  => grind [Table.get?_cons]
      case isFalse => grind [Table.get?_cons]

@[simp]
theorem precedes_self (key : Text) : precedes key key = false := by
  rw [precedes]
  cases key.index? <;> simp

theorem precedes_asymm (h : precedes a b) : precedes b a = false := by
  rw [precedes] at *
  cases ha : a.index? <;> cases hb : b.index? <;> simp_all
  omega

-- What stands in front of a key stands in front of all that the key does not stand behind.
theorem precedes_of_not (h : precedes a b) (hn : precedes c b = false) : precedes a c := by
  rw [precedes] at *
  cases ha : a.index? <;> cases hb : b.index? <;> cases hc : c.index? <;> simp_all
  omega

-- Whether a key stands before another: by the key order, and by their arrival where that says nothing.
def Before (arrivals : List Text) (a b : Text) : Prop :=
  precedes a b ∨ (precedes b a = false ∧ arrivals.idxOf a < arrivals.idxOf b)

theorem Before.not_precedes (h : Before arrivals a b) : precedes b a = false :=
  h.elim precedes_asymm And.left

theorem Before.ne (h : Before arrivals a b) : a ≠ b := by
  rintro rfl
  simp [Before] at h

theorem Before.append (h : Before arrivals a b) (ha : a ∈ arrivals) (hb : b ∈ arrivals)
    (more : List Text) : Before (arrivals ++ more) a b :=
  h.imp id fun ⟨hp, hi⟩ => ⟨hp, by rwa [List.idxOf_append_of_mem ha, List.idxOf_append_of_mem hb]⟩

-- A key that has just arrived stands behind those that it does not precede.
theorem Before.of_new (ha : a ∈ arrivals) (hk : key ∉ arrivals) (h : precedes key a = false) :
    Before (arrivals ++ [key]) a key := by
  refine .inr ⟨h, ?_⟩
  rw [List.idxOf_append_of_mem ha, List.idxOf_append_of_notMem hk]
  have := List.idxOf_lt_length_of_mem ha
  omega

-- These are the keys that have arrived, in the order in which an object has them.
structure InOrder (arrivals keys : List Text) : Prop where
  mem      : ∀ key, key ∈ keys ↔ key ∈ arrivals
  pairwise : keys.Pairwise (Before arrivals)

theorem InOrder.nodup (h : InOrder arrivals keys) : keys.Nodup :=
  h.pairwise.imp Before.ne

theorem keys_set_of_mem (h : fields.keys.Pairwise (Before arrivals)) (hk : key ∈ fields.keys) :
    (fields.set key value).keys = fields.keys := by
  induction fields
  case nil => cases hk
  case cons entry rest hi =>
    have ⟨hb, hr⟩ := List.pairwise_cons.mp h
    rw [set]
    by_cases he : entry.1 = key
    case pos => simp [Table.keys, he]
    case neg =>
      have hk := (List.mem_cons.mp hk).resolve_left (Ne.symm he)
      rw [if_neg he, if_neg (by simp [(hb key hk).not_precedes]), Table.keys_cons, hi hr hk,
        Table.keys_cons]

-- A new key stands behind some keys that it does not precede, and in front of one that it does.
theorem exists_keys_set_of_not_mem (hk : key ∉ fields.keys) (value : β) : ∃ front back,
    fields.keys = front ++ back ∧ (fields.set key value).keys = front ++ key :: back ∧
      (∀ a ∈ front, precedes key a = false) ∧ ∀ a ∈ back.head?, precedes key a := by
  induction fields
  case nil => exact ⟨[], [], rfl, rfl, nofun, nofun⟩
  case cons entry rest hi =>
    have ⟨he, hk⟩ := not_or.mp (mt List.mem_cons.mpr hk)
    rw [set, if_neg (Ne.symm he)]
    by_cases hp : precedes key entry.1
    case pos =>
      refine ⟨[], entry.1 :: Table.keys rest, rfl, by rw [if_pos hp]; rfl, nofun, ?_⟩
      rintro _ ⟨⟩
      exact hp
    case neg =>
      have ⟨front, back, hf, hs, hnp, hb⟩ := hi hk
      refine ⟨entry.1 :: front, back, congrArg _ hf, ?_, ?_, hb⟩
      · rw [if_neg hp, Table.keys_cons, hs]
        rfl
      · exact List.forall_mem_cons.mpr ⟨Bool.eq_false_iff.mpr hp, hnp⟩

theorem mem_keys_set : k ∈ (fields.set key value).keys ↔ k = key ∨ k ∈ fields.keys := by
  rw [← Table.has_iff_mem_keys, ← Table.has_iff_mem_keys, has_set]

theorem InOrder.set (h : InOrder arrivals fields.keys) (key : Text) (value : β) :
    InOrder (arrivals ++ [key]) (fields.set key value).keys := by
  refine ⟨fun k => ?mem, ?pairwise⟩
  case mem => simp [mem_keys_set, h.mem, or_comm]
  case pairwise =>
    have hold : fields.keys.Pairwise (Before (arrivals ++ [key])) :=
      h.pairwise.imp_of_mem fun ha hb hab => hab.append ((h.mem _).mp ha) ((h.mem _).mp hb) _
    by_cases hk : key ∈ fields.keys
    case pos => rwa [keys_set_of_mem hold hk]
    case neg =>
      obtain ⟨front, back, hf, hs, hnp, hb⟩ := exists_keys_set_of_not_mem hk value
      have hmem (a : Text) : a ∈ front ++ back → a ∈ arrivals := fun ha => (h.mem a).mp (hf ▸ ha)
      rw [hf] at hold
      have ⟨hfront, hback, hfb⟩ := List.pairwise_append.mp hold
      have hnew := fun a ha => Before.of_new (hmem a (List.mem_append_left _ ha)) (mt (h.mem _).mpr hk)
        (hnp a ha)
      have hbefore : ∀ b ∈ back, Before (arrivals ++ [key]) key b := by
        cases back
        case nil => nofun
        case cons first rest =>
          have hp : precedes key first := hb first rfl
          have hr := (List.pairwise_cons.mp hback).left
          exact List.forall_mem_cons.mpr
            ⟨.inl hp, fun b hb => .inl (precedes_of_not hp (hr b hb).not_precedes)⟩
      rw [hs]
      refine List.pairwise_append.mpr ⟨hfront, List.pairwise_cons.mpr ⟨hbefore, hback⟩, ?_⟩
      exact fun a ha => List.forall_mem_cons.mpr ⟨hnew a ha, hfb a ha⟩

-- The induction is on the entries from the last one on.
theorem inOrder_ofList (entries : List (Text × β)) :
    InOrder (entries.map (·.1)) (ofList entries).keys := by
  induction entries using List.reverseRecOn
  case nil => exact ⟨fun _ => .rfl, .nil⟩
  case append_singleton entries entry hi =>
    rw [ofList, List.foldl_append, List.map_append]
    exact hi.set entry.1 entry.2

theorem mem_of_mem_set {entry : Text × β} (h : entry ∈ fields.set key value) :
    entry = (key, value) ∨ entry ∈ fields := by
  induction fields
  case nil => exact .inl (List.mem_singleton.mp h)
  case cons first rest hi =>
    rw [set] at h
    grind

theorem mem_of_mem_ofList {entries : List (Text × β)} {entry : Text × β} (h : entry ∈ ofList entries) :
    entry ∈ entries := by
  induction entries using List.reverseRecOn
  case nil => exact h
  case append_singleton entries last hi =>
    rw [ofList, List.foldl_append] at h
    rcases mem_of_mem_set h with rfl | h
    · exact List.mem_append_right _ List.mem_cons_self
    · exact List.mem_append_left _ (hi h)

-- A new key that precedes none comes last.
theorem set_of_not_precedes (h : ∀ k ∈ fields.keys, k ≠ key ∧ precedes key k = false) :
    fields.set key value = fields ++ [(key, value)] := by
  induction fields
  case nil => rfl
  case cons first rest hi =>
    have ⟨⟨hne, hp⟩, hr⟩ := List.forall_mem_cons.mp h
    rw [set, if_neg hne, if_neg (by simp [hp]), hi hr, List.cons_append]

theorem ofList_eq_self {entries : List (Text × β)}
    (h : (entries.map (·.1)).Pairwise (Before arrivals)) : ofList entries = entries := by
  induction entries using List.reverseRecOn
  case nil => rfl
  case append_singleton entries last hi =>
    rw [List.map_append, List.pairwise_append] at h
    have ⟨hp, _, hl⟩ := h
    rw [ofList, List.foldl_append]
    refine (congrArg (set last.1 last.2 ·) (hi hp)).trans (set_of_not_precedes fun k hk => ?_)
    have hb := hl k hk last.1 List.mem_cons_self
    exact ⟨hb.ne, hb.not_precedes⟩

@[simp]
theorem ofList_ofList (entries : List (Text × β)) : ofList (ofList entries) = ofList entries :=
  ofList_eq_self (inOrder_ofList entries).pairwise

end SceneMotion.Fields
