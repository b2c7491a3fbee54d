import Mathlib.Data.List.Nodup
import SceneMotion.Text

namespace SceneMotion.Names

variable {a b : List Text}

theorem nodup_eraseDups (names : List Text) : names.eraseDups.Nodup := by
  cases names
  case nil => exact .nil
  case cons name rest =>
    rw [List.eraseDups_cons]
    exact List.nodup_cons.mpr ⟨by simp, nodup_eraseDups _⟩
termination_by names.length
decreasing_by exact Nat.lt_succ_of_le (List.length_filter_le _ _)

theorem eraseDups_filter (names : List Text) (p : Text → Bool) :
    (names.filter p).eraseDups = names.eraseDups.filter p := by
  cases names
  case nil => rfl
  case cons name rest =>
    have hi := eraseDups_filter (rest.filter (!· == name)) p
    rw [List.eraseDups_cons, List.filter_cons, List.filter_cons, ← hi, List.filter_filter]
    split
    case isTrue =>
      rw [List.eraseDups_cons, List.filter_filter]
      simp only [Bool.and_comm]
    case isFalse hp =>
      congr 1
      refine List.filter_congr fun other _ => ?_
      by_cases ho : other = name <;> simp [ho, hp]
termination_by names.length
decreasing_by exact Nat.lt_succ_of_le (List.length_filter_le _ _)

-- Where nothing is repeated nothing is left out.
theorem eraseDups_of_nodup (h : a.Nodup) : a.eraseDups = a := by
  induction a
  case nil => rfl
  case cons name rest hi =>
    have ⟨hn, hr⟩ := List.nodup_cons.mp h
    have hf : rest.filter (!· == name) = rest := by
      refine List.filter_eq_self.mpr fun other ho => ?_
      simp [ne_of_mem_of_not_mem ho hn]
    rw [List.eraseDups_cons, hf, hi hr]

-- Names that are there already add nothing.
theorem eraseDups_append_of_subset (h : b ⊆ a) : (a ++ b).eraseDups = a.eraseDups := by
  have hb : b.removeAll a = [] := by
    refine List.filter_eq_nil_iff.mpr fun name hn => ?_
    simp [h hn]
  rw [List.eraseDups_append, hb, List.eraseDups_nil, List.append_nil]

theorem removeAll_eraseDups (b a : List Text) : b.removeAll a.eraseDups = b.removeAll a :=
  List.filter_congr fun name _ => by simp [List.mem_eraseDups]

@[simp]
theorem eraseDups_eraseDups_append (a b : List Text) :
    (a.eraseDups ++ b).eraseDups = (a ++ b).eraseDups := by
  rw [List.eraseDups_append, List.eraseDups_append, eraseDups_of_nodup (nodup_eraseDups a),
    removeAll_eraseDups]

@[simp]
theorem eraseDups_append_eraseDups (a b : List Text) :
    (a ++ b.eraseDups).eraseDups = (a ++ b).eraseDups := by
  rw [List.eraseDups_append, List.eraseDups_append, List.removeAll, eraseDups_filter,
    eraseDups_of_nodup (nodup_eraseDups b), ← eraseDups_filter, ← List.removeAll]

end SceneMotion.Names
