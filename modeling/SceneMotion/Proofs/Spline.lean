import Mathlib.Data.List.GetD
import SceneMotion.Spline

namespace SceneMotion.Spline

variable {α : Type} [Scalar α] {s : Spline α} {i : Int} {start : Nat} {t u : α} {knots : List α}

-- What stands in a list at an index, which may lie outside of it on either side.
def readAt {β : Type} (xs : List β) : Int → Option β
  | .ofNat i   => xs[i]?
  | .negSucc _ => none

-- The remainder for a division that rounds toward zero, moved up to where it is not negative.
def positiveModulo (a b : Int) : Int :=
  (a.tmod b + b).tmod b

def controlAt? (s : Spline α) (i : Int) : Option (Pose α) :=
  match s.extrapolation with
  | .cyclic => readAt s.controls (positiveModulo i s.size)
  | _       => readAt s.controls (min (max i 0) (s.size - 1))

def closingInterval? (s : Spline α) : Option α :=
  if 0 < s.finalInterval then some s.finalInterval
  else if s.size < 2 then some 1
  else do
    let last ← readAt s.times (s.size - 1)
    let first ← readAt s.times 0
    return (last - first) / ((s.size - 1 : Nat) : α)

-- The search for a segment, which looks at one knot after the other, going down.
def segmentUpTo? (knots : List α) (t : α) : Nat → Option Nat
  | 0     => some 0
  | i + 1 => do
    let knot ← readAt knots (i + 1)
    if t < knot then segmentUpTo? knots t i else return i + 1

def translationOn? (s : Spline α) (i : Int) (u : α) : Option (Vec3 α) := do
  let p₁ ← s.controlAt? i
  let p₂ ← s.controlAt? (i + 1)
  match s.interpolation with
  | .linear => return p₁.translation.lerp p₂.translation u
  | .cubic  =>
    let p₀ ← s.controlAt? (i - 1)
    let p₃ ← s.controlAt? (i + 2)
    return catmullRom p₀.translation p₁.translation p₂.translation p₃.translation u

def frameOn? (s : Spline α) (i : Int) (u : α) : Option (Frame α) := do
  let p₁ ← s.controlAt? i
  let p₂ ← s.controlAt? (i + 1)
  return ⟨(p₁.rotation.slerp p₂.rotation u).normalize.toMat3, ← s.translationOn? i u⟩

def frameWithin? (s : Spline α) (knots : List α) (start : Nat) (t : α) : Option (Frame α) := do
  let i ← segmentUpTo? knots t start
  let before ← readAt knots i
  let after ← readAt knots (i + 1)
  s.frameOn? i ((t - before) / (after - before))

def frameBefore? (s : Spline α) (first t : α) : Option (Frame α) := do
  let p₀ ← readAt s.controls 0
  if s.extrapolation = .clamp ∨ (t == first) = true then
    return p₀.toFrame
  else
    let p₁ ← readAt s.controls 1
    let second ← readAt s.times 1
    return beyond p₀ p₁ ((t - first) / (second - first)) p₀.rotation

def frameAfter? (s : Spline α) (last t : α) : Option (Frame α) := do
  let n : Int := s.size
  let p₁ ← readAt s.controls (n - 1)
  if s.extrapolation = .clamp ∨ (t == last) = true then
    return p₁.toFrame
  else
    let p₀ ← readAt s.controls (n - 2)
    let before ← readAt s.times (n - 2)
    return beyond p₀ p₁ ((t - before) / (last - before)) p₁.rotation

-- The frame at a time, if all that is read for it is there.
def frameAt? (s : Spline α) (t : α) : Option (Frame α) :=
  match s.size with
  | 0 => some .identity
  | 1 => return (← readAt s.controls 0).toFrame
  | n + 2 => do
    let first ← readAt s.times 0
    let last ← readAt s.times (n + 1)
    if s.extrapolation = .cyclic then
      let period := last - first + (← s.closingInterval?)
      s.frameWithin? (s.times ++ [first + period]) (n + 1)
        (first + Scalar.modulo (t - first) period)
    else if t ≤ first then s.frameBefore? first t
    else if last ≤ t then s.frameAfter? last t
    else s.frameWithin? s.times n t

theorem readAt_eq {β : Type} {xs : List β} {k : Nat} (hi : i = k) (h : k < xs.length) (default : β) :
    readAt xs i = some (xs.getD k default) := by
  subst hi
  change xs[k]? = _
  rw [List.getD_eq_getElem _ _ h, List.getElem?_eq_getElem h]

theorem positiveModulo_eq {b : Int} (hb : 0 < b) : positiveModulo i b = i % b := by
  have h : 0 ≤ i.tmod b + b := by
    have := Int.lt_tmod_of_pos i hb
    omega
  rw [positiveModulo, Int.tmod_eq_emod_of_nonneg h, Int.add_emod_right, Int.tmod_def,
    Int.sub_mul_emod_self_left]

-- Every index stands for a control, if there is one.
theorem controlAt?_eq (hs : 0 < s.size) (i : Int) : s.controlAt? i = some (s.controlAt i) := by
  have hs : 0 < (s.size : Int) := by exact_mod_cast hs
  rw [controlAt?, controlAt, control, controlIndex]
  cases s.extrapolation
  case cyclic =>
    have h₀ := Int.emod_nonneg i (Int.ne_of_gt hs)
    have h := Int.emod_lt_of_pos i hs
    rw [positiveModulo_eq hs]
    exact readAt_eq (Int.toNat_of_nonneg h₀).symm ((Int.toNat_lt h₀).mpr h) _
  all_goals
    have h₀ : 0 ≤ min (max i 0) (s.size - 1) := by omega
    have h : min (max i 0) (s.size - 1) < (s.size : Int) := by omega
    exact readAt_eq (Int.toNat_of_nonneg h₀).symm ((Int.toNat_lt h₀).mpr h) _

theorem segmentUpTo_le (knots : List α) (t : α) (start : Nat) :
    segmentUpTo knots t start ≤ start := by
  induction start
  case zero => exact Nat.le_refl 0
  case succ i ih =>
    rw [segmentUpTo]
    split <;> omega

-- The search goes down from an index with a knot, and so meets only indices with one.
theorem segmentUpTo?_eq (h : start < knots.length) (t : α) :
    segmentUpTo? knots t start = some (segmentUpTo knots t start) := by
  induction start
  case zero => rfl
  case succ i ih =>
    have hr : readAt knots (i + 1) = some (knots.getD (i + 1) 0) :=
      readAt_eq rfl h 0
    rw [segmentUpTo?, segmentUpTo, hr]
    change (if t < knots.getD (i + 1) 0 then _ else _) = _
    split
    case isTrue  => exact ih (by omega)
    case isFalse => rfl

theorem translationOn?_eq (hs : 0 < s.size) (i : Nat) (u : α) :
    s.translationOn? i u = some (s.translationOn i u) := by
  simp only [translationOn?, translationOn, controlAt?_eq hs]
  cases s.interpolation <;> rfl

theorem frameOn?_eq (hs : 0 < s.size) (i : Nat) (u : α) :
    s.frameOn? i u = some (s.frameOn i u) := by
  simp only [frameOn?, frameOn, controlAt?_eq hs, translationOn?_eq hs]
  rfl

-- Every segment that the search can come to has a knot at its end.
theorem frameWithin?_eq (hs : 0 < s.size) (h : start + 1 < knots.length) (t : α) :
    s.frameWithin? knots start t = some (s.frameWithin knots start t) := by
  have hi := segmentUpTo_le knots t start
  have hb : readAt knots (segmentUpTo knots t start) = some (knots.getD (segmentUpTo knots t start) 0) :=
    readAt_eq rfl (by omega) 0
  have ha : readAt knots (segmentUpTo knots t start + 1) =
      some (knots.getD (segmentUpTo knots t start + 1) 0) :=
    readAt_eq (by omega) (by omega) 0
  rw [frameWithin?, segmentUpTo?_eq (by omega), frameWithin]
  simp only [Option.bind_eq_bind, Option.bind_some, hb, ha, frameOn?_eq hs]

theorem readAt_times {k : Nat} (hi : i = k) (h : k < s.size) : readAt s.times i = some (s.time k) :=
  readAt_eq hi (s.length_times ▸ h) 0

theorem readAt_controls {k : Nat} (hi : i = k) (h : k < s.size) :
    readAt s.controls i = some (s.control k) :=
  readAt_eq hi h _

theorem closingInterval?_eq (s : Spline α) : s.closingInterval? = some s.closingInterval := by
  rw [closingInterval?, closingInterval]
  split
  case isTrue => rfl
  case isFalse =>
    split
    case isTrue => rfl
    case isFalse h =>
      have hl : readAt s.times (s.size - 1) = some s.last := readAt_times (by omega) (by omega)
      have hf : readAt s.times 0 = some s.first := readAt_times rfl (by omega)
      rw [hl, hf]
      rfl

theorem frameBefore?_eq (hs : 1 < s.size) (t : α) :
    s.frameBefore? s.first t = some (s.frameBefore t) := by
  have h₀ : readAt s.controls 0 = some (s.control 0) := readAt_controls rfl (by omega)
  have h₁ : readAt s.controls 1 = some (s.control 1) := readAt_controls rfl hs
  have ht : readAt s.times 1 = some (s.time 1) := readAt_times rfl hs
  rw [frameBefore?, frameBefore, h₀, h₁, ht]
  simp only [Option.bind_eq_bind, Option.bind_some]
  split <;> rfl

theorem frameAfter?_eq (hs : 1 < s.size) (t : α) :
    s.frameAfter? s.last t = some (s.frameAfter t) := by
  have h₁ : readAt s.controls (s.size - 1) = some (s.control (s.size - 1)) :=
    readAt_controls (by omega) (by omega)
  have h₀ : readAt s.controls (s.size - 2) = some (s.control (s.size - 2)) :=
    readAt_controls (by omega) (by omega)
  have ht : readAt s.times (s.size - 2) = some (s.time (s.size - 2)) :=
    readAt_times (by omega) (by omega)
  simp only [frameAfter?, frameAfter, h₀, h₁, ht, Option.bind_eq_bind, Option.bind_some]
  split <;> rfl

theorem frameAt_of_size_eq {n : Nat} (hs : s.size = n + 2) (t : α) : s.frameAt t =
    if s.extrapolation = .cyclic then s.frameWithin s.knots (s.size - 1) (s.wrap t)
    else if t ≤ s.first then s.frameBefore t
    else if s.last ≤ t then s.frameAfter t
    else s.frameWithin s.times (s.size - 2) t := by
  rw [size] at hs
  rw [frameAt]
  split
  case h_1 hc => simp [hc] at hs
  case h_2 hc => simp [hc] at hs
  case h_3    => rfl

-- At no time is anything read that is not there.
theorem frameAt_in_bounds (s : Spline α) (t : α) : s.frameAt? t = some (s.frameAt t) := by
  rw [frameAt?]
  split
  case h_1 hs =>
    have hc : s.controls = [] := List.length_eq_zero_iff.mp hs
    rw [frameAt]
    simp only [hc]
  case h_2 hs =>
    obtain ⟨p, hc⟩ := List.length_eq_one_iff.mp hs
    rw [frameAt]
    simp only [hc]
    rfl
  case h_3 n hs =>
    have hf : readAt s.times 0 = some s.first := readAt_times rfl (by omega)
    have hl : readAt s.times (n + 1) = some s.last := readAt_times (by omega) (by omega)
    have hkl : s.knots.length = n + 3 := by
      rw [knots, List.length_append, s.length_times]
      exact congrArg (· + 1) hs
    rw [frameAt_of_size_eq hs, hf, hl, closingInterval?_eq, hs]
    simp only [Option.bind_eq_bind, Option.bind_some]
    split
    case isTrue =>
      have hlt : n + 1 + 1 < s.knots.length := by omega
      exact frameWithin?_eq (by omega) hlt (s.wrap t)
    case isFalse =>
      split
      case isTrue => exact frameBefore?_eq (by omega) t
      case isFalse =>
        split
        case isTrue  => exact frameAfter?_eq (by omega) t
        case isFalse =>
          have hlt : n + 1 < s.times.length := s.length_times ▸ Nat.le_of_eq hs.symm
          exact frameWithin?_eq (by omega) hlt t

end SceneMotion.Spline
