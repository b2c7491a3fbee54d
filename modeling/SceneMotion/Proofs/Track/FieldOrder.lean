import Mathlib.Data.List.Perm.Basic
import SceneMotion.Double
import SceneMotion.Proofs.Table
import SceneMotion.Track.Literal

namespace SceneMotion

theorem toOption_bind {ε β γ : Type} (x : Except ε β) (f : β → Except ε γ) :
    (x >>= f).toOption = x.toOption.bind fun b => (f b).toOption := by
  cases x <;> rfl

namespace Settings

variable {ε β γ ρ : Type} {read : γ → Option ρ} {apply : β → ρ → β} {items items' : List γ} {s : β}

-- Reads one item after the other, and applies what it says to the state.
def applyAll (read : γ → Option ρ) (apply : β → ρ → β) (s : β) (items : List γ) : Option β :=
  items.foldlM (fun s item => (read item).map (apply s)) s

theorem toOption_foldlM {step : β → γ → Except ε β}
    (h : ∀ s item, (step s item).toOption = (read item).map (apply s)) (s : β) (items : List γ) :
    (items.foldlM step s).toOption = applyAll read apply s items := by
  rw [applyAll]
  induction items generalizing s
  case nil              => rfl
  case cons item rest ih =>
    rw [List.foldlM_cons, List.foldlM_cons, toOption_bind, h]
    exact Option.bind_congr fun s _ => ih s

-- That an item cannot be read does not depend on where it stands.
theorem applyAll_eq_none_iff : applyAll read apply s items = none ↔ ∃ item ∈ items, read item = none := by
  rw [applyAll]
  induction items generalizing s
  case nil => simp
  case cons item rest ih =>
    rw [List.foldlM_cons, List.exists_mem_cons_iff]
    cases read item
    case none   => simp
    case some x => simpa using ih

theorem applyAll_append_singleton {item : γ} {s' : β}
    (h : applyAll read apply s (items ++ [item]) = some s') :
    ∃ x t, read item = some x ∧ s' = apply t x := by
  rw [applyAll, List.foldlM_append] at h
  obtain ⟨t, -, h⟩ := Option.bind_eq_some_iff.mp h
  rw [List.foldlM_cons] at h
  obtain ⟨_, h, hs⟩ := Option.bind_eq_some_iff.mp h
  obtain ⟨x, hx, rfl⟩ := Option.map_eq_some_iff.mp h
  cases hs
  exact ⟨x, t, hx, rfl⟩

theorem applyAll_perm (hp : items'.Perm items)
    (hc : ∀ a ∈ items, ∀ b ∈ items, ∀ x y, read a = some x → read b = some y →
      ∀ s, apply (apply s x) y = apply (apply s y) x) :
    applyAll read apply s items' = applyAll read apply s items := by
  rw [applyAll, applyAll]
  induction hp generalizing s
  case nil => rfl
  case cons item _ _ _ ih =>
    rw [List.foldlM_cons, List.foldlM_cons]
    refine Option.bind_congr fun s _ => ih fun a ha b hb => ?_
    exact hc a (List.mem_cons_of_mem _ ha) b (List.mem_cons_of_mem _ hb)
  case swap a b rest =>
    simp only [List.foldlM_cons]
    cases ha : read a <;> cases hb : read b <;> try rfl
    case some.some x y =>
      have hxy := hc a (by simp) b (by simp) x y ha hb s
      exact congrArg (rest.foldlM _) hxy.symm
  case trans l₁ l₂ l₃ h₁₂ h₂₃ ih₁ ih₂ =>
    refine (ih₁ fun a ha b hb => ?_).trans (ih₂ hc)
    exact hc a (h₂₃.mem_iff.mp ha) b (h₂₃.mem_iff.mp hb)

-- If the order does not matter, every item might as well be the last.
theorem exists_of_applyAll_perm {item : γ} {s' : β} (hi : item ∈ items)
    (hp : ∀ items', items'.Perm items → applyAll read apply s items' = some s') :
    ∃ x t, read item = some x ∧ s' = apply t x := by
  obtain ⟨before, after, rfl⟩ := List.append_of_mem hi
  have hl : (before ++ after ++ [item]).Perm (before ++ item :: after) :=
    (List.perm_append_singleton ..).trans List.perm_middle.symm
  exact applyAll_append_singleton (hp _ hl)

end Settings

namespace Expr

open Literal Settings

variable {α : Type} {tag : Text}

-- What a field sets.
inductive FrameSetting (α : Type)
  | rotation (m : Mat3 α)
  | translation (v : Vec3 α)

namespace FrameSetting

variable {x y : FrameSetting α} {field : Text × Expr α} {f f' : Frame α}

def key : FrameSetting α → Text
  | rotation _    => Text.ofString "rotation"
  | translation _ => Text.ofString "translation"

def apply (f : Frame α) : FrameSetting α → Frame α
  | rotation m    => { f with rotation := m }
  | translation v => { f with translation := v }

theorem eq_of_apply_eq (hk : x.key = y.key) (h : apply f x = apply f' y) : x = y := by
  have hne : Text.ofString "rotation" ≠ Text.ofString "translation" := by decide
  cases x <;> cases y
  case rotation.rotation       => exact congrArg (rotation ·.rotation) h
  case translation.translation => exact congrArg (translation ·.translation) h
  case rotation.translation    => exact absurd hk hne
  case translation.rotation    => exact absurd hk.symm hne

theorem apply_comm (h : x.key = y.key → x = y) : apply (apply f x) y = apply (apply f y) x := by
  cases x <;> cases y
  case rotation.translation | translation.rotation => rfl
  all_goals rw [h rfl]

variable [Scalar α]

def read (field : Text × Expr α) : Option (FrameSetting α) :=
  if Text.toLower field.1 = Text.ofString "rotation" then
    field.2.toRotation.toOption.map rotation
  else if Text.toLower field.1 = Text.ofString "translation" then
    field.2.toVector.toOption.map translation
  else
    none

theorem toOption_setFrameField (f : Frame α) (field : Text × Expr α) :
    (setFrameField tag f field).toOption = (read field).map (apply f) := by
  rw [setFrameField, read]
  split
  case isTrue => cases field.2.toRotation <;> rfl
  case isFalse =>
    split
    case isTrue  => cases field.2.toVector <;> rfl
    case isFalse => rfl

theorem key_eq_of_read (h : read field = some x) : x.key = Text.toLower field.1 := by
  rw [read] at h
  split at h
  case isTrue hk =>
    obtain ⟨_, _, rfl⟩ := Option.map_eq_some_iff.mp h
    exact hk.symm
  case isFalse =>
    split at h
    case isTrue hk =>
      obtain ⟨_, _, rfl⟩ := Option.map_eq_some_iff.mp h
      exact hk.symm
    case isFalse => cases h

end FrameSetting

variable [Scalar α] {fields fields' : List (Text × Expr α)}

theorem toOption_frameOfFields : (frameOfFields tag fields).toOption =
    applyAll FrameSetting.read FrameSetting.apply .identity fields :=
  toOption_foldlM FrameSetting.toOption_setFrameField .identity fields

-- The fields of a frame can be put in any order if there is no frame in them anyway, or if fields
-- whose keys differ in case alone say the same.
theorem frameOfFields_perm_iff :
    (∀ fields', fields'.Perm fields →
      (frameOfFields tag fields').toOption = (frameOfFields tag fields).toOption) ↔
    (frameOfFields tag fields).toOption = none ∨
      ∀ a ∈ fields, ∀ b ∈ fields, Text.toLower a.1 = Text.toLower b.1 →
        ∀ f, (setFrameField tag f a).toOption = (setFrameField tag f b).toOption := by
  simp only [toOption_frameOfFields, FrameSetting.toOption_setFrameField]
  constructor
  case mp =>
    intro h
    rw [Classical.or_iff_not_imp_left]
    intro hn a ha b hb hab f
    obtain ⟨r, hr⟩ := Option.ne_none_iff_exists'.mp hn
    simp only [hr] at h
    obtain ⟨x, t, hx, hxr⟩ := exists_of_applyAll_perm ha h
    obtain ⟨y, u, hy, hyr⟩ := exists_of_applyAll_perm hb h
    have hk : x.key = y.key := by
      rw [FrameSetting.key_eq_of_read hx, hab, FrameSetting.key_eq_of_read hy]
    rw [hx, hy, FrameSetting.eq_of_apply_eq hk (hxr.symm.trans hyr)]
  case mpr =>
    rintro (hn | hs) fields' hp
    case inl =>
      rw [hn]
      simpa only [applyAll_eq_none_iff, hp.mem_iff] using hn
    case inr =>
      refine applyAll_perm hp fun a ha b hb x y hx hy f => FrameSetting.apply_comm fun hk => ?_
      have hab := hs a ha b hb ?_ f
      · rw [hx, hy] at hab
        exact FrameSetting.eq_of_apply_eq hk (Option.some.inj hab)
      · rw [← FrameSetting.key_eq_of_read hx, hk, FrameSetting.key_eq_of_read hy]

inductive SplineSetting (α : Type)
  | control (controls : List (Pose α))
  | time (times : List α)
  | extrapolationMode (mode : Extrapolation)
  | interpolationMode (mode : Interpolation)
  | finalInterval (interval : α)
  | cyclic (flag : Bool)

namespace SplineSetting

variable {x y : SplineSetting α} {field : Text × Expr α}

def key : SplineSetting α → SplineKey
  | control _           => .control
  | time _              => .time
  | extrapolationMode _ => .extrapolationMode
  | interpolationMode _ => .interpolationMode
  | finalInterval _     => .finalInterval
  | cyclic _            => .cyclic

def apply (s : SplineFields α) : SplineSetting α → SplineFields α
  | control controls       => { s with controls := controls }
  | time times             => { s with options.times := some times }
  | extrapolationMode mode => { s with options.extrapolation := some mode }
  | interpolationMode mode => { s with options.interpolation := some mode }
  | finalInterval interval => { s with options.finalInterval := some interval }
  | cyclic b               => { s with cyclic := some b }

omit [Scalar α] in
theorem apply_comm (h : x.key = y.key → x = y) (s : SplineFields α) :
    apply (apply s x) y = apply (apply s y) x := by
  cases x <;> cases y <;> first | rfl | rw [h rfl]

def read (tag : Text) (e : Expr α) : SplineKey → Option (SplineSetting α)
  | .control =>
    match e with
    | list items => (items.mapM (toControl tag)).toOption.map control
    | _ => none
  | .time =>
    match e with
    | list items => (expectNumbersFrom tag "time" 1 items).toOption.map time
    | _ => none
  | .extrapolationMode =>
    (e.toMode tag Extrapolation.all Extrapolation.name).toOption.map extrapolationMode
  | .interpolationMode =>
    (e.toMode tag Interpolation.all Interpolation.name).toOption.map interpolationMode
  | .finalInterval => (e.expectNumber tag "finalInterval").toOption.map finalInterval
  | .cyclic =>
    match e with
    | flag b => some (cyclic b)
    | _ => none

theorem toOption_setSplineKey (s : SplineFields α) (e : Expr α) (key : SplineKey) :
    (setSplineKey tag s e key).toOption = (read tag e key).map (apply s) := by
  cases key
  case control =>
    cases e
    case list items =>
      simp only [setSplineKey, read]
      cases items.mapM (toControl tag) <;> rfl
    all_goals rfl
  case time =>
    cases e
    case list items =>
      simp only [setSplineKey, read]
      cases expectNumbersFrom tag "time" 1 items <;> rfl
    all_goals rfl
  case extrapolationMode =>
    simp only [setSplineKey, read]
    cases e.toMode tag Extrapolation.all Extrapolation.name <;> rfl
  case interpolationMode =>
    simp only [setSplineKey, read]
    cases e.toMode tag Interpolation.all Interpolation.name <;> rfl
  case finalInterval =>
    simp only [setSplineKey, read]
    cases e.expectNumber tag "finalInterval" <;> rfl
  case cyclic =>
    cases e <;> rfl

theorem key_eq_of_read {e : Expr α} {key : SplineKey} (h : read tag e key = some x) :
    x.key = key := by
  cases key <;> simp only [read] at h
  case control | time =>
    split at h
    · obtain ⟨_, _, rfl⟩ := Option.map_eq_some_iff.mp h
      rfl
    · cases h
  case cyclic =>
    split at h <;> cases h
    rfl
  all_goals
    obtain ⟨_, _, rfl⟩ := Option.map_eq_some_iff.mp h
    rfl

def readField (tag : Text) (field : Text × Expr α) : Option (SplineSetting α) :=
  (splineKeys.get? field.1).bind (read tag field.2)

theorem toOption_setSplineField (s : SplineFields α) (field : Text × Expr α) :
    (setSplineField tag s field).toOption = (readField tag field).map (apply s) := by
  rw [setSplineField, readField]
  cases splineKeys.get? field.1
  case none     => rfl
  case some key => exact toOption_setSplineKey s field.2 key

end SplineSetting

def SplineKey.name : SplineKey → Text
  | control           => "control"
  | time              => "time"
  | extrapolationMode => "extrapolationMode"
  | interpolationMode => "interpolationMode"
  | finalInterval     => "finalInterval"
  | cyclic            => "cyclic"

theorem eq_name_of_get?_splineKeys {name : Text} {key : SplineKey}
    (h : splineKeys.get? name = some key) : name = key.name := by
  simp only [splineKeys, Table.get?_cons, Table.get?_nil] at h
  repeat' split at h
  all_goals cases h
  all_goals assumption

-- Keys of a spline are looked at as they are, and each of them sets a part of its own.
theorem splineOfFields_perm (hn : (fields.map (·.1)).Nodup) (hp : fields'.Perm fields) :
    (splineOfFields tag fields').toOption = (splineOfFields tag fields).toOption := by
  have hf (fields : List (Text × Expr α)) : (fields.foldlM (setSplineField tag) {}).toOption =
      applyAll (SplineSetting.readField tag) SplineSetting.apply {} fields :=
    toOption_foldlM SplineSetting.toOption_setSplineField {} fields
  rw [splineOfFields, splineOfFields, toOption_bind, toOption_bind, hf, hf]
  refine congrArg (Option.bind · _) (applyAll_perm hp fun a ha b hb x y hx hy => ?_)
  refine SplineSetting.apply_comm fun hxy => ?_
  obtain ⟨k, hk, hx'⟩ := Option.bind_eq_some_iff.mp hx
  obtain ⟨l, hl, hy'⟩ := Option.bind_eq_some_iff.mp hy
  have hkl : k = l := by
    rw [← SplineSetting.key_eq_of_read hx', hxy, SplineSetting.key_eq_of_read hy']
  have hab : a.1 = b.1 := by
    rw [eq_name_of_get?_splineKeys hk, hkl, ← eq_name_of_get?_splineKeys hl]
  have hab : a = b := List.inj_on_of_nodup_map hn ha hb hab
  exact Option.some.inj (hx.symm.trans (hab ▸ hy))

-- What a literal stands for depends on the order of its fields only where it is a frame with two
-- fields whose keys differ in case alone and which do not say the same.
theorem literal_perm (tag : Text) (fields : List (Text × Expr α)) :
    ((∀ fields', fields'.Perm fields →
        (toFrame (.table (some tag) fields')).toOption =
          (toFrame (.table (some tag) fields)).toOption) ↔
      (toFrame (.table (some tag) fields)).toOption = none ∨
        ∀ a ∈ fields, ∀ b ∈ fields, Text.toLower a.1 = Text.toLower b.1 →
          ∀ f, (setFrameField tag f a).toOption = (setFrameField tag f b).toOption) ∧
    (isSplineTag tag → (fields.map (·.1)).Nodup → ∀ fields', fields'.Perm fields →
      (toSpline (.table (some tag) fields')).toOption =
        (toSpline (.table (some tag) fields)).toOption) := by
  constructor
  case left =>
    simp only [toFrame]
    by_cases ht : isFrameTag tag
    · simpa only [ht, if_true] using frameOfFields_perm_iff
    · simp [ht, Except.toOption]
  case right =>
    intro ht hn fields' hp
    simpa only [toSpline, ht, if_true] using splineOfFields_perm hn hp

def vector (x : Float) : Expr Float :=
  .tuple "Vector3" [.number x, .number 0, .number 0]

def placed : List (Text × Expr Float) :=
  [("rotation", .tuple "Matrix3::identity" []), ("Translation", vector 1)]

def timed : List (Text × Expr Float) :=
  [("control", .list [vector 1]), ("time", .list [.number 0])]

theorem literal_perm_reverse :
    (toFrame (.table (some "CFrame") placed.reverse)).toOption =
      (toFrame (.table (some "CFrame") placed)).toOption ∧
    isSplineTag "PFrameSpline" ∧ (timed.map (·.1)).Nodup ∧
    (toSpline (.table (some "PFrameSpline") timed.reverse)).toOption =
      (toSpline (.table (some "PFrameSpline") timed)).toOption := by
  have hn : (placed.map fun field => Text.toLower field.1).Nodup := by decide
  have ht : isSplineTag "PFrameSpline" := by decide
  have hn' : (timed.map (·.1)).Nodup := by decide
  refine ⟨(literal_perm _ _).left.mpr (.inr ?_) _ (List.reverse_perm _), ht, hn',
    (literal_perm _ _).right ht hn' _ (List.reverse_perm _)⟩
  intro a ha b hb hab f
  rw [List.inj_on_of_nodup_map hn ha hb hab]

-- The same keys, but for the case of one unit.
theorem toFrame_not_perm : ¬∀ (tag : Text) (fields fields' : List (Text × Expr Float)),
    (fields.map (·.1)).Nodup → fields'.Perm fields →
    (toFrame (.table (some tag) fields')).toOption =
      (toFrame (.table (some tag) fields)).toOption := by
  intro h
  have h := h "CFrame" [("translation", vector 1), ("Translation", vector 2)]
    [("Translation", vector 2), ("translation", vector 1)] (by decide) (.swap ..)
  have h := congrArg (Option.map (·.translation.x == 1)) h
  exact absurd h (by decide +kernel)

end Expr
end SceneMotion
