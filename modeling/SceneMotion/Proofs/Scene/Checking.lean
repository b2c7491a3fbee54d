import SceneMotion.Scene.Description

namespace SceneMotion

namespace Checked

variable {α β γ δ : Type} {a : Checked β} {x : β}

theorem toExcept_eq_ok_iff : a.toExcept = .ok x ↔ a = ok x := by
  obtain ⟨_ | _, _ | _⟩ := a <;> simp [toExcept, ok]

theorem map₂_eq_ok_iff {f : β → γ → δ} {b : Checked γ} {z : δ} :
    a.map₂ f b = ok z ↔ ∃ x y, a = ok x ∧ b = ok y ∧ f x y = z := by
  obtain ⟨_ | _, _⟩ := a <;> obtain ⟨_ | _, _⟩ := b <;> simp [map₂, ok]
  grind

theorem knowing_eq_ok_iff {known : List Text} {path : List PathPart} {fields : List (Text × α)} :
    a.knowing known path fields = ok x ↔ a = ok x ∧ ∀ key ∈ fields.map (·.1), key ∈ known := by
  have hk : (fields.map (·.1)).filter (· ∉ known) = [] ↔ ∀ key ∈ fields.map (·.1), key ∈ known := by
    simp [List.filter_eq_nil_iff]
  rw [knowing, ← hk]
  split
  case h_1 h   => exact ⟨fun ha => ⟨ha, h⟩, And.left⟩
  case h_2 _ h => exact ⟨fun ha => by simp [ok] at ha, fun ha => absurd ha.right h⟩

end Checked

variable {α : Type}

namespace Value

variable {path : List PathPart} {fields fields' entities entities' : List (Text × Value α)}
variable {name : Text}

theorem lookup_isSome_iff {β : Type} {table : List (Text × β)} :
    (table.lookup name).isSome ↔ name ∈ table.map (·.1) := by
  rw [Option.isSome_iff_ne_none, ne_eq, List.lookup_eq_none_iff]
  simp

-- The same fields, but for the entities that are listed.
structure Relists (fields fields' entities entities' : List (Text × Value α)) : Prop where
  others : ∀ key ≠ Text.ofString "entities", fields'.lookup key = fields.lookup key
  before : fields.lookup (Text.ofString "entities") = some (.object entities)
  after  : fields'.lookup (Text.ofString "entities") = some (.object entities')

namespace Relists

theorem mem_keys (h : Relists fields fields' entities entities') :
    name ∈ fields'.map (·.1) ↔ name ∈ fields.map (·.1) := by
  by_cases hn : name = Text.ofString "entities"
  case pos => rw [← lookup_isSome_iff, ← lookup_isSome_iff, hn, h.before, h.after]; rfl
  case neg => rw [← lookup_isSome_iff, ← lookup_isSome_iff, h.others name hn]

theorem checkOptional {β : Type} {check : List PathPart → Value α → Checked β}
    (h : Relists fields fields' entities entities') (hn : name ≠ Text.ofString "entities") :
    checkOptional check path fields' name = checkOptional check path fields name := by
  rw [Value.checkOptional, h.others name hn, Value.checkOptional]

end Relists

variable [Scalar α] {d : Description α}

-- The other entities are all that there is to be checked.
theorem Relists.checkDescription (h : Relists fields fields' entities entities')
    (hv : (object fields).checkDescription.toExcept = .ok d) :
    checkEntitiesFrom [.key (Text.ofString "entities")] entities = .ok d.entities ∧
    ∀ es, checkEntitiesFrom [.key (Text.ofString "entities")] entities' = .ok es →
      (object fields').checkDescription.toExcept = .ok { d with entities := es } := by
  simp only [Value.checkDescription, checkEntities, Checked.toExcept_eq_ok_iff,
    Checked.knowing_eq_ok_iff, Checked.map₂_eq_ok_iff, h.before, h.after] at hv ⊢
  obtain ⟨⟨_, _, ⟨_, editing, ⟨name, time, hname, htime, rfl⟩, hediting, rfl⟩, hes, rfl⟩, hk⟩ := hv
  refine ⟨hes, fun es' hes' =>
    ⟨⟨_, es', ⟨_, editing, ⟨name, time, ?_, ?_, rfl⟩, ?_, rfl⟩, hes', rfl⟩, ?_⟩⟩
  · rwa [h.checkOptional (by decide)]
  · rwa [h.checkOptional (by decide)]
  · rwa [h.checkOptional (by decide)]
  · exact fun key hkey => hk key (h.mem_keys.mp hkey)

-- The same fields, but for the order in which the entities are listed.
structure Reorders (fields fields' : List (Text × Value α)) : Prop where
  others   : ∀ key ≠ Text.ofString "entities", fields'.lookup key = fields.lookup key
  entities : ∃ entities entities' : List (Text × Value α), entities'.Perm entities ∧
    fields.lookup (Text.ofString "entities") = some (.object entities) ∧
    fields'.lookup (Text.ofString "entities") = some (.object entities')

theorem checkEntitiesFrom_perm (hp : entities'.Perm entities)
    {es : List (Text × EntityDescription α)} (h : checkEntitiesFrom path entities = .ok es) :
    ∃ es', checkEntitiesFrom path entities' = .ok es' ∧ es'.Perm es := by
  induction hp generalizing es
  case nil => exact ⟨es, h, .refl _⟩
  case cons hi =>
    simp only [checkEntitiesFrom, Checked.map₂_eq_ok_iff] at h ⊢
    obtain ⟨e, es, he, hes, rfl⟩ := h
    have ⟨es', hes', hp⟩ := hi hes
    refine ⟨_, ⟨e, es', he, hes', rfl⟩, ?_⟩
    split
    case isTrue  => exact hp
    case isFalse => exact hp.cons _
  case swap =>
    simp only [checkEntitiesFrom, Checked.map₂_eq_ok_iff] at h ⊢
    obtain ⟨e, _, he, ⟨e', es, he', hes, rfl⟩, rfl⟩ := h
    refine ⟨_, ⟨e', _, he', ⟨e, es, he, hes, rfl⟩, rfl⟩, ?_⟩
    split <;> split
    case isFalse.isFalse => exact .swap ..
    all_goals exact .refl _
  case trans hi hi' =>
    have ⟨_, h, hp⟩ := hi' h
    have ⟨es', h, hp'⟩ := hi h
    exact ⟨es', h, hp'.trans hp⟩

theorem Reorders.checkDescription (h : Reorders fields fields')
    (hv : (object fields).checkDescription.toExcept = .ok d) : ∃ entities,
    (object fields').checkDescription.toExcept = .ok { d with entities } ∧
      entities.Perm d.entities := by
  have ⟨_, _, hp, he, he'⟩ := h.entities
  have ⟨hes, hd⟩ := Relists.checkDescription ⟨h.others, he, he'⟩ hv
  have ⟨es', hes', hp⟩ := checkEntitiesFrom_perm hp hes
  exact ⟨es', hd es' hes', hp⟩

-- An entity goes by the key that it is listed under, unless that is the key which is left out.
theorem keys_checkEntitiesFrom {es : List (Text × EntityDescription α)}
    (h : checkEntitiesFrom path entities = .ok es) :
    es.map (·.1) = (entities.map (·.1)).filter (· ≠ omittedKey) := by
  induction entities generalizing es
  case nil =>
    cases h
    rfl
  case cons entry rest hi =>
    simp only [checkEntitiesFrom, Checked.map₂_eq_ok_iff] at h
    obtain ⟨_, es, _, hes, rfl⟩ := h
    rw [List.map_cons, List.filter_cons, ← hi hes]
    split
    case isTrue hk  => simp [hk]
    case isFalse hk => simp [hk]

-- Entities may be left out without looking at the others again.
theorem checkEntitiesFrom_filter {es : List (Text × EntityDescription α)} (keep : Text → Bool)
    (h : checkEntitiesFrom path entities = .ok es) :
    checkEntitiesFrom path (entities.filter fun entry => keep entry.1) =
      .ok (es.filter fun entry => keep entry.1) := by
  induction entities generalizing es
  case nil =>
    cases h
    rfl
  case cons entry rest hi =>
    simp only [checkEntitiesFrom, Checked.map₂_eq_ok_iff] at h
    obtain ⟨e, es, he, hes, rfl⟩ := h
    have hes := hi hes
    rw [List.filter_cons]
    split
    case isTrue hk =>
      simp only [checkEntitiesFrom, Checked.map₂_eq_ok_iff]
      refine ⟨e, _, he, hes, ?_⟩
      split
      case isTrue  => rfl
      case isFalse => rw [List.filter_cons, if_pos hk]
    case isFalse hk =>
      rw [hes]
      split
      case isTrue  => rfl
      case isFalse => rw [List.filter_cons, if_neg hk]

-- The same data without some of its fields.
def withoutFields (names : List Text) : Value α → Value α
  | object fields => object (fields.filter (·.1 ∉ names))
  | v             => v

-- The same data without some of the entities that it describes.
def withoutEntities (names : List Text) : Value α → Value α
  | object fields => object <| fields.map fun (key, v) =>
    (key, if key = Text.ofString "entities" then v.withoutFields names else v)
  | v             => v

theorem lookup_map {β : Type} {f : Text → β → β} {table : List (Text × β)} :
    (table.map fun (key, b) => (key, f key b)).lookup name = (table.lookup name).map (f name) := by
  induction table
  case nil => rfl
  case cons entry rest hi =>
    obtain ⟨key, b⟩ := entry
    rw [List.map_cons, List.lookup_cons, List.lookup_cons, hi]
    split
    case h_1 hn => rw [eq_of_beq hn, Option.map_some]
    case h_2    => rfl

theorem exists_fields_of_checkDescription {v : Value α} (hv : v.checkDescription.toExcept = .ok d) :
    ∃ fields entities, v = .object fields ∧
      fields.lookup (Text.ofString "entities") = some (.object entities) := by
  cases v
  case object fields =>
    simp only [checkDescription, Checked.toExcept_eq_ok_iff, Checked.knowing_eq_ok_iff,
      Checked.map₂_eq_ok_iff] at hv
    obtain ⟨⟨_, _, _, hes, _⟩, _⟩ := hv
    rw [checkEntities] at hes
    split at hes
    case h_1           => cases hes
    case h_2 entities h => exact ⟨fields, entities, rfl, h⟩
    case h_3           => cases hes
  all_goals cases hv

theorem checkDescription_withoutEntities {v : Value α} (names : List Text)
    (hv : v.checkDescription.toExcept = .ok d) :
    (v.withoutEntities names).checkDescription.toExcept =
      .ok { d with entities := d.entities.filter (·.1 ∉ names) } := by
  obtain ⟨fields, entities, rfl, he⟩ := exists_fields_of_checkDescription hv
  let f (key : Text) (v : Value α) : Value α :=
    if key = Text.ofString "entities" then v.withoutFields names else v
  have hl (key : Text) : (fields.map fun (key, v) => (key, f key v)).lookup key =
      (fields.lookup key).map (f key) := lookup_map
  have hr : Relists fields (fields.map fun (key, v) => (key, f key v)) entities
      (entities.filter (·.1 ∉ names)) := by
    refine ⟨fun key hk => ?_, he, ?_⟩
    · rw [hl, show f key = id from funext fun v => if_neg hk, Option.map_id, id]
    · rw [hl, he, Option.map_some, show f _ _ = _ from if_pos rfl, withoutFields]
  have ⟨hes, hd⟩ := hr.checkDescription hv
  exact hd _ (checkEntitiesFrom_filter (fun name => name ∉ names) hes)

end Value
end SceneMotion
