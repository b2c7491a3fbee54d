import SceneMotion.Proofs.Scene.Operation

namespace SceneMotion

namespace Scene

open SceneM (Preserves)

variable {α : Type} [Scalar α] {P : Scene α → Prop}

-- No single change takes the property away, whether it is refused or not.
structure Lasting (P : Scene α → Prop) : Prop where
  edits      : StableUnderEdits P
  sort       : Preserves P sort
  newEntity  : ∀ name o, Preserves P (newEntity name o)
  insert     : ∀ m, Preserves P (insert m)
  remove     : ∀ name, Preserves P (remove name)
  editEntity : ∀ s name edit, P s → P (s.editEntity name edit)
  clear      : ∀ s, P s → P s.clear
  advance    : ∀ s delta, P s → P (s.advance delta)
  time       : ∀ s t, P s → P { s with time := t }
  editing    : ∀ s editing, P s → P (s.setEditing editing)
  clock      : ∀ s clock, P s → P { s with clock }
  warn       : ∀ s w, P s → P (s.warn w)

-- No change takes the property away that is made on the way when an entity is loaded or put on another
-- track.
structure Steady (P : Scene α → Prop) : Prop where
  edits      : StableUnderEdits P
  newEntity  : ∀ name o, Preserves P (newEntity name o)
  insert     : ∀ m, Preserves P (insert m)
  editEntity : ∀ s name edit, P s → P (s.editEntity name edit)
  warn       : ∀ s w, P s → P (s.warn w)

namespace Steady

theorem and {Q : Scene α → Prop} (h : Steady P) (h' : Steady Q) : Steady fun s => P s ∧ Q s where
  edits      := fun s c g he hs => ⟨h.edits s c g he hs.left, h'.edits s c g he hs.right⟩
  newEntity  := fun name o s hs => ⟨h.newEntity name o s hs.left, h'.newEntity name o s hs.right⟩
  insert     := fun m s hs => ⟨h.insert m s hs.left, h'.insert m s hs.right⟩
  editEntity := fun s name edit hs =>
    ⟨h.editEntity s name edit hs.left, h'.editEntity s name edit hs.right⟩
  warn       := fun s w hs => ⟨h.warn s w hs.left, h'.warn s w hs.right⟩

-- Edits leave the members alone, so that the entity is still the same when it is put on its new track.
theorem setEntityTrack (h : Steady P) (name : Text) (source : Value α) :
    Preserves P (Scene.setEntityTrack name source) := by
  refine .get_bind fun s hs => ?_
  split
  case h_1 => exact hs
  case h_2 e he =>
    have hstable : StableUnderEdits fun s' : Scene α => P s' ∧ s'.entity? name = some e := by
      intro s' c g hg hs'
      have ⟨_, hw⟩ := s'.withGraph_eq c g
      exact ⟨h.edits s' c g hg hs'.left, hw ▸ hs'.right⟩
    have ht := hstable.createTrack name source
    refine ht.bind_of (fun _ => And.left) (fun track s₁ hs₁ => ?_) ⟨hs, he⟩
    refine Preserves.bind_of (.forM fun _ => hstable.dropOrder _ _) (fun _ => And.left)
      (fun _ s₂ hs₂ => ?_) hs₁
    have hm : s₂.setMember (.entity (e.setTrack (some track))) =
        s₂.editEntity name (.track (some track)) := by
      rw [Scene.editEntity, hs₂.right]
      rfl
    rw [SceneM.exec_modify_bind, hm]
    exact h.editEntity s₂ name _ hs₂.left

theorem describedEntity (h : Steady P) (name : Text) (d : EntityDescription α) :
    Preserves P (Scene.describedEntity name d) := by
  rw [Scene.describedEntity]
  split
  case h_1 => exact .pure
  case h_2 =>
    refine .bind ?_ fun result => ?_
    · cases d.track
      case none => exact .pure
      case some => exact .bind (h.edits.adopt _ _) fun _ => .pure
    · split
      case h_1 => exact .pure
      case h_2 => exact .get_bind fun s hs => Preserves.bind (h.newEntity _ _) (fun _ => .pure) s hs

theorem loadEntity (h : Steady P) (report : LoadReport) (name : Text) (d : EntityDescription α) :
    Preserves P (Scene.loadEntity report name d) := by
  refine .bind (h.describedEntity _ _) fun result => ?_
  split
  case h_1 => exact .bind (h.insert _) fun _ => .pure
  case h_2 => exact .bind (.modify fun s => h.warn s _) fun _ => .pure

theorem loadEntities (h : Steady P) (report : LoadReport) (entities : List (Text × EntityDescription α)) :
    Preserves P (Scene.loadEntities report entities) :=
  preserves_loadEntities h.loadEntity report entities

end Steady

namespace Lasting

theorem steady (h : Lasting P) : Steady P where
  edits      := h.edits
  newEntity  := h.newEntity
  insert     := h.insert
  editEntity := h.editEntity
  warn       := h.warn

theorem step (h : Lasting P) (delta : Delta α) : Preserves P (Scene.step delta) :=
  .bind h.sort fun _ => .modify fun s => h.advance s delta

theorem setTime (h : Lasting P) (t : α) : Preserves P (Scene.setTime t) :=
  .bind (.modify fun s => h.time s t) fun _ => .bind (h.step _) fun _ => h.step _

theorem setEntityTrack (h : Lasting P) (name : Text) (source : Value α) :
    Preserves P (Scene.setEntityTrack name source) :=
  h.steady.setEntityTrack name source

theorem loadEntity (h : Lasting P) (report : LoadReport) (name : Text) (d : EntityDescription α) :
    Preserves P (Scene.loadEntity report name d) :=
  h.steady.loadEntity report name d

theorem load (h : Lasting P) (v : Value α) : Preserves P (Scene.load v) := by
  rw [Scene.load]
  split
  case h_1 => exact .throw
  case h_2 =>
    refine .bind (.modify h.clear) fun _ => ?_
    refine .bind (h.steady.loadEntities _ _) fun _ => ?_
    refine .bind (.modify fun s => h.editing s _) fun _ => ?_
    exact .bind (h.setTime _) fun _ => .pure

-- To collect what has been told is no change to the scene, but it may matter to the property.
theorem perform (h : Lasting P) {operation : Operation α} (hc : operation ≠ .collect) :
    Preserves P operation.perform := by
  cases operation
  case insert m       => exact h.insert m
  case remove name    => exact h.remove name
  case clear          => exact .modify h.clear
  case editGraph c    => exact h.edits.editGraph c
  case newEntity      => exact .bind (h.newEntity _ _) fun _ => .pure
  case editEntity     => exact .modify fun s => h.editEntity s _ _
  case createTrack    => exact .bind (h.edits.createTrack _ _) fun _ => .pure
  case setEntityTrack => exact .bind (h.setEntityTrack _ _) fun _ => .pure
  case sort           => exact h.sort
  case step delta     => exact h.step delta
  case setTime t      => exact h.setTime t
  case setEditing     => exact .modify fun s => h.editing s _
  case load v         => exact .bind (h.load v) fun _ => .pure
  case collect        => contradiction
  case setClock       => exact .modify fun s => h.clock s _

end Lasting
end Scene
end SceneMotion
