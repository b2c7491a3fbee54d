import SceneMotion.Scene.Load

namespace SceneMotion

-- Whatever is refused is refused at once, and what has been done before stays done.
theorem run_bind {σ β γ : Type} {x : ExceptT SceneError (StateM σ) β}
    {f : β → ExceptT SceneError (StateM σ) γ} {s : σ} : (x >>= f).run.run s =
    match x.run.run s with
    | (.ok b, s')    => (f b).run.run s'
    | (.error e, s') => (.error e, s') := by
  simp only [ExceptT.run, StateT.run, bind, ExceptT.bind, ExceptT.mk, StateT.bind]
  rcases x s with ⟨_ | _, _⟩ <;> rfl

theorem run_discard {σ β : Type} {x : ExceptT SceneError (StateM σ) β} {s : σ} :
    (discard x).run.run s =
    match x.run.run s with
    | (.ok _, s')    => (.ok (), s')
    | (.error e, s') => (.error e, s') := by
  change (ExceptT.map (Function.const β ()) x).run.run s = _
  simp only [ExceptT.run, StateT.run, ExceptT.map, ExceptT.mk, bind, StateT.bind]
  rcases x s with ⟨_ | _, _⟩ <;> rfl

theorem run_tryCatch {σ β : Type} {x : ExceptT SceneError (StateM σ) β}
    {f : SceneError → ExceptT SceneError (StateM σ) β} {s : σ} : (tryCatch x f).run.run s =
    match x.run.run s with
    | (.ok b, s')    => (.ok b, s')
    | (.error e, s') => (f e).run.run s' := by
  simp only [ExceptT.run, StateT.run, tryCatch, tryCatchThe, MonadExceptOf.tryCatch, ExceptT.tryCatch, ExceptT.mk, bind, StateT.bind]
  rcases x s with ⟨_ | _, _⟩ <;> rfl

namespace SceneM

variable {α β γ : Type} [Scalar α]

-- What an operation comes to, and the scene that it leaves behind.
def exec (x : SceneM α β) (s : Scene α) : Except SceneError β × Scene α :=
  x.run.run s

variable {s s' : Scene α} {x : SceneM α β} {f : β → SceneM α γ}

@[simp]
theorem exec_pure {b : β} : (pure b : SceneM α β).exec s = (.ok b, s) :=
  rfl

@[simp]
theorem exec_throw {e : SceneError} : (throw e : SceneM α β).exec s = (.error e, s) :=
  rfl

@[simp]
theorem exec_get : (get : SceneM α (Scene α)).exec s = (.ok s, s) :=
  rfl

@[simp]
theorem exec_set : (set s' : SceneM α PUnit).exec s = (.ok ⟨⟩, s') :=
  rfl

@[simp]
theorem exec_modify {f : Scene α → Scene α} :
    (modify f : SceneM α PUnit).exec s = (.ok ⟨⟩, f s) :=
  rfl

theorem exec_bind : (x >>= f).exec s =
    match x.exec s with
    | (.ok b, s')    => (f b).exec s'
    | (.error e, s') => (.error e, s') := by
  rw [exec, run_bind, exec]
  rcases x.run.run s with ⟨_ | _, _⟩ <;> rfl

theorem exec_bind_ok {b : β} (h : x.exec s = (.ok b, s')) : (x >>= f).exec s = (f b).exec s' := by
  rw [exec_bind, h]

theorem exec_bind_error {e : SceneError} (h : x.exec s = (.error e, s')) :
    (x >>= f).exec s = (.error e, s') := by
  rw [exec_bind, h]

theorem exists_of_exec_bind {c : γ} (h : (x >>= f).exec s = (.ok c, s')) :
    ∃ b s₁, x.exec s = (.ok b, s₁) ∧ (f b).exec s₁ = (.ok c, s') := by
  rw [exec_bind] at h
  rcases hx : x.exec s with ⟨_ | b, s₁⟩ <;> rw [hx] at h
  case error => cases h
  case ok    => exact ⟨b, s₁, rfl, h⟩

@[simp]
theorem exec_get_bind {f : Scene α → SceneM α γ} : (get >>= f).exec s = (f s).exec s :=
  exec_bind_ok exec_get

@[simp]
theorem exec_modify_bind {g : Scene α → Scene α} {f : PUnit → SceneM α γ} :
    (modify g >>= f).exec s = (f ⟨⟩).exec (g s) :=
  exec_bind_ok exec_modify

@[simp]
theorem exec_set_bind {f : PUnit → SceneM α γ} : (set s' >>= f).exec s = (f ⟨⟩).exec s' :=
  exec_bind_ok exec_set

@[simp]
theorem exec_pure_bind {b : β} : (pure b >>= f).exec s = (f b).exec s :=
  exec_bind_ok exec_pure

theorem exec_bind_pure {b : γ} : ((x >>= fun _ => pure b).exec s).2 = (x.exec s).2 := by
  rw [exec_bind]
  rcases x.exec s with ⟨_ | _, _⟩ <;> rfl

-- Holds of what an operation leaves behind, even if it is refused, if it holds of what it begins with.
def Preserves (P : Scene α → Prop) (x : SceneM α β) : Prop :=
  ∀ s, P s → P (x.exec s).2

namespace Preserves

variable {P : Scene α → Prop}

protected theorem pure {b : β} : Preserves P (pure b : SceneM α β) :=
  fun _ h => h

protected theorem throw {e : SceneError} : Preserves P (throw e : SceneM α β) :=
  fun _ h => h

protected theorem modify {f : Scene α → Scene α} (h : ∀ s, P s → P (f s)) :
    Preserves P (modify f) :=
  h

-- More may be known on the way than what is left at the end.
theorem bind_of {Q : Scene α → Prop} (hx : Preserves Q x) (hq : ∀ s, Q s → P s)
    (hf : ∀ b s, Q s → P ((f b).exec s).2) (hs : Q s) : P ((x >>= f).exec s).2 := by
  have hx := hx s hs
  cases hr : x.exec s
  case mk result s' =>
    rw [hr] at hx
    cases result
    case error => exact exec_bind_error hr ▸ hq s' hx
    case ok b  => exact exec_bind_ok hr ▸ hf b s' hx

protected theorem bind (hx : Preserves P x) (hf : ∀ b, Preserves P (f b)) :
    Preserves P (x >>= f) :=
  fun _ hs => hx.bind_of (fun _ => id) hf hs

theorem get_bind {f : Scene α → SceneM α γ} (h : ∀ s, P s → P ((f s).exec s).2) :
    Preserves P (get >>= f) :=
  fun s hs => (exec_get_bind (s := s)).symm ▸ h s hs

protected theorem forM {names : List γ} {f : γ → SceneM α PUnit} (h : ∀ b, Preserves P (f b)) :
    Preserves P (names.forM f) := by
  induction names
  case nil  => exact .pure
  case cons hi => exact .bind (h _) fun _ => hi

end Preserves
end SceneM

namespace Scene

variable {α : Type} [Scalar α]

-- Telling changes nothing but what has been told.
theorem tell_eq (s : Scene α) (n : Notice α) : ∃ log, s.tell n = { s with log } := by
  rw [tell]
  split
  case isTrue  => exact ⟨n :: s.log, rfl⟩
  case isFalse => exact ⟨s.log, rfl⟩

theorem withGraph_eq (s : Scene α) (c : Change) (g : Graph) : ∃ log, s.withGraph c g =
    { s with graph := g, needsSort := s.needsSort || (s.live && c.unsettles), log } := by
  rw [withGraph]
  split
  case isTrue =>
    have ⟨log, h⟩ := s.tell_eq (.change c)
    exact ⟨log, by rw [h]⟩
  case isFalse => exact ⟨s.log, rfl⟩

theorem clear_eq (s : Scene α) : ∃ log, s.clear = { s with
    members := []
    order := []
    graph := .empty
    needsSort := false
    time := 0
    clock := s.clock.read
    lastStructuralChangeTime := s.clock.read.value
    lastChangeTime := s.clock.read.value
    log } := by
  have ⟨log, hw⟩ := s.withGraph_eq .reset .empty
  exact ⟨log, by rw [clear, hw]; rfl⟩

end Scene
end SceneMotion
