import SceneMotion.Proofs.Scene.Exec

namespace SceneMotion.SceneM

variable {α β β' γ γ' : Type} [Scalar α]

-- Both have gone through, or both have been refused for the same reason.
inductive Agree (Q : β → γ → Prop) (R : Scene α → Scene α → Prop) :
    Except SceneError β × Scene α → Except SceneError γ × Scene α → Prop
  | ok {b c s s'} (hq : Q b c) (hr : R s s') : Agree Q R (.ok b, s) (.ok c, s')
  | error {e s s'} (hr : R s s')             : Agree Q R (.error e, s) (.error e, s')

-- From scenes that have something in common the operations come to results and to scenes that do.
def Couples (Q : β → γ → Prop) (R : Scene α → Scene α → Prop) (x : SceneM α β) (y : SceneM α γ) :
    Prop :=
  ∀ s s', R s s' → Agree Q R (x.exec s) (y.exec s')

variable {Q : β → γ → Prop} {Q' : β' → γ' → Prop} {R : Scene α → Scene α → Prop}

namespace Agree

variable {r : Except SceneError β × Scene α} {r' : Except SceneError γ × Scene α}

theorem right (h : Agree Q R r r') : R r.2 r'.2 := by
  cases h <;> assumption

theorem result_eq {r' : Except SceneError β × Scene α} (h : Agree Eq R r r') : r'.1 = r.1 := by
  cases h
  case ok hq _ => rw [hq]
  case error   => rfl

theorem of_ok {b : β} {s : Scene α} (h : Agree Q R (.ok b, s) r') :
    ∃ c s', r' = (.ok c, s') ∧ Q b c ∧ R s s' := by
  cases h
  exact ⟨_, _, rfl, ‹_›, ‹_›⟩

theorem mono {R' : Scene α → Scene α → Prop} (h : Agree Q R r r') (hr : R' r.2 r'.2) :
    Agree Q R' r r' := by
  cases h
  case ok hq _ => exact .ok hq hr
  case error   => exact .error hr

end Agree

namespace Couples

variable {x : SceneM α β} {y : SceneM α γ} {f : β → SceneM α β'} {g : γ → SceneM α γ'}

protected theorem pure {b : β} {c : γ} (h : Q b c) : Couples Q R (pure b) (pure c) :=
  fun _ _ hr => .ok h hr

protected theorem throw {e : SceneError} : Couples Q R (throw e) (throw e) :=
  fun _ _ hr => .error hr

protected theorem modify {f g : Scene α → Scene α} (h : ∀ s s', R s s' → R (f s) (g s')) :
    Couples Eq R (modify f) (modify g) :=
  fun s s' hr => .ok rfl (h s s' hr)

protected theorem bind (hx : Couples Q R x y) (hf : ∀ b c, Q b c → Couples Q' R (f b) (g c)) :
    Couples Q' R (x >>= f) (y >>= g) := by
  intro s s' hr
  have hx := hx s s' hr
  rw [exec_bind, exec_bind]
  generalize x.exec s = r at hx
  generalize y.exec s' = r' at hx
  cases hx
  case ok hq hr => exact hf _ _ hq _ _ hr
  case error hr => exact .error hr

-- The same goes on after both.
theorem bind_eq {x y : SceneM α β} {f g : β → SceneM α β'} {Q' : β' → β' → Prop}
    (hx : Couples Eq R x y) (hf : ∀ b, Couples Q' R (f b) (g b)) :
    Couples Q' R (x >>= f) (y >>= g) :=
  hx.bind fun b _ h => h ▸ hf b

theorem get_bind {f : Scene α → SceneM α β} {g : Scene α → SceneM α γ}
    (h : ∀ s s', R s s' → Agree Q R ((f s).exec s) ((g s').exec s')) :
    Couples Q R (get >>= f) (get >>= g) := by
  intro s s' hr
  rw [exec_get_bind, exec_get_bind]
  exact h s s' hr

protected theorem forM {names : List β'} {f g : β' → SceneM α PUnit}
    (h : ∀ b, Couples Eq R (f b) (g b)) : Couples Eq R (names.forM f) (names.forM g) := by
  induction names
  case nil     => exact .pure rfl
  case cons hi => exact (h _).bind_eq fun _ => hi

-- What the first operation preserves on its own can be relied on all the way.
theorem keeping {P : Scene α → Prop} (h : Couples Q R x y) (hp : Preserves P x) :
    Couples Q (fun s s' => P s ∧ R s s') x y := by
  intro s s' ⟨hs, hr⟩
  have h := h s s' hr
  exact h.mono ⟨hp s hs, h.right⟩

end Couples
end SceneMotion.SceneM
