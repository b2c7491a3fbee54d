import SceneMotion.Proofs.Scene.Alike
import SceneMotion.Proofs.Scene.Coherent

namespace SceneMotion

variable {α : Type} [Scalar α]

namespace Scene

-- Sorts whether it is needed or not.
def sortEagerly : SceneM α Unit := do
  modify fun s => { s with needsSort := true }
  sort

def stepEagerly (delta : Delta α) : SceneM α Unit := do
  sortEagerly
  modify (·.advance delta)

def setTimeEagerly (t : α) : SceneM α Unit := do
  modify fun s => { s with time := t }
  stepEagerly .jump
  stepEagerly .jump

def loadDescriptionEagerly (d : Description α) : SceneM α LoadReport := do
  modify clear
  let report ← loadEntities ⟨d.name, [], []⟩ d.entities
  modify (·.setEditing (d.editing.getD false))
  setTimeEagerly (d.time.getD 0)
  return report

def loadEagerly (v : Value α) : SceneM α LoadReport := do
  match v.checkDescription.toExcept with
  | .error issues => throw (.description issues)
  | .ok d         => loadDescriptionEagerly d

end Scene

-- Steps, jumps and loading sort whether it is needed or not.
def Operation.performEagerly : Operation α → SceneM α PUnit
  | step delta => Scene.stepEagerly delta
  | setTime t  => Scene.setTimeEagerly t
  | load v     => do let _ ← Scene.loadEagerly v
  | operation  => operation.perform

namespace Scene

variable {s s' : Scene α}

-- What comes of operations one after the other, and the scene that each of them leaves behind.
def trace (perform : Operation α → SceneM α PUnit) (s : Scene α) :
    List (Operation α) → List (Except SceneError PUnit × Scene α)
  | []                => []
  | operation :: rest =>
    let outcome := (perform operation).exec s
    outcome :: outcome.2.trace perform rest

theorem told_warned : s.warned.told = s.told :=
  warned_of (P := (·.told = s.told)) rfl fun _ _ _ h => h

-- A scene whose order is valid is left as it is, whatever it takes its order for.
theorem exec_sort_of_valid (hl : s.live) (hn : s.order.Nodup)
    (hv : UpdateOrder.Valid s.graph s.order) :
    ∃ log, sort.exec s = (.ok (), { s with needsSort := false, log }) ∧
      told { s with log } = s.told := by
  cases hs : s.sorts
  case false => exact ⟨s.log, exec_sort_of_not_sorts hs, rfl⟩
  case true  =>
    have hw : s.warned.told = s.told := told_warned
    have ⟨log, hlog⟩ := s.warned_eq
    rw [hlog] at hw
    refine ⟨.sorted s.order :: log, ?_, hw⟩
    rw [exec_sort_of_sorts hs, Graph.sort_of_valid hn hv, hlog]
    exact congrArg (Except.ok (), ·) (tell_of_live hl)

-- The scenes are alike, and the first one is sorted if it takes itself to be.
def InStep (s s' : Scene α) : Prop :=
  s.Coherent ∧ s.Alike True s'

namespace InStep

open SceneM (Couples)

theorem sort : Couples Eq (InStep (α := α)) Scene.sort sortEagerly := by
  intro s s' ⟨hc, ha⟩
  rw [sortEagerly, SceneM.exec_modify_bind]
  cases hs : s.needsSort
  case true  =>
    have hn : { s' with needsSort := true } = s' := by rw [← ha.needsSort.trans hs]
    exact hn ▸ Alike.sort.keeping Coherent.sort s s' ⟨hc, ha⟩
  case false =>
    have hv : UpdateOrder.Valid s'.graph s'.order := ha.graph ▸ ha.order ▸ hc.valid hs
    have ⟨log, he, ht⟩ := exec_sort_of_valid (s := { s' with needsSort := true })
      (ha.live.trans hc.live) (ha.order ▸ hc.nodup) hv
    rw [exec_sort_of_not_needsSort hs, he]
    refine .ok rfl ⟨hc, { ha with needsSort := hs.symm, times := fun h => ?_ }⟩
    exact { ha.times h with told := ht.trans (ha.times h).told }

theorem advance (delta : Delta α) :
    Couples Eq InStep (modify (·.advance delta)) (modify (·.advance delta)) :=
  .modify fun _ _ h => ⟨h.left.advance delta, h.right.advance delta⟩

theorem step (delta : Delta α) : Couples Eq InStep (Scene.step delta) (stepEagerly delta) :=
  sort.bind_eq fun _ => advance delta

theorem setTime (t : α) : Couples Eq InStep (Scene.setTime t) (setTimeEagerly t) := by
  refine Couples.bind_eq (.modify fun _ _ h => ⟨?_, h.right.atTime t⟩) fun _ => ?_
  · exact h.left.congr rfl rfl rfl rfl rfl
  · exact (step _).bind_eq fun _ => step _

theorem load (v : Value α) : Couples Eq InStep (Scene.load v) (loadEagerly v) := by
  rw [Scene.load, loadEagerly]
  cases v.checkDescription.toExcept
  case error => exact .throw
  case ok d  =>
    refine Couples.bind_eq (.modify fun _ _ h => ⟨h.left.clear, h.right.clear⟩) fun _ => ?_
    have hp := preserves_loadEntities (Coherent.lasting (α := α)).loadEntity ⟨d.name, [], []⟩ d.entities
    refine ((Alike.loadEntities _ _).keeping hp).bind_eq fun report => ?_
    refine Couples.bind_eq (.modify fun _ _ h => ⟨?_, h.right.setEditing _⟩) fun _ => ?_
    · exact h.left.congr rfl rfl rfl rfl rfl
    · exact (setTime _).bind_eq fun _ => .pure rfl

theorem perform (operation : Operation α) :
    Couples Eq InStep operation.perform operation.performEagerly := by
  have keeping (h : Couples Eq (Alike True) operation.perform operation.perform) :
      Couples Eq InStep operation.perform operation.perform := h.keeping (Coherent.perform operation)
  cases operation
  case step delta     => exact step delta
  case setTime t      => exact setTime t
  case load v         => exact (load v).bind_eq fun _ => .pure rfl
  case insert m       => exact keeping (Alike.insert (.refl m))
  case remove name    => exact keeping (Alike.remove name)
  case clear          => exact keeping (.modify fun _ _ h => h.clear)
  case editGraph c    => exact keeping (Alike.editGraph c)
  case newEntity      => exact keeping ((Alike.newEntity _ _).bind fun _ _ _ => .pure rfl)
  case editEntity     => exact keeping (.modify fun _ _ h => h.editEntity _ _)
  case createTrack    => exact keeping ((Alike.createTrack _ _).bind_eq fun _ => .pure rfl)
  case setEntityTrack => exact keeping ((Alike.setEntityTrack _ _).bind_eq fun _ => .pure rfl)
  case sort           => exact keeping Alike.sort
  case setEditing     => exact keeping (.modify fun _ _ h => h.setEditing _)
  case collect        => exact keeping (.modify fun _ _ h => h.collect)
  case setClock       => exact keeping (.modify fun _ _ h => h.setClock _)

theorem trace (h : InStep s s') (operations : List (Operation α)) :
    List.Forall₂ (SceneM.Agree Eq InStep) (s.trace Operation.perform operations)
      (s'.trace Operation.performEagerly operations) := by
  induction operations generalizing s s'
  case nil => exact .nil
  case cons operation rest hi =>
    have ho := perform operation s s' h
    exact .cons ho (hi ho.right)

end InStep

-- What is refused, and why, is the same every time, and so is everything in the scenes but what sorting
-- has told.
theorem trace_performEagerly (o : Options α) (clock : Clock α) (operations : List (Operation α)) :
    List.Forall₂ (fun ⟨r, s⟩ ⟨r', s'⟩ => r' = r ∧ s' = { s with log := s'.log } ∧ s'.told = s.told)
      ((create o clock).trace Operation.perform operations)
      ((create o clock).trace Operation.performEagerly operations) := by
  have h : InStep (create o clock) (create o clock) := ⟨.create o clock, .refl _⟩
  refine (h.trace operations).imp fun outcome outcome' ho => ?_
  have ha := ho.right.right
  exact ⟨ho.result_eq, ha.eq, (ha.times trivial).told⟩

end Scene
end SceneMotion
