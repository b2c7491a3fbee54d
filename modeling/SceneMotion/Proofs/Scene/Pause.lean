import SceneMotion.Proofs.Scene.DeclarationOrder
import SceneMotion.Proofs.Scene.Refusal

namespace SceneMotion

variable {α : Type} [Scalar α]

namespace Entity

variable {e : Entity α} {frameOf : Text → Option (Frame α)} {time : α} {clock : Clock α}

-- The motion that an entity shows on its track is not too long for one.
def Settled (e : Entity α) : Prop :=
  ∀ track, e.track = some track →
    e.teleportDistance * e.teleportDistance < e.previousFrame.squaredDistance e.frame →
    e.previousFrame = e.frame

theorem settled_follow : (e.follow frameOf time).Settled := by
  rw [follow]
  split
  case h_1 hn =>
    intro track ht
    cases hn.symm.trans ht
  case h_2 =>
    dsimp only
    split
    case isTrue     => exact fun _ _ _ => rfl
    case isFalse hd => exact fun _ _ hd' => absurd hd' hd

theorem settled_simulate {delta : Delta α} : (e.simulate frameOf time delta clock).1.Settled :=
  settled_follow (e := (e.stamp clock).1.carry delta)

theorem Settled.follow_eq (h : e.Settled) (hp : e.placeAt frameOf time = e.frame) :
    e.follow frameOf time = e := by
  rw [follow]
  split
  case h_1 => rfl
  case h_2 track ht =>
    have hp : track.frameAt frameOf time = e.frame := by
      simpa [placeAt, Member.placeAt, Member.track, ht] using hp
    simp only [hp]
    split
    case isTrue hd =>
      exact congrArg (fun previousFrame => { e with previousFrame }) (h track ht hd).symm
    case isFalse => rfl

theorem carry_pause [DefinedZero α] : e.carry (.by 0) = e := by
  simp [carry, Delta.elapses, DefinedZero.zero_beq_zero]

theorem Settled.simulate_pause [DefinedZero α] (h : e.Settled)
    (hp : e.placeAt frameOf time = e.frame) :
    (e.simulate frameOf time (.by 0) clock).1.previousFrame = e.previousFrame := by
  have ⟨lastChangeTime, hs⟩ := e.stamp_eq clock
  have h' : Entity.Settled { e with lastChangeTime } := h
  simp only [simulate, hs, carry_pause, h'.follow_eq hp]

end Entity

namespace Member

variable {m : Member α} {frameOf : Text → Option (Frame α)} {time : α} {clock : Clock α}

def Settled : Member α → Prop
  | entity e   => e.Settled
  | observer _ => True

theorem settled_simulate {delta : Delta α} : (m.simulate frameOf time delta clock).1.Settled := by
  cases m
  case entity   => exact Entity.settled_simulate
  case observer => trivial

theorem Settled.simulate_pause [DefinedZero α] (h : m.Settled)
    (hp : m.placeAt frameOf time = m.frame) :
    (m.simulate frameOf time (.by 0) clock).1.previousFrame = m.previousFrame := by
  cases m
  case entity   => exact Entity.Settled.simulate_pause h hp
  case observer => rfl

end Member

namespace Scene

variable {s s' : Scene α}

-- The members are put in order if they are out of it, and then moved one after the other.
theorem Tidy.exists_of_exec_step {delta : Delta α} (h : s.Tidy) (hc : s.CoversReads)
    (hv : s.needsSort = false → UpdateOrder.Valid s.graph s.order)
    (he : (step delta).exec s = (.ok (), s')) : ∃ order log,
      s' = Scene.advance { s with order, needsSort := false, log } delta ∧
      ReadsInOrder { s with order, needsSort := false, log } order ∧ s.members.keys ⊆ order := by
  cases exec_sort h.built h.nodup hv
  case inr hr =>
    have ⟨_, _, hr, _⟩ := hr
    cases (exec_step_of_error hr _).symm.trans he
  case inl ho =>
    have ⟨order, log, ho, hp, hv⟩ := ho
    cases (exec_step_of_sort ho).symm.trans he
    exact ⟨order, log, rfl, (h.coherent.readsInOrder hc hp hv).of_roles_eq rfl,
      fun _ hk => (hp.trans h.coherent.perm).mem_iff.mpr hk⟩

-- Steps while the time stands still.
def pause : Nat → SceneM α Unit
  | 0     => pure ()
  | n + 1 => do
    step (.by 0)
    pause n

theorem exec_pause_succ {n : Nat} (h : (step (.by 0)).exec s = (.ok (), s')) :
    (pause (n + 1)).exec s = (pause n).exec s' :=
  SceneM.exec_bind_ok h

-- All members are in their places, with nothing left for a step of no time to do.
structure Rests (s : Scene α) : Prop where
  sorted   : s.needsSort = false
  inOrder  : s.ReadsInOrder s.order
  keys     : s.members.keys ⊆ s.order
  upToDate : s.UpToDate s.order
  settled  : ∀ name m, s.member? name = some m → m.Settled
  time     : s.time + 0 = s.time

-- Whatever has been done to the members before, one step puts them at rest.
theorem Rests.of_advance [LawfulZero α] (hs : s.needsSort = false) (h : s.ReadsInOrder s.order)
    (hk : s.members.keys ⊆ s.order) : (s.advance (.by 0)).Rests where
  sorted   := by simpa using hs
  inOrder  := by simpa using h.of_roles_eq (roles_advance h.named _)
  keys     := by simpa [keys_eq_of_roles_eq (roles_advance h.named _)] using hk
  upToDate := by simpa using h.upToDate_advance (.by 0)
  settled  := by
    intro name m hm
    have ⟨_, _, _, _, he⟩ := exists_of_member?_advance h.named h.nodup hk hm
    exact he ▸ Member.settled_simulate
  time     := by simpa [Delta.amount] using add_zero_add_zero s.time

-- A sort that is due, and no other, is done in the first step.
theorem Rests.of_step [LawfulZero α] (h : s.Tidy) (hc : s.CoversReads)
    (hv : s.needsSort = false → UpdateOrder.Valid s.graph s.order)
    (he : (step (.by 0)).exec s = (.ok (), s')) : s'.Rests := by
  obtain ⟨_, _, rfl, hr, hk⟩ := h.exists_of_exec_step hc hv he
  exact Rests.of_advance rfl hr hk

namespace Rests

theorem advance_frameOf (h : s.Rests) : (s.advance (.by 0)).frameOf = s.frameOf :=
  h.upToDate.advance_frameOf h.inOrder.named h.time

theorem advance_previousFrameOf [DefinedZero α] (h : s.Rests) :
    (s.advance (.by 0)).previousFrameOf = s.previousFrameOf := by
  have hk := keys_eq_of_roles_eq (roles_advance h.inOrder.named (.by 0))
  funext name
  cases hm : (s.advance (.by 0)).member? name
  case none =>
    have hn : s.member? name = none := by
      rw [member?, Table.get?_eq_none_iff] at hm ⊢
      rwa [hk] at hm
    rw [previousFrameOf, previousFrameOf, hm, hn]
  case some m =>
    obtain ⟨m₀, frameOf, clock, hm₀, rfl⟩ :=
      exists_of_member?_advance h.inOrder.named h.inOrder.nodup h.keys hm
    have hf := congrFun h.advance_frameOf name
    simp only [Scene.frameOf, hm, hm₀, Option.map_some, Option.some.injEq, Member.simulate_frame] at hf
    simp only [previousFrameOf, hm, hm₀, Option.map_some]
    rw [(h.settled name m₀ hm₀).simulate_pause hf]

theorem exec_step (h : s.Rests) : (step (.by 0)).exec s = (.ok (), s.advance (.by 0)) :=
  exec_step_of_sort (exec_sort_of_not_needsSort h.sorted)

theorem advance [LawfulZero α] (h : s.Rests) : (s.advance (.by 0)).Rests :=
  .of_advance h.sorted h.inOrder h.keys

-- The induction is on the number of steps, each of which leaves the scene at rest.
theorem exec_pause [LawfulZero α] [DefinedZero α] (h : s.Rests) (n : Nat) :
    ∃ s', (pause n).exec s = (.ok (), s') ∧ s'.time = s.time ∧ s'.order = s.order ∧
      s'.frameOf = s.frameOf ∧ s'.previousFrameOf = s.previousFrameOf := by
  induction n generalizing s
  case zero => exact ⟨s, rfl, rfl, rfl, rfl, rfl⟩
  case succ n ih =>
    have ⟨s', hs, ht, ho, hf, hp⟩ := ih h.advance
    refine ⟨s', (exec_pause_succ h.exec_step).trans hs, ?_, ?_, ?_, ?_⟩
    · rw [ht, advance_time, Delta.amount, h.time]
    · rw [ho, advance_order]
    · rw [hf, h.advance_frameOf]
    · rw [hp, h.advance_previousFrameOf]

end Rests

-- After one step of no time any number of them comes to nothing. Of a scene that has been destroyed
-- this is known if it is to be sorted, or is in order anyway.
theorem pause_after_step [LawfulZero α] [DefinedZero α] (n : Nat)
    (hs : s.Reachable ∨
      s.Outlives ∧ (s.needsSort = false → UpdateOrder.Valid s.graph s.order))
    (hc : s.CoversReads) (he : (step (.by 0)).exec s = (.ok (), s')) :
    ∃ s'', (pause n).exec s' = (.ok (), s'') ∧ s''.time = s'.time ∧ s''.order = s'.order ∧
      s''.frameOf = s'.frameOf ∧ s''.previousFrameOf = s'.previousFrameOf := by
  have ⟨h, hv⟩ := Tidy.of_reachable_or hs
  exact (Rests.of_step h hc hv he).exec_pause n

theorem pause_chase : ∃ s' s'', (step (.by 0)).exec chase = (.ok (), s') ∧
    (pause 3).exec s' = (.ok (), s'') ∧ s''.frameOf camera = s'.frameOf camera := by
  have ⟨_, h⟩ := chase_sort
  have he : (step (.by 0)).exec chase = (.ok (), _) := exec_step_of_sort h
  have ⟨s'', hs, _, _, hf, _⟩ := pause_after_step 3 (.inl chase_reachable) chase_coversReads he
  exact ⟨_, s'', he, hs, congrFun hf camera⟩

-- In the first step the camera finds the ship where it was, and in the second it does not.
theorem wreck_advance_advance :
    (((wreck.advance (.by 0)).advance (.by 0)).frameOf camera).map (·.translation.x == 0) ≠
      ((wreck.advance (.by 0)).frameOf camera).map (·.translation.x == 0) := by
  decide +kernel

theorem pause_after_step_moves : ¬∀ (s s' : Scene Float) (n : Nat), s.Reachable ∨ s.Outlives →
    s.CoversReads → (step (.by 0)).exec s = (.ok (), s') →
    ∃ s'', (pause n).exec s' = (.ok (), s'') ∧ s''.time = s'.time ∧ s''.order = s'.order ∧
      s''.frameOf = s'.frameOf ∧ s''.previousFrameOf = s'.previousFrameOf := by
  intro h
  have hw : wreck.needsSort = false := by decide +kernel
  have he : (step (.by 0)).exec wreck = (.ok (), wreck.advance (.by 0)) :=
    exec_step_of_sort (exec_sort_of_not_needsSort hw)
  have hn : (wreck.advance (.by 0)).needsSort = false := advance_needsSort.trans hw
  have he' : (step (.by 0)).exec _ = (.ok (), (wreck.advance (.by 0)).advance (.by 0)) :=
    exec_step_of_sort (exec_sort_of_not_needsSort hn)
  have ⟨s'', hp, _, _, hf, _⟩ := h wreck _ 1 (.inr ⟨_, _, _, _, rfl⟩) wreck_coversReads he
  rw [exec_pause_succ he', pause, SceneM.exec_pure] at hp
  rw [← (Prod.mk.inj hp).right] at hf
  exact wreck_advance_advance (congrArg _ (congrFun hf camera))

end Scene
end SceneMotion
