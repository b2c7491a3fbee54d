import SceneMotion.Proofs.Double
import SceneMotion.Proofs.Scene.Tidy
import SceneMotion.Proofs.Scene.UpToDate

namespace SceneMotion

variable {α : Type} [Scalar α]

namespace Entity

-- Whoever is moved by a jump to where it is already has not moved at all.
theorem simulate_jump_previousFrame {e : Entity α} {frameOf : Text → Option (Frame α)} {time : α}
    {clock : Clock α} (hm : e.movedSinceStep = false) (hp : e.placeAt frameOf time = e.frame) :
    (e.simulate frameOf time .jump clock).1.previousFrame = e.frame := by
  have ⟨lastChangeTime, hs⟩ := e.stamp_eq clock
  have hc : Entity.carry { e with lastChangeTime } .jump =
      { e with lastChangeTime, previousFrame := e.frame } := by
    simp [carry, Delta.elapses, hm]
  simp only [simulate, hs, hc, follow]
  split
  case h_1          => rfl
  case h_2 track ht =>
    have hp : track.frameAt frameOf time = e.frame := by
      simpa [placeAt, Member.placeAt, Member.track, ht] using hp
    split
    case isTrue  => exact hp
    case isFalse => rfl

end Entity

namespace Member

-- The member has not been moved from outside since the last step.
def Unmoved : Member α → Prop
  | entity e   => e.movedSinceStep = false
  | observer _ => True

-- The member has no motion.
def Still (m : Member α) : Prop :=
  m.previousFrame = m.frame

variable {m : Member α} {frameOf : Text → Option (Frame α)} {time : α} {delta : Delta α}
variable {clock : Clock α}

theorem simulate_unmoved : (m.simulate frameOf time delta clock).1.Unmoved := by
  cases m
  case observer => trivial
  case entity e =>
    have ⟨_, _, h⟩ := e.simulate_eq frameOf time delta clock
    simp only [simulate, Unmoved, h]

theorem simulate_still (hm : m.Unmoved) (hp : m.placeAt frameOf time = m.frame) :
    (m.simulate frameOf time .jump clock).1.Still := by
  cases m
  case observer => rfl
  case entity e =>
    rw [Still, simulate_frame, hp]
    exact Entity.simulate_jump_previousFrame hm hp

end Member

namespace Scene

variable {s s' : Scene α} {m : Member α} {name k : Text} {delta : Delta α} {order names : List Text}

-- Whoever is where its track is stays there.
theorem UpToDate.placeAt_eq (h : s.UpToDate order) (hk : k ∈ order) (hm : s.member? k = some m) :
    m.placeAt s.frameOf s.time = m.frame := by
  rw [Member.placeAt]
  split
  case h_2          => rfl
  case h_1 track ht =>
    have hf := h k hk track (by simp [trackOf, hm, ht])
    simpa [frameOf, hm] using hf.symm

theorem UpToDate.frameOf_updateMember_eq (hn : s.Named) (h : s.UpToDate order) (hk : name ∈ order)
    (delta : Delta α) : (s.updateMember name delta).frameOf = s.frameOf := by
  funext k
  cases hm : s.member? name
  case none   => rw [frameOf, member?_updateMember_of_none hm, frameOf]
  case some m =>
    rw [frameOf_updateMember hm (hn name m hm), h.placeAt_eq hk hm]
    split
    case isTrue hkn => simp [frameOf, hkn, hm]
    case isFalse    => rfl

-- A step that does not move the time on moves nobody who is up to date.
theorem UpToDate.frameOf_walk (hn : s.Named) (h : s.UpToDate order) (hs : names ⊆ order) :
    (s.walk delta names).frameOf = s.frameOf := by
  induction names generalizing s
  case nil => rfl
  case cons name rest hi =>
    have ⟨hname, hs⟩ := List.cons_subset.mp hs
    have hr := roles_updateMember hn name delta
    have hf := h.frameOf_updateMember_eq hn hname delta
    have hu : (s.updateMember name delta).UpToDate order := by
      intro a ha track hat
      rw [trackOf_eq_of_roles_eq hr] at hat
      rw [hf, updateMember_time]
      exact h a ha track hat
    exact (hi (hn.of_roles_eq hr) hu hs).trans hf

theorem ReadsInOrder.upToDate_advance (h : s.ReadsInOrder s.order) (delta : Delta α) :
    (s.advance delta).UpToDate s.order := by
  have h' : ReadsInOrder { s with time := s.time + delta.amount } s.order := h.of_roles_eq rfl
  have hr := (roles_advance h.named delta).trans (roles_walk h'.named delta s.order).symm
  have ⟨_, _, _, hw⟩ := walk_eq { s with time := s.time + delta.amount } delta s.order
  intro name hname track ht
  rw [trackOf_eq_of_roles_eq hr] at ht
  rw [advance_frameOf, advance_time, h'.upToDate delta name hname track ht, hw]

theorem advance_frameOf_of_trackOf_eq_none (hn : s.Named) (h : s.trackOf k = none) :
    (s.advance delta).frameOf k = s.frameOf k := by
  rw [advance_frameOf]
  exact frameOf_walk_of_trackOf_eq_none (s := { s with time := s.time + delta.amount }) hn h

theorem exec_step_of_sort (h : sort.exec s = (.ok (), s')) :
    (step delta).exec s = (.ok (), s'.advance delta) := by
  rw [step, SceneM.exec_bind_ok h, SceneM.exec_modify]

-- The order is brought up to date in the first step alone. A cycle is met there.
theorem exec_setTime (hg : s.graph.Built) (hnd : s.order.Nodup)
    (hv : s.needsSort = false → UpdateOrder.Valid s.graph s.order) (t : α) :
    (∃ order log, (setTime t).exec s = (.ok (),
        ({ s with time := t, order, needsSort := false, log }.advance .jump).advance .jump) ∧
      order.Perm s.order ∧ UpdateOrder.Valid s.graph order) ∨
    (∃ e s', (setTime t).exec s = (.error (.dependency e), s') ∧ e.code = .cycleDetected ∧
      s.graph.Cyclic s.order) := by
  rw [setTime, SceneM.exec_modify_bind]
  cases exec_sort (s := { s with time := t }) hg hnd hv
  case inr he =>
    have ⟨e, log, he, hc, _, hcy⟩ := he
    have he : (step .jump).exec { s with time := t } = _ := SceneM.exec_bind_error he
    exact .inr ⟨e, _, SceneM.exec_bind_error he, hc, hcy⟩
  case inl ho =>
    have ⟨order, log, ho, hpv⟩ := ho
    have ho' := exec_sort_of_not_needsSort
      (s := { s with time := t, order, needsSort := false, log }.advance .jump) advance_needsSort
    exact .inl ⟨order, log,
      (SceneM.exec_bind_ok (exec_step_of_sort ho)).trans (exec_step_of_sort ho'), hpv⟩

-- What a scene is like after a jump.
structure Arrives (s s' : Scene α) (t : α) : Prop where
  time    : s'.time = t
  roles   : s'.roles = s.roles
  graph   : s'.graph = s.graph
  follows : ∀ name track, s'.trackOf name = some track →
    s'.frameOf name = some (track.frameAt s'.frameOf s'.time)
  still   : ∀ name m, s'.member? name = some m → m.Still
  stays   : ∀ name, s.trackOf name = none → s'.frameOf name = s.frameOf name
  inOrder : s'.ReadsInOrder s'.order
  keys    : s'.members.keys ⊆ s'.order

-- Nobody who has moved on to the present time moves in another step at that time.
theorem UpToDate.advance_frameOf (hn : s.Named) (h : s.UpToDate s.order)
    (ht : s.time + delta.amount = s.time) : (s.advance delta).frameOf = s.frameOf := by
  rw [Scene.advance_frameOf, ht]
  exact h.frameOf_walk hn (List.Subset.refl _)

theorem Arrives.of_advance (h : s.ReadsInOrder s.order) (hk : s.members.keys ⊆ s.order)
    (ht : s.time + 0 + 0 = s.time + 0) :
    Arrives s ((s.advance .jump).advance .jump) (s.time + 0) := by
  have hr := roles_advance h.named .jump
  have hn := h.named.of_roles_eq hr
  have hr' := (roles_advance hn .jump).trans hr
  have hf : ((s.advance .jump).advance .jump).frameOf = (s.advance .jump).frameOf := by
    refine UpToDate.advance_frameOf hn ?_ (by simpa [Delta.amount] using ht)
    simpa using h.upToDate_advance .jump
  refine ⟨by simp [Delta.amount, ht], hr', by simp, ?follows, ?still, ?stays, ?inOrder, ?keys⟩
  case follows =>
    intro name track hnt
    rw [trackOf_eq_of_roles_eq hr'] at hnt
    have hu := h.upToDate_advance .jump name (hk (mem_keys_of_trackOf hnt)) track
      (by rwa [trackOf_eq_of_roles_eq hr])
    simpa [hf, Delta.amount, ht] using hu
  case still =>
    intro name m hm
    have hfn := congrFun hf name
    have hks : (s.advance .jump).members.keys ⊆ (s.advance .jump).order := by
      simpa [keys_eq_of_roles_eq hr] using hk
    have ⟨m₁, frameOf, clock, hm₁, he⟩ := exists_of_member?_advance hn (by simpa using h.nodup) hks hm
    have ⟨_, _, _, _, he₁⟩ := exists_of_member?_advance h.named h.nodup hk hm₁
    subst he
    refine Member.simulate_still (he₁ ▸ Member.simulate_unmoved) ?_
    simpa [Scene.frameOf, hm, hm₁, Member.simulate_frame] using hfn
  case stays =>
    intro name hnt
    rw [hf, advance_frameOf_of_trackOf_eq_none h.named hnt]
  case inOrder => simpa using h.of_roles_eq hr'
  case keys    => simpa [keys_eq_of_roles_eq hr'] using hk

theorem add_zero_add_zero [LawfulZero α] (t : α) : t + 0 + 0 = t + 0 := by
  cases LawfulZero.add_zero_cases t
  case inl h => rw [h, h]
  case inr h =>
    rw [h.right]
    exact (LawfulZero.add_zero_cases 0).elim id And.right

theorem Arrives.of_setTime [LawfulZero α] {t : α} (hg : s.graph.Built) (hn : s.Named)
    (hp : s.order.Perm s.members.keys) (hnd : s.order.Nodup)
    (hv : s.needsSort = false → UpdateOrder.Valid s.graph s.order) (hc : s.CoversReads)
    (he : (setTime t).exec s = (.ok (), s')) : Arrives s s' (t + 0) := by
  cases exec_setTime hg hnd hv t
  case inr hf =>
    have ⟨_, _, hf, _⟩ := hf
    cases hf.symm.trans he
  case inl ho =>
    have ⟨order, log, ho, hpo, hv⟩ := ho
    cases ho.symm.trans he
    have hm {a : Text} : a ∈ order ↔ a ∈ s.members.keys := (hpo.trans hp).mem_iff
    have hr : ReadsInOrder { s with time := t, order, needsSort := false, log } order :=
      ⟨hn, fun _ h => hm.mp h, hpo.nodup_iff.mpr hnd,
        fun a ha b hb hab => hv a ha b hb (hc a b hab (hm.mp hb))⟩
    have ha := Arrives.of_advance hr (fun _ h => hm.mpr h) (add_zero_add_zero t)
    exact { ha with }

-- Wherever a scene has been before, it is at the time afterwards, or at zero if the time is a zero.
-- Nobody has any motion, and whoever follows a track is where it is. A scene that has been destroyed must
-- be to be sorted for that, or in order anyway.
theorem setTime_leaves_no_motion [LawfulZero α] {t : α}
    (hs : s.Reachable ∨
      s.Outlives ∧ (s.needsSort = false → UpdateOrder.Valid s.graph s.order))
    (hc : s.CoversReads) (he : (setTime t).exec s = (.ok (), s')) :
    (s'.time = t ∨ (t == 0) = true ∧ s'.time = 0) ∧
    (∀ name m, s'.member? name = some m → m.previousFrame = m.frame) ∧
    (∀ name track, s'.trackOf name = some track →
      s'.frameOf name = some (track.frameAt s'.frameOf s'.time)) ∧
    s'.trackOf = s.trackOf ∧ s'.members.keys = s.members.keys := by
  have ⟨h, hv⟩ := Tidy.of_reachable_or hs
  have ha := Arrives.of_setTime h.built h.named h.coherent.perm h.nodup hv hc he
  refine ⟨?_, ha.still, ha.follows, trackOf_eq_of_roles_eq ha.roles, keys_eq_of_roles_eq ha.roles⟩
  exact ha.time ▸ LawfulZero.add_zero_cases t

theorem chase_setTime : ∃ s', (setTime (3 : Float)).exec chase = (.ok (), s') := by
  have ⟨_, _, _, hs⟩ := chase_reachable
  have h : Coherent chase := hs ▸ (Coherent.create ..).after _
  cases exec_setTime h.built h.nodup h.valid 3
  case inl ho =>
    have ⟨_, _, ho, _⟩ := ho
    exact ⟨_, ho⟩
  case inr hf =>
    have ⟨_, _, _, _, hc⟩ := hf
    exact absurd hc chase_not_cyclic

theorem setTime_chase : ∃ s', (setTime (3 : Float)).exec chase = (.ok (), s') ∧ s'.time = 3 ∧
    (∀ name m, s'.member? name = some m → m.previousFrame = m.frame) ∧
    s'.frameOf camera = some ((Track.entity ship .identity).frameAt s'.frameOf 3) := by
  have ⟨s', h⟩ := chase_setTime
  have ⟨ht, hm, hf, hto, _⟩ := setTime_leaves_no_motion (.inl chase_reachable) chase_coversReads h
  have ht : s'.time = 3 := ht.resolve_right fun h => absurd h.left (by decide +kernel)
  have hc : s'.trackOf camera = some (.entity ship .identity) := by rw [hto, chase_trackOf]
  exact ⟨s', h, ht, hm, ht ▸ hf camera _ hc⟩

theorem coversReads_of_keys
    (h : ∀ a ∈ s.members.keys, ∀ b ∈ ((s.trackOf a).map (·.reads)).getD [], s.graph.hasOrder a b) :
    s.CoversReads := by
  intro a b ⟨track, ht, hb⟩ _
  exact h a (mem_keys_of_trackOf ht) b (by simpa [ht] using hb)

def base : Text := [66]

def fixed (name : Text) (x : Float) : Member Float :=
  .entity (Entity.create name { frame := some (.ofTranslation ⟨x, 0, 0⟩) } (fun _ => none) 0)

def following (name : Text) : Value Float :=
  Expr.tupleValue "entity" [.text name]

-- The camera follows the ship and the ship the base, but the scene has not heard of it any more, and
-- leaves them in the order in which they came.
def wreck : Scene Float :=
  ((create {} ⟨0, 0⟩ : Scene Float).after
    [.insert (fixed camera 0), .insert (fixed ship 0), .insert (fixed base 1)]).destroy.after
    [.setEntityTrack ship (following base), .setEntityTrack camera (following ship)]

theorem wreck_coversReads : wreck.CoversReads :=
  coversReads_of_keys (by decide +kernel)

-- Whether a member has motion, as far as its frames can be told apart.
def moves? (s : Scene Float) (name : Text) : Option Bool :=
  (s.member? name).map fun m => m.frame.same m.frame && !m.previousFrame.same m.frame

theorem wreck_moves : ((setTime (0 : Float)).exec wreck).1.isOk ∧
    ((setTime (0 : Float)).exec wreck).2.moves? camera = some true := by
  decide +kernel

theorem setTime_leaves_motion : ¬∀ (s s' : Scene Float) (t : Float), s.Reachable ∨ s.Outlives →
    s.CoversReads → (setTime t).exec s = (.ok (), s') →
    (s'.time = t ∨ (t == 0) = true ∧ s'.time = 0) ∧
    (∀ name m, s'.member? name = some m → m.previousFrame = m.frame) ∧
    (∀ name track, s'.trackOf name = some track →
      s'.frameOf name = some (track.frameAt s'.frameOf s'.time)) := by
  intro h
  have ⟨ho, hm⟩ := wreck_moves
  rcases he : (setTime (0 : Float)).exec wreck with ⟨_ | _, s'⟩ <;> rw [he] at ho hm
  case error => cases ho
  case ok    =>
    have ⟨m, hm, hmoves⟩ := Option.map_eq_some_iff.mp hm
    have ⟨_, hs, _⟩ := h wreck s' 0 (.inr ⟨_, _, _, _, rfl⟩) wreck_coversReads he
    simp [hs camera m hm] at hmoves

end Scene
end SceneMotion
