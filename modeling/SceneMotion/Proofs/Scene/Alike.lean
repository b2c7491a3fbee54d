import SceneMotion.Proofs.Scene.Coupling
import SceneMotion.Proofs.Scene.Members
import SceneMotion.Proofs.Scene.Operation
import SceneMotion.Proofs.Scene.Sort

namespace SceneMotion

variable {α : Type} [Scalar α] {timed : Prop} {clock clock' : Clock α} {delta : Delta α}

namespace Entity

-- The same but for the time of the latest change, unless times are compared.
def Alike (timed : Prop) (e e' : Entity α) : Prop :=
  ∃ lastChangeTime, e' = { e with lastChangeTime } ∧ (timed → lastChangeTime = e.lastChangeTime)

namespace Alike

variable {e e' : Entity α}

theorem refl (e : Entity α) : e.Alike timed e :=
  ⟨e.lastChangeTime, rfl, fun _ => rfl⟩

theorem isFixedWithTrack_eq (h : e.Alike timed e') : e'.isFixedWithTrack = e.isFixedWithTrack := by
  obtain ⟨_, rfl, _⟩ := h
  rfl

theorem stamp (h : e.Alike timed e') (hc : timed → clock' = clock) :
    (e.stamp clock).1.Alike timed (e'.stamp clock').1 ∧
      (timed → (e'.stamp clock').2 = (e.stamp clock).2) := by
  obtain ⟨t, rfl, ht⟩ := h
  simp only [Entity.stamp]
  split
  case isTrue  => exact ⟨⟨t, rfl, ht⟩, hc⟩
  case isFalse => exact ⟨⟨clock'.read.value, rfl, fun h => by rw [hc h]⟩, fun h => by rw [hc h]⟩

theorem carry (h : e.Alike timed e') (delta : Delta α) :
    (e.carry delta).Alike timed (e'.carry delta) := by
  obtain ⟨t, rfl, ht⟩ := h
  simp only [Entity.carry]
  split <;> exact ⟨t, rfl, ht⟩

theorem follow (h : e.Alike timed e') (frameOf : Text → Option (Frame α)) (time : α) :
    (e.follow frameOf time).Alike timed (e'.follow frameOf time) := by
  obtain ⟨t, rfl, ht⟩ := h
  simp only [Entity.follow]
  split
  case h_1 => exact ⟨t, rfl, ht⟩
  case h_2 => split <;> exact ⟨t, rfl, ht⟩

theorem setFrame (h : e.Alike timed e') (hc : timed → clock' = clock) (f : Frame α)
    (updatePrevious : Bool) :
    (e.setFrame f updatePrevious clock).1.Alike timed (e'.setFrame f updatePrevious clock').1 ∧
      (timed → (e'.setFrame f updatePrevious clock').2 = (e.setFrame f updatePrevious clock).2) := by
  obtain ⟨t, rfl, ht⟩ := h
  cases updatePrevious <;> simp only [Entity.setFrame, Bool.false_eq_true, if_false, if_true]
  all_goals
    split
    case isTrue  => exact ⟨⟨t, rfl, ht⟩, hc⟩
    case isFalse => exact ⟨⟨clock'.read.value, rfl, fun h => by rw [hc h]⟩, fun h => by rw [hc h]⟩

theorem apply (h : e.Alike timed e') (hc : timed → clock' = clock) (edit : EntityEdit α) :
    (edit.apply e clock).1.Alike timed (edit.apply e' clock').1 ∧
      (timed → (edit.apply e' clock').2 = (edit.apply e clock).2) := by
  cases edit
  case frame f updatePrevious => exact h.setFrame hc f updatePrevious
  all_goals
    obtain ⟨t, rfl, ht⟩ := h
    exact ⟨⟨t, rfl, ht⟩, hc⟩

theorem simulate (h : e.Alike timed e') (hc : timed → clock' = clock)
    (frameOf : Text → Option (Frame α)) (time : α) (delta : Delta α) :
    (e.simulate frameOf time delta clock).1.Alike timed (e'.simulate frameOf time delta clock').1 ∧
      (timed → (e'.simulate frameOf time delta clock').2 = (e.simulate frameOf time delta clock).2) := by
  have ⟨hs, hc⟩ := h.stamp hc
  have ⟨t, hf, ht⟩ := (hs.carry delta).follow frameOf time
  exact ⟨⟨t, by simp only [Entity.simulate, hf], ht⟩, hc⟩

end Alike
end Entity

namespace Member

inductive Alike (timed : Prop) : Member α → Member α → Prop
  | entity {e e'} : e.Alike timed e' → Alike timed (.entity e) (.entity e')
  | observer {o}  : Alike timed (.observer o) (.observer o)

namespace Alike

variable {m m' : Member α}

theorem refl (m : Member α) : m.Alike timed m := by
  cases m
  case entity e => exact .entity (.refl e)
  case observer => exact .observer

theorem name_eq (h : m.Alike timed m') : m'.name = m.name := by
  cases h
  case entity h =>
    obtain ⟨_, rfl, _⟩ := h
    rfl
  case observer => rfl

theorem frame_eq (h : m.Alike timed m') : m'.frame = m.frame := by
  cases h
  case entity h =>
    obtain ⟨_, rfl, _⟩ := h
    rfl
  case observer => rfl

theorem lastChangeTime_eq (h : m.Alike timed m') (ht : timed) :
    m'.lastChangeTime = m.lastChangeTime := by
  cases h
  case entity h =>
    obtain ⟨_, rfl, h⟩ := h
    exact h ht
  case observer => rfl

theorem eq (h : m.Alike True m') : m' = m := by
  cases h
  case entity h =>
    obtain ⟨_, rfl, h⟩ := h
    rw [h trivial]
  case observer => rfl

theorem simulate (h : m.Alike timed m') (hc : timed → clock' = clock)
    (frameOf : Text → Option (Frame α)) (time : α) (delta : Delta α) :
    (m.simulate frameOf time delta clock).1.Alike timed (m'.simulate frameOf time delta clock').1 ∧
      (timed → (m'.simulate frameOf time delta clock').2 = (m.simulate frameOf time delta clock).2) := by
  cases h
  case entity h =>
    have ⟨hs, hc⟩ := h.simulate hc frameOf time delta
    exact ⟨.entity hs, hc⟩
  case observer => exact ⟨.observer, hc⟩

end Alike
end Member

-- What sorting tells, by the way and when it is done.
def Notice.tellsOfSorting : Notice α → Bool
  | sorted _               => true
  | warning (.dangling ..) => true
  | _                      => false

namespace Scene

variable {s s' : Scene α}

-- What has been told and is nothing of sorting.
def told (s : Scene α) : List (Notice α) :=
  s.log.filter (!·.tellsOfSorting)

theorem tell_of_live {n : Notice α} (h : s.live) : s.tell n = { s with log := n :: s.log } :=
  if_pos h

theorem tell_of_not_live {n : Notice α} (h : ¬s.live) : s.tell n = s :=
  if_neg h

-- The clock is read at the end of a step only while the scene is edited.
def stampEditing (s : Scene α) : Scene α :=
  { s with
    clock := if s.editing then s.clock.read else s.clock
    lastEditingTime := if s.editing then s.clock.read.value else s.lastEditingTime }

theorem advance_eq_stampEditing (s : Scene α) (delta : Delta α) : s.advance delta =
    (walk delta { s with time := s.time + delta.amount } s.order).stampEditing.tell
      (.simulated (walk delta { s with time := s.time + delta.amount } s.order).time delta) := by
  rw [advance, ← walk]
  generalize walk delta { s with time := s.time + delta.amount } s.order = w
  dsimp only [stampEditing]
  split <;> rfl

structure Synchronous (s s' : Scene α) : Prop where
  editing                  : s'.editing = s.editing
  clock                    : s'.clock = s.clock
  lastStructuralChangeTime : s'.lastStructuralChangeTime = s.lastStructuralChangeTime
  lastChangeTime           : s'.lastChangeTime = s.lastChangeTime
  lastEditingTime          : s'.lastEditingTime = s.lastEditingTime
  told                     : s'.told = s.told

structure Alike (timed : Prop) (s s' : Scene α) : Prop where
  members          : Table.Rel (Member.Alike timed) s.members s'.members
  order            : s'.order = s.order
  graph            : s'.graph = s.graph
  needsSort        : s'.needsSort = s.needsSort
  time             : s'.time = s.time
  teleportDistance : s'.teleportDistance = s.teleportDistance
  warnsOnDangling  : s'.warnsOnDangling = s.warnsOnDangling
  live             : s'.live = s.live
  times            : timed → Synchronous s s'

namespace Alike

variable {m m' : Member α} {name : Text}

theorem refl (s : Scene α) : s.Alike timed s where
  members          := List.forall₂_same.mpr fun _ _ => ⟨rfl, .refl _⟩
  order            := rfl
  graph            := rfl
  needsSort        := rfl
  time             := rfl
  teleportDistance := rfl
  warnsOnDangling  := rfl
  live             := rfl
  times            := fun _ => ⟨rfl, rfl, rfl, rfl, rfl, rfl⟩

theorem member? (h : s.Alike timed s') (name : Text) :
    Option.Rel (Member.Alike timed) (s.member? name) (s'.member? name) :=
  h.members.get? name

theorem frameOf (h : s.Alike timed s') : s'.frameOf = s.frameOf := by
  funext name
  have hm := h.member? name
  rw [Scene.frameOf, Scene.frameOf]
  generalize s.member? name = m at hm
  generalize s'.member? name = m' at hm
  cases hm
  case none   => rfl
  case some h => rw [Option.map_some, Option.map_some, h.frame_eq]

theorem sorts (h : s.Alike timed s') : s'.sorts = s.sorts := by
  rw [Scene.sorts, h.needsSort, h.graph, ← Scene.sorts]

-- Scenes that are alike at all times have the same members.
theorem eq (h : s.Alike True s') : s' = { s with log := s'.log } := by
  have hm : s'.members = s.members := by
    have hr := h.members
    generalize s.members = members at hr
    generalize s'.members = members' at hr
    induction hr
    case nil          => rfl
    case cons he _ hi => rw [hi, Prod.ext he.left he.right.eq.symm]
  obtain ⟨-, ho, hg, hn, ht, hd, hw, hl, hs⟩ := h
  obtain ⟨he, hc, h₁, h₂, h₃, -⟩ := hs trivial
  cases s
  cases s'
  simp only at hm ho hg hn ht hd hw hl he hc h₁ h₂ h₃
  subst hm ho hg hn ht hd hw hl he hc h₁ h₂ h₃
  rfl

theorem tell (h : s.Alike timed s') (n : Notice α) : (s.tell n).Alike timed (s'.tell n) := by
  have told (ht : timed) : Scene.told { s' with log := n :: s'.log } =
      Scene.told { s with log := n :: s.log } := by
    have := (h.times ht).told
    simp only [Scene.told, List.filter_cons] at this ⊢
    rw [this]
  by_cases hl : s.live
  case neg => rwa [tell_of_not_live hl, tell_of_not_live (h.live ▸ hl)]
  case pos =>
    rw [tell_of_live hl, tell_of_live (h.live ▸ hl)]
    exact { h with times := fun ht => { h.times ht with told := told ht } }

theorem warn (h : s.Alike timed s') (w : Warning) : (s.warn w).Alike timed (s'.warn w) := by
  have told (ht : timed) : (s'.warn w).told = (s.warn w).told := by
    have := (h.times ht).told
    simp only [Scene.told, Scene.warn, List.filter_cons] at this ⊢
    rw [this]
  exact { h with times := fun ht => { h.times ht with told := told ht } }

theorem withGraph (h : s.Alike timed s') (c : Change) (g : Graph) :
    (s.withGraph c g).Alike timed (s'.withGraph c g) := by
  have ht : Scene.Alike timed (if s.graph.announces c then s.tell (.change c) else s)
      (if s'.graph.announces c then s'.tell (.change c) else s') := by
    rw [h.graph]
    split
    case isTrue  => exact h.tell _
    case isFalse => exact h
  exact { ht with
    graph     := rfl
    needsSort := by simp only [Scene.withGraph, h.needsSort, h.live]
    times     := fun h => { ht.times h with } }

theorem readClock (h : s.Alike timed s') : s.readClock.Alike timed s'.readClock :=
  { h with times := fun ht =>
    { h.times ht with clock := congrArg Clock.read (h.times ht).clock } }

theorem setMember (h : s.Alike timed s') (hm : m.Alike timed m') :
    (s.setMember m).Alike timed (s'.setMember m') :=
  { h with
    members := by
      simp only [Scene.setMember, hm.name_eq]
      exact h.members.set hm
    times   := fun ht => { h.times ht with } }

theorem simulateMember (h : s.Alike timed s') (name : Text) (delta : Delta α) :
    (s.simulateMember name delta).Alike timed (s'.simulateMember name delta) := by
  have hm := h.member? name
  rw [Scene.simulateMember, Scene.simulateMember, h.time, h.frameOf]
  generalize s.member? name = m at hm
  generalize s'.member? name = m' at hm
  cases hm
  case none    => exact h
  case some hm =>
    obtain ⟨hm, hc⟩ := hm.simulate (fun ht => (h.times ht).clock) s.frameOf s.time delta
    have hs := h.setMember hm
    exact { hs with times := fun ht => { hs.times ht with clock := hc ht } }

theorem updateMember (h : s.Alike timed s') (name : Text) (delta : Delta α) :
    (s.updateMember name delta).Alike timed (s'.updateMember name delta) := by
  have hs := h.simulateMember name delta
  have hm := hs.member? name
  simp only [Scene.updateMember]
  generalize (s.simulateMember name delta).member? name = m at hm
  generalize (s'.simulateMember name delta).member? name = m' at hm
  cases hm
  case none    => exact hs
  case some hm =>
    have max (ht : timed) := congrArg₂ Scalar.max (hs.times ht).lastChangeTime (hm.lastChangeTime_eq ht)
    exact { hs with times := fun ht => { hs.times ht with lastChangeTime := max ht } }

theorem walk (h : s.Alike timed s') (delta : Delta α) {names names' : List Text}
    (hn : names' = names) : (s.walk delta names).Alike timed (s'.walk delta names') := by
  subst hn
  induction names' generalizing s s'
  case nil            => exact h
  case cons name _ hi => exact hi (h.updateMember name delta)

theorem stampEditing (h : s.Alike timed s') : s.stampEditing.Alike timed s'.stampEditing := by
  refine { h with times := fun ht => ?_ }
  have hs := h.times ht
  exact { hs with
    clock           := by simp only [Scene.stampEditing, hs.editing, hs.clock]
    lastEditingTime := by simp only [Scene.stampEditing, hs.editing, hs.clock, hs.lastEditingTime] }

theorem advance (h : s.Alike timed s') (delta : Delta α) :
    (s.advance delta).Alike timed (s'.advance delta) := by
  have ht : Scene.Alike timed { s with time := s.time + delta.amount }
      { s' with time := s'.time + delta.amount } :=
    { h with time := by rw [h.time], times := fun ht => { h.times ht with } }
  have hw := ht.walk delta h.order
  rw [advance_eq_stampEditing, advance_eq_stampEditing, hw.time]
  exact hw.stampEditing.tell _

open SceneM (Couples)

theorem warned (h : s.Alike timed s') : s.warned.Alike timed s'.warned := by
  rw [Scene.warned, Scene.warned, h.warnsOnDangling, h.graph, h.order]
  split
  case isTrue  => exact List.foldl_rel h fun pair _ _ _ h => h.warn (.dangling pair.1 pair.2)
  case isFalse => exact h

theorem sorted (h : s.Alike timed s') (order : List Text) :
    Scene.Alike timed { s with order, needsSort := false } { s' with order, needsSort := false } :=
  { h with order := rfl, needsSort := rfl, times := fun ht => { h.times ht with } }

theorem sort : Couples Eq (Alike (α := α) timed) Scene.sort Scene.sort := by
  intro s s' h
  cases hs : s.sorts
  case false =>
    rw [exec_sort_of_not_sorts hs, exec_sort_of_not_sorts (h.sorts.trans hs)]
    exact .ok rfl { h with needsSort := rfl, times := fun ht => { h.times ht with } }
  case true  =>
    rw [exec_sort_of_sorts hs, exec_sort_of_sorts (h.sorts.trans hs), h.graph, h.order]
    have hw := h.warned
    cases (s.graph.sort s.order).order
    case error e  => exact .error hw
    case ok order => exact .ok rfl ((hw.sorted order).tell _)

theorem editGraph (c : Change) :
    Couples Eq (Alike (α := α) timed) (Scene.editGraph c) (Scene.editGraph c) := by
  refine .get_bind fun s s' h => ?_
  rw [h.graph]
  cases s.graph.edit c
  case error => exact .error h
  case ok g  => exact .ok rfl (h.withGraph c g)

theorem commit (owner : Text) (added names : List Text) :
    Couples Eq (Alike (α := α) timed) (Scene.commit owner added names)
      (Scene.commit owner added names) := by
  induction names generalizing added <;> simp only [Scene.commit]
  case nil               => exact .pure rfl
  case cons name rest hi =>
    refine .get_bind fun s s' h => ?_
    rw [h.graph]
    cases s.graph.setOrder owner name
    case ok g    => exact hi _ _ _ (h.withGraph (.set owner name) g)
    case error e => exact Couples.bind_eq (.forM fun _ => editGraph _) (fun _ => .throw) s s' h

theorem adopt (owner : Text) (c : Track.Compiled α) :
    Couples Eq (Alike timed) (Scene.adopt owner c) (Scene.adopt owner c) := by
  simp only [Scene.adopt]
  split
  case h_1 => exact .pure rfl
  case h_2 =>
    refine .get_bind fun s s' h => ?_
    rw [h.graph]
    exact Couples.bind_eq (commit _ _ _) (fun _ => .pure rfl) s s' h

theorem createTrack (owner : Text) (source : Value α) :
    Couples Eq (Alike timed) (Scene.createTrack owner source) (Scene.createTrack owner source) := by
  refine (adopt _ _).bind_eq fun result => ?_
  split
  case h_1 => exact .pure rfl
  case h_2 => exact .throw

theorem dropOrder (dependent dependency : Text) : Couples Eq (Alike (α := α) timed)
    (Scene.dropOrder dependent dependency) (Scene.dropOrder dependent dependency) := by
  refine .get_bind fun s s' h => ?_
  rw [h.graph]
  split
  case isTrue  => exact editGraph _ s s' h
  case isFalse => exact .ok rfl h

theorem newEntity (name : Text) (o : Entity.Options α) : Couples (Entity.Alike timed) (Alike timed)
    (Scene.newEntity name o) (Scene.newEntity name o) := by
  refine (Couples.modify fun _ _ h => h.readClock).bind_eq fun _ => .get_bind fun s s' h => ?_
  have he : (Entity.create name o s.frameOf s.clock.value).Alike timed
      (Entity.create name o s'.frameOf s'.clock.value) := by
    rw [h.frameOf]
    exact ⟨s'.clock.value, rfl, fun ht => by rw [(h.times ht).clock]; rfl⟩
  dsimp only
  rw [he.isFixedWithTrack_eq]
  split
  case isTrue  => exact .ok he (h.warn _)
  case isFalse => exact .ok he h

theorem has_eq (h : s.Alike timed s') (name : Text) : s'.members.has name = s.members.has name :=
  (h.members.has_eq name).symm

theorem withMember (h : s.Alike timed s') (hm : m.Alike timed m') :
    (s.withMember m).Alike timed (s'.withMember m') := by
  have hc := h.readClock
  exact { h with
    members   := by
      simp only [Scene.withMember, hm.name_eq]
      exact h.members.set hm
    order     := by simp only [Scene.withMember, hm.name_eq, h.order]
    needsSort := by simp only [Scene.withMember, hm.name_eq, h.needsSort, h.graph]
    times     := fun ht =>
      { hc.times ht with lastStructuralChangeTime := congrArg Clock.value (hc.times ht).clock } }

theorem withoutMember (h : s.Alike timed s') (name : Text) :
    (s.withoutMember name).Alike timed (s'.withoutMember name) := by
  have hc := h.readClock
  exact { h with
    members := h.members.erase name
    order   := by simp only [Scene.withoutMember, h.order]
    times   := fun ht =>
      { hc.times ht with lastStructuralChangeTime := congrArg Clock.value (hc.times ht).clock } }

theorem insert (hm : m.Alike timed m') :
    Couples Eq (Alike timed) (Scene.insert m) (Scene.insert m') := by
  intro s s' h
  have hh : s'.members.has m'.name = s.members.has m.name := hm.name_eq ▸ h.has_eq m.name
  cases hs : s.members.has m.name
  case true  =>
    rw [exec_insert_of_has hs, exec_insert_of_has (hh.trans hs), hm.name_eq]
    exact .error h
  case false =>
    rw [exec_insert_of_not_has hs, exec_insert_of_not_has (hh.trans hs), hm.name_eq]
    exact .ok rfl (((h.withMember hm).simulateMember _ _).tell _)

theorem remove (name : Text) :
    Couples Eq (Alike (α := α) timed) (Scene.remove name) (Scene.remove name) := by
  intro s s' h
  cases hs : s.members.has name
  case true  =>
    rw [exec_remove_of_has hs, exec_remove_of_has ((h.has_eq name).trans hs), h.graph]
    exact .ok rfl (((h.withGraph _ _).withoutMember name).tell _)
  case false =>
    rw [exec_remove_of_not_has hs, exec_remove_of_not_has ((h.has_eq name).trans hs)]
    exact .error h

theorem setEditing (h : s.Alike timed s') (editing : Bool) :
    (s.setEditing editing).Alike timed (s'.setEditing editing) := by
  have hc := h.readClock
  exact { h with times := fun ht =>
    { hc.times ht with
      editing := rfl, lastEditingTime := congrArg Clock.value (hc.times ht).clock } }

theorem atTime (h : s.Alike timed s') (t : α) :
    Scene.Alike timed { s with time := t } { s' with time := t } :=
  { h with time := rfl, times := fun ht => { h.times ht with } }

theorem setClock (h : s.Alike timed s') (clock : Clock α) :
    Scene.Alike timed { s with clock } { s' with clock } :=
  { h with times := fun ht => { h.times ht with clock := rfl } }

theorem collect (h : s.Alike timed s') : s.collect.2.Alike timed s'.collect.2 :=
  { h with times := fun ht => { h.times ht with told := rfl } }

theorem step (delta : Delta α) : Couples Eq (Alike timed) (Scene.step delta) (Scene.step delta) :=
  sort.bind_eq fun _ => .modify fun _ _ h => h.advance delta

theorem setTime (t : α) : Couples Eq (Alike timed) (Scene.setTime t) (Scene.setTime t) :=
  (Couples.modify fun _ _ h => h.atTime t).bind_eq fun _ => (step _).bind_eq fun _ => step _

theorem clear (h : s.Alike timed s') : s.clear.Alike timed s'.clear := by
  have hc := (h.withGraph .reset .empty).readClock
  have now (ht : timed) := congrArg Clock.value (hc.times ht).clock
  exact { hc with
    members   := .nil
    order     := rfl
    needsSort := rfl
    time      := rfl
    times     := fun ht =>
      { hc.times ht with lastStructuralChangeTime := now ht, lastChangeTime := now ht } }

theorem entity? (h : s.Alike timed s') (name : Text) :
    Option.Rel (Entity.Alike timed) (s.entity? name) (s'.entity? name) := by
  have hm := h.member? name
  rw [Scene.entity?, Scene.entity?]
  generalize s.member? name = m at hm
  generalize s'.member? name = m' at hm
  cases hm
  case none    => exact .none
  case some hm =>
    cases hm
    case entity he => exact .some he
    case observer  => exact .none

theorem editEntity (h : s.Alike timed s') (name : Text) (edit : EntityEdit α) :
    (s.editEntity name edit).Alike timed (s'.editEntity name edit) := by
  have he := h.entity? name
  rw [Scene.editEntity, Scene.editEntity]
  generalize s.entity? name = e at he
  generalize s'.entity? name = e' at he
  cases he
  case none    => exact h
  case some he =>
    have ⟨he, hc⟩ := he.apply (fun ht => (h.times ht).clock) edit
    have hs := h.setMember (.entity he)
    exact { hs with times := fun ht => { hs.times ht with clock := hc ht } }

theorem setEntityTrack (name : Text) (source : Value α) : Couples Eq (Alike timed)
    (Scene.setEntityTrack name source) (Scene.setEntityTrack name source) := by
  refine .get_bind fun s s' h => ?_
  have he := h.entity? name
  generalize s.entity? name = e at he
  generalize s'.entity? name = e' at he
  cases he
  case none    => exact .error h
  case some he =>
    obtain ⟨t, rfl, ht⟩ := he
    refine Couples.bind_eq (createTrack name source) (fun track => ?_) s s' h
    refine Couples.bind_eq (.forM fun _ => dropOrder _ _) fun _ => ?_
    refine Couples.bind_eq (.modify fun _ _ h => ?_) fun _ => .pure rfl
    exact h.setMember (.entity ⟨t, rfl, ht⟩)

-- The same fault, or entities that are alike.
inductive Described (timed : Prop) :
    Except TrackError (Entity α) → Except TrackError (Entity α) → Prop
  | ok {e e'} : e.Alike timed e' → Described timed (.ok e) (.ok e')
  | error {e} : Described timed (.error e) (.error e)

theorem adoptOptional (owner : Text) (source : Option (Expr α)) : Couples Eq (Alike timed)
    (Scene.adoptOptional owner source) (Scene.adoptOptional owner source) := by
  cases source
  case none   => exact .pure rfl
  case some e => exact (adopt _ _).bind_eq fun _ => .pure rfl

theorem describedEntity (name : Text) (d : EntityDescription α) :
    Couples (Described timed) (Alike timed)
      (Scene.describedEntity name d) (Scene.describedEntity name d) := by
  rw [Scene.describedEntity]
  split
  case h_1 => exact .pure .error
  case h_2 =>
    refine (adoptOptional _ _).bind_eq fun result => ?_
    split
    case h_1 => exact .pure .error
    case h_2 =>
      refine .get_bind fun s s' h => ?_
      rw [h.teleportDistance]
      exact Couples.bind (newEntity _ _) (fun _ _ he => .pure (.ok he)) s s' h

-- The reports may have said different things so far.
theorem loadEntity {Q : LoadReport → LoadReport → Prop} {report report' : LoadReport}
    (hl : Q { report with loaded := report.loaded ++ [name] }
      { report' with loaded := report'.loaded ++ [name] })
    (hs : ∀ e, Q { report with skipped := report.skipped ++ [(name, e)] }
      { report' with skipped := report'.skipped ++ [(name, e)] })
    (d : EntityDescription α) :
    Couples Q (Alike timed) (Scene.loadEntity report name d) (Scene.loadEntity report' name d) := by
  refine (describedEntity name d).bind fun _ _ h => ?_
  cases h
  case ok he => exact (insert (.entity he)).bind_eq fun _ => .pure hl
  case error => exact (Couples.modify fun _ _ h => h.warn _).bind_eq fun _ => .pure (hs _)

theorem loadEntities (report : LoadReport) (entities : List (Text × EntityDescription α)) :
    Couples Eq (Alike timed) (Scene.loadEntities report entities)
      (Scene.loadEntities report entities) := by
  induction entities generalizing report
  case nil     => exact .pure rfl
  case cons hi => exact (loadEntity rfl (fun _ => rfl) _).bind_eq fun _ => hi _

end Alike
end Scene
end SceneMotion
