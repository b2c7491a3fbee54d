import SceneMotion.Proofs.Scene.Coherent
import SceneMotion.Proofs.Track.Reads

namespace SceneMotion

variable {α : Type} [Scalar α]

namespace Scene

variable {s s' : Scene α} {m : Member α} {name k : Text} {delta : Delta α} {order : List Text}

-- These members are where their tracks are, given where the others are.
def UpToDate (s : Scene α) (names : List Text) : Prop :=
  ∀ name ∈ names, ∀ track, s.trackOf name = some track →
    s.frameOf name = some (track.frameAt s.frameOf s.time)

theorem frameOf_updateMember (hm : s.member? name = some m) (hn : m.name = name) :
    (s.updateMember name delta).frameOf k =
      if k = name then some (m.placeAt s.frameOf s.time) else s.frameOf k := by
  rw [frameOf, member?_updateMember hm hn]
  split
  case isTrue  => rw [Option.map_some, Member.simulate_frame]
  case isFalse => rfl

-- Those that have been brought up to date before stay so if they do not read the one that moves.
theorem UpToDate.updateMember {done : List Text} (h : s.UpToDate done) (hn : s.Named)
    (hm : name ∈ s.members.keys) (hr : ∀ a ∈ name :: done, ¬s.Reads a name) (delta : Delta α) :
    (s.updateMember name delta).UpToDate (name :: done) := by
  have ⟨m, hm⟩ := Table.exists_get?_of_mem_keys hm
  have hf {k} : (s.updateMember name delta).frameOf k = _ := frameOf_updateMember hm (hn name m hm)
  have ht := trackOf_eq_of_roles_eq (roles_updateMember hn name delta)
  intro a ha track hat
  rw [ht] at hat
  have hreads : ∀ b ∈ track.reads, (s.updateMember name delta).frameOf b = s.frameOf b := by
    intro b hb
    have hbn : b ≠ name := fun hbn => hr a ha ⟨track, hat, hbn ▸ hb⟩
    rw [hf, if_neg hbn]
  rw [updateMember_time, Track.frameAt_congr hreads, hf]
  split
  case isTrue hk  =>
    have hmt : m.track = some track := by rwa [hk, trackOf, member?, hm] at hat
    rw [Member.placeAt, hmt]
  case isFalse hk => exact h a ((List.mem_cons.mp ha).resolve_left hk) track hat

-- Everybody comes after those that they read.
structure ReadsInOrder (s : Scene α) (order : List Text) : Prop where
  named   : s.Named
  members : ∀ name ∈ order, name ∈ s.members.keys
  nodup   : order.Nodup
  before  : ∀ a ∈ order, ∀ b ∈ order, s.Reads a b → order.idxOf b < order.idxOf a

theorem ReadsInOrder.of_roles_eq (h : s.ReadsInOrder order) (hr : s'.roles = s.roles) :
    s'.ReadsInOrder order where
  named   := h.named.of_roles_eq hr
  members := keys_eq_of_roles_eq hr ▸ h.members
  nodup   := h.nodup
  before  := fun a ha b hb hab => h.before a ha b hb (hab.of_roles_eq hr)

-- The induction is on what is left of the order; `done` has been gone through.
theorem ReadsInOrder.upToDate_walk {done rest : List Text} (h : s.ReadsInOrder order)
    (ho : order = done ++ rest) (hd : s.UpToDate done) (delta : Delta α) :
    (s.walk delta rest).UpToDate order := by
  induction rest generalizing s done
  case nil =>
    rw [ho, List.append_nil]
    exact hd
  case cons name rest hi =>
    have hn : name ∉ done := by
      have := ho ▸ h.nodup
      grind
    have hname : order.idxOf name = done.length := by
      rw [ho, List.idxOf_append_of_notMem hn, List.idxOf_cons_self, Nat.add_zero]
    have hr : ∀ a ∈ name :: done, ¬s.Reads a name := by
      intro a ha hr
      have hlt := h.before a (by grind) name (by grind) hr
      have hle : order.idxOf a ≤ done.length := by
        cases List.mem_cons.mp ha
        case inl ha => exact ha ▸ hname.le
        case inr ha =>
          rw [ho, List.idxOf_append_of_mem ha]
          exact List.idxOf_le_length
      omega
    have hu := hd.updateMember h.named (h.members name (by simp [ho])) hr delta
    have h' := h.of_roles_eq (roles_updateMember h.named name delta)
    exact hi h' (ho.trans (List.append_cons ..)) fun a ha => hu a (by grind)

theorem ReadsInOrder.upToDate (h : s.ReadsInOrder order) (delta : Delta α) :
    (s.walk delta order).UpToDate order :=
  h.upToDate_walk (List.nil_append _).symm nofun delta

theorem frameOf_updateMember_of_trackOf_eq_none (hn : s.Named) (h : s.trackOf k = none) :
    (s.updateMember name delta).frameOf k = s.frameOf k := by
  cases hm : s.member? name
  case none   => rw [frameOf, member?_updateMember_of_none hm, frameOf]
  case some m =>
    rw [frameOf_updateMember hm (hn name m hm)]
    split
    case isTrue hk =>
      rw [hk, trackOf, hm] at h
      have ht : m.track = none := h
      rw [hk, frameOf, hm, Member.placeAt, ht]
      rfl
    case isFalse => rfl

theorem frameOf_walk_of_trackOf_eq_none {names : List Text} (hn : s.Named)
    (h : s.trackOf k = none) : (s.walk delta names).frameOf k = s.frameOf k := by
  induction names generalizing s
  case nil => rfl
  case cons name _ hi =>
    have hr := roles_updateMember hn name delta
    refine (hi (hn.of_roles_eq hr) ?_).trans (frameOf_updateMember_of_trackOf_eq_none hn h)
    rw [trackOf_eq_of_roles_eq hr, h]

-- There is an edge for everybody that a member reads, as far as they are there.
def CoversReads (s : Scene α) : Prop :=
  ∀ a b, s.Reads a b → b ∈ s.members.keys → s.graph.hasOrder a b

theorem Coherent.readsInOrder (h : Coherent s) (hc : s.CoversReads) (hp : order.Perm s.order)
    (hv : UpdateOrder.Valid s.graph order) : s.ReadsInOrder order where
  named   := h.named
  members := fun _ hn => (hp.trans h.perm).mem_iff.mp hn
  nodup   := hp.nodup_iff.mpr h.nodup
  before  := fun a ha b hb hab =>
    hv a ha b hb (hc a b hab ((hp.trans h.perm).mem_iff.mp hb))

def camera : Text := [67]

def ship : Text := [83]

-- The camera comes after the ship.
def shipFirst : Graph :=
  ⟨[(camera, [ship])], [(ship, [camera])], 1⟩

def follower (name : Text) (track : Track Float) : Member Float :=
  .entity (Entity.create name { track := some track } (fun _ => none) 0)

-- A camera that has come before the ship that it follows, and so is updated before it as yet.
def chase : Scene Float := (create {} ⟨0, 1⟩).after
  [.editGraph (.set camera ship), .insert (follower camera (.entity ship .identity)),
   .insert (follower ship (.orbit 1 4))]

theorem chase_reachable : chase.Reachable :=
  ⟨_, _, _, rfl⟩

theorem chase_eq : chase.order = [camera, ship] ∧
    chase.roles = [(camera, camera, some (.entity ship .identity)), (ship, ship, some (.orbit 1 4))] ∧
    chase.graph = shipFirst := by
  have h := (Coherent.create (α := Float) {} ⟨0, 1⟩).after [.editGraph (.set camera ship)]
  have ⟨ho, hr, hg⟩ := h.after_insert
    [follower camera (.entity ship .identity), follower ship (.orbit 1 4)] (by decide)
  rw [← after_append] at ho hr hg
  exact ⟨ho, hr, hg⟩

theorem chase_trackOf : chase.trackOf camera = some (.entity ship .identity) := by
  rw [trackOf_eq, chase_eq.right.left]
  rfl

theorem chase_coversReads : chase.CoversReads := by
  intro a b ⟨track, ht, hb⟩ _
  rw [trackOf_eq, chase_eq.right.left, Table.get?_cons] at ht
  rw [chase_eq.right.right]
  split at ht
  case isTrue ha =>
    cases ht
    have hb : b ∈ [ship] := hb
    rw [ha, List.mem_singleton.mp hb]
    decide
  case isFalse ha =>
    rw [Table.get?_cons, Table.get?_nil] at ht
    split at ht
    case isTrue =>
      cases ht
      exact absurd hb List.not_mem_nil
    case isFalse => cases ht

theorem chase_not_cyclic : ¬chase.graph.Cyclic chase.order := by
  have hv : UpdateOrder.Valid chase.graph [ship, camera] := by
    rw [chase_eq.right.right, UpdateOrder.Valid]
    decide
  exact hv.not_cyclic (chase_eq.left ▸ .swap ..)

theorem chase_sort : ∃ s', sort.exec chase = (.ok (), s') := by
  have ⟨_, _, _, hs⟩ := chase_reachable
  have h : Coherent chase := hs ▸ (Coherent.create ..).after _
  exact h.exists_exec_sort chase_not_cyclic

theorem chase_step : ∃ s', (step (.by 1)).exec chase = (.ok (), s') :=
  have ⟨_, h⟩ := chase_sort
  ⟨_, SceneM.exec_bind_ok h⟩

theorem step_upToDate (hs : s.Reachable) (hc : s.CoversReads)
    (he : (step delta).exec s = (.ok (), s')) :
    (∀ name track, s'.trackOf name = some track →
      s'.frameOf name = some (track.frameAt s'.frameOf s'.time)) ∧
    (∀ name, s.trackOf name = none → s'.frameOf name = s.frameOf name) ∧
    s'.trackOf = s.trackOf ∧ s'.members.keys = s.members.keys ∧
    s'.time = s.time + delta.amount := by
  have ⟨o, clock, operations, hs⟩ := hs
  have h : Coherent s := hs ▸ (Coherent.create o clock).after operations
  cases exec_sort h.built h.nodup h.valid
  case inr hr =>
    have ⟨_, _, hr, _⟩ := hr
    simp [step, SceneM.exec_bind_error hr] at he
  case inl ho =>
    have ⟨order, log, ho, hp, hv⟩ := ho
    rw [step, SceneM.exec_bind_ok ho, SceneM.exec_modify, Prod.mk.injEq] at he
    have ⟨_, _, _, ha⟩ := advance_eq { s with order, needsSort := false, log } delta
    rw [← he.right, ha]
    -- All that matters about the scene is what the walk leaves behind.
    have hi : ReadsInOrder { s with order, needsSort := false, log, time := s.time + delta.amount }
        order := (h.readsInOrder hc hp hv).of_roles_eq rfl
    have hr := roles_walk hi.named delta order
    refine ⟨?follows, ?stays, trackOf_eq_of_roles_eq hr, keys_eq_of_roles_eq hr, ?time⟩
    case follows =>
      intro name track ht
      have ⟨_, hm, _⟩ := Option.bind_eq_some_iff.mp ht
      have hm := keys_eq_of_roles_eq hr ▸ Table.mem_keys_of_get? hm
      exact hi.upToDate delta name ((hp.trans h.perm).mem_iff.mpr hm) track ht
    case stays => exact fun name ht => frameOf_walk_of_trackOf_eq_none hi.named ht
    case time  =>
      have ⟨_, _, _, hw⟩ := walk_eq
        { s with order, needsSort := false, log, time := s.time + delta.amount } delta order
      exact congrArg Scene.time hw

theorem step_chase : ∃ s', (step (.by 1)).exec chase = (.ok (), s') ∧
    s'.frameOf camera = some ((Track.entity ship .identity).frameAt s'.frameOf s'.time) := by
  have ⟨s', h⟩ := chase_step
  have ⟨hu, _, ht, _⟩ := step_upToDate chase_reachable chase_coversReads h
  have htrack : s'.trackOf camera = some (.entity ship .identity) := by rw [ht, chase_trackOf]
  exact ⟨s', h, hu camera _ htrack⟩

end Scene
end SceneMotion
