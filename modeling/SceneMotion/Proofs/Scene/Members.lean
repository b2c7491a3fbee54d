import SceneMotion.Proofs.Scene.Exec
import SceneMotion.Proofs.Table

namespace SceneMotion

variable {α : Type} [Scalar α]

-- Where a member goes, given where the others are.
def Member.placeAt (m : Member α) (frameOf : Text → Option (Frame α)) (time : α) : Frame α :=
  match m.track with
  | some track => track.frameAt frameOf time
  | none       => m.frame

namespace Entity

-- Where an entity goes, given where the others are.
abbrev placeAt (e : Entity α) : (Text → Option (Frame α)) → α → Frame α :=
  (Member.entity e).placeAt

theorem stamp_eq (e : Entity α) (clock : Clock α) :
    ∃ lastChangeTime, (e.stamp clock).1 = { e with lastChangeTime } := by
  rw [stamp]
  split
  case isTrue  => exact ⟨e.lastChangeTime, rfl⟩
  case isFalse => exact ⟨clock.read.value, rfl⟩

theorem carry_eq (e : Entity α) (delta : Delta α) :
    ∃ previousFrame, e.carry delta = { e with previousFrame } := by
  rw [carry]
  split
  case isTrue  => exact ⟨e.frame, rfl⟩
  case isFalse => exact ⟨e.previousFrame, rfl⟩

theorem follow_eq (e : Entity α) (frameOf : Text → Option (Frame α)) (time : α) :
    ∃ previousFrame,
      e.follow frameOf time = { e with frame := e.placeAt frameOf time, previousFrame } := by
  rw [follow]
  split
  case h_1 h =>
    have hp : e.placeAt frameOf time = e.frame := by simp [Member.placeAt, Member.track, Member.frame, h]
    exact ⟨e.previousFrame, by rw [hp]⟩
  case h_2 track h =>
    have hp : e.placeAt frameOf time = track.frameAt frameOf time := by simp [Member.placeAt, Member.track, h]
    rw [hp]
    dsimp only
    split
    case isTrue  => exact ⟨track.frameAt frameOf time, rfl⟩
    case isFalse => exact ⟨e.previousFrame, rfl⟩

theorem simulate_eq (e : Entity α) (frameOf : Text → Option (Frame α)) (time : α)
    (delta : Delta α) (clock : Clock α) :
    ∃ previousFrame lastChangeTime, (e.simulate frameOf time delta clock).1 = { e with
      frame := e.placeAt frameOf time, previousFrame, lastChangeTime, movedSinceStep := false } := by
  have ⟨lastChangeTime, hs⟩ := e.stamp_eq clock
  have ⟨carried, hc⟩ := { e with lastChangeTime }.carry_eq delta
  have ⟨previousFrame, hf⟩ := { e with lastChangeTime, previousFrame := carried }.follow_eq frameOf time
  exact ⟨previousFrame, lastChangeTime, by simp only [simulate, hs, hc, hf]; rfl⟩

end Entity

namespace Member

-- The name that a member gives itself, and the track that it follows.
def role (m : Member α) : Text × Option (Track α) :=
  (m.name, m.track)

variable {m : Member α} {frameOf : Text → Option (Frame α)} {time : α} {delta : Delta α}
variable {clock : Clock α}

theorem simulate_role : (m.simulate frameOf time delta clock).1.role = m.role := by
  cases m
  case observer => rfl
  case entity e =>
    have ⟨_, _, h⟩ := e.simulate_eq frameOf time delta clock
    simp only [simulate, role, name, track, h]

theorem simulate_frame :
    (m.simulate frameOf time delta clock).1.frame = m.placeAt frameOf time := by
  cases m
  case observer => rfl
  case entity e =>
    have ⟨_, _, h⟩ := e.simulate_eq frameOf time delta clock
    simp only [simulate, frame, h]

end Member

namespace Scene

variable {s : Scene α} {m : Member α} {name k : Text} {delta : Delta α}

theorem member?_setMember :
    (s.setMember m).member? k = if k = m.name then some m else s.member? k :=
  Table.get?_set

-- The members without their places: what they are kept under, what they are called, what they follow.
def roles (s : Scene α) : Table (Text × Option (Track α)) :=
  s.members.map fun entry => (entry.1, entry.2.role)

theorem keys_roles : s.roles.keys = s.members.keys := by
  simp [roles, Table.keys, Function.comp_def]

theorem keys_eq_of_roles_eq {s' : Scene α} (h : s'.roles = s.roles) :
    s'.members.keys = s.members.keys := by
  rw [← keys_roles, h, keys_roles]

theorem get?_roles : s.roles.get? k = (s.member? k).map (·.role) := by
  rw [roles, member?]
  induction s.members
  case nil => rfl
  case cons entry rest hi =>
    rw [List.map_cons, Table.get?_cons, Table.get?_cons, hi]
    split <;> rfl

theorem roles_setMember {m' : Member α} (hm : s.member? name = some m) (hn : m.name = name)
    (hr : m'.role = m.role) : (s.setMember m').roles = s.roles := by
  have hn : m'.name = name := (congrArg Prod.fst hr).trans hn
  rw [member?] at hm
  simp only [setMember, roles, hn]
  generalize s.members = members at hm ⊢
  induction members
  case nil => simp at hm
  case cons entry rest hi =>
    rw [Table.get?_cons] at hm
    by_cases hk : entry.1 = name
    case pos =>
      rw [if_pos hk.symm, Option.some.injEq] at hm
      simp [Table.set, hk, hm, hr]
    case neg =>
      rw [if_neg (Ne.symm hk)] at hm
      simp [Table.set, hk, hi hm]

def trackOf (s : Scene α) (name : Text) : Option (Track α) :=
  (s.member? name).bind (·.track)

-- A member follows another one, or somebody who is not there.
def Reads (s : Scene α) (a b : Text) : Prop :=
  ∃ track, s.trackOf a = some track ∧ b ∈ track.reads

theorem mem_keys_of_trackOf {track : Track α} (h : s.trackOf name = some track) :
    name ∈ s.members.keys :=
  have ⟨_, hm, _⟩ := Option.bind_eq_some_iff.mp h
  Table.mem_keys_of_get? hm

theorem trackOf_eq : s.trackOf k = (s.roles.get? k).bind (·.2) := by
  rw [get?_roles, trackOf]
  cases s.member? k <;> rfl

theorem trackOf_eq_of_roles_eq {s' : Scene α} (h : s'.roles = s.roles) : s'.trackOf = s.trackOf := by
  funext k
  rw [trackOf_eq, trackOf_eq, h]

theorem Reads.of_roles_eq {s' : Scene α} {a b : Text} (h : s'.roles = s.roles) (hr : s'.Reads a b) :
    s.Reads a b := by
  rwa [Reads, trackOf_eq_of_roles_eq h] at hr

-- Every member is kept under its own name.
def Named (s : Scene α) : Prop :=
  ∀ name m, s.member? name = some m → m.name = name

theorem Named.of_roles_eq {s' : Scene α} (hn : s.Named) (h : s'.roles = s.roles) : s'.Named := by
  intro name m hm
  have hr : s.roles.get? name = some m.role := by rw [← h, get?_roles, hm, Option.map_some]
  rw [get?_roles, Option.map_eq_some_iff] at hr
  have ⟨m', hm', hr⟩ := hr
  exact (congrArg Prod.fst hr).symm.trans (hn name m' hm')

theorem Named.entity_name {e : Entity α} (h : s.Named) (he : s.entity? name = some e) :
    e.name = name := by
  have ⟨m, hm, he⟩ := Option.bind_eq_some_iff.mp he
  have hn := h name m hm
  cases m <;> cases he
  exact hn

theorem member?_eq_of_members_eq {s' : Scene α} (h : s'.members = s.members) :
    s'.member? = s.member? := by
  funext k
  rw [member?, h, member?]

theorem trackOf_eq_of_members_eq {s' : Scene α} (h : s'.members = s.members) :
    s'.trackOf = s.trackOf := by
  funext k
  rw [trackOf, member?_eq_of_members_eq h, trackOf]

theorem frameOf_eq_of_members_eq {s' : Scene α} (h : s'.members = s.members) :
    s'.frameOf = s.frameOf := by
  funext k
  rw [frameOf, member?_eq_of_members_eq h, frameOf]

theorem Named.of_members_eq {s' : Scene α} (hn : s.Named) (h : s'.members = s.members) : s'.Named :=
  fun name m hm => hn name m (member?_eq_of_members_eq h ▸ hm)

theorem simulateMember_of_none (h : s.member? name = none) : s.simulateMember name delta = s := by
  rw [simulateMember, h]

theorem simulateMember_of_some (h : s.member? name = some m) (delta : Delta α) :
    ∃ clock, s.simulateMember name delta =
      { s.setMember (m.simulate s.frameOf s.time delta s.clock).1 with clock } := by
  rw [simulateMember, h]
  exact ⟨_, rfl⟩

theorem simulateMember_eq (s : Scene α) (name : Text) (delta : Delta α) : ∃ members clock,
    s.simulateMember name delta = { s with members, clock } := by
  cases h : s.member? name
  case none   => exact ⟨s.members, s.clock, simulateMember_of_none h⟩
  case some m =>
    have ⟨clock, h⟩ := simulateMember_of_some h delta
    exact ⟨_, clock, h⟩

theorem updateMember_eq (s : Scene α) (name : Text) (delta : Delta α) : ∃ lastChangeTime,
    s.updateMember name delta = { s.simulateMember name delta with lastChangeTime } := by
  simp only [updateMember]
  split
  case h_1 => exact ⟨_, rfl⟩
  case h_2 => exact ⟨_, rfl⟩

theorem member?_updateMember (hm : s.member? name = some m) (hn : m.name = name) :
    (s.updateMember name delta).member? k =
      if k = name then some (m.simulate s.frameOf s.time delta s.clock).1 else s.member? k := by
  have hn : (m.simulate s.frameOf s.time delta s.clock).1.name = name :=
    (congrArg Prod.fst Member.simulate_role).trans hn
  have ⟨_, hs⟩ := simulateMember_of_some hm delta
  have ⟨_, hu⟩ := s.updateMember_eq name delta
  rw [hu, hs, ← hn]
  exact member?_setMember

-- A member who is not there does not move.
theorem member?_updateMember_of_none (hm : s.member? name = none) :
    (s.updateMember name delta).member? = s.member? := by
  have ⟨_, hu⟩ := s.updateMember_eq name delta
  rw [hu, simulateMember_of_none hm]
  rfl

theorem member?_updateMember_of_ne (hn : s.Named) (hk : k ≠ name) (delta : Delta α) :
    (s.updateMember name delta).member? k = s.member? k := by
  cases hm : s.member? name
  case none   => rw [member?_updateMember_of_none hm]
  case some m => rw [member?_updateMember hm (hn name m hm), if_neg hk]

theorem updateMember_time : (s.updateMember name delta).time = s.time := by
  have ⟨_, hu⟩ := s.updateMember_eq name delta
  have ⟨_, _, hs⟩ := s.simulateMember_eq name delta
  rw [hu, hs]

theorem roles_simulateMember (hn : s.Named) (name : Text) (delta : Delta α) :
    (s.simulateMember name delta).roles = s.roles := by
  cases h : s.member? name
  case none   => rw [simulateMember_of_none h]
  case some m =>
    have ⟨_, hs⟩ := simulateMember_of_some h delta
    rw [hs]
    exact roles_setMember h (hn name m h) Member.simulate_role

theorem roles_updateMember (hn : s.Named) (name : Text) (delta : Delta α) :
    (s.updateMember name delta).roles = s.roles := by
  have ⟨_, h⟩ := s.updateMember_eq name delta
  rw [h]
  exact roles_simulateMember hn name delta

-- Goes through some members, one after the other.
def walk (delta : Delta α) (s : Scene α) (names : List Text) : Scene α :=
  names.foldl (fun s name => s.updateMember name delta) s

theorem walk_eq (s : Scene α) (delta : Delta α) (names : List Text) : ∃ members clock lastChangeTime,
    s.walk delta names = { s with members, clock, lastChangeTime } := by
  induction names generalizing s
  case nil => exact ⟨s.members, s.clock, s.lastChangeTime, rfl⟩
  case cons name _ hi =>
    have ⟨_, hu⟩ := s.updateMember_eq name delta
    have ⟨_, _, hs⟩ := s.simulateMember_eq name delta
    rw [hs] at hu
    change ∃ members clock lastChangeTime, walk delta (s.updateMember name delta) _ = _
    rw [hu]
    exact hi _

theorem roles_walk (hn : s.Named) (delta : Delta α) (names : List Text) :
    (s.walk delta names).roles = s.roles := by
  induction names generalizing s
  case nil => rfl
  case cons name _ hi =>
    have hr := roles_updateMember hn name delta
    exact (hi (hn.of_roles_eq hr)).trans hr

theorem member?_walk_of_not_mem {names : List Text} (hn : s.Named) (hk : k ∉ names) :
    (s.walk delta names).member? k = s.member? k := by
  induction names generalizing s
  case nil => rfl
  case cons name _ hi =>
    have ⟨hne, hk⟩ := List.ne_and_not_mem_of_not_mem_cons hk
    have hr := roles_updateMember hn name delta
    exact (hi (hn.of_roles_eq hr) hk).trans (member?_updateMember_of_ne hn hne delta)

-- Everybody is met once, and sees the others where they are by then.
theorem member?_walk {names : List Text} (hn : s.Named) (hnd : names.Nodup) (hk : k ∈ names)
    (hm : s.member? k = some m) (delta : Delta α) : ∃ frameOf clock,
    (s.walk delta names).member? k = some (m.simulate frameOf s.time delta clock).1 := by
  induction names generalizing s
  case nil => contradiction
  case cons name rest hi =>
    have ⟨hname, hnd⟩ := List.nodup_cons.mp hnd
    have hn' := hn.of_roles_eq (roles_updateMember hn name delta)
    by_cases hkn : k = name
    case pos =>
      have hw : (s.walk delta (name :: rest)).member? k = (s.updateMember name delta).member? k :=
        member?_walk_of_not_mem hn' (hkn ▸ hname)
      rw [hw, member?_updateMember (hkn ▸ hm) (hkn ▸ hn k m hm), if_pos hkn]
      exact ⟨_, _, rfl⟩
    case neg =>
      have hm' := (member?_updateMember_of_ne hn hkn delta).trans hm
      have hw := hi hn' hnd ((List.mem_cons.mp hk).resolve_left hkn) hm'
      rwa [updateMember_time] at hw

theorem advance_eq (s : Scene α) (delta : Delta α) : ∃ clock lastEditingTime log, s.advance delta =
    { walk delta { s with time := s.time + delta.amount } s.order with
      clock, lastEditingTime, log } := by
  rw [advance]
  generalize hw : walk delta { s with time := s.time + delta.amount } s.order = w
  rw [walk] at hw
  simp only [hw]
  split
  case isTrue =>
    have ⟨log, h⟩ := tell_eq { w.readClock with lastEditingTime := w.readClock.clock.value }
      (.simulated w.time delta)
    exact ⟨_, _, log, h⟩
  case isFalse =>
    have ⟨log, h⟩ := w.tell_eq (.simulated w.time delta)
    exact ⟨_, _, log, h⟩

-- The step is told last.
theorem advance_eq_tell (s : Scene α) (delta : Delta α) :
    ∃ members clock lastChangeTime lastEditingTime, s.advance delta =
      tell { s with
        time := s.time + delta.amount, members, clock, lastChangeTime, lastEditingTime }
        (.simulated (s.time + delta.amount) delta) := by
  have ⟨members, clock, lastChangeTime, hw⟩ :=
    walk_eq { s with time := s.time + delta.amount } delta s.order
  rw [walk] at hw
  simp only [advance, hw]
  split
  case isTrue  => exact ⟨members, clock.read, lastChangeTime, clock.read.value, rfl⟩
  case isFalse => exact ⟨members, clock, lastChangeTime, s.lastEditingTime, rfl⟩

theorem advance_write (s : Scene α) (delta : Delta α) :
    ∃ members clock lastChangeTime lastEditingTime log, s.advance delta = { s with
      time := s.time + delta.amount, members, clock, lastChangeTime, lastEditingTime, log } := by
  have ⟨members, clock, lastChangeTime, lastEditingTime, ha⟩ := s.advance_eq_tell delta
  have ⟨log, ht⟩ := tell_eq { s with
    time := s.time + delta.amount, members, clock, lastChangeTime, lastEditingTime }
    (.simulated (s.time + delta.amount) delta)
  exact ⟨members, clock, lastChangeTime, lastEditingTime, log, ha.trans ht⟩

@[simp]
theorem advance_time : (s.advance delta).time = s.time + delta.amount := by
  have ⟨_, _, _, _, _, h⟩ := s.advance_write delta
  rw [h]

@[simp]
theorem advance_order : (s.advance delta).order = s.order := by
  have ⟨_, _, _, _, _, h⟩ := s.advance_write delta
  rw [h]

@[simp]
theorem advance_graph : (s.advance delta).graph = s.graph := by
  have ⟨_, _, _, _, _, h⟩ := s.advance_write delta
  rw [h]

@[simp]
theorem advance_needsSort : (s.advance delta).needsSort = s.needsSort := by
  have ⟨_, _, _, _, _, h⟩ := s.advance_write delta
  rw [h]

@[simp]
theorem advance_live : (s.advance delta).live = s.live := by
  have ⟨_, _, _, _, _, h⟩ := s.advance_write delta
  rw [h]

theorem advance_members (s : Scene α) (delta : Delta α) : (s.advance delta).members =
    (walk delta { s with time := s.time + delta.amount } s.order).members := by
  have ⟨_, _, _, h⟩ := s.advance_eq delta
  rw [h]

theorem advance_frameOf (s : Scene α) (delta : Delta α) : (s.advance delta).frameOf =
    (walk delta { s with time := s.time + delta.amount } s.order).frameOf :=
  frameOf_eq_of_members_eq (s.advance_members delta)

theorem roles_advance (hn : s.Named) (delta : Delta α) : (s.advance delta).roles = s.roles := by
  rw [roles, advance_members]
  exact roles_walk (s := { s with time := s.time + delta.amount }) hn delta s.order

-- Every member has been through the step.
theorem exists_of_member?_advance (hn : s.Named) (hnd : s.order.Nodup) (hk : s.members.keys ⊆ s.order)
    (hm : (s.advance delta).member? k = some m) : ∃ m₀ frameOf clock, s.member? k = some m₀ ∧
      m = (m₀.simulate frameOf (s.time + delta.amount) delta clock).1 := by
  have hks := keys_eq_of_roles_eq (roles_advance hn delta) ▸ Table.mem_keys_of_get? hm
  have ⟨m₀, hm₀⟩ := Table.exists_get?_of_mem_keys hks
  rw [member?, advance_members] at hm
  have ⟨frameOf, clock, hw⟩ :=
    member?_walk (s := { s with time := s.time + delta.amount }) hn hnd (hk hks) hm₀ delta
  exact ⟨m₀, frameOf, clock, hm₀, Option.some.inj (hm.symm.trans hw)⟩

end Scene
end SceneMotion
