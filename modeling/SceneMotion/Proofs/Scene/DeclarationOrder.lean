import SceneMotion.Proofs.Scene.Checking
import SceneMotion.Proofs.Scene.Loading

namespace SceneMotion

variable {α : Type} [Scalar α]

namespace Scene

variable {s s' s₁ s₂ s₁' s₂' : Scene α} {done done' : Entries α} {t : α}

def previousFrameOf (s : Scene α) (name : Text) : Option (Frame α) :=
  (s.member? name).map (·.previousFrame)

theorem Arrives.previousFrameOf_eq (h : Arrives s s' t) : s'.previousFrameOf = s'.frameOf := by
  funext name
  cases hm : s'.member? name
  case none   => simp [previousFrameOf, frameOf, hm]
  case some m => simpa [previousFrameOf, frameOf, hm, Member.Still] using h.still name m hm

-- Whoever follows a track is where it must be, given where those are that are updated before it. The
-- induction is on the place in the order of the first scene; the order of the second does not matter.
theorem Arrives.frameOf_unique (h₁ : Arrives s₁ s₁' t) (h₂ : Arrives s₂ s₂' t)
    (ht : s₂.trackOf = s₁.trackOf) (hf : ∀ name, s₁.trackOf name = none → s₂.frameOf name = s₁.frameOf name) :
    s₂'.frameOf = s₁'.frameOf := by
  have ht₁ := trackOf_eq_of_roles_eq h₁.roles
  have ht₂ := (trackOf_eq_of_roles_eq h₂.roles).trans ht
  funext name
  induction hi : s₁'.order.idxOf name using Nat.strong_induction_on generalizing name
  case h _ ih =>
    cases hn : s₁.trackOf name
    case none       => rw [h₂.stays name (ht ▸ hn), hf name hn, h₁.stays name hn]
    case some track =>
      have hn₁ : s₁'.trackOf name = some track := ht₁ ▸ hn
      have hn₂ : s₂'.trackOf name = some track := ht₂ ▸ hn
      rw [h₁.follows name track hn₁, h₂.follows name track hn₂, h₁.time, h₂.time]
      refine congrArg some (Track.frameAt_congr fun b hb => ?_)
      cases hbt : s₁.trackOf b
      case none   => rw [h₂.stays b (ht ▸ hbt), hf b hbt, h₁.stays b hbt]
      case some _ =>
        have hmem {a track} (ha : s₁.trackOf a = some track) : a ∈ s₁'.order :=
          h₁.keys (mem_keys_of_trackOf (ht₁ ▸ ha : s₁'.trackOf a = some track))
        have hlt := h₁.inOrder.before name (hmem hn) b (hmem hbt) ⟨track, hn₁, hb⟩
        exact ih _ (hi ▸ hlt) b rfl

namespace Loaded

theorem coversReads (h : Loaded s done) : s.CoversReads := by
  intro a b ⟨track, ht, hb⟩ _
  have ⟨d, r, hd⟩ := Entries.mem_loaded.mp (h.keys ▸ mem_keys_of_trackOf ht)
  rw [h.trackOf a d r hd] at ht
  exact (h.hasOrder a b).mpr ⟨d, r, hd, (EntityDescription.mentions_of_read hd.right).right track ht hb⟩

theorem arrives [LawfulZero α] (h : Loaded s done) (hn : (done.map (·.1)).Nodup)
    (he : (setTime t).exec s = (.ok (), s')) : Arrives s s' (t + 0) :=
  .of_setTime h.built h.named (h.order ▸ h.keys ▸ .refl _) (h.order_nodup hn) h.valid h.coversReads he

theorem member?_eq_none {name : Text} (h : Loaded s done) (hn : name ∉ done.loaded) :
    s.member? name = none :=
  Table.get?_eq_none_iff.mpr (h.keys ▸ hn)

section Perm

variable (h : Loaded s done) (h' : Loaded s' done') (hp : done'.Perm done)

include h h' hp

theorem trackOf_perm : s'.trackOf = s.trackOf := by
  funext name
  by_cases hn : name ∈ done.loaded
  case pos =>
    have ⟨d, r, hd⟩ := Entries.mem_loaded.mp hn
    rw [h.trackOf name d r hd, h'.trackOf name d r (hd.mono hp.symm.subset)]
  case neg =>
    have hn' := mt (Entries.loaded_perm hp).mem_iff.mp hn
    simp [Scene.trackOf, h.member?_eq_none hn, h'.member?_eq_none hn']

theorem frameOf_perm {name : Text} (ht : s.trackOf name = none) :
    s'.frameOf name = s.frameOf name := by
  by_cases hn : name ∈ done.loaded
  case pos =>
    have ⟨d, r, hd⟩ := Entries.mem_loaded.mp hn
    have hr : r.2 = none := (h.trackOf name d r hd).symm.trans ht
    rw [h.frameOf name d r hd hr, h'.frameOf name d r (hd.mono hp.symm.subset) hr]
  case neg =>
    have hn' := mt (Entries.loaded_perm hp).mem_iff.mp hn
    simp [Scene.frameOf, h.member?_eq_none hn, h'.member?_eq_none hn']

theorem hasOrder_perm (a b : Text) : s'.graph.hasOrder a b = s.graph.hasOrder a b := by
  rw [Bool.eq_iff_iff, h.hasOrder, h'.hasOrder]
  exact ⟨fun hm => hm.mono hp.subset, fun hm => hm.mono hp.symm.subset⟩

end Perm

end Loaded

theorem exec_loadDescription_perm [LawfulZero α] {d : Description α} {entities : Entries α}
    {report : LoadReport} (hn : d.names.Nodup) (hp : entities.Perm d.entities)
    (hl : (loadDescription d).exec s₁ = (.ok report, s₁')) (s₂ : Scene α) : ∃ report' s₂',
    (loadDescription { d with entities }).exec s₂ = (.ok report', s₂') ∧
      report'.name = report.name ∧ report'.loaded.Perm report.loaded ∧
      report'.skipped.Perm report.skipped ∧
      (∀ a b, s₂'.graph.hasOrder a b = s₁'.graph.hasOrder a b) ∧ s₂'.time = s₁'.time ∧
      s₂'.frameOf = s₁'.frameOf ∧ s₂'.previousFrameOf = s₁'.previousFrameOf := by
  have hn' : (entities.map (·.1)).Nodup := (hp.map _).nodup_iff.mpr hn
  cases exec_loadDescription hn s₁
  case inr he =>
    have ⟨_, _, he, _⟩ := he
    cases he.symm.trans hl
  case inl ho =>
    obtain ⟨t₁, _, ho, h₁, ha₁, hc⟩ := ho
    cases ho.symm.trans hl
    cases exec_loadDescription (d := { d with entities }) hn' s₂
    case inr he =>
      have ⟨_, _, _, hc', _⟩ := he
      exact absurd (hc'.mono hp.subset) hc
    case inl ho' =>
      have ⟨t₂, s₂', ho', h₂, ha₂, _⟩ := ho'
      have ha₁ := h₁.arrives hn ha₁
      have ha₂ := h₂.arrives hn' ha₂
      have hf := ha₁.frameOf_unique ha₂ (h₁.trackOf_perm h₂ hp) fun _ => h₁.frameOf_perm h₂ hp
      refine ⟨_, s₂', ho', rfl, Entries.loaded_perm hp, Entries.skipped_perm hp, fun a b => ?_,
        ha₂.time.trans ha₁.time.symm, hf, ?_⟩
      · rw [ha₁.graph, ha₂.graph, h₁.hasOrder_perm h₂ hp]
      · rw [ha₁.previousFrameOf_eq, ha₂.previousFrameOf_eq, hf]

-- What is reported comes in another order. Nothing else can be told apart, whatever was in the scenes
-- before.
theorem load_reordered [LawfulZero α] {fields fields' : List (Text × Value α)} {d : Description α}
    {report : LoadReport} (hr : Value.Reorders fields fields')
    (hv : (Value.object fields).checkDescription.toExcept = .ok d) (hn : d.names.Nodup)
    (hl : (load (.object fields)).exec s₁ = (.ok report, s₁')) (s₂ : Scene α) : ∃ report' s₂',
    (load (.object fields')).exec s₂ = (.ok report', s₂') ∧ report'.name = report.name ∧
      report'.loaded.Perm report.loaded ∧ report'.skipped.Perm report.skipped ∧
      (∀ a b, s₂'.graph.hasOrder a b = s₁'.graph.hasOrder a b) ∧ s₂'.time = s₁'.time ∧
      s₂'.frameOf = s₁'.frameOf ∧ s₂'.previousFrameOf = s₁'.previousFrameOf := by
  have ⟨entities, hv', hp⟩ := hr.checkDescription hv
  rw [load_of_description hv] at hl
  rw [load_of_description hv']
  exact exec_loadDescription_perm hn hp hl s₂

-- The camera follows the ship.
def pursuit : List (Text × Value Float) :=
  [(camera, .object [("track", following ship)]), (ship, .object [])]

def pursuitFields (entities : List (Text × Value Float)) : List (Text × Value Float) :=
  [("time", .number 3), ("entities", .object entities)]

theorem pursuit_reorders : Value.Reorders (pursuitFields pursuit) (pursuitFields pursuit.reverse) where
  others   := fun key hk => by simp [pursuitFields, List.lookup, beq_eq_false_iff_ne.mpr hk]
  entities := ⟨pursuit, pursuit.reverse, List.reverse_perm _, rfl, rfl⟩

def pursuitDescription : Description Float :=
  ⟨none, some 3, none, [
    (camera, ⟨none, some (.tuple "entity" [.text ship]), none⟩),
    (ship, ⟨none, none, none⟩)]⟩

theorem pursuit_checks :
    (Value.object (pursuitFields pursuit)).checkDescription.toExcept = .ok pursuitDescription := by
  rfl

theorem pursuit_not_cyclic : ¬pursuitDescription.entries.Cyclic := by
  have hf : ∀ a b, pursuitDescription.entries.Follows a b → a = camera ∧ b = ship := by
    intro a b ⟨⟨d, _, ⟨hd, _⟩, hb⟩, _⟩
    rcases hd with _ | ⟨_, _ | ⟨_, ⟨⟩⟩⟩
    case head      => exact ⟨rfl, List.mem_singleton.mp hb⟩
    case tail.head => cases hb
  intro ⟨a, ha⟩
  have ⟨_, hc, _⟩ := Relation.TransGen.head'_iff.mp ha
  have ⟨_, _, hs⟩ := Relation.TransGen.tail'_iff.mp ha
  have hne : camera ≠ ship := by decide
  exact hne ((hf _ _ hc).left.symm.trans (hf _ _ hs).right)

theorem load_pursuit : ∃ report s', (load (.object (pursuitFields pursuit))).exec
    (create {} ⟨0, 0⟩) = (.ok report, s') := by
  rw [load_of_description pursuit_checks]
  cases exec_loadDescription (d := pursuitDescription) (by decide) (create {} ⟨0, 0⟩)
  case inl ho =>
    have ⟨_, s', ho, _⟩ := ho
    exact ⟨_, s', ho⟩
  case inr he =>
    have ⟨_, _, _, hc, _⟩ := he
    exact absurd hc pursuit_not_cyclic

theorem load_pursuit_reversed : ∃ report s₁ report' s₂,
    (load (.object (pursuitFields pursuit))).exec (create {} ⟨0, 0⟩) = (.ok report, s₁) ∧
    (load (.object (pursuitFields pursuit.reverse))).exec (create {} ⟨0, 0⟩) = (.ok report', s₂) ∧
    report'.loaded.Perm report.loaded ∧ s₂.frameOf = s₁.frameOf := by
  have ⟨report, s₁, h⟩ := load_pursuit
  have ⟨report', s₂, h', _, hl, _, _, _, hf, _⟩ :=
    load_reordered pursuit_reorders pursuit_checks (by decide) h (create {} ⟨0, 0⟩)
  exact ⟨report, s₁, report', s₂, h, h', hl, hf⟩

end Scene
end SceneMotion
