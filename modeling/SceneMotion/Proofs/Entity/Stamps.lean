import SceneMotion.Proofs.Double
import SceneMotion.Proofs.Scene.Members

namespace SceneMotion

variable {α : Type} [Scalar α]

theorem Vec3.same_equivalence [LawfulSame α] : Equivalence fun a b : Vec3 α => a.same b := by
  have ⟨hr, hs, ht⟩ := LawfulSame.equivalence (α := α)
  simp only [Vec3.same, Bool.and_eq_true]
  exact ⟨fun a => ⟨⟨hr a.x, hr a.y⟩, hr a.z⟩, fun ⟨⟨hx, hy⟩, hz⟩ => ⟨⟨hs hx, hs hy⟩, hs hz⟩,
    fun ⟨⟨hx, hy⟩, hz⟩ ⟨⟨hx', hy'⟩, hz'⟩ => ⟨⟨ht hx hx', ht hy hy'⟩, ht hz hz'⟩⟩

theorem Mat3.same_equivalence [LawfulSame α] : Equivalence fun a b : Mat3 α => a.same b := by
  have ⟨hr, hs, ht⟩ := Vec3.same_equivalence (α := α)
  simp only [Mat3.same, Bool.and_eq_true]
  exact ⟨fun a => ⟨⟨hr a.x, hr a.y⟩, hr a.z⟩, fun ⟨⟨hx, hy⟩, hz⟩ => ⟨⟨hs hx, hs hy⟩, hs hz⟩,
    fun ⟨⟨hx, hy⟩, hz⟩ ⟨⟨hx', hy'⟩, hz'⟩ => ⟨⟨ht hx hx', ht hy hy'⟩, ht hz hz'⟩⟩

namespace Frame

variable [LawfulSame α] {f g h : Frame α}

theorem same_equivalence : Equivalence fun f g : Frame α => f.same g := by
  have ⟨hr, hs, ht⟩ := Mat3.same_equivalence (α := α)
  have ⟨hr', hs', ht'⟩ := Vec3.same_equivalence (α := α)
  simp only [Frame.same, Bool.and_eq_true]
  exact ⟨fun f => ⟨hr f.rotation, hr' f.translation⟩, fun ⟨h, h'⟩ => ⟨hs h, hs' h'⟩,
    fun ⟨h, h'⟩ ⟨k, k'⟩ => ⟨ht h k, ht' h' k'⟩⟩

theorem same_refl (f : Frame α) : f.same f :=
  same_equivalence.refl f

theorem same_symm (h : f.same g) : g.same f :=
  same_equivalence.symm h

theorem same_trans (hf : f.same g) (hg : g.same h) : f.same h :=
  same_equivalence.trans hf hg

end Frame

namespace Entity

-- What can happen to an entity. A step finds the others in certain frames, and the clock is not the
-- entity's own.
inductive Action (α : Type) [Scalar α]
  | setFrame (f : Frame α) (updatePrevious : Bool)
  | setTrack (track : Option (Track α))
  | setSpline (curve : Spline α)
  | simulate (frameOf : Text → Option (Frame α)) (time : α) (delta : Delta α)
  | setClock (clock : Clock α)

namespace Action

def perform (s : Entity α × Clock α) : Action α → Entity α × Clock α
  | setFrame f updatePrevious   => s.1.setFrame f updatePrevious s.2
  | setTrack track              => (s.1.setTrack track, s.2)
  | setSpline curve             => (s.1.setSpline curve, s.2)
  | simulate frameOf time delta => s.1.simulate frameOf time delta s.2
  | setClock clock              => (s.1, clock)

def isStep : Action α → Bool
  | simulate .. => true
  | _           => false

-- Whether the entity is stamped with a reading of the clock.
def stamps (e : Entity α) : Action α → Bool
  | setFrame f _ => !e.frame.same f
  | simulate ..  => !e.frame.same e.previousFrame
  | _            => false

-- Whether the entity is put where it is, as if it had been there before.
def conceals (e : Entity α) : Action α → Bool
  | setFrame f updatePrevious => updatePrevious && e.frame.same f
  | _                         => false

-- Whether a step takes the entity too far along its track for a motion.
def teleports (e : Entity α) : Action α → Bool
  | simulate frameOf time delta => e.track.any fun track =>
      decide (e.teleportDistance * e.teleportDistance <
        (e.carry delta).previousFrame.squaredDistance (track.frameAt frameOf time))
  | _ => false

end Action

-- An entity and its clock after some actions.
def after (s : Entity α × Clock α) (actions : List (Action α)) : Entity α × Clock α :=
  actions.foldl (fun s action => action.perform s) s

-- The clock has been read in one of the actions, and the entity still bears that reading.
def BearsReading (s : Entity α × Clock α) (actions : List (Action α)) : Prop :=
  ∃ earlier action later, actions = earlier ++ action :: later ∧
    action.stamps (after s earlier).1 ∧
    (after s actions).1.lastChangeTime = (after s earlier).2.read.value

-- An action has moved an entity, and when the next step comes nothing tells it so: it was a step from
-- rest, either a teleport or concealed since, and nobody has moved the entity on.
structure Unnoticed (s : Entity α × Clock α) (action : Action α) (between : List (Action α)) :
    Prop where
  step   : action.isStep
  rest   : s.1.frame.same s.1.previousFrame
  hidden : action.teleports s.1 ∨ ∃ a ∈ between, a.conceals (action.perform s).1
  still  : ∀ a ∈ between, a.stamps (action.perform s).1 = false

variable {s : Entity α × Clock α} {action step : Action α} {actions between later : List (Action α)}

theorem simulate_lastChangeTime (e : Entity α) (frameOf : Text → Option (Frame α)) (time : α)
    (delta : Delta α) (clock : Clock α) :
    (e.simulate frameOf time delta clock).1.lastChangeTime = (e.stamp clock).1.lastChangeTime := by
  have ⟨_, hc⟩ := (e.stamp clock).1.carry_eq delta
  have ⟨_, hf⟩ := ((e.stamp clock).1.carry delta).follow_eq frameOf time
  change (((e.stamp clock).1.carry delta).follow frameOf time).lastChangeTime = _
  rw [hf, hc]

section

variable [LawfulSame α] {e : Entity α}

theorem carry_rest (delta : Delta α) (h : e.frame.same e.previousFrame) :
    e.frame.same (e.carry delta).previousFrame := by
  rw [carry]
  split
  case isTrue  => exact e.frame.same_refl
  case isFalse => exact h

-- A move along the track from rest leaves an entity at rest if it was a teleport and not otherwise.
theorem follow_rest_iff {frameOf : Text → Option (Frame α)} {time : α} {delta : Delta α}
    (h : e.frame.same (e.carry delta).previousFrame)
    (hm : e.frame.same ((e.carry delta).follow frameOf time).frame = false) :
    ((e.carry delta).follow frameOf time).frame.same
        ((e.carry delta).follow frameOf time).previousFrame ↔
      (Action.simulate frameOf time delta).teleports e := by
  have ⟨previousFrame, hc⟩ := e.carry_eq delta
  simp only [Action.teleports, hc] at h hm ⊢
  cases ht : e.track
  case none =>
    simp only [follow, ht, Frame.same_refl] at hm
    cases hm
  case some track =>
    by_cases hd : e.teleportDistance * e.teleportDistance <
        previousFrame.squaredDistance (track.frameAt frameOf time)
    · simp [follow, hd, Frame.same_refl]
    · have hf : (track.frameAt frameOf time).same previousFrame = false := by
        rw [Bool.eq_false_iff]
        intro hs
        simp [follow, ht, hd, Frame.same_trans h (Frame.same_symm hs)] at hm
      simp [follow, hd, hf]

end

namespace Action

theorem perform_lastChangeTime : (action.perform s).1.lastChangeTime =
    if action.stamps s.1 then s.2.read.value else s.1.lastChangeTime := by
  cases action
  case setFrame f updatePrevious =>
    cases updatePrevious <;> cases h : s.1.frame.same f <;>
      simp [perform, Entity.setFrame, stamps, h]
  case simulate frameOf time delta =>
    rw [perform, simulate_lastChangeTime, stamp]
    cases h : s.1.frame.same s.1.previousFrame <;> simp [stamps, h]
  all_goals rfl

-- Between steps an entity is at another place only if it has been stamped.
theorem perform_frame (ha : action.isStep = false) (h : action.stamps s.1 = false) :
    (action.perform s).1.frame = s.1.frame := by
  cases action <;> simp only [stamps, Bool.not_eq_false'] at h
  case setFrame f updatePrevious =>
    cases updatePrevious <;> simp [perform, Entity.setFrame, h]
  case simulate => cases ha
  all_goals rfl

theorem stamps_congr {e e' : Entity α} (ha : action.isStep = false) (h : e'.frame = e.frame) :
    action.stamps e' = action.stamps e := by
  cases action
  case setFrame => simp only [stamps, h]
  case simulate => cases ha
  all_goals rfl

theorem conceals_congr {e e' : Entity α} (h : e'.frame = e.frame) :
    action.conceals e' = action.conceals e := by
  cases action
  case setFrame => simp only [conceals, h]
  all_goals rfl

variable [LawfulSame α]

theorem perform_rest (ha : action.isStep = false) (h : action.stamps s.1 = false) :
    (action.perform s).1.frame.same (action.perform s).1.previousFrame ↔
      s.1.frame.same s.1.previousFrame ∨ action.conceals s.1 := by
  cases action <;> simp only [stamps, Bool.not_eq_false'] at h
  case setFrame f updatePrevious =>
    cases updatePrevious <;>
      simp [perform, Entity.setFrame, conceals, h, Frame.same_refl]
  case simulate => cases ha
  all_goals simp [perform, conceals, Entity.setTrack, Entity.setSpline]

theorem perform_rest_iff_teleports (h : action.stamps s.1 = false)
    (hm : s.1.frame.same (action.perform s).1.frame = false) :
    action.isStep ∧ s.1.frame.same s.1.previousFrame ∧
      ((action.perform s).1.frame.same (action.perform s).1.previousFrame ↔ action.teleports s.1) := by
  cases action
  case simulate frameOf time delta =>
    have hr : s.1.frame.same s.1.previousFrame := by simpa [stamps] using h
    have hc := s.1.carry_rest delta hr
    have hp : (perform s (simulate frameOf time delta)).1 =
        { (s.1.carry delta).follow frameOf time with movedSinceStep := false } := by
      simp [perform, Entity.simulate, stamp, hr]
    rw [hp] at hm ⊢
    exact ⟨rfl, hr, follow_rest_iff hc hm⟩
  all_goals
    rw [perform_frame rfl h, Frame.same_refl] at hm
    cases hm

end Action

-- Whether an entity is stamped in one of the actions.
def isStamped (s : Entity α × Clock α) : List (Action α) → Bool
  | []                => false
  | action :: actions => action.stamps s.1 || isStamped (action.perform s) actions

theorem after_append : after s (actions ++ later) = after (after s actions) later :=
  List.foldl_append

theorem isStamped_append :
    isStamped s (actions ++ later) = (isStamped s actions || isStamped (after s actions) later) := by
  induction actions generalizing s
  case nil            => rfl
  case cons _ rest ih => simp only [List.cons_append, isStamped, ih, Bool.or_assoc]; rfl

theorem isStamped_of_split (h : action.stamps (after s actions).1) :
    isStamped s (actions ++ action :: later) := by
  rw [isStamped_append]
  simp only [isStamped, h, Bool.true_or, Bool.or_true]

theorem lastChangeTime_of_not_isStamped (h : isStamped s actions = false) :
    (after s actions).1.lastChangeTime = s.1.lastChangeTime := by
  induction actions generalizing s
  case nil => rfl
  case cons a rest ih =>
    obtain ⟨ha, hr⟩ := Bool.or_eq_false_iff.mp h
    refine (ih hr).trans ?_
    rw [Action.perform_lastChangeTime, ha]
    rfl

-- What an entity bears is the reading of its latest stamp.
theorem bearsReading_iff_isStamped : BearsReading s actions ↔ isStamped s actions := by
  constructor
  case mp =>
    rintro ⟨earlier, a, later, rfl, ha, -⟩
    exact isStamped_of_split ha
  case mpr =>
    intro h
    induction actions using List.reverseRecOn
    case nil => cases h
    case append_singleton init a ih =>
      have hafter : after s (init ++ [a]) = a.perform (after s init) := after_append
      by_cases ha : a.stamps (after s init).1
      · refine ⟨init, a, [], rfl, ha, ?_⟩
        rw [hafter, Action.perform_lastChangeTime, if_pos ha]
      · rw [isStamped_append] at h
        simp only [isStamped, ha, Bool.or_false] at h
        obtain ⟨earlier, b, later, rfl, hb, ht⟩ := ih h
        refine ⟨earlier, b, later ++ [a], by simp, hb, ?_⟩
        rw [← ht, hafter, Action.perform_lastChangeTime, if_neg ha]

theorem isStamped_of_no_step (h : ∀ a ∈ between, a.isStep = false) :
    isStamped s between ↔ ∃ a ∈ between, a.stamps s.1 := by
  induction between generalizing s
  case nil => simp [isStamped]
  case cons a rest ih =>
    have ⟨ha, hr⟩ := List.forall_mem_cons.mp h
    rw [isStamped, Bool.or_eq_true, ih hr, List.exists_mem_cons_iff]
    by_cases hs : a.stamps s.1
    · simp only [hs, true_or]
    · have hf := Action.perform_frame ha (by simpa using hs)
      simp only [hs, Bool.false_eq_true, false_or]
      exact exists_congr fun b => and_congr_right fun hb => by
        rw [Action.stamps_congr (hr b hb) hf]

-- What is left of a motion until the next step, if the entity is not moved on.
theorem rest_after_iff [LawfulSame α] (h : ∀ a ∈ between, a.isStep = false)
    (hs : ∀ a ∈ between, a.stamps s.1 = false) :
    (after s between).1.frame.same (after s between).1.previousFrame ↔
      s.1.frame.same s.1.previousFrame ∨ ∃ a ∈ between, a.conceals s.1 := by
  induction between generalizing s
  case nil => simp [after]
  case cons a rest ih =>
    have ⟨ha, hr⟩ := List.forall_mem_cons.mp h
    have ⟨hsa, hsr⟩ := List.forall_mem_cons.mp hs
    have hf := Action.perform_frame ha hsa
    have hsr' : ∀ b ∈ rest, b.stamps (a.perform s).1 = false := fun b hb =>
      (Action.stamps_congr (hr b hb) hf).trans (hsr b hb)
    rw [List.exists_mem_cons_iff, ← or_assoc, ← Action.perform_rest ha hsa]
    simp only [← Action.conceals_congr hf]
    exact ih hr hsr'

theorem Unnoticed.not_stamps (h : Unnoticed s action between) : action.stamps s.1 = false := by
  have hs := h.step
  cases action
  case simulate => simp only [Action.stamps, h.rest, Bool.not_true]
  all_goals cases hs

-- From a move to the end of the next step, an entity is stamped if there is anything to be noticed.
theorem isStamped_iff_noticed [LawfulSame α]
    (hm : s.1.frame.same (action.perform s).1.frame = false)
    (hb : ∀ a ∈ between, a.isStep = false) (hs : step.isStep) :
    isStamped s (action :: (between ++ [step])) ↔ ¬Unnoticed s action between := by
  have hstep : ∀ e : Entity α, step.stamps e = !e.frame.same e.previousFrame := by
    cases step <;> first | exact fun _ => rfl | cases hs
  rw [isStamped, isStamped_append, Bool.or_eq_true, Bool.or_eq_true, isStamped_of_no_step hb]
  simp only [isStamped, Bool.or_false, hstep]
  constructor
  case mp =>
    intro h hu
    have ⟨_, _, ht⟩ := Action.perform_rest_iff_teleports hu.not_stamps hm
    have hr := (rest_after_iff hb hu.still).mpr (hu.hidden.imp_left ht.mpr)
    rcases h with ha | ⟨a, hab, ha⟩ | ha
    · simp [hu.not_stamps] at ha
    · simp [hu.still a hab] at ha
    · simp [hr] at ha
  case mpr =>
    intro hn
    by_contra h
    simp only [not_or, not_exists, not_and, Bool.not_eq_true, Bool.not_eq_false'] at h
    obtain ⟨ha, hq, hr⟩ := h
    have ⟨hi, hrest, ht⟩ := Action.perform_rest_iff_teleports ha hm
    exact hn ⟨hi, hrest, ((rest_after_iff hb hq).mp hr).imp_left ht.mp, hq⟩

-- Whatever an entity does, its move is dated at the end of any later step by a reading of the clock
-- from the move or after it, unless nothing told the step after the move of it; then it still bears
-- what it bore before the move, until it is stamped for another reason.
theorem change_stamped_iff [LawfulSame α]
    (hm : s.1.frame.same (action.perform s).1.frame = false)
    (hb : ∀ a ∈ between, a.isStep = false) (hs : step.isStep) :
    (BearsReading s (action :: (between ++ step :: later)) ↔
      ¬Unnoticed s action between ∨
        BearsReading (after s (action :: (between ++ [step]))) later) ∧
    (Unnoticed s action between →
      (after s (action :: (between ++ [step]))).1.lastChangeTime = s.1.lastChangeTime) := by
  have hn := isStamped_iff_noticed hm hb hs
  have hsplit : action :: (between ++ step :: later) = action :: (between ++ [step]) ++ later := by
    simp
  constructor
  · rw [hsplit, bearsReading_iff_isStamped, isStamped_append, Bool.or_eq_true, hn,
      bearsReading_iff_isStamped]
  · intro hu
    exact lastChangeTime_of_not_isStamped (Bool.eq_false_iff.mpr fun h => hn.mp h hu)

-- A camera at the origin, on its way to a place that far off.
def departing (distance : Float) : Entity Float × Clock Float :=
  after (create "Camera" {} (fun _ => none) 1, ⟨1, 1⟩)
    [.setTrack (some (.entity "Ship" (.ofTranslation ⟨distance, 0, 0⟩)))]

def onward : Action Float :=
  .simulate (fun _ => none) 0 (.by 1)

theorem change_stamped_departing :
    (departing 1).1.frame.same (onward.perform (departing 1)).1.frame = false ∧
      (∀ a ∈ [.setTrack none], Action.isStep (α := Float) a = false) ∧ onward.isStep ∧
      BearsReading (departing 1) [onward, .setTrack none, onward] := by
  have hm : (departing 1).1.frame.same (onward.perform (departing 1)).1.frame = false := by
    decide +kernel
  have hb : ∀ a ∈ [.setTrack none], Action.isStep (α := Float) a = false := by simp [Action.isStep]
  have hn : ¬Unnoticed (departing 1) onward [.setTrack none] := fun hu =>
    absurd hu.hidden (by decide +kernel)
  have hd : BearsReading (departing 1) (onward :: ([.setTrack none] ++ onward :: [])) :=
    (change_stamped_iff hm hb rfl).1.mpr (.inl hn)
  exact ⟨hm, hb, rfl, hd⟩

-- A camera that arrives at once is never dated.
theorem change_not_stamped :
    ¬∀ (s : Entity Float × Clock Float) (name : Text) (o : Options Float)
      (frameOf : Text → Option (Frame Float)) (clock : Clock Float)
      (earlier between : List (Action Float)) (action step : Action Float),
      s = after (create name o frameOf clock.read.value, clock.read) earlier →
      s.1.frame.same (action.perform s).1.frame = false → step.isStep →
      BearsReading s (action :: (between ++ [step])) := by
  intro h
  have hb := h (departing 30) "Camera" {} (fun _ => none) ⟨0, 1⟩ _ [] onward onward rfl
    (by decide +kernel) rfl
  rw [bearsReading_iff_isStamped] at hb
  exact absurd hb (by decide +kernel)

end Entity
end SceneMotion
