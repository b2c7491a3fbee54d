import SceneMotion.Proofs.Track.Composition
import SceneMotion.Proofs.Scene.Pause

namespace SceneMotion
namespace Scene

section Steps

variable {α : Type} [Scalar α] {s s' : Scene α} {delta : Delta α} {name : Text} {track : Track α}

-- After a step everybody is where its track is then.
theorem frameOf_of_exec_step (hs : s.Reachable) (hc : s.CoversReads)
    (he : (step delta).exec s = (.ok (), s')) (ht : s.trackOf name = some track) :
    s'.frameOf name = some (track.frameAt s'.frameOf s'.time) := by
  obtain ⟨h, hv⟩ := Tidy.of_reachable_or (.inl hs)
  obtain ⟨order, log, rfl, hr, hk⟩ := h.exists_of_exec_step hc hv he
  refine hr.upToDate_advance delta name (hk (mem_keys_of_trackOf ht)) track ?_
  rw [trackOf_eq_of_roles_eq (roles_advance hr.named delta)]
  exact ht

end Steps

section Exact

variable {α : Type} [ExactRing α] {s s' : Scene α} {delta : Delta α}
variable {leader follower rider : Text} {inner outer : Frame α}

theorem frameOf_rider_of_exec_step (hs : s.Reachable) (hc : s.CoversReads)
    (he : (step delta).exec s = (.ok (), s')) (hf : s.trackOf follower = some (.entity leader inner))
    (hr : s.trackOf rider = some (.entity follower outer)) :
    s'.frameOf rider = some ((Track.entity leader (inner.mul outer)).frameAt s'.frameOf s'.time) := by
  rw [frameOf_of_exec_step hs hc he hr, Track.frameAt_entity_entity (frameOf_of_exec_step hs hc he hf)]

end Exact

section Cruise

variable {α : Type} [Scalar α] {inner outer : Frame α}

-- The camera comes after the ship, and the ship after the base.
def baseFirst : Graph :=
  ⟨[(camera, [ship]), (ship, [base])], [(ship, [camera]), (base, [ship])], 2⟩

def passenger (name : Text) (track : Track α) : Member α :=
  .entity (Entity.create name { track := some track } (fun _ => none) 0)

-- A camera on a ship that keeps its distance from a base in orbit. They have come in the reverse of the
-- order in which they are to be updated.
def cruise (inner outer : Frame α) : Scene α :=
  (create {} ⟨0, 1⟩).after <|
    [.editGraph (.set camera ship), .editGraph (.set ship base)] ++
    [passenger camera (.entity ship outer), passenger ship (.entity base inner),
      passenger base (.orbit 1 4)].map .insert

theorem cruise_reachable : (cruise inner outer).Reachable :=
  ⟨_, _, _, rfl⟩

theorem cruise_eq : (cruise inner outer).order = [camera, ship, base] ∧
    (cruise inner outer).roles = [(camera, camera, some (.entity ship outer)),
      (ship, ship, some (.entity base inner)), (base, base, some (.orbit 1 4))] ∧
    (cruise inner outer).graph = baseFirst := by
  have h := (Coherent.create (α := α) {} ⟨0, 1⟩).after
    [.editGraph (.set camera ship), .editGraph (.set ship base)]
  have hn : [camera, ship, base].Nodup := by decide
  have ⟨ho, hr, hg⟩ := h.after_insert [passenger camera (.entity ship outer),
    passenger ship (.entity base inner), passenger base (.orbit 1 4)] hn
  rw [← after_append] at ho hr hg
  exact ⟨ho, hr, hg⟩

theorem cruise_trackOf_ship : (cruise inner outer).trackOf ship = some (.entity base inner) := by
  rw [trackOf_eq, cruise_eq.right.left]
  rfl

theorem cruise_trackOf_camera : (cruise inner outer).trackOf camera = some (.entity ship outer) := by
  rw [trackOf_eq, cruise_eq.right.left]
  rfl

theorem cruise_trackOf_base : (cruise inner outer).trackOf base = some (.orbit 1 4) := by
  rw [trackOf_eq, cruise_eq.right.left]
  rfl

theorem cruise_coversReads : (cruise inner outer).CoversReads := by
  have hk : (cruise inner outer).members.keys = [camera, ship, base] := by
    rw [← keys_roles, cruise_eq.right.left]
    rfl
  refine coversReads_of_keys fun a ha b hb => ?_
  rw [cruise_eq.right.right]
  rw [hk] at ha
  simp only [List.mem_cons, List.not_mem_nil, or_false] at ha
  obtain rfl | rfl | rfl := ha
  · rw [cruise_trackOf_camera] at hb
    cases List.mem_singleton.mp hb
    decide
  · rw [cruise_trackOf_ship] at hb
    cases List.mem_singleton.mp hb
    decide
  · rw [cruise_trackOf_base] at hb
    exact absurd hb List.not_mem_nil

theorem exec_step_cruise (inner outer : Frame α) (delta : Delta α) :
    ∃ s', (step delta).exec (cruise inner outer) = (.ok (), s') := by
  have h : Coherent (cruise inner outer) := (Coherent.create ..).after _
  have hv : UpdateOrder.Valid (cruise inner outer).graph [base, ship, camera] := by
    rw [cruise_eq.right.right, UpdateOrder.Valid]
    decide
  have hp : [base, ship, camera].Perm (cruise inner outer).order := by
    rw [cruise_eq.left]
    decide
  obtain ⟨_, hs⟩ := h.exists_exec_sort (hv.not_cyclic hp)
  exact ⟨_, exec_step_of_sort hs⟩

end Cruise

-- Of somebody who is followed it is asked only that they are where their own track is, as they are after
-- each step.
theorem frames_compose_like_maps {α : Type} [ExactRing α] :
    (∀ (m : Mat3 α) (i j : Fin 3), m.toList[3 * j.val + i.val]? = some (m.toMatrix i j)) ∧
    (∀ (a b : Frame α) (p : Vec3 α),
      (a.apply p).coords = a.rotation.toMatrix.mulVec p.coords + a.translation.coords ∧
      (a.mul b).rotation.toMatrix = a.rotation.toMatrix * b.rotation.toMatrix ∧
      (a.mul b).apply p = a.apply (b.apply p)) ∧
    (∀ a b c : Frame α, (a.mul b).mul c = a.mul (b.mul c)) ∧
    (∀ a : Frame α, Frame.identity.mul a = a ∧ a.mul .identity = a) ∧
    (∀ (x y z : Track α) (frameOf : Text → Option (Frame α)) (t : α),
      ((x.transform y).transform z).frameAt frameOf t =
        (x.transform (y.transform z)).frameAt frameOf t) ∧
    (∀ (owner : Text) (x y z : Expr α),
      (Track.ofExpr owner (Track.transformExpr (Track.transformExpr x y) z)).result.map Track.frames =
        (Track.ofExpr owner (Track.transformExpr x (Track.transformExpr y z))).result.map Track.frames) ∧
    (∀ (frameOf : Text → Option (Frame α)) (t : α) (leader follower : Text) (inner outer : Frame α),
      frameOf follower = some ((Track.entity leader inner).frameAt frameOf t) →
      (Track.entity follower outer).frameAt frameOf t =
        (Track.entity leader (inner.mul outer)).frameAt frameOf t) ∧
    (∀ (s s' : Scene α) (delta : Delta α) (leader follower rider : Text) (inner outer : Frame α),
      s.Reachable → s.CoversReads → (step delta).exec s = (.ok (), s') →
      s.trackOf follower = some (.entity leader inner) →
      s.trackOf rider = some (.entity follower outer) →
      s'.frameOf rider =
        some ((Track.entity leader (inner.mul outer)).frameAt s'.frameOf s'.time)) := by
  refine ⟨?columns, ?maps, ?assoc, ?unit, ?transforms, Track.ofExpr_transform_assoc, ?lookups, ?steps⟩
  case columns    => exact fun m => Mat3.getElem?_toList
  case maps       => exact fun a b p => ⟨Frame.coords_apply, Mat3.toMatrix_mul, Frame.apply_mul⟩
  case assoc      => exact fun a b c => Frame.mul_assoc
  case unit       => exact fun a => ⟨Frame.identity_mul, Frame.mul_identity⟩
  case transforms => exact fun x y z frameOf t => Track.frameAt_transform_assoc x y z
  case lookups =>
    intro frameOf t leader follower inner outer h
    exact Track.frameAt_entity_entity h
  case steps =>
    intro s s' delta leader follower rider inner outer hs hc he hf hr
    exact frameOf_rider_of_exec_step hs hc he hf hr

-- A quarter turn about Z and a shift along X.
def quarter : Frame ℝ :=
  ⟨.ofRows ⟨0, -1, 0⟩ ⟨1, 0, 0⟩ ⟨0, 0, 1⟩, ⟨1, 0, 0⟩⟩

theorem quarter_mul :
    quarter.mul (.ofTranslation ⟨2, 0, 0⟩) = ⟨quarter.rotation, ⟨1, 2, 0⟩⟩ := by
  simp [quarter, Frame.mul, Frame.apply, Frame.ofTranslation, Mat3.mul, Mat3.apply, Mat3.ofRows,
    Mat3.identity, Vec3.unitX, Vec3.unitY, Vec3.unitZ, Vec3.add]

-- Two along X before the turn are two along Y after it.
theorem frames_compose_cruise :
    ∃ s', (step (.by 1)).exec (cruise quarter (.ofTranslation ⟨2, 0, 0⟩)) = (.ok (), s') ∧
      s'.frameOf camera =
        some ((Track.entity base ⟨quarter.rotation, ⟨1, 2, 0⟩⟩).frameAt s'.frameOf s'.time) ∧
      (Track.entity ship (.ofTranslation ⟨2, 0, 0⟩)).frameAt s'.frameOf s'.time =
        (Track.entity base ⟨quarter.rotation, ⟨1, 2, 0⟩⟩).frameAt s'.frameOf s'.time := by
  have ⟨s', he⟩ := exec_step_cruise quarter (.ofTranslation ⟨2, 0, 0⟩) (.by 1)
  have ⟨_, _, _, _, _, _, lookups, steps⟩ := frames_compose_like_maps (α := ℝ)
  have hs := frameOf_of_exec_step cruise_reachable cruise_coversReads he cruise_trackOf_ship
  rw [← quarter_mul]
  exact ⟨s', he,
    steps _ _ _ _ _ _ _ _ cruise_reachable cruise_coversReads he cruise_trackOf_ship cruise_trackOf_camera,
    lookups _ _ _ _ _ _ hs⟩

end Scene
end SceneMotion
