import SceneMotion.Proofs.Frame
import SceneMotion.Proofs.Track.Meaning

namespace SceneMotion.Track

section Compile

variable {α : Type} [Scalar α]

-- Where a track is at all times, whoever is where.
def frames (track : Track α) : (Text → Option (Frame α)) → α → Frame α :=
  fun frameOf t => track.frameAt frameOf t

def transformExpr (a b : Expr α) : Expr α :=
  .tuple "transform" [a, b]

theorem compile_transformExpr (owner : Text) (vars : Variables (Track α)) (a b : Expr α) :
    compile owner vars (transformExpr a b) =
      do return transform (← compile owner vars a) (← compile owner vars b) := by
  have hl : (transformExpr a b).isFrameLiteral = false := rfl
  have hf : forms.get? "transform" = some .transform := rfl
  rw [transformExpr] at hl ⊢
  rw [compile, hl, if_neg Bool.false_ne_true, hf]
  simp only [compileForm]

-- The parts of two transforms, one after the other.
def compileThree (owner : Text) (vars : Variables (Track α)) (x y z : Expr α) :
    CompileM (Track α × Track α × Track α) :=
  do return (← compile owner vars x, ← compile owner vars y, ← compile owner vars z)

theorem compile_transformExpr_left (owner : Text) (vars : Variables (Track α)) (x y z : Expr α) :
    compile owner vars (transformExpr (transformExpr x y) z) =
      (fun parts => (parts.1.transform parts.2.1).transform parts.2.2) <$> compileThree owner vars x y z := by
  simp only [compile_transformExpr, compileThree, bind_assoc, pure_bind, map_bind, map_pure]

theorem compile_transformExpr_right (owner : Text) (vars : Variables (Track α)) (x y z : Expr α) :
    compile owner vars (transformExpr x (transformExpr y z)) =
      (fun parts => parts.1.transform (parts.2.1.transform parts.2.2)) <$> compileThree owner vars x y z := by
  simp only [compile_transformExpr, compileThree, bind_assoc, pure_bind, map_bind, map_pure]

theorem ofExpr_result {β : Type} {owner : Text} {e : Expr α} {f : β → Track α} {parts : CompileM β}
    (h : compile owner .empty e = f <$> parts) :
    (ofExpr owner e).result = (parts.run.run ⟨0, []⟩).1.map fun b => (f b).core := by
  rw [ofExpr, h, ExceptT.run_map, StateT.run_map]
  rcases parts.run.run ⟨0, []⟩ with ⟨_ | _, _⟩ <;> rfl

end Compile

variable {α : Type} [ExactRing α] {frameOf : Text → Option (Frame α)} {t : α}
variable {leader follower : Text} {inner outer : Frame α}

theorem frameAt_transform_assoc (x y z : Track α) :
    ((x.transform y).transform z).frameAt frameOf t = (x.transform (y.transform z)).frameAt frameOf t :=
  Frame.mul_assoc

theorem frames_transform_assoc (x y z : Track α) :
    ((x.transform y).transform z).frames = (x.transform (y.transform z)).frames :=
  funext fun _ => funext fun _ => frameAt_transform_assoc x y z

-- Either both expressions are compiled or neither is, for the same reason.
theorem ofExpr_transform_assoc (owner : Text) (x y z : Expr α) :
    (ofExpr owner (transformExpr (transformExpr x y) z)).result.map frames =
      (ofExpr owner (transformExpr x (transformExpr y z))).result.map frames := by
  rw [ofExpr_result (compile_transformExpr_left owner .empty x y z),
    ofExpr_result (compile_transformExpr_right owner .empty x y z)]
  cases ((compileThree owner .empty x y z).run.run ⟨0, []⟩).1
  case error    => rfl
  case ok parts => exact congrArg Except.ok (frames_transform_assoc ..)

-- Whoever is not there has no frame to be multiplied with.
theorem frameAt_entity_entity (h : frameOf follower = some ((entity leader inner).frameAt frameOf t)) :
    (entity follower outer).frameAt frameOf t = (entity leader (inner.mul outer)).frameAt frameOf t := by
  simp only [frameAt, entity, Motion.frameAt] at h ⊢
  rw [h]
  cases frameOf leader
  case none   => rfl
  case some f => exact Frame.mul_assoc

end SceneMotion.Track
