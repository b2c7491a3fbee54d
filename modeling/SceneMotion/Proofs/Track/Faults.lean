import SceneMotion.Track.Compile

namespace SceneMotion

variable {α : Type} [Scalar α]

-- A failure names the tag or the name at fault.
def Blames (r : Except TrackError β) : Prop :=
  ∀ e, r = .error e → e.tag?.isSome

namespace Blames

variable {r : Except TrackError β} {f : β → Except TrackError γ} {b : β} {e : TrackError}

theorem ok : Blames (.ok b) :=
  nofun

theorem error (h : e.tag?.isSome) : Blames (.error e : Except _ β) := by
  rintro _ ⟨⟩
  exact h

theorem invalid {tag : Text} {fault : ArgumentFault} :
    Blames (.error (.invalidArgument tag fault) : Except _ β) :=
  error rfl

theorem bind (hr : Blames r) (hf : ∀ b, Blames (f b)) : Blames (r >>= f) := by
  cases r
  case ok b  => exact hf b
  case error =>
    rintro _ ⟨⟩
    exact hr _ rfl

theorem mapError {h : SplineError → TrackError} {r : Except SplineError β}
    (hh : ∀ e, (h e).tag?.isSome) : Blames (r.mapError h) := by
  cases r
  case error e => exact error (hh e)
  case ok      => exact ok

theorem foldlM {f : γ → δ → Except TrackError γ} (hf : ∀ c d, Blames (f c d)) (items : List δ) (c : γ) :
    Blames (items.foldlM f c) := by
  induction items generalizing c
  case nil          => exact ok
  case cons d _ hi  => exact (hf c d).bind fun c => hi c

theorem mapM {f : γ → Except TrackError δ} (hf : ∀ c, Blames (f c)) (items : List γ) :
    Blames (items.mapM f) := by
  induction items
  case nil         => exact ok
  case cons c _ hi =>
    rw [List.mapM_cons]
    exact (hf c).bind fun _ => hi.bind fun _ => ok

end Blames

namespace Expr

variable {tag : Text} {e : Expr α} {args : List (Expr α)}

theorem expectNumber_blames {what : Text} : Blames (e.expectNumber tag what) := by
  fun_cases expectNumber tag what e
  · exact .ok
  · exact .invalid
  · exact .invalid

theorem expectNumbersFrom_blames {noun : Text} (place : Nat) :
    Blames (expectNumbersFrom tag noun place args) := by
  induction args generalizing place
  case nil         => exact .ok
  case cons e _ hi => exact expectNumber_blames.bind fun _ => (hi _).bind fun _ => .ok

theorem expectArgs_blames {least most : Nat} : Blames (expectArgs tag args least most) := by
  fun_cases expectArgs tag args least most
  · exact .invalid
  · exact expectNumbersFrom_blames 1

theorem expectVector_blames : Blames (expectVector tag args) :=
  expectArgs_blames.bind fun _ => .ok

theorem toVector_blames : Blames e.toVector := by
  fun_cases toVector e
  · exact expectVector_blames
  · exact expectVector_blames
  · exact .invalid
  · exact .invalid

theorem toQuat_blames : Blames (toQuat args) := by
  refine expectArgs_blames.bind fun xs => ?_
  extract_lets q normalized
  split
  · exact Blames.invalid.bind fun _ => .ok
  · exact .ok

theorem frameOfForm_blames (form : Literal.Form) : Blames (frameOfForm tag args form) := by
  fun_cases frameOfForm tag args form
  · exact expectVector_blames.bind fun _ => .ok
  · exact expectVector_blames.bind fun _ => .ok
  · exact expectArgs_blames.bind fun _ => .ok
  · exact .ok
  · exact .invalid
  · exact toVector_blames.bind fun _ => expectNumber_blames.bind fun _ => .ok
  · exact .invalid
  · exact expectArgs_blames.bind fun _ => .ok
  · exact expectArgs_blames.bind fun _ => .ok
  · exact expectArgs_blames.bind fun _ => .ok

theorem frameOfTag_blames : Blames (frameOfTag tag args) := by
  fun_cases frameOfTag tag args
  · exact frameOfForm_blames _
  · exact .error rfl

theorem toRotation_blames : Blames e.toRotation := by
  fun_cases toRotation e
  · exact toQuat_blames.bind fun _ => .ok
  · exact frameOfTag_blames.bind fun _ => .ok
  · exact .invalid
  · exact .invalid

theorem frameOfTuple_blames : Blames (frameOfTuple tag args) := by
  fun_cases frameOfTuple tag args
  · exact .ok
  · exact toRotation_blames.bind fun _ => toVector_blames.bind fun _ => .ok
  · exact .invalid
  · exact frameOfTag_blames

theorem setFrameField_blames (f : Frame α) (field : Text × Expr α) :
    Blames (setFrameField tag f field) := by
  fun_cases setFrameField tag f field
  · exact toRotation_blames.bind fun _ => .ok
  · exact toVector_blames.bind fun _ => .ok
  · exact .invalid

theorem toFrame_blames : Blames e.toFrame := by
  fun_cases toFrame e
  · exact frameOfTuple_blames
  · exact .invalid
  · exact .foldlM setFrameField_blames _ _
  · exact .invalid
  · exact .invalid

omit [Scalar α] in
theorem toMode_blames {allowed : List β} {name : β → Text} :
    Blames (e.toMode tag allowed name) := by
  fun_cases toMode tag allowed name e
  · exact .ok
  · exact .invalid

theorem toControl_blames (e : Expr α) : Blames (toControl tag e) :=
  toFrame_blames.bind fun _ => .ok

theorem setSplineKey_blames (s : SplineFields α) (e : Expr α) (key : SplineKey) :
    Blames (setSplineKey tag s e key) := by
  fun_cases setSplineKey tag s e key
  · exact .bind (.mapM toControl_blames _) fun _ => .ok
  · exact .invalid
  · exact (expectNumbersFrom_blames 1).bind fun _ => .ok
  · exact .invalid
  · exact toMode_blames.bind fun _ => .ok
  · exact toMode_blames.bind fun _ => .ok
  · exact expectNumber_blames.bind fun _ => .ok
  · exact .ok
  · exact .invalid

theorem setSplineField_blames (s : SplineFields α) (field : Text × Expr α) :
    Blames (setSplineField tag s field) := by
  fun_cases setSplineField tag s field
  · exact setSplineKey_blames s field.2 _
  · exact .invalid

theorem splineOfFields_blames (fields : List (Text × Expr α)) :
    Blames (splineOfFields tag fields) :=
  .bind (.foldlM setSplineField_blames fields {}) fun _ => .mapError fun _ => rfl

theorem splineOfFrames_blames : Blames (splineOfFrames tag args) :=
  .bind (.mapM toControl_blames args) fun _ => .mapError fun _ => rfl

theorem toSpline_blames : Blames e.toSpline := by
  fun_cases toSpline e
  · exact splineOfFrames_blames
  · exact toFrame_blames.bind fun _ => .ok
  · exact splineOfFields_blames _
  · exact toFrame_blames.bind fun _ => .ok
  · exact toFrame_blames.bind fun _ => .ok

end Expr

end SceneMotion
