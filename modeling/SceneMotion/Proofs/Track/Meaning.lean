import SceneMotion.Double
import SceneMotion.Proofs.Track.Reads

namespace SceneMotion

variable {α : Type} [Scalar α]

namespace Expr

-- What the names in scope stand for: a frame at every time, if there is one.
abbrev Scope (α : Type) :=
  Text → Option (α → Option (Frame α))

def number? : Expr α → Option α
  | number x => some x
  | _        => none

-- The frame of an entity with an offset, or the bare offset where there is no entity.
def evalEntity (frameOf : Text → Option (Frame α)) (offset : Frame α) : Expr α → Option (Frame α)
  | text name =>
    match frameOf name with
    | some f => some (f.mul offset)
    | none   => some offset
  | _ => none

def evalOrbit (t : α) (radius period : Expr α) : Option (Frame α) := do
  let r ← radius.number?
  let angle := Scalar.pi * 2 * t / (← period.number?)
  return .ofYawPitchRoll ⟨Scalar.sin angle * r, 0, Scalar.cos angle * r⟩ angle 0 0

mutual

def eval (frameOf : Text → Option (Frame α)) (scope : Scope α) (t : α) : Expr α → Option (Frame α)
  | text name => (scope name).bind (· t)
  | tuple tag args =>
    if (tuple tag args).isFrameLiteral then
      return (← (tuple tag args).toSpline.toOption).frameAt t
    else
      evalTuple frameOf scope t tag args
  | e => if e.isFrameLiteral then return (← e.toSpline.toOption).frameAt t else none

def evalTuple (frameOf : Text → Option (Frame α)) (scope : Scope α) (t : α) (tag : Text) :
    List (Expr α) → Option (Frame α)
  | [name] => if tag = Text.ofString "entity" then evalEntity frameOf .identity name else none
  | [a, b] =>
    if tag = Text.ofString "entity" then do
      evalEntity frameOf (← b.toFrame.toOption) a
    else if tag = Text.ofString "transform" then
      return (← eval frameOf scope t a).mul (← eval frameOf scope t b)
    else if tag = Text.ofString "combine" then
      return ⟨(← eval frameOf scope t a).rotation, (← eval frameOf scope t b).translation⟩
    else if tag = Text.ofString "orbit" then
      evalOrbit t a b
    else if tag = Text.ofString "lookAt" then
      return (← eval frameOf scope t a).lookAt (← eval frameOf scope t b).translation .unitY
    else if tag = Text.ofString "timeShift" then do
      eval frameOf scope (t + (← b.number?)) a
    else if tag = Text.ofString "with" then do
      eval frameOf (← bindings frameOf scope a) t b
    else
      none
  | [a, b, up] =>
    if tag = Text.ofString "lookAt" then
      return (← eval frameOf scope t a).lookAt (← eval frameOf scope t b).translation
        (← up.toVector.toOption)
    else
      none
  | _ => none

-- The scope inside a table of bindings.
def bindings (frameOf : Text → Option (Frame α)) (scope : Scope α) : Expr α → Option (Scope α)
  | table _ fields => some (enter frameOf scope scope fields)
  | _              => none

-- Brings bindings into an inner scope. Their values are taken in the scope around all of them.
def enter (frameOf : Text → Option (Frame α)) (outer inner : Scope α) :
    List (Text × Expr α) → Scope α
  | [] => inner
  | (name, e) :: rest =>
    enter frameOf outer
      (fun k => if k = name then some fun t => eval frameOf outer t e else inner k) rest

end

end Expr

theorem Motion.frameAt_core {frameOf : Text → Option (Frame α)} {t : α} (motion : Motion α) :
    motion.core.frameAt frameOf t = motion.frameAt frameOf t := by
  induction motion
  case shared hi => exact hi
  all_goals rfl

namespace Track

open SceneMotion.Expr

def Form.tag : Form → Text
  | entity    => "entity"
  | transform => "transform"
  | combine   => "combine"
  | orbit     => "orbit"
  | lookAt    => "lookAt"
  | timeShift => "timeShift"
  | bind      => "with"
  | follow    => "follow"

theorem tag_eq_of_get? {tag : Text} {form : Form} (h : forms.get? tag = some form) : tag = form.tag := by
  simp only [forms, Table.get?_cons, Table.get?_nil] at h
  repeat' split at h
  all_goals cases h
  all_goals assumption

variable {frameOf : Text → Option (Frame α)} {owner tag : Text} {scope outer inner : Scope α}
variable {vars : Variables (Track α)} {n : Notes} {e : Expr α} {fields : List (Text × Expr α)}

-- A track is at all times where the expression is.
def Means (frameOf : Text → Option (Frame α)) (scope : Scope α) (e : Expr α) (track : Track α) : Prop :=
  ∀ t, e.eval frameOf scope t = some (track.frameAt frameOf t)

-- The names in scope stand for the same on both sides.
def Agrees (frameOf : Text → Option (Frame α)) (scope : Scope α) (vars : Variables (Track α)) : Prop :=
  ∀ name track, vars.lookup name = some track →
    ∃ m, scope name = some m ∧ ∀ t, m t = some (track.frameAt frameOf t)

namespace Agrees

theorem empty : Agrees frameOf scope .empty :=
  fun _ _ h => nomatch h

theorem extend (h : Agrees frameOf scope vars) : Agrees frameOf scope vars.extend :=
  fun name track hl => h name track (Variables.lookup_extend ▸ hl)

theorem enter {bindings : List (Text × Track α)} (h : Agrees frameOf inner vars)
    (hb : List.Forall₂ (fun field binding => field.1 = binding.1 ∧
      Means frameOf outer field.2 binding.2) fields bindings) :
    Agrees frameOf (enter frameOf outer inner fields) (vars.setAll bindings) := by
  induction hb generalizing inner vars
  case nil => exact h
  case cons field binding _ _ hf _ hi =>
    refine hi fun name track hl => ?_
    rw [Variables.lookup_set, ← hf.left] at hl
    split at hl
    case isTrue hn  => exact ⟨_, if_pos hn, Option.some.inj hl ▸ hf.right⟩
    case isFalse hn =>
      obtain ⟨m, hm, ht⟩ := h name track hl
      exact ⟨m, (if_neg hn).trans hm, ht⟩

end Agrees

variable {β γ : Type}

-- A compilation forgets nothing that has been noted, and what it comes to is in order with all the
-- names that have been noted by then.
def Yields (x : CompileM β) (n : Notes) (Q : β → List Text → Prop) : Prop :=
  n.mentioned ⊆ (x.run.run n).2.mentioned ∧
    ∀ b, (x.run.run n).1 = .ok b → Q b (x.run.run n).2.mentioned

namespace Yields

variable {x : CompileM β} {f : β → CompileM γ} {n : Notes} {b : β} {e : TrackError}
variable {P : β → List Text → Prop} {Q : γ → List Text → Prop}

protected theorem pure (h : P b n.mentioned) : Yields (pure b) n P :=
  ⟨List.Subset.refl _, fun _ hb => by cases hb; exact h⟩

protected theorem throw : Yields (throw e) n P :=
  ⟨List.Subset.refl _, fun _ hb => nomatch hb⟩

protected theorem bind (hx : Yields x n P)
    (hf : ∀ b n', n.mentioned ⊆ n'.mentioned → P b n'.mentioned → Yields (f b) n' Q) :
    Yields (x >>= f) n Q := by
  have ⟨hs, hp⟩ := hx
  simp only [Yields, ExceptT.run_bind, StateT.run_bind]
  cases hr : x.run.run n
  case mk result n' =>
    rw [hr] at hs hp
    cases result
    case error => exact ⟨hs, fun _ hc => nomatch hc⟩
    case ok b  =>
      have ⟨hs', hp'⟩ := hf b n' hs (hp b rfl)
      exact ⟨List.Subset.trans hs hs', hp'⟩

theorem mono {P' : β → List Text → Prop} (h : Yields x n P)
    (hp : ∀ b names, P b names → P' b names) : Yields x n P' :=
  ⟨h.left, fun b hb => hp b _ (h.right b hb)⟩

theorem mention {name : Text} : Yields (Track.mention name) n fun _ names => name ∈ names :=
  ⟨fun _ h => List.mem_append_left _ h, fun _ _ => List.mem_append_right _ List.mem_cons_self⟩

theorem liftExcept {r : Except TrackError β} : Yields (liftM r : CompileM β) n fun b _ => r = .ok b := by
  cases r
  case error => exact .throw
  case ok    => exact .pure rfl

end Yields

theorem number?_of_expectNumber {what : Text} {x : α} (h : e.expectNumber tag what = .ok x) :
    e.number? = some x := by
  rw [expectNumber.eq_def] at h
  split at h
  case h_2 => contradiction
  case h_1 =>
    split at h
    case isTrue  => cases h; rfl
    case isFalse => contradiction

omit [Scalar α] in
theorem eq_text_of_entityName {name : Text} (h : entityName owner tag e = .ok name) : e = .text name := by
  rw [entityName.eq_def] at h
  split at h
  case h_2 => contradiction
  case h_1 =>
    repeat' split at h
    all_goals cases h
    rfl

theorem share_means {track : Track α} (h : Means frameOf scope e track) :
    Yields (share track) n fun track _ => Means frameOf scope e track := by
  rw [share]
  split
  case isTrue  => exact .pure h
  case isFalse => exact ⟨List.Subset.refl _, fun _ hb => by cases hb; exact h⟩

-- The offset of a mention that has none is the identity.
theorem compileEntity_means (frameOf : Text → Option (Frame α)) {offset? : Option (Expr α)} :
    Yields (compileEntity owner tag e offset?) n fun track _ =>
      ∃ offset, offset?.elim (.ok .identity) toFrame = .ok offset ∧
        ∀ t, evalEntity frameOf offset e = some (track.frameAt frameOf t) := by
  rw [compileEntity]
  refine .bind .liftExcept fun name _ _ hn => ?_
  cases eq_text_of_entityName hn
  have mentioned (offset : Frame α) (n : Notes) : Yields (do mention name; return entity name offset) n
      fun track _ => ∀ t, evalEntity frameOf offset (.text name) = some (track.frameAt frameOf t) := by
    refine .bind .mention fun _ _ _ _ => .pure fun t => ?_
    simp only [evalEntity, frameAt, entity, Motion.frameAt]
    cases frameOf name <;> rfl
  cases offset?
  case none =>
    refine .bind (P := fun offset _ => offset = .identity) (.pure rfl) fun offset _ _ ho => ?_
    exact (mentioned ..).mono fun _ _ h => ⟨offset, congrArg _ ho.symm, h⟩
  case some =>
    exact .bind .liftExcept fun offset _ _ ho => (mentioned ..).mono fun _ _ h => ⟨offset, ho, h⟩

theorem compileOrbit_means (frameOf : Text → Option (Frame α)) {radius period : Expr α} :
    Yields (compileOrbit tag radius period) n fun track _ =>
      ∀ t, evalOrbit t radius period = some (track.frameAt frameOf t) := by
  refine .bind .liftExcept fun r _ _ hr => .bind .liftExcept fun p _ _ hp => ?_
  split
  case isTrue  => exact .throw
  case isFalse =>
    refine .pure fun t => ?_
    rw [evalOrbit, number?_of_expectNumber hr, number?_of_expectNumber hp]
    rfl

theorem compile_means (owner : Text) :
    (∀ (vars : Variables (Track α)) e n scope, Agrees frameOf scope vars →
      Yields (compile owner vars e) n fun track _ => Means frameOf scope e track) ∧
    (∀ (vars : Variables (Track α)) tag form args n scope, Agrees frameOf scope vars →
      forms.get? tag = some form →
      Yields (compileForm owner vars tag form args) n fun track _ =>
        ∀ t, evalTuple frameOf scope t tag args = some (track.frameAt frameOf t)) ∧
    (∀ (vars : Variables (Track α)) fields n scope, Agrees frameOf scope vars →
      Yields (compileBindings owner vars fields) n fun bindings _ =>
        List.Forall₂ (fun field binding => field.1 = binding.1 ∧
          Means frameOf scope field.2 binding.2) fields bindings) := by
  refine compile.mutual_induct owner _ _ _ ?bound ?unbound ?frame ?form ?unknown ?literal ?other
    ?follow ?entity ?entityAt ?transform ?combine ?orbit ?lookAt ?lookAtUp ?timeShift ?tagged ?bind
    ?bindings ?arity ?nil ?cons
  case bound =>
    intro vars name track hl n scope hs
    rw [compile, hl]
    obtain ⟨m, hm, ht⟩ := hs name track hl
    exact .pure fun t => by rw [eval, hm, Option.bind_some, ht]
  case unbound =>
    intro vars name hl n scope hs
    rw [compile, hl]
    exact .throw
  case frame =>
    intro vars tag args hf n scope hs
    rw [compile, if_pos hf]
    refine .bind .liftExcept fun curve _ _ hc => .pure fun t => ?_
    rw [eval, if_pos hf, hc]
    rfl
  case form =>
    intro vars tag args hf form hform hi n scope hs
    rw [compile, if_neg hf, hform]
    refine (hi n scope hs hform).mono fun track _ ht t => ?_
    rw [eval, if_neg hf, ht]
  case unknown =>
    intro vars tag args hf hform n scope hs
    rw [compile, if_neg hf, hform]
    exact .throw
  case literal =>
    intro vars e ht hu hf n scope hs
    rw [compile.eq_3 _ _ _ ht hu, if_pos hf]
    refine .bind .liftExcept fun curve _ _ hc => .pure fun t => ?_
    rw [eval.eq_3 _ _ _ _ ht hu, if_pos hf, hc]
    rfl
  case other =>
    intro vars e ht hu hf n scope hs
    rw [compile.eq_3 _ _ _ ht hu, if_neg hf]
    exact .throw
  case follow =>
    intro args vars tag n scope hs hf
    rw [compileForm]
    exact .throw
  case entity =>
    intro vars tag name n scope hs ht
    cases tag_eq_of_get? ht
    rw [compileForm]
    refine (compileEntity_means frameOf).mono fun track _ h t => ?_
    obtain ⟨offset, ho, he⟩ := h
    cases ho
    simp +decide only [evalTuple, if_true]
    exact he t
  case entityAt =>
    intro vars tag name child n scope hs ht
    cases tag_eq_of_get? ht
    rw [compileForm]
    refine (compileEntity_means frameOf).mono fun track _ h t => ?_
    obtain ⟨offset, ho, he⟩ := h
    replace ho : child.toFrame = .ok offset := ho
    simp +decide only [evalTuple, if_true, ho]
    exact he t
  case transform =>
    intro vars tag a b ha hb n scope hs ht
    cases tag_eq_of_get? ht
    rw [compileForm]
    refine .bind (ha n scope hs) fun a _ _ ha => .bind (hb _ scope hs) fun b _ _ hb => .pure fun t => ?_
    simp +decide only [evalTuple, if_true, if_false, ha t, hb t]
    rfl
  case combine =>
    intro vars tag a b ha hb n scope hs ht
    cases tag_eq_of_get? ht
    rw [compileForm]
    refine .bind (ha n scope hs) fun a _ _ ha => .bind (hb _ scope hs) fun b _ _ hb => .pure fun t => ?_
    simp +decide only [evalTuple, if_true, if_false, ha t, hb t]
    rfl
  case orbit =>
    intro vars tag radius period n scope hs ht
    cases tag_eq_of_get? ht
    rw [compileForm]
    refine (compileOrbit_means frameOf).mono fun track _ ht t => ?_
    simp +decide only [evalTuple, if_true, if_false, ht]
  case lookAt =>
    intro vars tag base target hb ht n scope hs hf
    cases tag_eq_of_get? hf
    rw [compileForm]
    refine .bind (hb n scope hs) fun base _ _ hb => .bind (ht _ scope hs) fun target _ _ ht => .pure fun t => ?_
    simp +decide only [evalTuple, if_true, if_false, hb t, ht t]
    rfl
  case lookAtUp =>
    intro vars tag base target up hb ht n scope hs hf
    cases tag_eq_of_get? hf
    rw [compileForm]
    refine .bind .liftExcept fun up _ _ hu => .bind (hb _ scope hs) fun base _ _ hb => ?_
    refine .bind (ht _ scope hs) fun target _ _ ht => .pure fun t => ?_
    simp +decide only [evalTuple, if_true, hu, hb t, ht t]
    rfl
  case timeShift =>
    intro vars tag track dt hi n scope hs hf
    cases tag_eq_of_get? hf
    rw [compileForm]
    refine .bind (hi n scope hs) fun track _ _ ht => ?_
    split
    case isTrue  => exact .throw
    case isFalse =>
      refine .bind .liftExcept fun dt _ _ hd => .pure fun t => ?_
      simp +decide only [evalTuple, if_true, if_false, number?_of_expectNumber hd]
      exact ht _
  case tagged =>
    intro vars tag tag? fields body ht _ _ n scope hs hf
    rw [compileForm, if_pos ht]
    exact .throw
  case bind =>
    intro vars tag tag? fields body ht hf hb n scope hs hform
    cases tag_eq_of_get? hform
    rw [compileForm, if_neg ht]
    refine .bind (hf n scope hs) fun bindings n' _ hm => ?_
    refine (hb bindings n' _ (Agrees.enter hs.extend hm)).mono fun track _ ht t => ?_
    simp +decide only [evalTuple, if_true, if_false]
    exact ht t
  case bindings =>
    intro vars tag e body he n scope hs hf
    rw [compileForm]
    exact .throw
    exact he
  case arity =>
    intros
    rw [compileForm]
    exact .throw
    all_goals assumption
  case nil =>
    intro vars n scope hs
    rw [compileBindings]
    exact .pure .nil
  case cons =>
    intro vars name e rest hi hr n scope hs
    rw [compileBindings]
    refine .bind (hi n scope hs) fun track _ _ ht => .bind (share_means ht) fun track _ _ ht => ?_
    exact .bind (hr _ scope hs) fun bindings _ _ hb => .pure (.cons ⟨rfl, ht⟩ hb)

theorem core_means {track : Track α} (h : Means frameOf scope e track) : Means frameOf scope e track.core := by
  intro t
  rw [h, frameAt, frameAt, core, Motion.frameAt_core]

-- Where a compiled expression is, whatever is bound in it and whoever is there.
theorem ofExpr_means {track : Track α} (h : (ofExpr owner e).result = .ok track) :
    Means frameOf (fun _ => none) e track := by
  have ha : Agrees frameOf (fun _ => none) .empty := .empty
  have ⟨_, hm⟩ := (compile_means owner).left .empty e ⟨0, []⟩ _ ha
  rw [ofExpr] at h
  rcases hc : (compile owner .empty e).run.run ⟨0, []⟩ with ⟨_ | compiled, notes⟩ <;>
    rw [hc] at h hm <;> cases h
  exact core_means (hm compiled rfl)

theorem ofValue_frameAt_eq_eval {v : Value α} {track : Track α}
    (h : (ofValue owner v).result = .ok track) : ∃ e, (v.checkExpr []).toExcept = .ok e ∧
      ∀ frameOf t, e.eval frameOf (fun _ => none) t = some (track.frameAt frameOf t) := by
  rw [ofValue] at h
  split at h
  case h_1 e he => exact ⟨e, he, fun _ => ofExpr_means h⟩
  case h_2      => contradiction
  case h_3      => contradiction

-- Two names that trade places: each value is taken in the scope around both.
def trade : Expr Float :=
  .tuple "with" [
    .table none [("x", .tuple "entity" [.text "Ship"]), ("y", .tuple "Matrix4::identity" [])],
    .tuple "with" [
      .table none [("x", .text "y"), ("y", .text "x")],
      .tuple "transform" [.tuple "timeShift" [.text "x", .number 1], .text "y"]]]

theorem trade_compiles : ∃ track, (ofValue "Camera" trade.toValue).result = .ok track :=
  ⟨_, rfl⟩

theorem trade_frameAt_eq_eval : ∃ track, (ofValue "Camera" trade.toValue).result = .ok track ∧
    (trade.toValue.checkExpr []).toExcept = .ok trade ∧
    ∀ frameOf t, trade.eval frameOf (fun _ => none) t = some (track.frameAt frameOf t) := by
  have ⟨track, ht⟩ := trade_compiles
  have hc : (trade.toValue.checkExpr []).toExcept = .ok trade := rfl
  have ⟨e, he, hm⟩ := ofValue_frameAt_eq_eval ht
  rw [hc] at he
  cases he
  exact ⟨track, ht, hc, hm⟩

end Track
end SceneMotion
