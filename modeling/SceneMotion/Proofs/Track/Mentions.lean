import SceneMotion.Proofs.Track.Meaning

namespace SceneMotion

variable {α β γ : Type} [Scalar α]

namespace Expr

-- Who is meant by a tuple that follows an entity.
def entityNamed : List (Expr α) → List Text
  | text name :: _ => [name]
  | _              => []

mutual

-- Nobody is mentioned in a literal.
def mentions : Expr α → List Text
  | tuple tag args =>
    if (tuple tag args).isFrameLiteral then []
    else if tag = Text.ofString "entity" then entityNamed args
    else mentionsIn args
  | table tag? fields => if (table tag? fields).isFrameLiteral then [] else mentionsOf fields
  | number _ | text _ | flag _ | list _ => []

def mentionsIn : List (Expr α) → List Text
  | [] => []
  | e :: rest => mentions e ++ mentionsIn rest

def mentionsOf : List (Text × Expr α) → List Text
  | [] => []
  | (_, e) :: rest => mentions e ++ mentionsOf rest

end

omit [Scalar α] in
theorem mentions_of_isFrameLiteral {e : Expr α} (h : e.isFrameLiteral) : e.mentions = [] := by
  cases e <;> simp_all [mentions]

theorem mentions_of_expectNumber {tag what : Text} {e : Expr α} {x : α}
    (h : e.expectNumber tag what = .ok x) : e.mentions = [] := by
  have hn := Track.number?_of_expectNumber h
  cases e <;> simp_all [number?, mentions]

theorem mentions_of_toVector {e : Expr α} {v : Vec3 α} (h : e.toVector = .ok v) : e.mentions = [] := by
  cases e
  case tuple tag args =>
    have ht : tag ∈ vectorTags := by
      by_contra ht
      simp [toVector, ht] at h
    refine mentions_of_isFrameLiteral ?_
    revert ht
    simp only [vectorTags, List.mem_cons, List.not_mem_nil, or_false]
    rintro (rfl | rfl) <;> rfl
  all_goals simp_all [toVector, mentions]

end Expr

namespace Track

open SceneMotion.Expr

-- A compilation that goes through notes just these names, and the owner is not among them.
def Adds (owner : Text) (x : CompileM β) (n : Notes) (names : List Text) : Prop :=
  ∀ b n', x.run.run n = (.ok b, n') → n'.mentioned = n.mentioned ++ names ∧ owner ∉ names

namespace Adds

variable {owner : Text} {x : CompileM β} {f : β → CompileM γ} {n : Notes} {b : β} {e : TrackError}
variable {names names' : List Text}

protected theorem pure : Adds owner (pure b) n [] := by
  rintro _ _ ⟨⟩
  simp

protected theorem throw : Adds owner (throw e : CompileM β) n names :=
  fun _ _ h => nomatch h

protected theorem bind (hx : Adds owner x n names) (hf : ∀ b n', Adds owner (f b) n' names') :
    Adds owner (x >>= f) n (names ++ names') := by
  intro c n'' h
  simp only [ExceptT.run_bind, StateT.run_bind] at h
  rcases hr : x.run.run n with ⟨_ | b, n'⟩ <;> rw [hr] at h
  case error => cases h
  case ok    =>
    have ⟨hn, ho⟩ := hx b n' hr
    have ⟨hn', ho'⟩ := hf b n' c n'' h
    exact ⟨by rw [hn', hn, List.append_assoc], by simp [ho, ho']⟩

theorem bind_pure {g : β → γ} (hx : Adds owner x n names) :
    Adds owner (x >>= fun b => pure (g b)) n names := by
  simpa using hx.bind fun _ _ => .pure

theorem join {x y : CompileM β} {join : β → β → β} (hx : Adds owner x n names)
    (hy : ∀ n', Adds owner y n' names') :
    Adds owner (do return join (← x) (← y)) n (names ++ names') :=
  hx.bind fun _ n' => (hy n').bind_pure

theorem liftExcept_bind {r : Except TrackError β} (h : ∀ b, r = .ok b → Adds owner (f b) n names) :
    Adds owner (liftM r >>= f) n names := by
  cases r
  case error => exact .throw
  case ok b  => exact h b rfl

end Adds

variable {owner tag : Text} {vars : Variables (Track α)} {n : Notes} {e : Expr α}

theorem share_adds {track : Track α} : Adds owner (share track) n [] := by
  rw [share]
  split
  case isTrue  => exact .pure
  case isFalse =>
    rintro _ _ ⟨⟩
    simp

omit [Scalar α] in
theorem ne_of_entityName {name : Text} (h : entityName owner tag e = .ok name) : owner ≠ name := by
  cases eq_text_of_entityName h
  rw [entityName] at h
  split at h
  case isTrue  => contradiction
  case isFalse =>
    split at h
    case isTrue     => contradiction
    case isFalse hn => exact Ne.symm hn

theorem compileEntity_adds {offset? : Option (Expr α)} {rest : List (Expr α)} :
    Adds owner (compileEntity owner tag e offset?) n (entityNamed (e :: rest)) := by
  rw [compileEntity]
  refine .liftExcept_bind fun name hn => ?_
  have ho := ne_of_entityName hn
  cases eq_text_of_entityName hn
  have mentioned (offset : Frame α) (n : Notes) :
      Adds owner (do mention name; return entity name offset) n [name] := by
    rintro _ _ ⟨⟩
    simp [ho]
  cases offset?
  case none => exact mentioned _ n
  case some => exact .liftExcept_bind fun _ _ => mentioned _ n

theorem compileOrbit_adds {radius period : Expr α} :
    Adds owner (compileOrbit tag radius period) n (mentionsIn [radius, period]) := by
  refine .liftExcept_bind fun r hr => .liftExcept_bind fun p hp => ?_
  simp only [mentionsIn, mentions_of_expectNumber hr, mentions_of_expectNumber hp, List.append_nil]
  split
  case isTrue  => exact .throw
  case isFalse => exact .pure

omit [Scalar α] in
theorem isFrameLiteral_of_isUntagged {tag? : Option Text} {fields : List (Text × Expr α)}
    (h : ¬(!isUntagged tag?) = true) : (Expr.table tag? fields).isFrameLiteral = false := by
  cases tag?
  case none => rfl
  case some tag =>
    have ht : tag = [] := by simpa [isUntagged] using h
    rw [ht]
    rfl

theorem eq_entity_iff_of_get? {form : Form} (h : forms.get? tag = some form) :
    tag = Text.ofString "entity" ↔ form = .entity := by
  cases tag_eq_of_get? h
  cases form <;> decide

-- The induction follows the compiler. What a name stands for has been mentioned where it is bound.
theorem compile_adds (owner : Text) :
    (∀ (vars : Variables (Track α)) e n, Adds owner (compile owner vars e) n e.mentions) ∧
    (∀ (vars : Variables (Track α)) tag form args n, Adds owner (compileForm owner vars tag form args) n
      (if form = .entity then entityNamed args else mentionsIn args)) ∧
    (∀ (vars : Variables (Track α)) fields n,
      Adds owner (compileBindings owner vars fields) n (mentionsOf fields)) := by
  refine compile.mutual_induct owner _ _ _ ?bound ?unbound ?frame ?form ?unknown ?literal ?other
    ?follow ?entity ?entityAt ?transform ?combine ?orbit ?lookAt ?lookAtUp ?timeShift ?tagged ?bind
    ?bindings ?arity ?nil ?cons
  case bound =>
    intro vars name track hl n
    rw [compile, hl, mentions]
    exact .pure
  case unbound =>
    intro vars name hl n
    rw [compile, hl]
    exact .throw
  case frame =>
    intro vars tag args hf n
    rw [compile, if_pos hf, mentions_of_isFrameLiteral hf]
    exact .liftExcept_bind fun _ _ => .pure
  case form =>
    intro vars tag args hf form hform hi n
    rw [compile, if_neg hf, hform, mentions, if_neg hf]
    simpa only [eq_entity_iff_of_get? hform] using hi n
  case unknown =>
    intro vars tag args hf hform n
    rw [compile, if_neg hf, hform]
    exact .throw
  case literal =>
    intro vars e ht hu hf n
    rw [compile.eq_3 _ _ _ ht hu, if_pos hf, mentions_of_isFrameLiteral hf]
    exact .liftExcept_bind fun _ _ => .pure
  case other =>
    intro vars e ht hu hf n
    rw [compile.eq_3 _ _ _ ht hu, if_neg hf]
    exact .throw
  case follow =>
    intro args vars tag n
    rw [compileForm]
    exact .throw
  case entity =>
    intro vars tag name n
    rw [compileForm]
    exact compileEntity_adds
  case entityAt =>
    intro vars tag name offset n
    rw [compileForm]
    exact compileEntity_adds
  case transform =>
    intro vars tag a b ha hb n
    rw [compileForm]
    simpa [mentionsIn] using (ha n).join hb
  case combine =>
    intro vars tag a b ha hb n
    rw [compileForm]
    simpa [mentionsIn] using (ha n).join hb
  case orbit =>
    intro vars tag radius period n
    rw [compileForm]
    exact compileOrbit_adds
  case lookAt =>
    intro vars tag base target hb ht n
    rw [compileForm]
    simpa [mentionsIn] using (hb n).join ht
  case lookAtUp =>
    intro vars tag base target up hb ht n
    rw [compileForm]
    refine .liftExcept_bind fun up hu => ?_
    simpa [mentionsIn, mentions_of_toVector hu] using (hb n).join ht
  case timeShift =>
    intro vars tag track dt hi n
    rw [compileForm]
    suffices Adds owner _ n (track.mentions ++ mentionsIn [dt]) from this
    refine (hi n).bind fun track n' => ?_
    split
    case isTrue  => exact .throw
    case isFalse =>
      refine .liftExcept_bind fun _ hd => ?_
      simpa [mentionsIn, mentions_of_expectNumber hd] using Adds.pure
  case tagged =>
    intro vars tag tag? fields body ht _ _ n
    rw [compileForm, if_pos ht]
    exact .throw
  case bind =>
    intro vars tag tag? fields body ht hf hb n
    rw [compileForm, if_neg ht]
    have hl : (Expr.table tag? fields).isFrameLiteral = false := isFrameLiteral_of_isUntagged ht
    simpa [mentionsIn, mentions, hl] using (hf n).bind fun bindings n' => hb bindings n'
  case bindings =>
    intro vars tag e body he n
    rw [compileForm]
    exact .throw
    exact he
  case arity =>
    intros
    rw [compileForm]
    exact .throw
    all_goals assumption
  case nil =>
    intro vars n
    rw [compileBindings, mentionsOf]
    exact .pure
  case cons =>
    intro vars name e rest hi hr n
    rw [compileBindings, mentionsOf]
    refine (hi n).bind fun track n' => ?_
    simpa using share_adds.bind fun track n'' => (hr n'').bind_pure

theorem ofExpr_mentioned {track : Track α} (h : (ofExpr owner e).result = .ok track) :
    (ofExpr owner e).mentioned = e.mentions ∧ owner ∉ e.mentions := by
  rw [ofExpr] at h ⊢
  rcases hc : (compile owner .empty e).run.run ⟨0, []⟩ with ⟨_ | compiled, notes⟩ <;>
    rw [hc] at h <;> cases h
  exact (compile_adds owner).left .empty e ⟨0, []⟩ compiled notes hc

theorem ofValue_mentioned {v : Value α} {track : Track α} (h : (ofValue owner v).result = .ok track) :
    ∃ e, (v.checkExpr []).toExcept = .ok e ∧ (ofValue owner v).mentioned = e.mentions ∧
      owner ∉ e.mentions := by
  rw [ofValue] at h ⊢
  split at h
  case h_1 e he => exact ⟨e, he, ofExpr_mentioned h⟩
  case h_2      => contradiction
  case h_3      => contradiction

end Track
end SceneMotion
