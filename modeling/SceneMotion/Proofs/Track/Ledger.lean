import SceneMotion.Proofs.Table
import SceneMotion.Proofs.Track.Faults

namespace SceneMotion

variable {α β γ σ : Type} [Scalar α]

-- The motions that a motion is made of, the later before the earlier.
def Motion.parts : Motion α → List (Motion α)
  | spline .. | entity .. | orbit .. => []
  | transform a b => [b, a]
  | combine rotation translation => [translation, rotation]
  | lookAt base target _ => [target, base]
  | timeShift motion _ => [motion]
  | shared _ motion => [motion]

open Track (Notes CompileM)

-- Something that is said of motions in view of a state, which goes along with the notes. The state only
-- grows, and what has been said is not taken back.
structure Ledger (α : Type) [Scalar α] (σ : Type) where
  Grows : σ → σ → Prop
  Fits  : σ → Notes → Prop
  Holds : σ → Motion α → Prop
  refl  : ∀ s, Grows s s
  trans : Grows s s' → Grows s' s'' → Grows s s''
  mono  : Grows s s' → Holds s m → Holds s' m
  -- Nothing has to be done for a motion of which the notes say nothing.
  node  : m.isShared = false → m.kind ≠ .entity → (∀ x ∈ m.parts, Holds s x) → Holds s m
  entity : Fits s n → ∃ s', Grows s s' ∧ Fits s' { n with mentioned := n.mentioned ++ [name] } ∧
    ∀ offset, Holds s' (.entity name offset)
  shared : Fits s n → Holds s m → ∃ s', Grows s s' ∧ Fits s' { n with label := n.label + 1 } ∧
    Holds s' (.shared n.label m)

namespace Variables

theorem lookup_extend {vars : Variables β} {name : Text} :
    vars.extend.lookup name = vars.lookup name :=
  rfl

theorem lookup_set {vars : Variables β} {name k : Text} {b : β} :
    (vars.set name b).lookup k = if k = name then some b else vars.lookup k := by
  rw [lookup, lookup, set, List.findSome?_cons, List.findSome?_cons, Table.get?_set]
  by_cases hk : k = name
  case pos => rw [if_pos hk, if_pos hk]
  case neg => rw [if_neg hk, if_neg hk]

-- What a name stands for has been bound with others or before them.
theorem mem_of_lookup_setAll {vars : Variables β} {bindings : List (Text × β)} {name : Text} {b : β}
    (h : (vars.setAll bindings).lookup name = some b) :
    (∃ binding ∈ bindings, binding.2 = b) ∨ vars.lookup name = some b := by
  induction bindings generalizing vars
  case nil => exact .inr h
  case cons binding rest hi =>
    rcases hi h with ⟨other, ho, hb⟩ | hl
    · exact .inl ⟨other, List.mem_cons_of_mem _ ho, hb⟩
    · rw [lookup_set] at hl
      split at hl
      case isTrue  => exact .inl ⟨binding, List.mem_cons_self, Option.some.inj hl⟩
      case isFalse => exact .inr hl

end Variables

namespace Ledger

variable {k : Ledger α σ} {s s' : σ}

-- What the names in scope stand for is in order.
def Scope (k : Ledger α σ) (s : σ) (vars : Variables (Track α)) : Prop :=
  ∀ name track, vars.lookup name = some track → k.Holds s track.motion

namespace Scope

variable {vars : Variables (Track α)}

theorem empty : k.Scope s .empty :=
  fun _ _ h => nomatch h

theorem mono (h : k.Scope s vars) (hs : k.Grows s s') : k.Scope s' vars :=
  fun name track hl => k.mono hs (h name track hl)

theorem enter {bindings : List (Text × Track α)} (h : k.Scope s vars)
    (hb : ∀ binding ∈ bindings, k.Holds s binding.2.motion) :
    k.Scope s (vars.extend.setAll bindings) := by
  intro name track hl
  rcases Variables.mem_of_lookup_setAll hl with ⟨binding, hm, rfl⟩ | hl
  · exact hb binding hm
  · exact h name track hl

end Scope

-- Whatever the notes are that go with the state, the notes afterwards go with a state that it has grown
-- to, and the outcome is in order with that.
def Keeps (k : Ledger α σ) (x : CompileM β) (s : σ) (Q : β → σ → Prop) : Prop :=
  ∀ n, k.Fits s n → ∃ s', k.Grows s s' ∧ k.Fits s' (x.run.run n).2 ∧ Blames (x.run.run n).1 ∧
    ∀ b, (x.run.run n).1 = .ok b → Q b s'

-- The motion of the track that comes out is in order.
abbrev KeepsTrack (k : Ledger α σ) (x : CompileM (Track α)) (s : σ) : Prop :=
  k.Keeps x s fun track s' => k.Holds s' track.motion

namespace Keeps

variable {x : CompileM β} {f : β → CompileM γ} {b : β} {e : TrackError} {r : Except TrackError β}
variable {P : β → σ → Prop} {Q : γ → σ → Prop}

protected theorem pure (h : P b s) : k.Keeps (pure b) s P :=
  fun _ hn => ⟨s, k.refl s, hn, .ok, fun _ hb => by cases hb; exact h⟩

protected theorem throw (h : e.tag?.isSome) : k.Keeps (throw e) s P :=
  fun _ hn => ⟨s, k.refl s, hn, .error h, fun _ hb => nomatch hb⟩

protected theorem bind (hx : k.Keeps x s P)
    (hf : ∀ b s', k.Grows s s' → P b s' → k.Keeps (f b) s' Q) : k.Keeps (x >>= f) s Q := by
  intro n hn
  obtain ⟨s', hs, hn', hb, hp⟩ := hx n hn
  simp only [ExceptT.run_bind, StateT.run_bind]
  rcases hr : x.run.run n with ⟨e | b, n'⟩ <;> rw [hr] at hn' hb hp
  case error => exact ⟨s', hs, hn', .error (hb e rfl), fun _ hc => nomatch hc⟩
  case ok =>
    obtain ⟨s'', hs', hq⟩ := hf b s' hs (hp b rfl) n' hn'
    exact ⟨s'', k.trans hs hs', hq⟩

theorem liftExcept (h : Blames r) : k.Keeps (liftM r) s fun (_ : β) _ => True := by
  cases r
  case error => exact .throw (h _ rfl)
  case ok    => exact .pure trivial

theorem mention {name : Text} :
    k.Keeps (Track.mention name) s fun _ s' => ∀ offset, k.Holds s' (.entity name offset) := by
  intro n hn
  obtain ⟨s', hs, hn', ho⟩ := k.entity hn
  exact ⟨s', hs, hn', .ok, fun _ _ => ho⟩

theorem share {track : Track α} (h : k.Holds s track.motion) : k.KeepsTrack (Track.share track) s := by
  rw [Track.share]
  split
  case isTrue  => exact .pure h
  case isFalse =>
    intro n hn
    obtain ⟨s', hs, hn', hm⟩ := k.shared hn h
    exact ⟨s', hs, hn', .ok, fun _ hb => by cases hb; exact hm⟩

end Keeps

variable {owner tag : Text}

theorem KeepsTrack.join {x y : CompileM (Track α)} {join : Track α → Track α → Track α}
    (hn : ∀ a b, (join a b).motion.isShared = false) (hk : ∀ a b, (join a b).motion.kind ≠ .entity)
    (hp : ∀ a b, (join a b).motion.parts = [b.motion, a.motion])
    (hx : k.KeepsTrack x s) (hy : ∀ s', k.Grows s s' → k.KeepsTrack y s') :
    k.KeepsTrack (do return join (← x) (← y)) s := by
  refine .bind hx fun a s' hs ha => .bind (hy s' hs) fun b s'' hs' hb => .pure ?_
  refine k.node (hn a b) (hk a b) fun m hm => ?_
  rw [hp] at hm
  rcases List.mem_cons.mp hm with rfl | hm
  · exact hb
  · exact List.mem_singleton.mp hm ▸ k.mono hs' ha

omit [Scalar α] in
theorem entityName_blames {name : Expr α} : Blames (Track.entityName owner tag name) := by
  fun_cases Track.entityName owner tag name
  · exact .invalid
  · exact .invalid
  · exact .ok
  · exact .invalid

theorem compileEntity_keeps {name : Expr α} {offset? : Option (Expr α)} :
    k.KeepsTrack (Track.compileEntity owner tag name offset?) s := by
  refine .bind (.liftExcept entityName_blames) fun name s _ _ => ?_
  have mentioned (offset : Frame α) (s : σ) :
      k.KeepsTrack (do Track.mention name; return Track.entity name offset) s :=
    .bind .mention fun _ _ _ ho => .pure (ho offset)
  cases offset?
  case none => exact .bind (P := fun _ _ => True) (.pure trivial) fun _ _ _ _ => mentioned _ _
  case some => exact .bind (.liftExcept Expr.toFrame_blames) fun _ _ _ _ => mentioned _ _

theorem compileOrbit_keeps {radius period : Expr α} :
    k.KeepsTrack (Track.compileOrbit tag radius period) s := by
  refine .bind (.liftExcept Expr.expectNumber_blames) fun radius s _ _ => ?_
  refine .bind (.liftExcept Expr.expectNumber_blames) fun period s _ _ => ?_
  split
  case isTrue  => exact .throw rfl
  case isFalse => exact .pure (k.node rfl nofun nofun)

theorem toSpline_keeps {e : Expr α} :
    k.KeepsTrack (do return Track.spline (← e.toSpline) false) s :=
  .bind (.liftExcept Expr.toSpline_blames) fun _ _ _ _ => .pure (k.node rfl nofun nofun)

open Track

-- The induction follows the compiler.
theorem compile_keeps (k : Ledger α σ) (owner : Text) :
    (∀ vars e s, k.Scope s vars → k.KeepsTrack (compile owner vars e) s) ∧
    (∀ vars tag form args s, k.Scope s vars → k.KeepsTrack (compileForm owner vars tag form args) s) ∧
    (∀ vars fields s, k.Scope s vars → k.Keeps (compileBindings owner vars fields) s
      fun bindings s' => ∀ binding ∈ bindings, k.Holds s' binding.2.motion) := by
  refine compile.mutual_induct owner _ _ _ ?bound ?unbound ?frame ?form ?unknown ?literal ?other
    ?follow ?entity ?entityAt ?transform ?combine ?orbit ?lookAt ?lookAtUp ?timeShift ?tagged ?bind
    ?bindings ?arity ?nil ?cons
  case bound =>
    intro vars name track hl s hv
    rw [compile, hl]
    exact .pure (hv name track hl)
  case unbound =>
    intro vars name hl s hv
    rw [compile, hl]
    exact .throw rfl
  case frame =>
    intro vars tag args hf s hv
    rw [compile, if_pos hf]
    exact toSpline_keeps
  case form =>
    intro vars tag args hf form hform hi s hv
    rw [compile, if_neg hf, hform]
    exact hi s hv
  case unknown =>
    intro vars tag args hf hform s hv
    rw [compile, if_neg hf, hform]
    exact .throw rfl
  case literal =>
    intro vars e ht hu hf s hv
    rw [compile.eq_3 _ _ _ ht hu, if_pos hf]
    exact toSpline_keeps
  case other =>
    intro vars e ht hu hf s hv
    rw [compile.eq_3 _ _ _ ht hu, if_neg hf]
    exact .throw rfl
  case follow =>
    intro args vars tag s hv
    rw [compileForm]
    exact .throw rfl
  case entity =>
    intro vars tag name s hv
    rw [compileForm]
    exact compileEntity_keeps
  case entityAt =>
    intro vars tag name offset s hv
    rw [compileForm]
    exact compileEntity_keeps
  case transform =>
    intro vars tag a b ha hb s hv
    rw [compileForm]
    exact .join (fun _ _ => rfl) nofun (fun _ _ => rfl) (ha s hv) fun s' hs => hb s' (hv.mono hs)
  case combine =>
    intro vars tag a b ha hb s hv
    rw [compileForm]
    exact .join (fun _ _ => rfl) nofun (fun _ _ => rfl) (ha s hv) fun s' hs => hb s' (hv.mono hs)
  case orbit =>
    intro vars tag radius period s hv
    rw [compileForm]
    exact compileOrbit_keeps
  case lookAt =>
    intro vars tag base target hb ht s hv
    rw [compileForm]
    exact .join (fun _ _ => rfl) nofun (fun _ _ => rfl) (hb s hv) fun s' hs => ht s' (hv.mono hs)
  case lookAtUp =>
    intro vars tag base target up hb ht s hv
    rw [compileForm]
    refine .bind (.liftExcept Expr.toVector_blames) fun up s' hs _ => ?_
    replace hv := hv.mono hs
    exact KeepsTrack.join (fun _ _ => rfl) nofun (fun _ _ => rfl) (hb s' hv) fun s'' hs =>
      ht s'' (hv.mono hs)
  case timeShift =>
    intro vars tag track dt hi s hv
    rw [compileForm]
    refine .bind (hi s hv) fun track s' hs hr => ?_
    split
    case isTrue  => exact .throw rfl
    case isFalse =>
      refine .bind (.liftExcept Expr.expectNumber_blames) fun dt s'' hs' _ => .pure ?_
      refine k.node rfl nofun fun m hm => ?_
      exact List.mem_singleton.mp hm ▸ k.mono hs' hr
  case tagged =>
    intro vars tag tag? fields body ht _ _ s hv
    rw [compileForm, if_pos ht]
    exact .throw rfl
  case bind =>
    intro vars tag tag? fields body ht hf hb s hv
    rw [compileForm, if_neg ht]
    exact .bind (hf s hv) fun bindings s' hs hr => hb bindings s' ((hv.mono hs).enter hr)
  case bindings =>
    intro vars tag e body he s hv
    rw [compileForm]
    exact .throw rfl
    exact he
  case arity =>
    intros
    rw [compileForm]
    exact .throw rfl
    all_goals assumption
  case nil =>
    intro vars s hv
    rw [compileBindings]
    exact .pure fun _ h => absurd h List.not_mem_nil
  case cons =>
    intro vars name e rest hi hr s hv
    rw [compileBindings]
    refine .bind (hi s hv) fun track s' hs ht => ?_
    refine .bind (.share ht) fun track s'' hs' ht => ?_
    refine .bind (hr s'' ((hv.mono hs).mono hs')) fun bindings s''' hs hb => .pure ?_
    intro binding hm
    cases List.mem_cons.mp hm
    case inl hm => exact hm ▸ k.mono hs ht
    case inr hm => exact hb binding hm

-- The motion of a compiled track is that of one which is in order, but for its label.
theorem ofExpr_keeps (k : Ledger α σ) {s : σ} (h : k.Fits s ⟨0, []⟩) (owner : Text) (e : Expr α) :
    Blames (ofExpr owner e).result ∧ ∃ s' n, k.Grows s s' ∧ k.Fits s' n ∧
      n.mentioned = (ofExpr owner e).mentioned ∧
      ∀ track, (ofExpr owner e).result = .ok track → ∃ m, k.Holds s' m ∧ track.motion = m.core := by
  obtain ⟨s', hs, hn, hb, hq⟩ := (compile_keeps k owner).left .empty e s .empty ⟨0, []⟩ h
  rw [ofExpr]
  rcases hr : (compile owner .empty e).run.run ⟨0, []⟩ with ⟨fault | compiled, n⟩ <;>
    rw [hr] at hn hb hq
  case error => exact ⟨.error (hb fault rfl), s', n, hs, hn, rfl, nofun⟩
  case ok =>
    refine ⟨.ok, s', n, hs, hn, rfl, ?_⟩
    rintro _ ⟨⟩
    exact ⟨compiled.motion, hq compiled rfl, rfl⟩

-- It is enough to say nothing.
def silent : Ledger α Unit where
  Grows _ _   := True
  Fits _ _    := True
  Holds _ _   := True
  refl _      := trivial
  trans _ _   := trivial
  mono _ _    := trivial
  node _ _ _  := trivial
  entity _    := ⟨(), trivial, trivial, fun _ => trivial⟩
  shared _ _  := ⟨(), trivial, trivial, trivial⟩

end Ledger

theorem Track.ofExpr_blames (owner : Text) (e : Expr α) : Blames (ofExpr owner e).result :=
  (Ledger.silent.ofExpr_keeps (s := ()) trivial owner e).left

end SceneMotion
