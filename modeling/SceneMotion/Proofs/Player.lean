import SceneMotion.Player
import SceneMotion.Proofs.Scene.Loading

namespace SceneMotion

variable {α β : Type} [Scalar α]

def Notice.order? : Notice α → Option (List Text)
  | sorted order => some order
  | _            => none

namespace Scene

variable {s s' : Scene α} {old : List Text}

-- The order of the members as known to somebody who has known an old one before all that has been
-- told.
def heard (s : Scene α) (old : List Text) : List Text :=
  s.log.foldr (fun n known => n.order?.getD known) old

theorem heard_eq :
    s.log.reverse.foldl (fun known n => n.order?.getD known) old = s.heard old :=
  List.foldl_reverse

theorem heard_of_log_eq_nil (h : s.log = []) : s.heard old = old := by
  rw [heard, h, List.foldr_nil]

theorem heard_tell {n : Notice α} (hn : n.order? = none) : (s.tell n).heard old = s.heard old := by
  rw [tell]
  split
  case isTrue  => simp [heard, hn]
  case isFalse => rfl

theorem heard_warned : s.warned.heard old = s.heard old :=
  warned_of (P := (·.heard old = s.heard old)) rfl fun _ _ _ h => h

-- Whoever has known the order before goes on to know it, and so does everybody if it is sorted.
theorem exec_sort_heard (hl : s.live) (old : List Text) : ∃ result s', sort.exec s = (result, s') ∧
    s'.live ∧ s'.time = s.time ∧
    (s.heard old = s.order ∨ result = .ok () ∧ s.sorts → s'.heard old = s'.order) := by
  by_cases h : s.sorts
  case neg =>
    have hs := exec_sort_of_not_sorts (Bool.eq_false_iff.mpr h)
    exact ⟨_, _, hs, hl, rfl, fun ho => ho.resolve_right (h ·.right)⟩
  case pos =>
    have hw : s.warned.heard old = s.heard old := heard_warned
    have ⟨log, hlog⟩ := s.warned_eq
    rw [exec_sort_of_sorts h]
    rw [hlog] at hw ⊢
    cases (s.graph.sort s.order).order
    case ok order =>
      refine ⟨_, _, rfl, ?_⟩
      simp [tell, hl, heard, Notice.order?]
    case error e  => exact ⟨_, _, rfl, hl, rfl, fun ho => hw.trans (by simpa using ho)⟩

theorem advance_heard {delta : Delta α} : (s.advance delta).heard old = s.heard old := by
  have ⟨_, _, _, _, ha⟩ := s.advance_eq_tell delta
  rw [ha, heard_tell rfl]
  rfl

theorem exec_step_heard (hl : s.live) (delta : Delta α) (old : List Text) : ∃ result s',
    (step delta).exec s = (result, s') ∧ s'.live ∧ (result ≠ .ok () → s'.time = s.time) ∧
    (s.heard old = s.order ∨ result = .ok () ∧ s.sorts → s'.heard old = s'.order) := by
  have ⟨result, s', hs, hl', ht, ho⟩ := exec_sort_heard hl old
  cases result
  case error e => exact ⟨_, s', SceneM.exec_bind_error hs, hl', fun _ => ht, by simpa using ho⟩
  case ok      =>
    refine ⟨_, _, exec_step_of_sort hs, by simpa using hl', by simp, fun h => ?_⟩
    rw [advance_heard, advance_order, ho (by simpa using h)]

theorem exec_setTime_heard (hl : s.live) (t : α) (old : List Text) : ∃ result s',
    (setTime t).exec s = (result, s') ∧
    (s.heard old = s.order ∨ result = .ok () ∧ s.sorts → s'.heard old = s'.order) := by
  rw [setTime, SceneM.exec_modify_bind]
  obtain ⟨result, s₁, h₁, hl₁, _, ho₁⟩ := exec_step_heard (s := { s with time := t }) hl .jump old
  cases result
  case error e => exact ⟨_, s₁, SceneM.exec_bind_error h₁, ho₁⟩
  case ok      =>
    obtain ⟨result, s₂, h₂, _, _, ho₂⟩ := exec_step_heard hl₁ .jump old
    refine ⟨result, s₂, (SceneM.exec_bind_ok h₁).trans h₂, fun h => ho₂ (.inl (ho₁ ?_))⟩
    exact h.imp_right fun h => ⟨rfl, h.right⟩

end Scene

namespace Player

variable {p p' p'' : Player α} {e : Event α}

-- Nothing has changed but who listens, what has been told, and how the scene is played.
structure Aside (p p' : Player α) : Prop where
  scene       : p'.scene = p.scene
  currentTime : p'.currentTime = p.currentTime
  entities    : p'.entities = p.entities
  watching    : p'.watching = p.watching

namespace Aside

theorem refl (p : Player α) : Aside p p :=
  ⟨rfl, rfl, rfl, rfl⟩

theorem trans (h : Aside p p') (h' : Aside p' p'') : Aside p p'' :=
  ⟨h'.scene.trans h.scene, h'.currentTime.trans h.currentTime, h'.entities.trans h.entities,
    h'.watching.trans h.watching⟩

theorem foldl {f : Player α → β → Player α} (h : ∀ p b, Aside p (f p b)) (p : Player α)
    (items : List β) : Aside p (items.foldl f p) := by
  induction items generalizing p
  case nil            => exact refl p
  case cons item _ hi => exact (h p item).trans (hi (f p item))

theorem deliver (p : Player α) (l : Listener α) (e : Event α) : Aside p (p.deliver l e) := by
  rw [Player.deliver]
  cases l.reaction <;> exact ⟨rfl, rfl, rfl, rfl⟩

theorem tellPlainly (p : Player α) (e : Event α) : Aside p (p.tellPlainly e) :=
  foldl (fun p l => deliver p l e) p _

theorem notify (p : Player α) (l : Listener α) (e : Event α) : Aside p (p.notify e l) := by
  rw [Player.notify]
  split
  case h_1 => exact (deliver p l e).trans (tellPlainly ..)
  case h_2 => exact deliver p l e

theorem tell (p : Player α) (e : Event α) : Aside p (p.tell e) := by
  rw [Player.tell]
  split
  case isTrue  => exact tellPlainly p e
  case isFalse => exact foldl (fun p l => notify p l e) p _

theorem hear (hw : p.watching) (n : Notice α) :
    Aside { p with entities := n.order?.getD p.entities } (p.hear n) := by
  cases n
  case sorted order => simpa [Player.hear, hw, Notice.order?] using tell { p with entities := order } _
  all_goals exact ⟨rfl, rfl, rfl, rfl⟩

theorem hears (hw : p.watching) (notices : List (Notice α)) : Aside
    { p with entities := notices.foldl (fun known n => n.order?.getD known) p.entities }
    (notices.foldl Player.hear p) := by
  induction notices generalizing p
  case nil         => exact refl p
  case cons n _ hi =>
    have h := hear hw n
    have hi := hi (h.watching.trans hw)
    rw [h.entities] at hi
    exact ⟨hi.scene.trans h.scene, hi.currentTime.trans h.currentTime, hi.entities,
      hi.watching.trans h.watching⟩

theorem subscribe (p : Player α) (l : Listener α) : Aside p (p.subscribe l) := by
  rw [Player.subscribe]
  split <;> exact ⟨rfl, rfl, rfl, rfl⟩

theorem setPlaying (p : Player α) (isPlaying : Bool) : Aside p (p.setPlaying isPlaying) :=
  have h : Aside p { p with playing := isPlaying } := ⟨rfl, rfl, rfl, rfl⟩
  h.trans (tell ..)

theorem afterLoad (p : Player α) (report : LoadReport) :
    Aside { p with currentTime := p.scene.time, entities := p.scene.order } (p.afterLoad report) := by
  have h := foldl (f := fun p skipped => p.tell (.skipped skipped.1 skipped.2)) (fun p _ => tell p _) p
    report.skipped
  refine trans ?_ (tell _ (.loaded report))
  exact ⟨h.scene, congrArg Scene.time h.scene, congrArg Scene.order h.scene, h.watching⟩

end Aside

theorem exec_onScene_eq (p : Player α) (x : SceneM α β) : (onScene x).run.run p =
    ((x.exec p.scene).1, (x.exec p.scene).2.log.reverse.foldl Player.hear
      { p with scene := { (x.exec p.scene).2 with log := [] } }) := by
  have hg : (get : PlayerM α (Player α)).run.run p = (.ok p, p) := rfl
  rw [SceneM.exec, onScene, run_bind, hg]
  dsimp only
  rcases x.run.run p.scene with ⟨_ | _, s⟩ <;> rfl

theorem exec_onScene (hw : p.watching) {x : SceneM α β} {result : Except SceneError β} {s : Scene α}
    (h : x.exec p.scene = (result, s)) : ∃ p', (onScene x).run.run p = (result, p') ∧
      Aside { p with scene := { s with log := [] }, entities := s.heard p.entities } p' := by
  have ha := Aside.hears (p := { p with scene := { s with log := [] } }) hw s.log.reverse
  refine ⟨_, by rw [exec_onScene_eq, h], ?_⟩
  rwa [Scene.heard_eq] at ha

theorem exec_load (p : Player α) (v : Value α) : (load v).run.run p =
    match (onScene (Scene.load v)).run.run p with
    | (.ok report, p') => (.ok report, p'.afterLoad report)
    | (.error e, p')   => (.error e, p'.tell (.loadFailed e)) := by
  rw [load, run_bind, run_tryCatch]
  rcases (onScene (Scene.load v)).run.run p with ⟨_ | _, _⟩ <;> rfl

theorem exec_step_of_idle {dt : α} {force : Bool} (h : (p.playing || force) = false) :
    (step dt force).run.run p = (.ok (), p) := by
  have hg : (get : PlayerM α (Player α)).run.run p = (.ok p, p) := rfl
  rw [step, run_bind, hg]
  simp only [h, Bool.false_eq_true, if_false]
  rfl

theorem exec_step {dt : α} {force : Bool} (h : p.playing || force) : (step dt force).run.run p =
    match (onScene (Scene.step (Delta.ofNumber (dt * p.rate)))).run.run p with
    | (.ok _, p')    => (.ok (),
      { p' with currentTime := p'.scene.time }.tell (.tick p'.scene.time (dt * p.rate)))
    | (.error e, p') => (.error e, p') := by
  have hg : (get : PlayerM α (Player α)).run.run p = (.ok p, p) := rfl
  rw [step, run_bind, hg]
  simp only [h, if_true]
  rw [run_bind]
  rcases (onScene (Scene.step (Delta.ofNumber (dt * p.rate)))).run.run p with ⟨_ | _, _⟩ <;> rfl

theorem exec_seek (p : Player α) (t : α) : (seek t).run.run p =
    match (onScene (Scene.setTime t)).run.run p with
    | (.ok _, p')    => (.ok (), { p' with currentTime := p'.scene.time }.tell (.jumped t))
    | (.error e, p') => (.error e, p') := by
  rw [seek, run_bind]
  rcases (onScene (Scene.setTime t)).run.run p with ⟨_ | _, _⟩ <;> rfl

-- Everything that can be asked of a player before it is destroyed.
inductive Operation (α : Type) [Scalar α]
  | load (v : Value α)
  | step (dt : α) (force : Bool)
  | seek (t : α)
  | setPlaying (isPlaying : Bool)
  | setRate (rate : α)
  | subscribe (l : Listener α)
  | unsubscribe (topic : Topic) (id : Text)

def Operation.perform (p : Player α) : Operation α → Except SceneError Unit × Player α
  | load v               => (discard (Player.load v)).run.run p
  | step dt force        => (Player.step dt force).run.run p
  | seek t               => (Player.seek t).run.run p
  | setPlaying isPlaying => (.ok (), p.setPlaying isPlaying)
  | setRate rate         => (.ok (), p.setRate rate)
  | subscribe l          => (.ok (), p.subscribe l)
  | unsubscribe topic id => (.ok (), p.unsubscribe topic id)

-- The player after some operations, whether they went through or not.
def after (p : Player α) (operations : List (Operation α)) : Player α :=
  operations.foldl (fun p o => (o.perform p).2) p

-- A player, and which of its copies are up to date.
structure Record (α : Type) [Scalar α] where
  player     : Player α
  knowsTime  : Bool
  knowsOrder : Bool

namespace Record

-- A description that is refused has been loaded in part. A jump that is refused has come to its time,
-- while a step that is refused has come nowhere.
def next (r : Record α) (o : Operation α) : Record α :=
  match o, o.perform r.player with
  | .load _, (.ok _, player)       => ⟨player, true, true⟩
  | .load v, (.error _, player)    =>
    match v.checkDescription.toExcept with
    | .ok _    => ⟨player, false, false⟩
    | .error _ => { r with player }
  | .step _ force, (.ok _, player) =>
    if r.player.playing || force then ⟨player, true, r.knowsOrder || r.player.scene.sorts⟩
    else { r with player }
  | .seek _, (.ok _, player)       => ⟨player, true, r.knowsOrder || r.player.scene.sorts⟩
  | .seek _, (.error _, player)    => { r with player, knowsTime := false }
  | _, (_, player)                 => { r with player }

def after (r : Record α) (operations : List (Operation α)) : Record α :=
  operations.foldl next r

def create (o : Options α) (clock : Clock α) : Option (Value α) → Record α
  | none   => ⟨empty o clock, true, true⟩
  | some v => next ⟨empty o clock, true, true⟩ (.load v)

-- The copies are what the record takes them for.
structure Sound (r : Record α) : Prop where
  coherent : r.player.scene.Coherent
  quiet    : r.player.scene.log = []
  watching : r.player.watching
  time     : r.knowsTime → r.player.currentTime = r.player.scene.time
  order    : r.knowsOrder → r.player.entities = r.player.scene.order

namespace Sound

variable {r : Record α} {s : Scene α}

theorem aside (h : Sound r) (ha : Aside r.player p) : Sound { r with player := p } where
  coherent := ha.scene ▸ h.coherent
  quiet    := ha.scene ▸ h.quiet
  watching := ha.watching.trans h.watching
  time     := ha.scene ▸ ha.currentTime ▸ h.time
  order    := ha.scene ▸ ha.entities ▸ h.order

-- The player knows the order if it has known it before all that has been told.
theorem heard (h : Sound r) (hk : r.knowsOrder) :
    r.player.scene.heard r.player.entities = r.player.scene.order := by
  rw [Scene.heard_of_log_eq_nil h.quiet, h.order hk]

-- Whatever is done to the scene, nothing but the copies is at stake.
theorem of_exec (h : Sound r) {x : SceneM α β} {result : Except SceneError β} {s : Scene α}
    {knowsTime knowsOrder : Bool} (hx : SceneM.Preserves Scene.Coherent x)
    (he : x.exec r.player.scene = (result, s)) (hs : p.scene = { s with log := [] }) (hw : p.watching)
    (ht : knowsTime → p.currentTime = s.time) (ho : knowsOrder → p.entities = s.order) :
    Sound ⟨p, knowsTime, knowsOrder⟩ where
  coherent := by
    have hc := hx _ h.coherent
    rw [he] at hc
    exact hs ▸ hc.log []
  quiet    := by rw [hs]
  watching := hw
  time     := by simpa [hs] using ht
  order    := by simpa [hs] using ho

section Exec

variable {x : SceneM α Unit} {s : Scene α} {e : SceneError} {ev : Event α}

-- An operation has gone through, and the player has brought its copy of the time up to date.
theorem refresh (h : Sound r) (hx : SceneM.Preserves Scene.Coherent x)
    (he : x.exec r.player.scene = (.ok (), s))
    (ha : Aside { r.player with scene := { s with log := [] }, entities := s.heard r.player.entities } p)
    (ho : r.player.scene.heard r.player.entities = r.player.scene.order ∨ r.player.scene.sorts →
      s.heard r.player.entities = s.order) :
    Sound ⟨{ p with currentTime := p.scene.time }.tell ev, true, r.knowsOrder || r.player.scene.sorts⟩ := by
  have ht := Aside.tell { p with currentTime := p.scene.time } ev
  refine h.of_exec hx he (ht.scene.trans ha.scene) (ht.watching.trans (ha.watching.trans h.watching)) ?_ ?_
  · exact fun _ => ht.currentTime.trans (by rw [ha.scene])
  · intro hk
    exact ht.entities.trans (ha.entities.trans (ho (((Bool.or_eq_true ..).mp hk).imp_left h.heard)))

theorem refuse (h : Sound r) {knowsTime : Bool} (hx : SceneM.Preserves Scene.Coherent x)
    (he : x.exec r.player.scene = (.error e, s))
    (ha : Aside { r.player with scene := { s with log := [] }, entities := s.heard r.player.entities } p)
    (ht : knowsTime → r.player.currentTime = s.time)
    (ho : r.player.scene.heard r.player.entities = r.player.scene.order →
      s.heard r.player.entities = s.order) : Sound ⟨p, knowsTime, r.knowsOrder⟩ :=
  h.of_exec hx he ha.scene (ha.watching.trans h.watching) (fun hk => ha.currentTime.trans (ht hk))
    fun hk => ha.entities.trans (ho (h.heard hk))

end Exec

open Scene.Coherent (lasting)

theorem step (h : Sound r) (dt : α) (force : Bool) : Sound (r.next (.step dt force)) := by
  cases hf : r.player.playing || force
  case false => simpa [next, Operation.perform, exec_step_of_idle hf, hf] using h
  case true  =>
    have ⟨result, s, he, _, ht, ho⟩ := Scene.exec_step_heard h.coherent.live
      (Delta.ofNumber (dt * r.player.rate)) r.player.entities
    have ⟨p, hp, ha⟩ := exec_onScene h.watching he
    simp only [next, Operation.perform, exec_step hf, hp]
    cases result
    case error e =>
      exact h.refuse (lasting.step _) he ha (fun hk => (h.time hk).trans (ht (by simp)).symm) (ho <| .inl ·)
    case ok =>
      simpa [hf] using h.refresh (lasting.step _) he ha (by simpa using ho)

theorem seek (h : Sound r) (t : α) : Sound (r.next (.seek t)) := by
  have ⟨result, s, he, ho⟩ := Scene.exec_setTime_heard h.coherent.live t r.player.entities
  have ⟨p, hp, ha⟩ := exec_onScene h.watching he
  simp only [next, Operation.perform, exec_seek, hp]
  cases result
  case error e => exact h.refuse (lasting.setTime t) he ha nofun (ho <| .inl ·)
  case ok      => exact h.refresh (lasting.setTime t) he ha (by simpa using ho)

-- Data that is no description leaves the scene alone.
theorem load (h : Sound r) (v : Value α) : Sound (r.next (.load v)) := by
  rcases he : (Scene.load v).exec r.player.scene with ⟨result, s⟩
  have ⟨p, hp, ha⟩ := exec_onScene h.watching he
  have hw := ha.watching.trans h.watching
  simp only [next, Operation.perform, run_discard, exec_load, hp]
  cases result
  case ok report =>
    have hl := Aside.afterLoad p report
    refine h.of_exec (lasting.load v) he (hl.scene.trans ha.scene) (hl.watching.trans hw) ?_ ?_
    · exact fun _ => hl.currentTime.trans (by rw [ha.scene])
    · exact fun _ => hl.entities.trans (by rw [ha.scene])
  case error e =>
    have hl := ha.trans (Aside.tell p (.loadFailed e))
    dsimp only
    cases hd : v.checkDescription.toExcept
    case ok d         =>
      exact h.of_exec (lasting.load v) he hl.scene (hl.watching.trans h.watching) (by simp) (by simp)
    case error issues =>
      rw [Scene.load, hd, SceneM.exec_throw] at he
      cases he
      refine h.aside ⟨hl.scene.trans ?_, hl.currentTime, hl.entities.trans ?_, hl.watching⟩
      · simp [← h.quiet]
      · exact Scene.heard_of_log_eq_nil h.quiet

theorem next (h : Sound r) (o : Operation α) : Sound (r.next o) := by
  cases o
  case load v               => exact h.load v
  case step dt force        => exact h.step dt force
  case seek t               => exact h.seek t
  case setPlaying isPlaying => exact h.aside (Aside.setPlaying ..)
  case setRate rate         => exact h.aside ⟨rfl, rfl, rfl, rfl⟩
  case subscribe l          => exact h.aside (Aside.subscribe ..)
  case unsubscribe topic id => exact h.aside ⟨rfl, rfl, rfl, rfl⟩

theorem after (h : Sound r) (operations : List (Operation α)) : Sound (r.after operations) := by
  induction operations generalizing r
  case nil         => exact h
  case cons o _ hi => exact hi (h.next o)

theorem empty (o : Options α) (clock : Clock α) : Sound ⟨.empty o clock, true, true⟩ where
  coherent := .create o.toOptions clock
  quiet    := rfl
  watching := rfl
  time     := fun _ => rfl
  order    := fun _ => rfl

theorem create (o : Options α) (clock : Clock α) (description? : Option (Value α)) :
    Sound (.create o clock description?) := by
  cases description?
  case none   => exact empty o clock
  case some v => exact (empty o clock).load v

end Sound

-- The record is kept on the side.
theorem player_next (r : Record α) (o : Operation α) : (r.next o).player = (o.perform r.player).2 := by
  rw [next.eq_def]
  rcases o.perform r.player with ⟨_ | _, p⟩ <;> cases o <;> first | rfl | (dsimp only; split <;> rfl)

theorem player_after (r : Record α) (operations : List (Operation α)) :
    (r.after operations).player = r.player.after operations := by
  induction operations generalizing r
  case nil         => rfl
  case cons o _ hi =>
    rw [after, List.foldl_cons]
    exact (hi (r.next o)).trans (by rw [player_next]; rfl)

theorem player_create (o : Options α) (clock : Clock α) (description? : Option (Value α)) :
    (create o clock description?).player = (Player.create o clock description?).2 := by
  cases description?
  case none   => rfl
  case some v => exact player_next ..

end Record

-- The copies can be told apart from the scene only after a description has been refused in part, or a
-- jump has been, and no longer than until they are brought up to date.
theorem knows_time_and_order (o : Options α) (clock : Clock α) (description? : Option (Value α))
    (operations : List (Operation α)) :
    let r := (Record.create o clock description?).after operations
    let p := (create o clock description?).2.after operations
    r.player = p ∧ (r.knowsTime → p.currentTime = p.scene.time) ∧
      (r.knowsOrder → p.entities = p.scene.order) := by
  intro r p
  have hp : r.player = p := by rw [Record.player_after, Record.player_create]
  have h : r.Sound := (Record.Sound.create o clock description?).after operations
  exact ⟨hp, hp ▸ h.time, hp ▸ h.order⟩

-- A ship at a time other than zero.
def voyage : Value Float :=
  .object [("time", .number 5), ("entities", .object [(Scene.ship, .object [])])]

-- The ship has been left behind for the camera and the ship that follow each other, which do not come
-- in; later it is loaded again.
def detour : List (Operation Float) :=
  [.load Scene.duelValue, .load voyage, .step 1 true]

theorem knows_time_and_order_detour :
    ((create {} ⟨0, 0⟩ (some voyage)).2.after detour).currentTime =
      ((create {} ⟨0, 0⟩ (some voyage)).2.after detour).scene.time ∧
    ((create {} ⟨0, 0⟩ (some voyage)).2.after detour).entities =
      ((create {} ⟨0, 0⟩ (some voyage)).2.after detour).scene.order := by
  have h : ((Record.create {} ⟨0, 0⟩ (some voyage)).after detour).knowsTime ∧
      ((Record.create {} ⟨0, 0⟩ (some voyage)).after detour).knowsOrder := by
    decide +kernel
  have ⟨_, ht, ho⟩ := knows_time_and_order {} ⟨0, 0⟩ (some voyage) detour
  exact ⟨ht h.left, ho h.right⟩

def stranded : Player Float :=
  (create {} ⟨0, 0⟩ (some voyage)).2.after [.load Scene.duelValue]

theorem stranded_eq : (create {} ⟨0, 0⟩ (some voyage)).1.isOk ∧ (stranded.currentTime == 5) ∧
    (stranded.scene.time == 0) ∧ stranded.entities = [Scene.ship] ∧
    stranded.scene.order = [Scene.camera] := by
  decide +kernel

theorem not_knows_time_and_order : ¬∀ (o : Options Float) (clock : Clock Float)
    (description? : Option (Value Float)) (operations : List (Operation Float)),
    (create o clock description?).1.isOk →
    let p := (create o clock description?).2.after operations
    p.currentTime = p.scene.time ∧ p.entities = p.scene.order := by
  intro h
  have ⟨hc, _, _, he, ho⟩ := stranded_eq
  have hs := (h {} ⟨0, 0⟩ (some voyage) [.load Scene.duelValue] hc).right
  rw [stranded] at he ho
  exact absurd (he.symm.trans (hs.trans ho)) (by decide)

end Player
end SceneMotion
