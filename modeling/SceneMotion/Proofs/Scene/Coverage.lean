import SceneMotion.Proofs.Scene.Commit
import SceneMotion.Proofs.Scene.Entries
import SceneMotion.Proofs.Scene.UpToDate

namespace SceneMotion

variable {α : Type} [Scalar α]

-- What is asked of a scene that nobody edits behind its back. The track of a new entity is compiled
-- for it right before.
inductive Request (α : Type) [Scalar α]
  | insert (name : Text) (o : Entity.Options α) (source? : Option (Value α))
  | remove (name : Text)
  | setEntityTrack (name : Text) (source : Value α)
  | setOrder (a b : Text)
  | load (v : Value α)
  | step (delta : Delta α)
  | setTime (t : α)

namespace Scene

def createOptionalTrack (owner : Text) : Option (Value α) → SceneM α (Option (Track α))
  | none        => pure none
  | some source => do return some (← createTrack owner source)

def insertEntity (name : Text) (o : Entity.Options α) (source? : Option (Value α)) :
    SceneM α PUnit := do
  let track ← createOptionalTrack name source?
  let e ← newEntity name { o with track }
  insert (.entity e)

variable {s s' : Scene α} {name : Text} {o : Entity.Options α} {source : Value α} {track : Track α}

theorem exec_insertEntity_none : (insertEntity name o none).exec s =
    (do let e ← newEntity name { o with track := none }; insert (.entity e)).exec s :=
  SceneM.exec_pure_bind

theorem exec_insertEntity_some (h : (createTrack name source).exec s = (.ok track, s')) :
    (insertEntity name o (some source)).exec s =
      (do let e ← newEntity name { o with track := some track }; insert (.entity e)).exec s' :=
  SceneM.exec_bind_ok (SceneM.exec_bind_ok h)

end Scene

namespace Request

def perform : Request α → SceneM α PUnit
  | insert name o source?      => Scene.insertEntity name o source?
  | remove name                => Scene.remove name
  | setEntityTrack name source => do let _ ← Scene.setEntityTrack name source
  | setOrder a b               => Scene.setOrder a b
  | load v                     => do let _ ← Scene.load v
  | step delta                 => Scene.step delta
  | setTime t                  => Scene.setTime t

-- Entity `b` is taken out.
def Cuts (s : Scene α) (b : Text) : Request α → Prop
  | remove name => b = name ∧ s.members.has name
  | _           => False

-- Entity `a` is put after `b`, if it was not before: on its own, with all that a track of `a`
-- mentions, or with everything else that is loaded. That `b` comes back is not enough.
def Restores (s : Scene α) (a b : Text) : Request α → Prop
  | insert name _ source? => ∃ source ∈ source?, a = name ∧
    b ∈ (Track.ofValue name source).mentioned ∧
    ∃ track s', (Scene.createTrack name source).exec s = (.ok track, s')
  | setEntityTrack name source => a = name ∧ b ∈ (Track.ofValue name source).mentioned ∧
    ∃ track s', (Scene.setEntityTrack name source).exec s = (.ok track, s')
  | setOrder x y => a = x ∧ b = y ∧ ∃ s', (Scene.setOrder x y).exec s = (.ok (), s')
  | load v => ∃ d, v.checkDescription.toExcept = .ok d
  | _ => False

end Request

-- A scene, and who has lost the edge to whom along the way.
structure Trail (α : Type) [Scalar α] where
  scene   : Scene α
  severed : Text → Text → Prop

namespace Trail

def start (o : Scene.Options α) (clock : Clock α) : Trail α where
  scene       := .create o clock
  severed _ _ := False

def next (t : Trail α) (r : Request α) : Trail α where
  scene       := (r.perform.exec t.scene).2
  severed a b := r.Cuts t.scene b ∨ (t.severed a b ∧ ¬r.Restores t.scene a b)

def after (t : Trail α) (requests : List (Request α)) : Trail α :=
  requests.foldl next t

end Trail

namespace Scene

variable {s s' : Scene α} {severed severed' more : Text → Text → Prop} {m : Member α} {name : Text}

-- There is an edge for everybody that a member reads, other than those from which it is severed, and
-- none to these.
structure Covered (s : Scene α) (severed : Text → Text → Prop) : Prop where
  coherent : Coherent s
  kept     : ∀ a b, s.Reads a b → ¬severed a b → s.graph.hasOrder a b
  cut      : ∀ a b, severed a b → ¬s.graph.hasOrder a b

namespace Covered

theorem create (o : Options α) (clock : Clock α) : Covered (create o clock) fun _ _ => False where
  coherent := .create o clock
  kept     := fun _ _ ⟨_, h, _⟩ => nomatch h
  cut      := fun _ _ h => h.elim

theorem of_iff (h : Covered s severed) (hs : ∀ a b, severed' a b ↔ severed a b) :
    Covered s severed' where
  coherent := h.coherent
  kept     := fun a b hr hn => h.kept a b hr fun hs' => hn ((hs a b).mpr hs')
  cut      := fun a b hs' => h.cut a b ((hs a b).mp hs')

theorem congr (h : Covered s severed) (hc : Coherent s') (hr : s'.roles = s.roles)
    (hg : s'.graph = s.graph) : Covered s' severed where
  coherent := hc
  kept     := fun a b hab hs => hg ▸ h.kept a b (hab.of_roles_eq hr) hs
  cut      := fun a b hs => hg ▸ h.cut a b hs

theorem gain (h : Covered s severed) (hc : Coherent s') (hg : Gains s s' more) :
    Covered s' fun a b => severed a b ∧ ¬more a b where
  coherent := hc
  kept     := by
    intro a b hab hs
    rw [hg.hasOrder]
    have hr : s'.roles = s.roles := by rw [roles, roles, hg.members]
    by_cases hm : more a b
    case pos => exact .inr hm
    case neg => exact .inl <| h.kept a b (hab.of_roles_eq hr) fun hs' => hs ⟨hs', hm⟩
  cut      := by
    rintro a b ⟨hs, hm⟩
    rw [hg.hasOrder, not_or]
    exact ⟨h.cut a b hs, hm⟩

theorem gain_nothing (h : Covered s severed) (hc : Coherent s')
    (hg : Gains s s' fun _ _ => False) : Covered s' severed :=
  (h.gain hc hg).of_iff fun _ _ => by simp

open SceneM (Preserves)

theorem sort : Preserves (Covered · severed) (Scene.sort : SceneM α Unit) := by
  intro s h
  have hc := Coherent.sort s h.coherent
  cases exec_sort h.coherent.built h.coherent.nodup h.coherent.valid
  case inl ho =>
    have ⟨_, _, ho, _⟩ := ho
    rw [ho] at hc ⊢
    exact h.congr hc rfl rfl
  case inr he =>
    have ⟨_, _, he, _⟩ := he
    rw [he] at hc ⊢
    exact h.congr hc rfl rfl

theorem advance (h : Covered s severed) (delta : Delta α) : Covered (s.advance delta) severed :=
  h.congr (h.coherent.advance delta) (roles_advance h.coherent.named delta) advance_graph

theorem step (delta : Delta α) : Preserves (Covered · severed) (Scene.step delta) :=
  .bind sort fun _ => .modify fun _ h => h.advance delta

theorem setTime (t : α) : Preserves (Covered · severed) (Scene.setTime t) := by
  refine .bind (.modify fun _ h => ?_) fun _ => .bind (step _) fun _ => step _
  exact h.congr (h.coherent.congr rfl rfl rfl rfl rfl) rfl rfl

-- There is an edge for everybody that a member to come reads.
def Ready (s : Scene α) (m : Member α) : Prop :=
  ∀ track, m.track = some track → ∀ b ∈ track.reads, s.graph.hasOrder m.name b

theorem newEntity (h : Covered s severed) (name : Text) (o : Entity.Options α)
    (ht : ∀ track, o.track = some track → ∀ b ∈ track.reads, s.graph.hasOrder name b) :
    ∃ e s', (Scene.newEntity name o).exec s = (.ok e, s') ∧ Covered s' severed ∧
      Ready s' (.entity e) := by
  have hc := Coherent.newEntity name o s h.coherent
  have ⟨e, _, _, hs, hn, hto, _⟩ := exec_newEntity s name o
  rw [hs] at hc
  refine ⟨e, _, hs, h.congr hc rfl rfl, fun track hat b hb => ?_⟩
  have hat : e.track = some track := hat
  rw [Member.name, hn]
  exact ht track (hto ▸ hat) b hb

-- Whoever comes in after those that they read is covered, whatever was severed before.
theorem insert (h : Covered s severed) (ht : Ready s m) :
    Covered ((Scene.insert m).exec s).2 severed := by
  have hc := Coherent.insert m s h.coherent
  by_cases hm : s.members.has m.name
  case pos => exact exec_insert_of_has hm ▸ h
  case neg =>
    have hk : m.name ∉ s.roles.keys := by rwa [keys_roles, ← Table.has_iff_mem_keys]
    have ⟨s', hs, hr, _, hg⟩ := h.coherent.exec_insert (Bool.eq_false_iff.mpr hm)
    rw [hs] at hc ⊢
    refine ⟨hc, fun a b hab hsev => ?_, fun a b hsev => hg ▸ h.cut a b hsev⟩
    have ⟨track, hat, hb⟩ := hab
    rw [hg]
    rw [trackOf_eq, hr, Table.get?_append_singleton hk] at hat
    split at hat
    case isTrue ha  => exact ha ▸ ht track hat b hb
    case isFalse ha => exact h.kept a b ⟨track, by rwa [trackOf_eq], hb⟩ hsev

theorem insertNew (h : Covered s severed) {o : Entity.Options α}
    (ht : ∀ track, o.track = some track → ∀ b ∈ track.reads, s.graph.hasOrder name b) :
    Covered ((do let e ← Scene.newEntity name o; Scene.insert (.entity e)).exec s).2 severed := by
  have ⟨e, s', hs, h', hr⟩ := h.newEntity name o ht
  rw [SceneM.exec_bind_ok hs]
  exact h'.insert hr

theorem insertEntity (h : Covered s severed) (name : Text) (o : Entity.Options α)
    (source? : Option (Value α)) : Covered ((Scene.insertEntity name o source?).exec s).2 fun a b =>
      severed a b ∧ ¬(Request.insert name o source?).Restores s a b := by
  cases source?
  case none =>
    rw [exec_insertEntity_none]
    exact (h.insertNew (o := { o with track := none }) nofun).of_iff fun _ _ => by simp [Request.Restores]
  case some source =>
    have hc := Coherent.stable.createTrack name source s h.coherent
    have ⟨edges, hr⟩ := h.coherent.built.represents
    cases exec_createTrack hr name source
    case inl ht =>
      have ⟨track, s', ht, hct, hw⟩ := ht
      have hg := hw.gains hr fun _ _ => EdgeList.mem_link
      rw [ht] at hc
      rw [exec_insertEntity_some ht]
      refine ((h.gain hc hg).insertNew ?_).of_iff fun a b => ?_
      · intro _ hat b hb
        cases hat
        exact (hg.hasOrder name b).mpr (.inr ⟨rfl, Track.ofValue_reads hct hb⟩)
      · simp [Request.Restores, ht]
    case inr he =>
      have ⟨e, s', he, hw, _⟩ := he
      rw [he] at hc
      have hs : (Scene.insertEntity name o (some source)).exec s = (.error e, s') :=
        SceneM.exec_bind_error (SceneM.exec_bind_error he)
      rw [hs]
      exact (h.gain_nothing hc (hw.gains_nothing hr)).of_iff fun _ _ => by simp [Request.Restores, he]

theorem setOrder (h : Covered s severed) (x y : Text) :
    Covered ((Scene.setOrder x y).exec s).2 fun a b =>
      severed a b ∧ ¬(Request.setOrder x y).Restores s a b := by
  have hc := Coherent.stable.editGraph (.set x y) s h.coherent
  cases he : s.graph.edit (.set x y)
  case error =>
    have hs : (Scene.setOrder x y).exec s = _ := exec_editGraph_error he
    rw [hs]
    exact h.of_iff fun _ _ => by simp [Request.Restores, hs]
  case ok g =>
    have hs : (Scene.setOrder x y).exec s = _ := exec_editGraph_ok he
    have ⟨edges, hr⟩ := h.coherent.built.represents
    have hg : Gains s (s.withGraph (.set x y) g) fun a b => a = x ∧ b = y := by
      have ⟨_, hw⟩ := s.withGraph_eq (.set x y) g
      refine ⟨by rw [hw], fun a b => ?_⟩
      rw [withGraph_graph, (hr.setOrder he).hasOrder_iff, hr.hasOrder_iff, List.mem_append,
        List.mem_singleton, Prod.mk.injEq]
    have hc : ((Scene.setOrder x y).exec s).2.Coherent := hc
    rw [hs] at hc ⊢
    exact (h.gain hc hg).of_iff fun _ _ => by simp [Request.Restores, hs]

theorem remove (h : Covered s severed) (name : Text) :
    Covered ((Scene.remove name).exec s).2 fun a b =>
      (Request.remove name).Cuts s b ∨ severed a b := by
  have hc := Coherent.remove name s h.coherent
  by_cases hm : s.members.has name
  case neg =>
    rw [exec_remove_of_not_has (Bool.eq_false_iff.mpr hm)]
    exact h.of_iff fun _ _ => by simp [Request.Cuts, hm]
  case pos =>
    have ⟨log, hs⟩ := exec_remove hm
    have ⟨edges, hr⟩ := h.coherent.built.represents
    rw [hs] at hc ⊢
    have ho a b : (s.graph.removeEntity name).hasOrder a b ↔
        s.graph.hasOrder a b ∧ a ≠ name ∧ b ≠ name := by
      rw [hr.removeEntity.hasOrder_iff, hr.hasOrder_iff, EdgeList.mem_without]
    refine ⟨hc, fun a b hab hsev => ?_, fun a b hsev => ?_⟩
    · have ⟨track, hat, hb⟩ := hab
      rw [trackOf, member?, Table.get?_erase] at hat
      rw [Request.Cuts, not_or, and_iff_left hm] at hsev
      split at hat
      case isTrue     => contradiction
      case isFalse ha =>
        exact (ho a b).mpr ⟨h.kept a b ⟨track, hat, hb⟩ hsev.right, ha, hsev.left⟩
    · rw [ho]
      rintro ⟨hab, _, hb⟩
      cases hsev
      case inl hsev => exact hb hsev.left
      case inr hsev => exact h.cut a b hsev hab

theorem setEntityTrack (h : Covered s severed) (name : Text) (source : Value α) :
    Covered ((Scene.setEntityTrack name source).exec s).2 fun a b =>
      severed a b ∧ ¬(Request.setEntityTrack name source).Restores s a b := by
  have hc := Coherent.lasting.setEntityTrack name source s h.coherent
  cases he : s.entity? name
  case none =>
    have hs : (Scene.setEntityTrack name source).exec s =
        (.error (.dependency (.notTrackDriven name)), s) := by simp [Scene.setEntityTrack, he]
    rw [hs]
    exact h.of_iff fun _ _ => by simp [Request.Restores, hs]
  case some e =>
    obtain ⟨edges, hr⟩ := h.coherent.built.represents
    cases exec_setEntityTrack hr he source
    case inr hf =>
      obtain ⟨f, s', hs, hw, _⟩ := hf
      rw [hs] at hc ⊢
      exact (h.gain_nothing hc (hw.gains_nothing hr)).of_iff fun _ _ => by simp [Request.Restores, hs]
    case inl ht =>
      obtain ⟨track, s', hs, ht⟩ := ht
      have ho (a b : Text) : s'.graph.hasOrder a b ↔ _ :=
        ht.graph.hasOrder_iff.trans (EdgeList.mem_unlink.trans (and_congr_left' EdgeList.mem_link))
      rw [hs] at hc ⊢
      suffices Covered s' fun a b =>
          severed a b ∧ ¬(a = name ∧ b ∈ (Track.ofValue name source).mentioned) from
        this.of_iff fun _ _ => by simp [Request.Restores, hs]
      refine ⟨hc, fun a b hab hsev => (ho a b).mpr ?_, fun a b hsev hab => ?_⟩
      · obtain ⟨track', hat, hb⟩ := hab
        rw [trackOf, member?, ht.members, h.coherent.named.entity_name he, Table.get?_set] at hat
        split at hat
        case isTrue ha =>
          -- Nothing that the new track reads is dropped.
          cases hat
          exact ⟨.inr ⟨ha, ht.reads_subset hb⟩, by simp [hb]⟩
        case isFalse ha =>
          have hsev : ¬severed a b := fun hs => hsev ⟨hs, fun hn => ha hn.left⟩
          have hab := h.kept a b ⟨track', hat, hb⟩ hsev
          exact ⟨.inl (hr.hasOrder_iff.mp hab), fun hd => ha hd.left⟩
      · have hab := ((ho a b).mp hab).left.resolve_right hsev.right
        exact h.cut a b hsev.left (hr.hasOrder_iff.mpr hab)

-- A scene in which nothing is severed.
abbrev Whole (s : Scene α) : Prop :=
  Covered s fun _ _ => False

theorem adoptOptional (h : Whole s) (owner : Text) (e? : Option (Expr α)) : ∃ result s',
    (Scene.adoptOptional owner e?).exec s = (result, s') ∧ Whole s' ∧
      ∀ track, result = .ok (.ok (some track)) → ∀ b ∈ track.reads, s'.graph.hasOrder owner b := by
  cases e?
  case none => exact ⟨_, s, rfl, h, nofun⟩
  case some e =>
    have hc := Coherent.stable.adopt owner (compileTrack owner e) s h.coherent
    cases hr : (compileTrack owner e).result
    case error fault =>
      refine ⟨.ok (.error fault), s, ?_, h, nofun⟩
      simp [Scene.adoptOptional, adopt, hr]
      rfl
    case ok track =>
      obtain ⟨edges, hedges⟩ := h.coherent.built.represents
      cases exec_adopt hedges owner hr
      case inl ha =>
        obtain ⟨s', ha, hw⟩ := ha
        have hg := hw.gains hedges fun _ _ => EdgeList.mem_link
        rw [ha] at hc
        refine ⟨_, s', SceneM.exec_bind_ok ha, (h.gain hc hg).of_iff (by simp), ?_⟩
        intro track' ht b hb
        cases ht
        exact (hg.hasOrder owner b).mpr (.inr ⟨rfl, compileTrack_reads hr hb⟩)
      case inr he =>
        obtain ⟨e, s', he, _, hw, _⟩ := he
        rw [he] at hc
        exact ⟨_, s', SceneM.exec_bind_error he, h.gain_nothing hc (hw.gains_nothing hedges), by simp⟩

theorem describedEntity (h : Whole s) (name : Text) (d : EntityDescription α) : ∃ result s',
    (Scene.describedEntity name d).exec s = (result, s') ∧ Whole s' ∧
      ∀ e, result = .ok (.ok e) → Ready s' (.entity e) := by
  rw [Scene.describedEntity]
  cases readFrame d.frame
  case error => exact ⟨_, s, rfl, h, by simp⟩
  case ok frame =>
    obtain ⟨result, s', ha, h', ht⟩ := adoptOptional h name d.track
    rcases result with _ | _ | track
    case error    => exact ⟨_, s', SceneM.exec_bind_error ha, h', by simp⟩
    case ok.error => exact ⟨_, s', SceneM.exec_bind_ok ha, h', by simp⟩
    case ok.ok    =>
      obtain ⟨e, s'', hs, h'', hr⟩ := h'.newEntity name
        { frame, track, canChange := d.canChange, teleportDistance := some s'.teleportDistance }
        fun track' hto => ht track' (by rw [← hto])
      refine ⟨.ok (.ok e), s'', (SceneM.exec_bind_ok ha).trans ?_, h'', fun e he => by cases he; exact hr⟩
      exact SceneM.exec_get_bind.trans (SceneM.exec_bind_ok hs)

theorem loadEntity (report : LoadReport) (name : Text) (d : EntityDescription α) :
    Preserves Whole (Scene.loadEntity report name d) := by
  intro s h
  have ⟨result, s', hd, h', hr⟩ := describedEntity h name d
  rw [Scene.loadEntity]
  rcases result with _ | _ | e
  case error    => rwa [SceneM.exec_bind_error hd]
  case ok.error =>
    rw [SceneM.exec_bind_ok hd, SceneM.exec_bind_pure]
    exact h'.congr (h'.coherent.log _) rfl rfl
  case ok.ok    =>
    rw [SceneM.exec_bind_ok hd, SceneM.exec_bind_pure]
    exact h'.insert (hr e rfl)

theorem clear (h : Covered s severed) : Whole s.clear := by
  have hc := h.coherent.clear
  have ⟨log, hs⟩ := s.clear_eq
  rw [hs] at hc ⊢
  refine ⟨hc, ?_, fun _ _ hs => hs.elim⟩
  rintro _ _ ⟨_, ht, _⟩ _
  cases ht

theorem load (h : Covered s severed) (v : Value α) :
    Covered ((Scene.load v).exec s).2 fun a b =>
      severed a b ∧ ¬(Request.load v).Restores s a b := by
  cases hd : v.checkDescription.toExcept
  case error issues =>
    have hs : (Scene.load v).exec s = (.error (.description issues), s) := by
      simp [Scene.load, hd]
    rw [hs]
    exact h.of_iff fun _ _ => by simp [Request.Restores, hd]
  case ok d =>
    have hw : Whole ((Scene.load v).exec s).2 := by
      simp only [Scene.load, hd, loadDescription, SceneM.exec_modify_bind]
      refine Preserves.bind (preserves_loadEntities loadEntity _ _) (fun _ => ?_) _ h.clear
      refine .bind (.modify fun _ h => ?_) fun _ => .bind (setTime _) fun _ => .pure
      exact h.congr (h.coherent.congr rfl rfl rfl rfl rfl) rfl rfl
    exact hw.of_iff fun _ _ => by simp [Request.Restores, hd]

end Covered
end Scene

namespace Trail

open Scene

theorem covered_next {t : Trail α} (h : Covered t.scene t.severed) (r : Request α) :
    Covered (t.next r).scene (t.next r).severed := by
  cases r
  case insert name o source? =>
    exact (h.insertEntity name o source?).of_iff fun _ _ => by simp [next, Request.Cuts]
  case remove name =>
    exact (h.remove name).of_iff fun _ _ => by simp [next, Request.Restores]
  case setEntityTrack name source =>
    have hs : (t.next (.setEntityTrack name source)).scene = _ := SceneM.exec_bind_pure
    rw [hs]
    exact (h.setEntityTrack name source).of_iff fun _ _ => by simp [next, Request.Cuts]
  case setOrder x y =>
    exact (h.setOrder x y).of_iff fun _ _ => by simp [next, Request.Cuts]
  case load v =>
    have hs : (t.next (.load v)).scene = _ := SceneM.exec_bind_pure
    rw [hs]
    exact (h.load v).of_iff fun _ _ => by simp [next, Request.Cuts]
  case step delta =>
    exact (Covered.step delta _ h).of_iff fun _ _ => by
      simp [next, Request.Cuts, Request.Restores]
  case setTime time =>
    exact (Covered.setTime time _ h).of_iff fun _ _ => by
      simp [next, Request.Cuts, Request.Restores]

theorem covered_after {t : Trail α} (h : Covered t.scene t.severed) (requests : List (Request α)) :
    Covered (t.after requests).scene (t.after requests).severed := by
  induction requests generalizing t
  case nil       => exact h
  case cons r _ hi => exact hi (covered_next h r)

-- The camera follows the ship.
def followsShip : Value Float :=
  Expr.tupleValue "entity" [.text ship]

-- The ship is taken out and put back under the camera that follows it.
def detour : Trail Float := (start {} ⟨0, 0⟩).after
  [.insert ship {} none, .insert camera {} (some followsShip), .remove ship, .insert ship {} none]

theorem exec_remove_roles {s : Scene α} {name : Text} (h : s.members.has name) : ∃ s',
    (remove name).exec s = (.ok (), s') ∧ s'.roles = s.roles.erase name := by
  have ⟨_, hs⟩ := exec_remove h
  refine ⟨_, hs, ?_⟩
  simp only [roles, Table.erase, List.filter_map]
  rfl

theorem exec_insertNew {s : Scene α} (name : Text) (h : Coherent s) (hn : name ∉ s.roles.keys)
    (o : Entity.Options α) : ∃ s',
    (do let e ← newEntity name o; insert (.entity e)).exec s = (.ok (), s') ∧ Coherent s' ∧
      s'.roles = s.roles ++ [(name, name, o.track)] ∧ s'.graph = s.graph := by
  have hc := Coherent.newEntity name o s h
  have ⟨e, clock, log, hs, hen, het, _⟩ := exec_newEntity s name o
  rw [hs] at hc
  have hm : Table.has s.members (Member.entity e).name = false := by
    rw [Member.name, hen, Table.has_eq_false_iff, ← keys_roles]
    exact hn
  obtain ⟨s', hi, hr, _, hg⟩ := hc.exec_insert hm
  have hc := Coherent.insert (.entity e) _ hc
  rw [hi] at hc
  refine ⟨s', (SceneM.exec_bind_ok hs).trans hi, hc, ?_, hg⟩
  rw [hr, Member.role, Member.name, Member.track, hen, het]
  rfl

theorem exec_createTrack_followsShip {s : Scene Float} (h : Coherent s) (hg : s.graph = .empty) :
    ∃ s', (createTrack camera followsShip).exec s = (.ok (.entity ship .identity), s') ∧
      Coherent s' ∧ s'.roles = s.roles := by
  have hc : Track.ofValue camera followsShip = ⟨.ok (.entity ship .identity), [ship]⟩ := rfl
  have hn : [ship].foldl (s.graph.note camera) [] = [ship] := by
    rw [hg]
    rfl
  have ho : s.graph.setOrder camera ship = .ok shipFirst := by
    rw [hg]
    rfl
  have hs : (createTrack camera followsShip).exec s =
      (.ok (.entity ship .identity), s.withGraph (.set camera ship) shipFirst) := by
    simp only [createTrack, adopt, hc, hn, commit, ho, SceneM.exec_bind, SceneM.exec_get,
      SceneM.exec_set, SceneM.exec_pure]
  have hco := Coherent.stable.createTrack camera followsShip s h
  have hm := (members_stable s.members).createTrack camera followsShip s rfl
  rw [hs] at hco hm
  exact ⟨_, hs, hco, by rw [roles, hm]; rfl⟩

theorem detour_spec : detour.scene.Reads camera ship ∧ ship ∈ detour.scene.members.keys ∧
    detour.severed camera ship := by
  have h := Coherent.create (α := Float) {} ⟨0, 0⟩
  have ⟨s₁, e₁, h₁, r₁, g₁⟩ := exec_insertNew ship h (by decide) {}
  have ⟨s₂, e₂, h₂, r₂⟩ := exec_createTrack_followsShip h₁ g₁
  have ⟨s₃, e₃, h₃, r₃, _⟩ := exec_insertNew camera h₂ (by rw [r₂, r₁]; decide)
    { track := some (.entity ship .identity) }
  have hm : s₃.members.has ship := by
    rw [Table.has_iff_mem_keys, ← keys_roles, r₃, r₂, r₁]
    decide
  have ⟨s₄, e₄, r₄⟩ := exec_remove_roles hm
  have h₄ := Coherent.remove ship s₃ h₃
  rw [e₄] at h₄
  have ⟨s₅, e₅, h₅, r₅, _⟩ := exec_insertNew ship h₄ (by rw [r₄, r₃, r₂, r₁]; decide) {}
  have hi₁ : (insertEntity ship {} none).exec (create {} ⟨0, 0⟩) = (.ok (), s₁) :=
    exec_insertEntity_none.trans e₁
  have hi₃ : (insertEntity camera {} (some followsShip)).exec s₁ = (.ok (), s₃) :=
    (exec_insertEntity_some e₂).trans e₃
  have hi₅ : (insertEntity ship {} none).exec s₄ = (.ok (), s₅) :=
    exec_insertEntity_none.trans e₅
  have hd : detour.scene = s₅ := by
    simp only [detour, after, List.foldl, next, Request.perform, start, hi₁, hi₃, e₄, hi₅]
  have hr : s₅.roles = [(camera, camera, some (.entity ship .identity)), (ship, ship, none)] := by
    rw [r₅, r₄, r₃, r₂, r₁]
    rfl
  rw [hd]
  refine ⟨⟨.entity ship .identity, ?_, List.mem_singleton_self _⟩, ?_, ?_⟩
  · rw [trackOf_eq, hr]
    rfl
  · rw [← keys_roles, hr]
    decide
  · refine .inr ⟨.inl ⟨rfl, ?_⟩, ?_⟩
    · simp only [next, Request.perform, start, hi₁, hi₃, hm]
    · simp [Request.Restores]

theorem hasOrder_iff_not_severed {o : Options α} {clock : Clock α} {requests : List (Request α)}
    {a b : Text} (h : ((start o clock).after requests).scene.Reads a b) :
    ((start o clock).after requests).scene.graph.hasOrder a b ↔
      ¬((start o clock).after requests).severed a b := by
  have hc := covered_after (t := start o clock) (Covered.create o clock) requests
  exact ⟨fun ho hs => hc.cut a b hs ho, hc.kept a b h⟩

theorem hasOrder_detour : detour.scene.Reads camera ship ∧ detour.severed camera ship ∧
    ¬detour.scene.graph.hasOrder camera ship :=
  have ⟨hr, _, hs⟩ := detour_spec
  ⟨hr, hs, fun ho => (hasOrder_iff_not_severed hr).mp ho hs⟩

theorem not_coversReads : ¬∀ (o : Options Float) (clock : Clock Float) (requests : List (Request Float)),
    ((start o clock).after requests).scene.CoversReads := by
  intro h
  have ⟨hr, hk, hs⟩ := detour_spec
  have hc := covered_after (t := start (α := Float) {} ⟨0, 0⟩) (.create ..)
    [.insert ship {} none, .insert camera {} (some followsShip), .remove ship, .insert ship {} none]
  exact hc.cut camera ship hs (h _ _ _ camera ship hr hk)

end Trail
end SceneMotion
