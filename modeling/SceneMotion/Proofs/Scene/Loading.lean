import SceneMotion.Proofs.Double.Counting
import SceneMotion.Proofs.Scene.Coverage
import SceneMotion.Proofs.Scene.Entries
import SceneMotion.Proofs.Scene.Jump

namespace SceneMotion

variable {α : Type} [Scalar α]

namespace Scene

variable {s s' : Scene α} {m : Member α} {name k : Text} {d : EntityDescription α}
variable {done : Entries α} {track? : Option (Track α)}

-- Edits leave the order of the members alone, and do not make it seem valid if it was not known to be.
theorem order_stable (s₀ : Scene α) :
    StableUnderEdits fun s : Scene α => s.order = s₀.order ∧ (s₀.needsSort → s.needsSort) := by
  intro s c g _ ⟨ho, hs⟩
  have ⟨_, hw⟩ := s.withGraph_eq c g
  rw [hw]
  exact ⟨ho, fun h => by simp [hs h]⟩

theorem built_stable : StableUnderEdits fun s : Scene α => s.graph.Built := by
  intro s c g he h
  rw [withGraph_graph]
  exact .edit h he

-- An entity has been put after some others.
structure TakesOn (s s' : Scene α) (owner : Text) (names : List Text) : Prop where
  members   : s'.members = s.members
  order     : s'.order = s.order
  needsSort : s.needsSort → s'.needsSort
  built     : s'.graph.Built
  hasOrder  : ∀ a b, s'.graph.hasOrder a b ↔ s.graph.hasOrder a b ∨ (a = owner ∧ b ∈ names)

-- A name that no edge involves has not been put after anybody.
theorem TakesOn.settled {owner : Text} {names : List Text} (ht : TakesOn s s' owner names)
    (h : s.needsSort = false → ∀ a b, s.graph.hasOrder a b = false) (hs : s'.needsSort = false)
    (hi : s'.graph.involves owner = false) (a b : Text) : s'.graph.hasOrder a b = false := by
  have hs₀ : s.needsSort = false := Bool.eq_false_iff.mpr fun h => by simp [ht.needsSort h] at hs
  have ⟨edges, hr⟩ := ht.built.represents
  refine Bool.eq_false_iff.mpr fun hab => ?_
  cases (ht.hasOrder a b).mp hab
  case inl hab => simp [h hs₀ a b] at hab
  case inr ha  =>
    rw [ha.left, hr.hasOrder_iff] at hab
    exact (hr.not_mem_of_involves_eq_false hi).right hab

-- Only an edge straight back stands in the way.
theorem exec_adopt_takesOn (hb : s.graph.Built) {source : Expr α} {track : Track α}
    (hc : (compileTrack name source).result = .ok track) :
    (∃ s', (adopt name (compileTrack name source)).exec s = (.ok (.ok track), s') ∧
      TakesOn s s' name (compileTrack name source).mentioned) ∨
    (∃ e s', (adopt name (compileTrack name source)).exec s = (.error (.dependency e), s') ∧
      e.code = .invalidDependency ∧
      ∃ b ∈ (compileTrack name source).mentioned, s.graph.hasOrder b name) := by
  have ⟨edges, hr⟩ := hb.represents
  have ⟨_, hown⟩ := compileTrack_mentioned hc
  have ⟨ho, hs⟩ := (order_stable s).adopt name (compileTrack name source) s ⟨rfl, id⟩
  have hb' := built_stable.adopt name (compileTrack name source) s hb
  cases exec_adopt hr name hc
  case inl ha =>
    obtain ⟨s', ha, hw⟩ := ha
    rw [ha] at ho hs hb'
    refine .inl ⟨s', ha, hw.members, ho, hs, hb', fun a b => ?_⟩
    simp only [hw.graph.hasOrder_iff, EdgeList.mem_link, hr.hasOrder_iff]
  case inr he =>
    obtain ⟨f, s', he, hcode, _, ha⟩ := he
    refine .inr ⟨f, s', he, hcode, ?_⟩
    simp only [EdgeList.Admits, not_forall, not_and_or, not_not] at ha
    obtain ⟨b, hbm, hbo⟩ := ha
    have hne : b ≠ name := fun hbn => hown (hbn ▸ hbm)
    exact ⟨b, hbm, hr.hasOrder_iff.mpr (hbo.resolve_left hne)⟩

theorem exec_adoptOptional_error {e : TrackError} (h : d.compile name = .error e) :
    (adoptOptional name d.track).exec s = (.ok (.error e), s) := by
  obtain ⟨source, ht, hc⟩ := EntityDescription.compile_eq_error h
  simp [adoptOptional, ht, adopt, hc, Except.map]

theorem exec_adoptOptional (hb : s.graph.Built) (h : d.compile name = .ok track?) :
    (∃ s', (adoptOptional name d.track).exec s = (.ok (.ok track?), s') ∧
      TakesOn s s' name d.mentions) ∨
    (∃ e s', (adoptOptional name d.track).exec s = (.error (.dependency e), s') ∧
      e.code = .invalidDependency ∧ ∃ b ∈ d.mentions, s.graph.hasOrder b name) := by
  obtain ⟨ht, rfl, hm⟩ | ⟨source, track, ht, rfl, hc, hm⟩ := EntityDescription.compile_eq_ok h <;>
    rw [ht, hm]
  · exact .inl ⟨s, rfl, rfl, rfl, id, hb, by simp⟩
  · obtain ⟨s', ha, ht⟩ | ⟨e, s', he, hcb⟩ := exec_adopt_takesOn hb hc
    · exact .inl ⟨s', SceneM.exec_bind_ok ha, ht⟩
    · exact .inr ⟨e, s', SceneM.exec_bind_error he, hcb⟩

theorem exec_describedEntity_error {e : TrackError} (h : d.read name = .error e) :
    (describedEntity name d).exec s = (.ok (.error e), s) := by
  rw [describedEntity]
  rw [EntityDescription.read] at h
  cases hf : readFrame d.frame <;> rw [hf] at h
  case error => cases h; rfl
  case ok    =>
    cases hc : d.compile name <;> rw [hc] at h <;> cases h
    exact SceneM.exec_bind_ok (exec_adoptOptional_error hc)

theorem exec_describedEntity {frame? : Option (Frame α)} (hb : s.graph.Built)
    (h : d.read name = .ok (frame?, track?)) :
    (∃ e s', (describedEntity name d).exec s = (.ok (.ok e), s') ∧ TakesOn s s' name d.mentions ∧
      e.name = name ∧ e.track = track? ∧ (track? = none → e.frame = frame?.getD .identity)) ∨
    (∃ e s', (describedEntity name d).exec s = (.error (.dependency e), s') ∧
      e.code = .invalidDependency ∧ ∃ b ∈ d.mentions, s.graph.hasOrder b name) := by
  obtain ⟨hf, hc⟩ := EntityDescription.read_eq_ok_iff.mp h
  simp only [describedEntity, hf]
  obtain ⟨s₁, ha, ht⟩ | ⟨e, s', he, hcb⟩ := exec_adoptOptional hb hc
  · obtain ⟨e, _, _, hs, hn, hto, hfr⟩ := exec_newEntity s₁ name {
      frame            := frame?
      track            := track?
      canChange        := d.canChange
      teleportDistance := some s₁.teleportDistance }
    refine .inl ⟨e, _, (SceneM.exec_bind_ok ha).trans (SceneM.exec_bind_ok hs), ?_, hn, hto, ?_⟩
    · exact ⟨ht.members, ht.order, ht.needsSort, ht.built, ht.hasOrder⟩
    · rintro rfl
      exact hfr
  · exact .inr ⟨e, s', SceneM.exec_bind_error he, hcb⟩

theorem trackOf_of_roles_append (hk : m.name ∉ s.members.keys)
    (hr : s'.roles = s.roles ++ [(m.name, m.role)]) :
    s'.trackOf k = if k = m.name then m.track else s.trackOf k := by
  rw [trackOf_eq, hr, Table.get?_append_singleton (by rwa [keys_roles]), trackOf_eq]
  split <;> rfl

theorem insert_members (hi : (insert m).exec s = (.ok (), s')) (hm : s.members.has m.name = false) :
    s'.members = ((s.withMember m).updateMember m.name (.by 0)).members := by
  have ⟨log, he⟩ := exec_insert hm
  have ⟨_, hu⟩ := (s.withMember m).updateMember_eq m.name (.by 0)
  cases hi.symm.trans he
  rw [hu]

-- Inserting a member moves it only if it follows a track, and moves nobody else.
theorem frameOf_insert (hn : s.Named) (hm : s.members.has m.name = false)
    (hi : (insert m).exec s = (.ok (), s')) (ht : s'.trackOf k = none) :
    s'.frameOf k = if k = m.name then some m.frame else s.frameOf k := by
  have hmem := insert_members hi hm
  have hr := roles_updateMember (hn.withMember (m := m)) m.name (.by 0)
  rw [trackOf_eq_of_members_eq hmem, trackOf_eq_of_roles_eq hr] at ht
  calc s'.frameOf k
    _ = ((s.withMember m).updateMember m.name (.by 0)).frameOf k := by rw [frameOf_eq_of_members_eq hmem]
    _ = (s.withMember m).frameOf k := frameOf_updateMember_of_trackOf_eq_none hn.withMember ht
    _ = _ := by
      rw [frameOf, member?, withMember, Table.get?_set]
      split <;> rfl

-- A scene into which just these entities have been loaded.
structure Loaded (s : Scene α) (done : Entries α) : Prop where
  named    : s.Named
  built    : s.graph.Built
  keys     : s.members.keys = done.loaded
  order    : s.order = done.loaded
  hasOrder : ∀ a b, s.graph.hasOrder a b ↔ done.Mentions a b
  settled  : s.needsSort = false → ∀ a b, s.graph.hasOrder a b = false
  trackOf  : ∀ name d r, done.Holds name d r → s.trackOf name = r.2
  frameOf  : ∀ name d r, done.Holds name d r → r.2 = none → s.frameOf name = some (r.1.getD .identity)

namespace Loaded

theorem clear (s : Scene α) : Loaded s.clear [] := by
  have ⟨log, hs⟩ := s.clear_eq
  rw [hs]
  refine ⟨nofun, .empty, rfl, rfl, fun a b => ⟨nofun, ?_⟩, fun _ _ _ => rfl, ?_, ?_⟩
  · exact fun ⟨_, _, h, _⟩ => absurd h.left List.not_mem_nil
  · exact fun _ _ _ h => absurd h.left List.not_mem_nil
  · exact fun _ _ _ h => absurd h.left List.not_mem_nil

theorem congr (h : Loaded s done) (hm : s'.members = s.members) (hg : s'.graph = s.graph)
    (ho : s'.order = s.order) (hs : s'.needsSort = s.needsSort) : Loaded s' done := by
  have ht := trackOf_eq_of_members_eq hm
  have hf := frameOf_eq_of_members_eq hm
  exact {
    named    := h.named.of_members_eq hm
    built    := hg ▸ h.built
    keys     := hm ▸ h.keys
    order    := ho ▸ h.order
    hasOrder := hg ▸ h.hasOrder
    settled  := hg ▸ hs ▸ h.settled
    trackOf  := ht ▸ h.trackOf
    frameOf  := hf ▸ h.frameOf }

theorem skip (h : Loaded s done) {e : TrackError} (hr : d.read name = .error e) :
    Loaded s (done ++ [(name, d)]) where
  named    := h.named
  built    := h.built
  keys     := by simp [h.keys, Entries.loaded, hr]
  order    := by simp [h.order, Entries.loaded, hr]
  hasOrder := by simpa only [Entries.Mentions, Entries.holds_append_error hr] using h.hasOrder
  settled  := h.settled
  trackOf  := by simpa only [Entries.holds_append_error hr] using h.trackOf
  frameOf  := by simpa only [Entries.holds_append_error hr] using h.frameOf

-- What has been taken on for an entity comes in with it. From then on the order is no longer known
-- to be valid if there are any edges.
theorem insert (h : Loaded s done) {s₁ : Scene α} {e : Entity α}
    {r : Option (Frame α) × Option (Track α)} (hn : e.name ∉ done.map (·.1))
    (hr : d.read e.name = .ok r) (ht : TakesOn s s₁ e.name d.mentions)
    (htrack : e.track = r.2) (hframe : r.2 = none → e.frame = r.1.getD .identity) :
    ∃ s', (Scene.insert (.entity e)).exec s₁ = (.ok (), s') ∧ Loaded s' (done ++ [(e.name, d)]) := by
  have hn₁ := h.named.of_members_eq ht.members
  have hk : (Member.entity e).name ∉ s₁.members.keys := by
    rw [ht.members, h.keys]
    exact fun hm => hn (Entries.mem_names_of_mem_loaded hm)
  have hhas := Table.has_eq_false_iff.mpr hk
  have ⟨s', hi, hroles, horder, hgraph, hsort, hnamed⟩ := exec_insert_roles hn₁ hhas
  have hl : Entries.loaded (done ++ [(e.name, d)]) = done.loaded ++ [e.name] := by
    simp [Entries.loaded, hr]
  have hne {k d' r'} (hh : done.Holds k d' r') : k ≠ (Member.entity e).name :=
    fun (hke : k = e.name) => hn (hke ▸ List.mem_map_of_mem hh.left)
  have htracks {k d' r'} (hh : Entries.Holds (done ++ [(e.name, d)]) k d' r') :
      s'.trackOf k = r'.2 := by
    rw [trackOf_of_roles_append hk hroles]
    cases (Entries.holds_append_ok hr).mp hh
    case inl hh => rw [if_neg (hne hh), trackOf_eq_of_members_eq ht.members, h.trackOf k d' r' hh]
    case inr hh =>
      obtain ⟨rfl, _, rfl⟩ := hh
      exact (if_pos rfl).trans htrack
  refine ⟨s', hi, hnamed, hgraph ▸ ht.built, ?keys, ?order, ?hasOrder, ?settled, fun _ _ _ => htracks, ?frameOf⟩
  case keys =>
    rw [← keys_roles, hroles, hl, ← h.keys, ← ht.members, ← keys_roles, Table.keys, List.map_append]
    rfl
  case order => rw [horder, ht.order, h.order, hl]; rfl
  case hasOrder =>
    intro a b
    rw [hgraph, ht.hasOrder, h.hasOrder]
    simp only [Entries.Mentions, Entries.holds_append_ok hr]
    grind
  case settled =>
    intro hs
    rw [hsort, Bool.or_eq_false_iff] at hs
    exact hgraph ▸ ht.settled h.settled hs.left hs.right
  case frameOf =>
    intro k d' r' hh hnone
    rw [frameOf_insert hn₁ hhas hi ((htracks hh).trans hnone)]
    cases (Entries.holds_append_ok hr).mp hh
    case inl hh =>
      rw [if_neg (hne hh), frameOf_eq_of_members_eq ht.members, h.frameOf k d' r' hh hnone]
    case inr hh =>
      obtain ⟨rfl, _, rfl⟩ := hh
      exact (if_pos rfl).trans (congrArg some (hframe hnone))

end Loaded

theorem Loaded.exec_loadEntity (h : Loaded s done) (hn : name ∉ done.map (·.1))
    (d : EntityDescription α) (report : LoadReport) :
    (∃ s', (loadEntity report name d).exec s = (.ok (report.extend [(name, d)]), s') ∧
      Loaded s' (done ++ [(name, d)])) ∨
    (∃ e s', (loadEntity report name d).exec s = (.error (.dependency e), s') ∧
      e.code = .invalidDependency ∧ Entries.Mutual (done ++ [(name, d)])) := by
  rw [loadEntity]
  rcases hr : d.read name with e | ⟨frame?, track?⟩
  case error =>
    refine .inl ⟨s.warn (.skipped name e), ?_, (h.skip hr).congr rfl rfl rfl rfl⟩
    rw [SceneM.exec_bind_ok (exec_describedEntity_error hr), SceneM.exec_modify_bind, SceneM.exec_pure]
    simp [LoadReport.extend, Entries.loaded, Entries.skipped, hr]
  case ok =>
    cases exec_describedEntity h.built hr
    case inl ho =>
      obtain ⟨e, s₁, he, ht, rfl, htrack, hframe⟩ := ho
      obtain ⟨s', hi, hl⟩ := h.insert hn hr ht htrack hframe
      refine .inl ⟨s', ?_, hl⟩
      rw [SceneM.exec_bind_ok he, SceneM.exec_bind_ok hi, SceneM.exec_pure]
      simp [LoadReport.extend, Entries.loaded, Entries.skipped, hr]
    case inr hf =>
      obtain ⟨e, s', he, hc, b, hb, hab⟩ := hf
      refine .inr ⟨e, s', SceneM.exec_bind_error he, hc, ?_⟩
      obtain ⟨d', r', hd', hname⟩ := (h.hasOrder b name).mp hab
      exact Entries.Mentions.mutual
        ⟨d, _, (Entries.holds_append_ok hr).mpr (.inr ⟨rfl, rfl, rfl⟩), hb⟩
        ⟨d', r', (Entries.holds_append_ok hr).mpr (.inl hd'), hname⟩

-- The induction is on what is left of the description; `done` has been gone through.
theorem Loaded.exec_loadEntities (h : Loaded s done) (rest : Entries α)
    (hn : ((done ++ rest).map (·.1)).Nodup) (report : LoadReport) :
    (∃ s', (loadEntities report rest).exec s = (.ok (report.extend rest), s') ∧
      Loaded s' (done ++ rest)) ∨
    (∃ e s', (loadEntities report rest).exec s = (.error (.dependency e), s') ∧
      e.code = .invalidDependency ∧ Entries.Mutual (done ++ rest)) := by
  induction rest generalizing s done report
  case nil =>
    refine .inl ⟨s, ?_, by simpa⟩
    simp [loadEntities, LoadReport.extend, Entries.loaded, Entries.skipped]
  case cons entry rest hi =>
    obtain ⟨name, d⟩ := entry
    rw [List.append_cons] at hn ⊢
    have hname : name ∉ done.map (·.1) := by
      simp only [List.map_append, List.nodup_append] at hn
      grind
    rw [loadEntities]
    cases h.exec_loadEntity hname d report
    case inl ho =>
      obtain ⟨s₁, ho, h₁⟩ := ho
      rw [SceneM.exec_bind_ok ho]
      simpa [LoadReport.extend_append] using hi h₁ hn (report.extend [(name, d)])
    case inr he =>
      obtain ⟨e, s₁, he, hc, hm⟩ := he
      exact .inr ⟨e, s₁, SceneM.exec_bind_error he, hc, hm.mono (List.subset_append_left ..)⟩

namespace Loaded

theorem valid (h : Loaded s done) (hs : s.needsSort = false) : UpdateOrder.Valid s.graph s.order :=
  fun a _ b _ hab => by simp [h.settled hs a b] at hab

theorem order_nodup (h : Loaded s done) (hn : (done.map (·.1)).Nodup) : s.order.Nodup :=
  h.order ▸ hn.sublist done.loaded_sublist

theorem links_eq (h : Loaded s done) : s.graph.Links s.order = done.Follows := by
  funext a b
  have hab : b ∈ s.graph.dependenciesOf a ↔ done.Mentions a b :=
    decide_eq_true_iff.symm.trans (h.hasOrder a b)
  rw [Graph.Links, h.order, hab, Entries.Follows]
  exact propext ⟨fun ⟨_, hb, hm⟩ => ⟨hm, hb⟩, fun ⟨hm, hb⟩ => ⟨hm.mem_loaded, hb, hm⟩⟩

theorem not_mutual (h : Loaded s done) : ¬done.Mutual := by
  intro ⟨a, b, _, hab, hba⟩
  have ⟨edges, hr⟩ := h.built.represents
  have hab := hr.hasOrder_iff.mp ((h.hasOrder a b).mpr hab.left)
  exact hr.asymm a b hab (hr.hasOrder_iff.mp ((h.hasOrder b a).mpr hba.left))

end Loaded

theorem exec_loadDescription {d : Description α} (hn : d.names.Nodup) (s : Scene α) :
    (∃ s₀ s', (loadDescription d).exec s =
        (.ok ⟨d.name, d.entries.loaded, d.entries.skipped⟩, s') ∧ Loaded s₀ d.entries ∧
      (setTime (d.time.getD 0)).exec s₀ = (.ok (), s') ∧
      ¬d.entries.Cyclic) ∨
    (∃ e s', (loadDescription d).exec s = (.error (.dependency e), s') ∧ d.entries.Cyclic ∧
      (d.entries.Mutual ∧ e.code = .invalidDependency ∨
        ¬d.entries.Mutual ∧ e.code = .cycleDetected)) := by
  rw [loadDescription, SceneM.exec_modify_bind]
  cases (Loaded.clear s).exec_loadEntities d.entries hn ⟨d.name, [], []⟩
  case inr he =>
    obtain ⟨e, s', he, hc, hm⟩ := he
    exact .inr ⟨e, s', SceneM.exec_bind_error he, hm.cyclic, .inl ⟨hm, hc⟩⟩
  case inl ho =>
    obtain ⟨s₁, ho, hl⟩ := ho
    have hl : Loaded (s₁.setEditing (d.editing.getD false)) d.entries := hl.congr rfl rfl rfl rfl
    have ho : (loadEntities ⟨d.name, [], []⟩ d.entities).exec s.clear =
      (.ok ⟨d.name, d.entries.loaded, d.entries.skipped⟩, s₁) := ho
    rw [SceneM.exec_bind_ok ho, SceneM.exec_modify_bind]
    generalize s₁.setEditing (d.editing.getD false) = s₀ at hl ⊢
    cases exec_setTime hl.built (hl.order_nodup hn) hl.valid (d.time.getD 0)
    case inl ht =>
      obtain ⟨_, _, ht, hp, hv⟩ := ht
      have hc := hv.not_cyclic hp
      rw [Graph.Cyclic, hl.links_eq] at hc
      refine .inl ⟨s₀, _, SceneM.exec_bind_ok ht, hl, ht, hc⟩
    case inr he =>
      obtain ⟨e, s', he, hcode, hc⟩ := he
      rw [Graph.Cyclic, hl.links_eq] at hc
      exact .inr ⟨e, s', SceneM.exec_bind_error he, hc, .inr ⟨hl.not_mutual, hcode⟩⟩

theorem load_of_description {v : Value α} {d : Description α}
    (hv : v.checkDescription.toExcept = .ok d) : load v = loadDescription d := by
  rw [load, hv]

end Scene

theorem descent?_range' (first : Nat) {n : Nat}
    (h : ∀ i, first ≤ i → i + 1 < first + n → (i : α) < ((i + 1 : Nat) : α)) :
    descent? ((List.range' first n).map fun (i : Nat) => (i : α)) = none := by
  induction n generalizing first
  case zero => rfl
  case succ n hi =>
    cases n
    case zero => rfl
    case succ n =>
      have hi := hi (first + 1) fun i hf hn => h i (by omega) (by omega)
      have hlt := h first (le_refl _) (by omega)
      simp only [List.range'_succ, List.map_cons] at hi ⊢
      rw [descent?, if_pos hlt, hi, Option.map_none]

-- Where the controls are counted off, they are in order.
theorem Spline.make_ok {controls : List (Pose α)}
    (h : ∀ i, i + 1 < controls.length → (i : α) < ((i + 1 : Nat) : α)) :
    ∃ curve, Spline.make controls {} = .ok curve := by
  have hd : descent? ((List.range controls.length).map fun (i : Nat) => (i : α)) = none := by
    rw [List.range_eq_range']
    exact descent?_range' 0 fun i _ hi => h i (by omega)
  rw [make]
  split
  case isFalse hl => simp at hl
  case isTrue =>
    split
    case h_1      => exact ⟨_, rfl⟩
    case h_2 _ ha => cases hd.symm.trans ha

namespace Scene

-- The keys of an object are all different. A spline through controls that have no times is made as
-- long as counting goes up, so that a list of controls never keeps a description from being loaded.
theorem load_refuses_cycles_alone {v : Value α} {d : Description α}
    (hv : v.checkDescription.toExcept = .ok d) (hn : d.names.Nodup) (s : Scene α) :
    ((∃ e s', (load v).exec s = (.error e, s')) ↔ d.entries.Cyclic) ∧
    (∀ e s', (load v).exec s = (.error e, s') → ∃ f, e = .dependency f ∧
      (d.entries.Mutual ∧ f.code = .invalidDependency ∨
        ¬d.entries.Mutual ∧ f.code = .cycleDetected)) ∧
    (¬d.entries.Cyclic → ∃ s', (load v).exec s =
      (.ok ⟨d.name, d.entries.loaded, d.entries.skipped⟩, s')) ∧
    (∀ controls : List (Pose α),
      (∀ i, i + 1 < controls.length → (i : α) < ((i + 1 : Nat) : α)) →
      ∃ curve, Spline.make controls {} = .ok curve) := by
  rw [load_of_description hv]
  cases exec_loadDescription hn s
  case inl ho =>
    have ⟨_, s', ho, _, _, hc⟩ := ho
    rw [ho]
    refine ⟨⟨?_, fun h => absurd h hc⟩, ?_, fun _ => ⟨s', rfl⟩, fun _ => Spline.make_ok⟩ <;> simp
  case inr he =>
    have ⟨f, s', he, hc, hcode⟩ := he
    rw [he]
    refine ⟨⟨fun _ => hc, fun _ => ⟨_, s', rfl⟩⟩, ?_, fun h => absurd hc h, fun _ => Spline.make_ok⟩
    rintro _ _ ⟨⟩
    exact ⟨f, rfl, hcode⟩

-- Each of the two follows the other.
def duel : Description Float :=
  ⟨none, none, none, [
    (camera, ⟨none, some (.tuple "entity" [.text ship]), none⟩),
    (ship, ⟨none, some (.tuple "entity" [.text camera]), none⟩)]⟩

def duelValue : Value Float :=
  .object [("entities", .object [
    (camera, .object [("track", following ship)]),
    (ship, .object [("track", following camera)])])]

theorem duelValue_checks : duelValue.checkDescription.toExcept = .ok duel :=
  rfl

theorem duel_mutual : duel.entries.Mutual := by
  have hc : duel.entries.Mentions camera ship :=
    ⟨_, (none, some (.entity ship .identity)), ⟨.head _, rfl⟩, by decide +kernel⟩
  have hs : duel.entries.Mentions ship camera :=
    ⟨_, (none, some (.entity camera .identity)), ⟨.tail _ (.head _), rfl⟩, by decide +kernel⟩
  exact hc.mutual hs

-- Binary64 numbers count well beyond the length that an array can have, which is below `2 ^ 32`.
theorem load_refuses_duel :
    (∃ f s', (load duelValue).exec (create {} ⟨0, 0⟩) = (.error (.dependency f), s') ∧
      f.code = .invalidDependency) ∧
    ∀ controls : List (Pose Float), controls.length ≤ 2 ^ 53 → ∃ curve, Spline.make controls {} = .ok curve := by
  have ⟨hiff, he, _, hmake⟩ :=
    load_refuses_cycles_alone duelValue_checks (by decide) (create {} ⟨0, 0⟩)
  constructor
  case left =>
    have ⟨e, s', h⟩ := hiff.mpr duel_mutual.cyclic
    obtain ⟨f, rfl, hcode⟩ := he e s' h
    exact ⟨f, s', h, hcode.elim And.right fun hc => absurd duel_mutual hc.left⟩
  case right =>
    intro controls hl
    exact hmake controls fun i hi => Double.natCast_lt_succ (hi.trans_le hl)

end Scene
end SceneMotion
