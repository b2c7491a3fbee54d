import SceneMotion.Proofs.Dependency.Linking
import SceneMotion.Proofs.Scene.Operation
import SceneMotion.Proofs.Track.Reads

namespace SceneMotion

namespace EdgeList

variable {edges : EdgeList} {owner other a b : Text} {names : List Text}

-- Whether an owner may come after all of these: none of them is the owner or comes after it.
def Admits (edges : EdgeList) (owner : Text) (names : List Text) : Prop :=
  ∀ name ∈ names, name ≠ owner ∧ (name, owner) ∉ edges

-- Puts an owner after some names. It may come after some of them already.
def link (edges : EdgeList) (owner : Text) (names : List Text) : EdgeList :=
  edges ++ (names.eraseDups.filter fun name => (owner, name) ∉ edges).map (owner, ·)

def unlink (edges : EdgeList) (owner : Text) (names : List Text) : EdgeList :=
  edges.filter fun e => ¬(e.1 = owner ∧ e.2 ∈ names)

@[simp]
theorem mem_link : (a, b) ∈ edges.link owner names ↔ (a, b) ∈ edges ∨ (a = owner ∧ b ∈ names) := by
  simp only [link, List.mem_append, List.mem_map, List.mem_filter, List.mem_eraseDups,
    decide_eq_true_eq, Prod.mk.injEq]
  grind

@[simp]
theorem mem_unlink :
    (a, b) ∈ edges.unlink owner names ↔ (a, b) ∈ edges ∧ ¬(a = owner ∧ b ∈ names) := by
  simp only [unlink, List.mem_filter, decide_eq_true_eq]

theorem link_nodup (h : edges.Nodup) : (edges.link owner names).Nodup := by
  have hn := (Names.nodup_eraseDups names).filter fun name => (owner, name) ∉ edges
  refine List.nodup_append.mpr ⟨h, hn.map (Prod.mk_right_injective owner), ?_⟩
  rintro e he _ hm rfl
  have ⟨name, hm, he'⟩ := List.mem_map.mp hm
  simp only [List.mem_filter, decide_eq_true_eq] at hm
  exact hm.right (he' ▸ he)

theorem unlink_nil : edges.unlink owner [] = edges := by
  simp [unlink]

theorem unlink_cons (h : edges.Nodup) :
    edges.unlink owner (b :: names) = unlink (edges.erase (owner, b)) owner names := by
  rw [h.erase_eq_filter, unlink, unlink, List.filter_filter]
  refine List.filter_congr ?_
  grind

-- The names after which anybody else comes stay the same.
theorem targets_link (h : other ≠ owner) :
    (edges.link owner names).targets other = edges.targets other := by
  simp [link, targets, List.filter_map, Function.comp_def, h.symm]

theorem targets_unlink (h : other ≠ owner) :
    (edges.unlink owner names).targets other = edges.targets other := by
  rw [targets, targets, unlink, List.filter_filter]
  congr 1
  refine List.filter_congr ?_
  grind

end EdgeList

namespace Graph.Represents

variable {g : Graph} {edges : EdgeList} {owner : Text} {names : List Text}

-- Edges that are there have been admitted.
theorem admits (h : g.Represents (edges.link owner names)) : edges.Admits owner names := by
  intro name hn
  have ho : (owner, name) ∈ edges.link owner names := EdgeList.mem_link.mpr (.inr ⟨rfl, hn⟩)
  exact ⟨(h.ne ho).symm, fun hm => h.asymm _ _ ho (EdgeList.mem_link.mpr (.inl hm))⟩

theorem missing_eq (h : g.Represents edges) :
    g.missing owner names = names.eraseDups.filter fun name => (owner, name) ∉ edges := by
  refine List.filter_congr fun name _ => ?_
  rw [Bool.not_eq_eq_eq_not, Bool.eq_iff_iff, h.hasOrder_iff]
  simp

end Graph.Represents

-- The names that the track of an entity reads.
def Entity.reads {α : Type} [Scalar α] (e : Entity α) : List Text :=
  (e.track.map (·.reads)).getD []

namespace Scene

variable {α : Type} [Scalar α] {s s' : Scene α} {c : Track.Compiled α} {track : Track α}
variable {owner name : Text} {edges : EdgeList} {added : List Text} {e : Entity α} {source : Value α}

-- Only the edge straight back and the one to itself are refused without being there already.
theorem setOrder_error_code {g : Graph} {e : DependencyError} (h : g.setOrder owner name = .error e)
    (hn : g.hasOrder owner name = false) : e.code = .invalidDependency := by
  simp only [Graph.setOrder, hn, Bool.false_eq_true, if_false] at h
  repeat' split at h
  all_goals cases h
  all_goals rfl

theorem withGraph_graph (c : Change) (g : Graph) : (s.withGraph c g).graph = g := by
  have ⟨_, hw⟩ := s.withGraph_eq c g
  rw [hw]

-- What is known of a graph in which an owner has been put after some names, if it is kept up as more of
-- them are added at the end, or taken back at the front.
structure Revocable (owner : Text) (P : Graph → List Text → Prop) : Prop where
  set   : ∀ {g g' added name}, P g added → g.setOrder owner name = .ok g' → P g' (added ++ [name])
  clear : ∀ {g name rest}, P g (name :: rest) → ∃ g', g.edit (.clear owner name) = .ok g' ∧ P g' rest

namespace Revocable

variable {P : Graph → List Text → Prop}

theorem exec_clearOrders (hp : Revocable owner P) (h : P s.graph added) :
    ∃ s', (added.forM (clearOrder owner)).exec s = (.ok (), s') ∧ P s'.graph [] := by
  induction added generalizing s
  case nil => exact ⟨s, rfl, h⟩
  case cons name rest hi =>
    obtain ⟨g, hc, hg⟩ := hp.clear h
    obtain ⟨s', hs, hg'⟩ := hi (s := s.withGraph (.clear owner name) g) (by rwa [withGraph_graph])
    exact ⟨s', (SceneM.exec_bind_ok (exec_editGraph_ok hc)).trans hs, hg'⟩

-- The induction is on what is left to be taken on. If one of the names is refused, those before it have
-- been added by then.
theorem exec_commit (hp : Revocable owner P) (names : List Text) (h : P s.graph added) :
    (∃ s', (commit owner added names).exec s = (.ok (), s') ∧ P s'.graph (added ++ names)) ∨
    (∃ before name rest g e s', names = before ++ name :: rest ∧ P g (added ++ before) ∧
      g.setOrder owner name = .error e ∧
      (commit owner added names).exec s = (.error (.dependency e), s') ∧ P s'.graph []) := by
  induction names generalizing s added <;> simp only [commit, SceneM.exec_get_bind]
  case nil => exact .inl ⟨s, rfl, by rwa [List.append_nil]⟩
  case cons name rest hi =>
    cases hc : s.graph.setOrder owner name
    case error e =>
      obtain ⟨s', hs, hg⟩ := hp.exec_clearOrders h
      exact .inr ⟨[], name, rest, s.graph, e, s', rfl, by rwa [List.append_nil], hc,
        SceneM.exec_bind_ok hs, hg⟩
    case ok g =>
      have hg : P (s.withGraph (.set owner name) g).graph (added ++ [name]) := by
        rw [withGraph_graph]
        exact hp.set h hc
      rw [SceneM.exec_set_bind, List.append_cons added name rest]
      refine (hi hg).imp id ?_
      rintro ⟨before, other, rest, g, e, s', rfl, hb, he, hs, hg⟩
      exact ⟨name :: before, other, rest, g, e, s', rfl, List.append_cons added name before ▸ hb, he, hs, hg⟩

end Revocable

theorem revocable_represents (edges : EdgeList) (owner : Text) :
    Revocable owner fun g added => g.Represents (edges ++ added.map (owner, ·)) where
  set   := fun h hc => by simpa using h.setOrder hc
  clear := by
    intro g name rest h
    have hn := h.nodup
    have ho : g.hasOrder owner name := h.hasOrder_iff.mpr (by simp)
    cases hc : g.edit (.clear owner name)
    case error => simp [Graph.edit, Graph.clearOrder, ho] at hc
    case ok g' =>
      have hr := h.clearOrder hc
      rw [List.map_cons] at hn hr
      rw [List.erase_append_right _ (by grind), List.erase_cons_head] at hr
      exact ⟨g', rfl, hr⟩

-- What has been added goes with the edges.
theorem exec_commit (names : List Text)
    (h : s.graph.Represents (edges ++ added.map (owner, ·)))
    (hn : (edges ++ (added ++ names).map (owner, ·)).Nodup) :
    (∃ s', (commit owner added names).exec s = (.ok (), s') ∧
      s'.graph.Represents (edges ++ (added ++ names).map (owner, ·))) ∨
    (∃ e s', (commit owner added names).exec s = (.error (.dependency e), s') ∧
      e.code = .invalidDependency ∧ s'.graph.Represents edges ∧ ¬edges.Admits owner names) := by
  refine ((revocable_represents edges owner).exec_commit names h).imp id ?_
  rintro ⟨before, name, rest, g, e, s', rfl, hg, hc, hs, hr⟩
  have ho : g.hasOrder owner name = false := by
    rw [hg.hasOrder_eq_false_iff]
    grind
  refine ⟨e, s', hs, setOrder_error_code hc ho, by simpa using hr, fun ha => ?_⟩
  obtain ⟨hne, hm⟩ := ha name (by simp)
  suffices ∃ g', g.setOrder owner name = .ok g' by simp [hc] at this
  refine ⟨_, Graph.setOrder_ok_iff.mpr ⟨⟨hne.symm, ?_, ho⟩, rfl⟩⟩
  rw [hg.hasOrder_eq_false_iff]
  grind

-- The members of a scene are the same. The graph has these edges.
structure Rewires (s s' : Scene α) (edges : EdgeList) : Prop where
  members : s'.members = s.members
  graph   : s'.graph.Represents edges

theorem members_stable (members : Table (Member α)) :
    StableUnderEdits fun s : Scene α => s.members = members := by
  intro s c g _ h
  have ⟨_, hw⟩ := s.withGraph_eq c g
  rw [hw, h]

theorem exec_adopt_of_ok (owner : Text) (hc : c.result = .ok track) : (adopt owner c).exec s =
    (commit owner [] (s.graph.missing owner c.mentioned) >>= fun _ => pure (.ok track)).exec s := by
  rw [adopt, hc, ← Graph.foldl_note_nil]
  rfl

theorem exec_adopt (h : s.graph.Represents edges) (owner : Text) (hc : c.result = .ok track) :
    (∃ s', (adopt owner c).exec s = (.ok (.ok track), s') ∧
      Rewires s s' (edges.link owner c.mentioned)) ∨
    (∃ e s', (adopt owner c).exec s = (.error (.dependency e), s') ∧
      e.code = .invalidDependency ∧ Rewires s s' edges ∧ ¬edges.Admits owner c.mentioned) := by
  have hm := (members_stable s.members).adopt owner c s rfl
  generalize hn : c.mentioned.eraseDups.filter (fun name => (owner, name) ∉ edges) = names
  have ha : (adopt owner c).exec s =
      (commit owner [] names >>= fun _ => pure (.ok track)).exec s := by
    rw [exec_adopt_of_ok owner hc, ← hn, h.missing_eq]
  have hl : edges.link owner c.mentioned = edges ++ ([] ++ names).map (owner, ·) := by
    rw [EdgeList.link, hn, List.nil_append]
  have h' : s.graph.Represents (edges ++ [].map (owner, ·)) := by simpa using h
  cases exec_commit names h' (hl ▸ EdgeList.link_nodup h.nodup)
  case inl hs =>
    obtain ⟨s', hs, hr⟩ := hs
    rw [SceneM.exec_bind_ok hs, SceneM.exec_pure] at ha
    rw [ha] at hm
    exact .inl ⟨s', ha, hm, hl ▸ hr⟩
  case inr hs =>
    obtain ⟨e, s', hs, he, hr, hd⟩ := hs
    rw [SceneM.exec_bind_error hs] at ha
    rw [ha] at hm
    refine .inr ⟨e, s', ha, he, ⟨hm, hr⟩, fun had => hd fun name hnm => had name ?_⟩
    rw [← hn] at hnm
    exact List.mem_eraseDups.mp (List.mem_of_mem_filter hnm)

theorem exec_createTrack (h : s.graph.Represents edges) (owner : Text) (source : Value α) :
    (∃ track s', (createTrack owner source).exec s = (.ok track, s') ∧
      (Track.ofValue owner source).result = .ok track ∧
      Rewires s s' (edges.link owner (Track.ofValue owner source).mentioned)) ∨
    (∃ e s', (createTrack owner source).exec s = (.error e, s') ∧ Rewires s s' edges ∧
      ∀ track, (Track.ofValue owner source).result = .ok track →
        ¬edges.Admits owner (Track.ofValue owner source).mentioned) := by
  cases hc : (Track.ofValue owner source).result
  case error e =>
    refine .inr ⟨.track e, s, ?_, ⟨rfl, h⟩, nofun⟩
    simp [createTrack, adopt, hc]
  case ok track =>
    cases exec_adopt h owner hc
    case inl ha =>
      obtain ⟨s', ha, hs⟩ := ha
      exact .inl ⟨track, s', SceneM.exec_bind_ok ha, rfl, hs⟩
    case inr ha =>
      obtain ⟨e, s', ha, _, hs, hn⟩ := ha
      exact .inr ⟨.dependency e, s', SceneM.exec_bind_error ha, hs, fun _ _ => hn⟩

theorem exec_dropOrder (h : s.graph.Represents edges) (owner name : Text) : ∃ s',
    (dropOrder owner name).exec s = (.ok (), s') ∧ Rewires s s' (edges.erase (owner, name)) := by
  simp only [dropOrder, SceneM.exec_get_bind]
  by_cases ho : s.graph.hasOrder owner name
  case neg =>
    refine ⟨s, by simp [ho], rfl, ?_⟩
    rwa [List.erase_of_not_mem (mt h.hasOrder_iff.mpr ho)]
  case pos =>
    cases hc : s.graph.edit (.clear owner name)
    case error => simp [Graph.edit, Graph.clearOrder, ho] at hc
    case ok g =>
      obtain ⟨_, hw⟩ := s.withGraph_eq (.clear owner name) g
      have hs : (clearOrder owner name).exec s = _ := exec_editGraph_ok hc
      rw [if_pos ho, hs, hw]
      exact ⟨_, rfl, rfl, h.clearOrder hc⟩

theorem exec_dropOrders (h : s.graph.Represents edges) (owner : Text) (names : List Text) :
    ∃ s', (names.forM (dropOrder owner)).exec s = (.ok (), s') ∧
      Rewires s s' (edges.unlink owner names) := by
  induction names generalizing s edges
  case nil => exact ⟨s, rfl, rfl, by rwa [EdgeList.unlink_nil]⟩
  case cons name rest hi =>
    have ⟨s₁, h₁, hm₁, hr₁⟩ := exec_dropOrder h owner name
    have ⟨s₂, h₂, hm₂, hr₂⟩ := hi hr₁
    refine ⟨s₂, (SceneM.exec_bind_ok h₁).trans h₂, hm₂.trans hm₁, ?_⟩
    rwa [EdgeList.unlink_cons h.nodup]

-- An entity has been put on a new track.
structure Retracks (s s' : Scene α) (edges : EdgeList) (name : Text) (e : Entity α)
    (source : Value α) (track : Track α) : Prop where
  compiled : (Track.ofValue name source).result = .ok track
  admits   : edges.Admits name (Track.ofValue name source).mentioned
  members  : s'.members = s.members.set e.name (.entity (e.setTrack (some track)))
  graph    : s'.graph.Represents <| (edges.link name (Track.ofValue name source).mentioned).unlink
    name (e.reads.filter (· ∉ track.reads))

theorem exec_setEntityTrack (h : s.graph.Represents edges) (he : s.entity? name = some e)
    (source : Value α) :
    (∃ track s', (setEntityTrack name source).exec s = (.ok track, s') ∧
      Retracks s s' edges name e source track) ∨
    (∃ f s', (setEntityTrack name source).exec s = (.error f, s') ∧ Rewires s s' edges ∧
      ∀ track, (Track.ofValue name source).result = .ok track →
        ¬edges.Admits name (Track.ofValue name source).mentioned) := by
  simp only [setEntityTrack, SceneM.exec_get_bind, he]
  cases exec_createTrack h name source
  case inl ht =>
    have ⟨track, s₁, ht, hc, hm, hr⟩ := ht
    have ⟨s₂, hd, hm', hr'⟩ := exec_dropOrders hr name (e.reads.filter (· ∉ track.reads))
    refine .inl ⟨track, s₂.setMember (.entity (e.setTrack (some track))), ?_, hc, hr.admits, ?_, hr'⟩
    · rw [SceneM.exec_bind_ok ht]
      exact SceneM.exec_bind_ok hd
    · rw [setMember, hm', hm]
      rfl
  case inr hf =>
    have ⟨f, s', hf, hs, hn⟩ := hf
    exact .inr ⟨f, s', SceneM.exec_bind_error hf, hs, hn⟩

theorem Retracks.of_ok (h : s.graph.Represents edges) (he : s.entity? name = some e)
    (hs : (setEntityTrack name source).exec s = (.ok track, s')) :
    Retracks s s' edges name e source track := by
  cases exec_setEntityTrack h he source
  case inl ht =>
    have ⟨_, _, ht, hr⟩ := ht
    rw [hs] at ht
    cases ht
    exact hr
  case inr hf =>
    have ⟨_, _, hf, _⟩ := hf
    rw [hs] at hf
    cases hf

theorem exec_setEntityTrack_of_admits (h : s.graph.Represents edges)
    (he : s.entity? name = some e) (hc : (Track.ofValue name source).result = .ok track)
    (ha : edges.Admits name (Track.ofValue name source).mentioned) :
    ∃ s', (setEntityTrack name source).exec s = (.ok track, s') := by
  cases exec_setEntityTrack h he source
  case inl ht =>
    have ⟨_, s', ht, hr⟩ := ht
    have hc' := hr.compiled
    rw [hc] at hc'
    cases hc'
    exact ⟨s', ht⟩
  case inr hf =>
    have ⟨_, _, _, _, hn⟩ := hf
    exact absurd ha (hn track hc)

theorem Retracks.entity? (h : Retracks s s' edges name e source track) (hn : e.name = name) :
    s'.entity? name = some (e.setTrack (some track)) := by
  rw [Scene.entity?, member?, h.members, hn, Table.get?_set, if_pos rfl]
  rfl

theorem Retracks.reads_subset (h : Retracks s s' edges name e source track) :
    track.reads ⊆ (Track.ofValue name source).mentioned :=
  Track.ofValue_reads h.compiled

-- Where there has been no track, nothing goes.
theorem Retracks.graph_of_track_eq_none (h : Retracks s s' edges name e source track)
    (ht : e.track = none) :
    s'.graph.Represents (edges.link name (Track.ofValue name source).mentioned) := by
  have hg := h.graph
  rwa [Entity.reads, ht, Option.map_none, Option.getD_none, List.filter_nil,
    EdgeList.unlink_nil] at hg

-- The orderings of a scene are those of another one and some more. The members are the same.
structure Gains (s s' : Scene α) (more : Text → Text → Prop) : Prop where
  members  : s'.members = s.members
  hasOrder : ∀ a b, s'.graph.hasOrder a b ↔ s.graph.hasOrder a b ∨ more a b

theorem Rewires.gains {edges' : EdgeList} {more : Text → Text → Prop} (h : Rewires s s' edges')
    (hr : s.graph.Represents edges) (hm : ∀ a b, (a, b) ∈ edges' ↔ (a, b) ∈ edges ∨ more a b) :
    Gains s s' more where
  members  := h.members
  hasOrder := fun a b => by rw [h.graph.hasOrder_iff, hr.hasOrder_iff, hm]

theorem Rewires.gains_nothing (h : Rewires s s' edges) (hr : s.graph.Represents edges) :
    Gains s s' fun _ _ => False :=
  h.gains hr fun _ _ => (or_false _).symm.to_iff

end Scene
end SceneMotion
