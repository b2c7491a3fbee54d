import SceneMotion.Proofs.Dependency.Linking
import SceneMotion.Proofs.Scene.Jump
import SceneMotion.Proofs.Scene.Loading
import SceneMotion.Proofs.Track.Mentions
import SceneMotion.Track.Direct

namespace SceneMotion

namespace Graph

variable {g : Graph} {edges : EdgeList} {owner name : Text} {names : List Text}

theorem Built.tight (h : g.Built) : g.Tight := by
  induction h
  case empty      => exact .empty
  case edit he hi => exact hi.edit he

-- What an owner does not come after can be linked to it and taken back.
theorem Represents.clearOrder_linked (hr : g.Represents edges) (ht : g.Tight)
    (hn : (edges ++ (name :: names).map (owner, ·)).Nodup) :
    (g.linked owner (name :: names)).clearOrder owner name = .ok (g.linked owner names) := by
  have ho : (owner, name) ∉ edges := by grind
  refine Graph.clearOrder_linked ht ?_ ?_ ?_
  · rwa [hr.mem_dependenciesOf_iff]
  · rwa [hr.mem_dependentsOf_iff]
  · grind

end Graph

namespace Scene

variable {α : Type} [Scalar α] {s s' : Scene α} {g : Graph} {edges : EdgeList} {owner : Text}
variable {c : Track.Compiled α} {e : SceneError} {track : Track α}
variable {source : Value α}

-- The lists of a graph lose what is taken back in the order in which they have gained it.
theorem revocable_linked (hr : g.Represents edges) (ht : g.Tight) (owner : Text) :
    Revocable owner fun g' added =>
      g' = g.linked owner added ∧ (edges ++ added.map (owner, ·)).Nodup where
  set := by
    rintro _ g' added name ⟨rfl, hn⟩ hc
    have ⟨⟨_, _, ho⟩, _⟩ := Graph.setOrder_ok_iff.mp hc
    rw [Graph.hasOrder_linked, Bool.or_eq_false_iff, hr.hasOrder_eq_false_iff] at ho
    have hm : name ∉ added := by simpa using ho.right
    refine ⟨by rw [Graph.eq_linked_of_setOrder hc, ← Graph.linked_append], ?_⟩
    rw [List.map_append, ← List.append_assoc]
    exact List.nodup_append.mpr ⟨hn, List.nodup_singleton _, by grind⟩
  clear := by
    rintro _ name rest ⟨rfl, hn⟩
    have hn' : (edges ++ rest.map (owner, ·)).Nodup :=
      hn.sublist (.append_left (List.sublist_cons_self ..) edges)
    exact ⟨_, hr.clearOrder_linked ht hn, rfl, hn'⟩

theorem exec_adopt_linked (hb : s.graph.Built) (owner : Text) (hc : c.result = .ok track) :
    (∀ r s', (adopt owner c).exec s = (.ok r, s') →
      s'.graph = s.graph.linked owner (s.graph.missing owner c.mentioned)) ∧
    (∀ e s', (adopt owner c).exec s = (.error e, s') → s'.graph = s.graph) := by
  have ⟨edges, hr⟩ := hb.represents
  have hp := revocable_linked hr hb.tight owner
  have ha := exec_adopt_of_ok (s := s) owner hc
  have hn : (edges ++ [].map (owner, ·)).Nodup := by simpa using hr.nodup
  cases hp.exec_commit (s.graph.missing owner c.mentioned) ⟨Graph.linked_nil.symm, hn⟩
  case inl hs =>
    have ⟨s', hs, hg, _⟩ := hs
    have ha := ha.trans (SceneM.exec_bind_ok hs)
    refine ⟨fun _ _ h => ?_, fun _ _ h => ?_⟩ <;> cases ha.symm.trans h
    exact hg
  case inr hs =>
    have ⟨_, _, _, _, _, s', _, _, _, hs, hg, _⟩ := hs
    have ha := ha.trans (SceneM.exec_bind_error hs)
    refine ⟨fun _ _ h => ?_, fun _ _ h => ?_⟩ <;> cases ha.symm.trans h
    exact hg

-- Why a track is not taken on: it is no track, or one of those it mentions comes after its owner.
inductive Obstacle (g : Graph) (owner : Text) (source : Value α) : SceneError → Prop
  | fault {f : TrackError} :
    (Track.ofValue owner source).result = .error f → Obstacle g owner source (.track f)
  | order {track : Track α} {name : Text} {e : DependencyError} :
    (Track.ofValue owner source).result = .ok track →
    name ∈ (Track.ofValue owner source).mentioned → g.hasOrder name owner →
    e.code = .invalidDependency → Obstacle g owner source (.dependency e)

-- The dependencies of a track have been taken on, as if it had been compiled straight into the
-- graph. The new ones come after the old, in the order in which they are first mentioned.
structure TakenOn (s s' : Scene α) (owner : Text) (source : Value α) (track : Track α) : Prop where
  direct       : Track.compileInto s.graph owner source = (s'.graph, .ok track)
  dependencies : ∀ a, s'.graph.dependenciesOf a = s.graph.dependenciesOf a ++
    if a = owner then s.graph.missing owner (Track.ofValue owner source).mentioned else []
  dependents   : ∀ b, s'.graph.dependentsOf b = s.graph.dependentsOf b ++
    if b ∈ s.graph.missing owner (Track.ofValue owner source).mentioned then [owner] else []
  edgeCount    : s'.graph.edgeCount = s.graph.edgeCount +
    (s.graph.missing owner (Track.ofValue owner source).mentioned).length

-- Nothing stands in the way of a track.
def Free (g : Graph) (owner : Text) (source : Value α) : Prop :=
  (∃ track, (Track.ofValue owner source).result = .ok track) ∧
    ∀ name ∈ (Track.ofValue owner source).mentioned, g.hasOrder name owner = false

theorem Obstacle.not_free (h : Obstacle g owner source e) : ¬Free g owner source := by
  rintro ⟨⟨track, ht⟩, hf⟩
  cases h
  case fault hc      => exact nomatch hc.symm.trans ht
  case order hn ho _ => exact nomatch ho.symm.trans (hf _ hn)

theorem TakenOn.of_linked (hc : (Track.ofValue owner source).result = .ok track)
    (hf : ∀ name ∈ (Track.ofValue owner source).mentioned,
      name ≠ owner ∧ s.graph.hasOrder name owner = false)
    (hg : s'.graph =
      s.graph.linked owner (s.graph.missing owner (Track.ofValue owner source).mentioned)) :
    TakenOn s s' owner source track where
  direct       := by simp only [Track.compileInto, Graph.follow_eq_linked hf, hc, hg, Except.mapError]
  dependencies := fun _ => hg ▸ Graph.dependenciesOf_linked
  dependents   := fun _ => hg ▸ Graph.dependentsOf_linked ((Names.nodup_eraseDups _).filter _)
  edgeCount    := congrArg Graph.edgeCount hg

theorem exec_createTrack_linked (hb : s.graph.Built) (owner : Text) (source : Value α) :
    (∃ track s', (createTrack owner source).exec s = (.ok track, s') ∧
      Free s.graph owner source ∧ TakenOn s s' owner source track) ∨
    (∃ e s', (createTrack owner source).exec s = (.error e, s') ∧
      Obstacle s.graph owner source e ∧ s'.graph = s.graph) := by
  obtain ⟨edges, hr⟩ := hb.represents
  cases hc : (Track.ofValue owner source).result
  case error f =>
    refine .inr ⟨.track f, s, ?_, .fault hc, rfl⟩
    simp [createTrack, adopt, hc]
  case ok track =>
    obtain ⟨hok, herror⟩ := exec_adopt_linked hb owner hc
    obtain ⟨s', ha, hs⟩ | ⟨e, s', ha, hcode, _, hn⟩ := exec_adopt hr owner hc
    case inl =>
      have hf : ∀ name ∈ (Track.ofValue owner source).mentioned,
          name ≠ owner ∧ s.graph.hasOrder name owner = false := by
        intro name hm
        rw [hr.hasOrder_eq_false_iff]
        exact hs.graph.admits name hm
      exact .inl ⟨track, s', SceneM.exec_bind_ok ha, ⟨⟨track, hc⟩, fun name hm => (hf name hm).right⟩,
        .of_linked hc hf (hok _ s' ha)⟩
    case inr =>
      -- The owner is not among the names, so it must be one that comes after it.
      obtain ⟨_, _, hm, ho⟩ := Track.ofValue_mentioned hc
      obtain ⟨name, hname, hr'⟩ : ∃ name ∈ (Track.ofValue owner source).mentioned,
          s.graph.hasOrder name owner := by
        by_contra hf
        refine hn fun name hname => ⟨fun he => ho (hm ▸ he ▸ hname), fun he => ?_⟩
        exact hf ⟨name, hname, hr.hasOrder_iff.mpr he⟩
      exact .inr ⟨.dependency e, s', SceneM.exec_bind_error ha, .order hc hname hr' hcode,
        herror _ s' ha⟩

-- Only the track itself can be refused: what the old one read is dropped without fail.
theorem exec_setEntityTrack_error (hb : s.graph.Built)
    (h : (setEntityTrack owner source).exec s = (.error e, s')) :
    s'.graph = s.graph ∧ s'.members = s.members := by
  simp only [setEntityTrack, SceneM.exec_get_bind] at h
  cases he : s.entity? owner <;> simp only [he] at h
  case none =>
    cases h
    exact ⟨rfl, rfl⟩
  case some entity =>
    have hm := (members_stable s.members).createTrack owner source s rfl
    have hb' := built_stable.createTrack owner source s hb
    obtain ⟨track, s₁, ht, _⟩ | ⟨f, s₁, hf, _, hg⟩ := exec_createTrack_linked hb owner source
    case inl =>
      rw [ht] at hb'
      obtain ⟨edges, hr⟩ := hb'.represents
      obtain ⟨_, hd, _⟩ := exec_dropOrders hr owner (entity.reads.filter (· ∉ track.reads))
      rw [SceneM.exec_bind_ok ht] at h
      cases h.symm.trans (SceneM.exec_bind_ok hd)
    case inr =>
      rw [hf] at hm
      cases h.symm.trans (SceneM.exec_bind_error hf)
      exact ⟨hg, hm⟩

theorem createTrack_all_or_none (hb : s.graph.Built) (owner : Text) (source : Value α) :
    ((∃ track s', (createTrack owner source).exec s = (.ok track, s')) ↔
      Free s.graph owner source) ∧
    (∀ track s', (createTrack owner source).exec s = (.ok track, s') →
      TakenOn s s' owner source track) ∧
    (∀ e s', (createTrack owner source).exec s = (.error e, s') →
      Obstacle s.graph owner source e ∧ s'.graph = s.graph) ∧
    (∀ e s', (setEntityTrack owner source).exec s = (.error e, s') →
      s'.graph = s.graph ∧ s'.members = s.members) := by
  have hs : ∀ e s', (setEntityTrack owner source).exec s = (.error e, s') →
      s'.graph = s.graph ∧ s'.members = s.members := fun _ _ => exec_setEntityTrack_error hb
  cases exec_createTrack_linked hb owner source
  case inl ht =>
    have ⟨track, s', ht, hf, ha⟩ := ht
    refine ⟨⟨fun _ => hf, fun _ => ⟨track, s', ht⟩⟩, fun _ _ h => ?_, fun _ _ h => ?_, hs⟩
    all_goals cases ht.symm.trans h
    exact ha
  case inr hf =>
    have ⟨e, s', hf, ho, hg⟩ := hf
    refine ⟨⟨?_, fun h => absurd h ho.not_free⟩, fun _ _ h => ?_, fun _ _ h => ?_, hs⟩
    · rintro ⟨_, _, h⟩
      cases hf.symm.trans h
    · cases hf.symm.trans h
    · cases hf.symm.trans h
      exact ⟨ho, hg⟩

-- The base comes after the camera already.
def lagoon : Scene Float :=
  (create {} ⟨0, 0⟩).after [.editGraph (.set base camera)]

def followsBoth : Value Float :=
  Expr.tupleValue "combine" [following ship, following base]

-- The camera can be put after the ship, but not after the ship and the base.
theorem createTrack_lagoon :
    (∃ track s', (createTrack camera (following ship)).exec lagoon = (.ok track, s') ∧
      s'.graph.dependenciesOf camera = [ship]) ∧
    ∃ e s', (createTrack camera followsBoth).exec lagoon = (.error (.dependency e), s') ∧
      e.code = .invalidDependency ∧ s'.graph = lagoon.graph := by
  have hb : lagoon.graph.Built := built_stable.editGraph (.set base camera) (create {} ⟨0, 0⟩) .empty
  have ⟨hi, ht, _⟩ := createTrack_all_or_none hb camera (following ship)
  have ⟨_, _, hf, _⟩ := createTrack_all_or_none hb camera followsBoth
  constructor
  case left =>
    have hfree : Free lagoon.graph camera (following ship) := ⟨⟨.entity ship .identity, rfl⟩, by decide⟩
    have ⟨track, s', h⟩ := hi.mpr hfree
    exact ⟨track, s', h, (ht track s' h).dependencies camera⟩
  case right =>
    have ⟨e, s', h, hc⟩ : ∃ e s', (createTrack camera followsBoth).exec lagoon =
        (.error (.dependency e), s') ∧ e.code = .invalidDependency := ⟨_, _, rfl, rfl⟩
    exact ⟨e, s', h, hc, (hf _ s' h).right⟩

end Scene
end SceneMotion
