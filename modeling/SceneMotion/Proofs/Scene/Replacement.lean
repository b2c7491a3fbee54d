import SceneMotion.Double
import SceneMotion.Proofs.Scene.Coverage

namespace SceneMotion

namespace EdgeList

variable {edges : EdgeList} {owner : Text} {names more : List Text}

-- What is admitted with more edges there is admitted with fewer.
theorem Admits.of_link (h : (edges.link owner more).Admits owner names) : edges.Admits owner names :=
  fun name hn => ⟨(h name hn).left, fun hm => (h name hn).right (mem_link.mpr (.inl hm))⟩

end EdgeList

namespace Scene

variable {α : Type} [Scalar α] {s s₁ s₂ : Scene α} {e : Entity α} {name : Text}
variable {old new : Value α} {track₁ track₂ : Track α}

-- The old track is forgotten just when it reads all that only it mentions, and the new one reads all
-- that it mentions itself and the old one reads.
theorem setEntityTrack_forgets_iff (hg : s.graph.Built) (hn : s.Named)
    (he : s.entity? name = some e) (ht : e.track = none) (hd : s.graph.dependenciesOf name = [])
    (h₁ : (setEntityTrack name old).exec s = (.ok track₁, s₁))
    (h₂ : (setEntityTrack name new).exec s₁ = (.ok track₂, s₂)) :
    ∃ s', (setEntityTrack name new).exec s = (.ok track₂, s') ∧
      (∀ other, other ≠ name → s₂.graph.dependenciesOf other = s'.graph.dependenciesOf other) ∧
      ((∀ b, b ∈ s₂.graph.dependenciesOf name ↔ b ∈ s'.graph.dependenciesOf name) ↔
        (∀ b ∈ (Track.ofValue name old).mentioned,
          b ∉ (Track.ofValue name new).mentioned → b ∈ track₁.reads) ∧
        (∀ b ∈ (Track.ofValue name new).mentioned, b ∈ track₁.reads → b ∈ track₂.reads)) := by
  have ⟨edges, hr⟩ := hg.represents
  have hfree : ∀ b, (name, b) ∉ edges := by
    intro b hb
    rw [← hr.mem_dependenciesOf_iff, hd] at hb
    contradiction
  have hr₁ := Retracks.of_ok hr he h₁
  have hg₁ := hr₁.graph_of_track_eq_none ht
  have hr₂ := Retracks.of_ok hg₁ (hr₁.entity? (hn.entity_name he)) h₂
  have hg₂ := hr₂.graph
  have hreads : (e.setTrack (some track₁)).reads = track₁.reads := rfl
  rw [hreads] at hg₂
  have ⟨s', hs⟩ := exec_setEntityTrack_of_admits hr he hr₂.compiled hr₂.admits.of_link
  have hg' := (Retracks.of_ok hr he hs).graph_of_track_eq_none ht
  refine ⟨s', hs, fun other ho => ?others, ?own⟩
  case others =>
    rw [Graph.dependenciesOf, hg₂.dependencies, EdgeList.targets_unlink ho,
      EdgeList.targets_link ho, EdgeList.targets_link ho, Graph.dependenciesOf, hg'.dependencies,
      EdgeList.targets_link ho]
  case own =>
    have hsub := hr₂.reads_subset
    simp only [hg₂.mem_dependenciesOf_iff, hg'.mem_dependenciesOf_iff, EdgeList.mem_unlink,
      EdgeList.mem_link, List.mem_filter, decide_eq_true_eq, hfree, true_and, false_or]
    grind

-- A ship and a camera, neither of which follows anything as yet.
def harbour : Scene Float := (create {} ⟨0, 1⟩).after
  [.insert (.entity (Entity.create ship {} (fun _ => none) 0)),
   .insert (.entity (Entity.create camera {} (fun _ => none) 0))]

theorem harbour_coherent : Coherent harbour :=
  (Coherent.create ..).after _

def standsStill : Value Float :=
  Expr.tupleValue "Point3" [.number 0, .number 0, .number 0]

-- Binds a name to the ship, but makes no use of it.
def mentionsShip : Value Float :=
  Expr.tupleValue "with"
    [Expr.tableValue none [("target", Expr.tupleValue "entity" [.text ship])], standsStill]

theorem setEntityTrack_forgets_ship : ∃ track s₁ s₂ s',
    (setEntityTrack camera Trail.followsShip).exec harbour = (.ok (.entity ship .identity), s₁) ∧
    (setEntityTrack camera standsStill).exec s₁ = (.ok track, s₂) ∧
    (setEntityTrack camera standsStill).exec harbour = (.ok track, s') ∧
    s₁.graph.dependenciesOf camera = [ship] ∧
    ∀ b, b ∈ s₂.graph.dependenciesOf camera ↔ b ∈ s'.graph.dependenciesOf camera := by
  have ⟨s₁, track, s₂, h₁, h₂, hm⟩ : ∃ s₁ track s₂,
      (setEntityTrack camera Trail.followsShip).exec harbour = (.ok (.entity ship .identity), s₁) ∧
      (setEntityTrack camera standsStill).exec s₁ = (.ok track, s₂) ∧
      s₁.graph.dependenciesOf camera = [ship] := ⟨_, _, _, rfl, rfl, rfl⟩
  have ⟨s', hs, _, hf⟩ := setEntityTrack_forgets_iff harbour_coherent.built harbour_coherent.named
    rfl rfl rfl h₁ h₂
  have hold : (Track.ofValue camera Trail.followsShip).mentioned = [ship] := rfl
  have hnew : (Track.ofValue camera standsStill).mentioned = [] := rfl
  refine ⟨track, s₁, s₂, s', h₁, h₂, hs, hm, hf.mpr ⟨fun b hb _ => ?_, fun b hb => ?_⟩⟩
  · rwa [hold] at hb
  · exact absurd (hnew ▸ hb) List.not_mem_nil

theorem setEntityTrack_not_forgets : ¬∀ (s s₁ s₂ : Scene Float) (name : Text) (e : Entity Float)
    (old new : Value Float) (track₁ track₂ : Track Float), s.Reachable →
    s.entity? name = some e → e.track = none → s.graph.dependenciesOf name = [] →
    (setEntityTrack name old).exec s = (.ok track₁, s₁) →
    (setEntityTrack name new).exec s₁ = (.ok track₂, s₂) →
    ∃ s', (setEntityTrack name new).exec s = (.ok track₂, s') ∧
      (∀ b, b ∈ s₂.graph.dependenciesOf name ↔ b ∈ s'.graph.dependenciesOf name) ∧
      ∀ other, other ≠ name → s₂.graph.dependenciesOf other = s'.graph.dependenciesOf other := by
  intro h
  have ⟨track₁, s₁, track₂, s₂, s', h₁, h₂, hs', hd₂, hd'⟩ : ∃ track₁ s₁ track₂ s₂ s',
      (setEntityTrack camera mentionsShip).exec harbour = (.ok track₁, s₁) ∧
      (setEntityTrack camera standsStill).exec s₁ = (.ok track₂, s₂) ∧
      (setEntityTrack camera standsStill).exec harbour = (.ok track₂, s') ∧
      s₂.graph.dependenciesOf camera = [ship] ∧ s'.graph.dependenciesOf camera = [] :=
    ⟨_, _, _, _, _, rfl, rfl, rfl, rfl, rfl⟩
  have ⟨_, hs, hf, _⟩ := h harbour s₁ s₂ camera _ mentionsShip standsStill track₁ track₂
    ⟨_, _, _, rfl⟩ rfl rfl rfl h₁ h₂
  rw [hs'] at hs
  cases hs
  have hm := (hf ship).mp (hd₂ ▸ List.mem_singleton_self _)
  exact absurd (hd' ▸ hm) List.not_mem_nil

end Scene
end SceneMotion
