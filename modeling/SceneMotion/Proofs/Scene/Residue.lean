import SceneMotion.Proofs.Scene.Alike
import SceneMotion.Proofs.Scene.Checking
import SceneMotion.Proofs.Scene.Loading

namespace SceneMotion

variable {α : Type} [Scalar α]

namespace Entries

variable {entries : Entries α}

-- The entities that are loaded, with their descriptions.
def kept (entries : Entries α) : Entries α :=
  entries.filter fun (name, d) => (d.read name).isOk

theorem kept_cons {name : Text} {d : EntityDescription α} : kept ((name, d) :: entries) =
    if (d.read name).isOk then (name, d) :: entries.kept else entries.kept :=
  List.filter_cons

theorem loaded_kept (entries : Entries α) : entries.kept.loaded = entries.loaded := by
  rw [loaded, kept, List.filterMap_filter, loaded]
  congr 1
  funext entry
  obtain ⟨name, d⟩ := entry
  cases hr : d.read name <;> simp [hr, Except.isOk, Except.toBool]

theorem skipped_kept (entries : Entries α) : entries.kept.skipped = [] := by
  rw [skipped, kept, List.filterMap_filter, List.filterMap_eq_nil_iff]
  rintro ⟨name, d⟩ _
  cases hr : d.read name <;> simp [hr, Except.isOk, Except.toBool]

theorem mem_skipped {name : Text} : name ∈ entries.skipped.map (·.1) ↔
    ∃ d, (name, d) ∈ entries ∧ (d.read name).isOk = false := by
  simp only [skipped, List.mem_map, List.mem_filterMap]
  constructor
  · rintro ⟨⟨_, _⟩, ⟨⟨k, d⟩, hd, hr⟩, rfl⟩
    cases h : d.read k <;> simp only [h] at hr <;> cases hr
    exact ⟨d, hd, by rw [h]; rfl⟩
  · rintro ⟨d, hd, hr⟩
    cases h : d.read name <;> rw [h] at hr
    case ok    => contradiction
    case error => exact ⟨_, ⟨(name, d), hd, by rw [h]⟩, rfl⟩

-- No two entities have the same name, and so those that are skipped can be told by it.
theorem kept_eq_filter (hn : (entries.map (·.1)).Nodup) :
    entries.kept = entries.filter (·.1 ∉ entries.skipped.map (·.1)) := by
  refine List.filter_congr fun ⟨name, d⟩ hd => ?_
  rw [Bool.eq_iff_iff, decide_eq_true_iff, mem_skipped]
  constructor
  · rintro hr ⟨d', hd', hr'⟩
    have he := List.inj_on_of_nodup_map hn hd hd' rfl
    rw [(Prod.mk.inj he).right] at hr
    simp [hr'] at hr
  · intro hs
    exact Bool.not_eq_false _ ▸ fun hr => hs ⟨d, hd, hr⟩

theorem kept_names_nodup (hn : (entries.map (·.1)).Nodup) : (entries.kept.map (·.1)).Nodup :=
  hn.sublist (List.filter_sublist.map _)

end Entries

namespace Scene

variable {s s' s₁ s₂ : Scene α} {d : Description α}

namespace Alike

open SceneM (Couples)

-- An entity that is skipped leaves nothing but a warning.
theorem loadEntities_kept (report report' : LoadReport) (entries : Entries α) :
    Couples (fun _ _ => True) (Alike False) (Scene.loadEntities report entries)
      (Scene.loadEntities report' entries.kept) := by
  induction entries generalizing report report'
  case nil => exact .pure trivial
  case cons entry rest hi =>
    obtain ⟨name, d⟩ := entry
    rw [Entries.kept_cons]
    cases hr : d.read name
    case ok r    =>
      have hd : Couples (fun _ _ => True) (Alike False) (Scene.loadEntity report name d)
        (Scene.loadEntity report' name d) := loadEntity trivial (fun _ => trivial) d
      exact hd.bind fun _ _ _ => hi _ _
    case error e =>
      intro s s' h
      have hs : (Scene.loadEntity report name d).exec s = (.ok _, s.warn (.skipped name e)) :=
        SceneM.exec_bind_ok (exec_describedEntity_error hr)
      rw [Scene.loadEntities, SceneM.exec_bind_ok hs]
      exact hi _ _ (s.warn (.skipped name e)) s' { h with times := False.elim }

-- Taking everything out leaves nothing but the options.
theorem of_clear (ht : s₂.teleportDistance = s₁.teleportDistance)
    (hw : s₂.warnsOnDangling = s₁.warnsOnDangling) (hl : s₂.live = s₁.live) :
    s₁.clear.Alike False s₂.clear := by
  have ⟨_, h₁⟩ := s₁.clear_eq
  have ⟨_, h₂⟩ := s₂.clear_eq
  rw [h₁, h₂]
  exact ⟨.nil, rfl, rfl, rfl, rfl, ht, hw, hl, False.elim⟩

end Alike

-- Going to a time has nothing to do with whether the scene is edited.
theorem sort_editing (editing : Bool) :
    SceneM.Preserves (·.editing = editing) (Scene.sort : SceneM α Unit) := by
  intro s h
  cases hs : s.sorts
  case false => rwa [exec_sort_of_not_sorts hs]
  case true  =>
    have ⟨_, hw⟩ := s.warned_eq
    rw [exec_sort_of_sorts hs, hw]
    cases (s.graph.sort s.order).order
    case error e  => exact h
    case ok order =>
      dsimp only
      rw [tell]
      split <;> exact h

theorem setTime_editing (editing : Bool) (t : α) :
    SceneM.Preserves (·.editing = editing) (setTime t) := by
  have hs (delta : Delta α) : SceneM.Preserves (·.editing = editing) (step delta) := by
    refine .bind (sort_editing editing) fun _ => .modify fun s h => ?_
    have ⟨_, _, _, _, _, ha⟩ := s.advance_write delta
    rwa [ha]
  exact .bind (.modify fun _ h => h) fun _ => .bind (hs _) fun _ => hs _

theorem exec_loadDescription_editing {report : LoadReport}
    (h : (loadDescription d).exec s = (.ok report, s')) : s'.editing = d.editing.getD false := by
  rw [loadDescription, SceneM.exec_modify_bind] at h
  rcases hl : (loadEntities ⟨d.name, [], []⟩ d.entities).exec s.clear with ⟨_ | report, s₁⟩
  case error => cases h.symm.trans (SceneM.exec_bind_error hl)
  case ok    =>
    rw [SceneM.exec_bind_ok hl, SceneM.exec_modify_bind] at h
    have ht : SceneM.Preserves (·.editing = d.editing.getD false)
        (setTime (d.time.getD 0) >>= fun _ => pure report) :=
      .bind (setTime_editing _ _) fun _ => .pure
    have ht := ht (s₁.setEditing (d.editing.getD false)) rfl
    rwa [h] at ht

open SceneM (Agree Couples)

theorem loadDescription_kept (ht : s₂.teleportDistance = s₁.teleportDistance)
    (hw : s₂.warnsOnDangling = s₁.warnsOnDangling) (hl : s₂.live = s₁.live) :
    Agree (fun _ _ => True) (Alike False) ((loadDescription d).exec s₁)
      ((loadDescription { d with entities := d.entries.kept }).exec s₂) := by
  rw [loadDescription, loadDescription, SceneM.exec_modify_bind, SceneM.exec_modify_bind]
  refine Couples.bind (Alike.loadEntities_kept _ _ _) (fun _ _ _ => ?_) _ _ (.of_clear ht hw hl)
  refine Couples.bind_eq (.modify fun _ _ h => h.setEditing _) fun _ => ?_
  exact (Alike.setTime _).bind_eq fun _ => .pure trivial

theorem exec_loadDescription_kept {s₁' : Scene α} {report : LoadReport} (hn : d.names.Nodup)
    (ht : s₂.teleportDistance = s₁.teleportDistance) (hw : s₂.warnsOnDangling = s₁.warnsOnDangling)
    (hl : s₂.live = s₁.live) (h : (loadDescription d).exec s₁ = (.ok report, s₁')) :
    report.skipped = d.entries.skipped ∧
    ∃ s₂', (loadDescription { d with entities := d.entries.kept }).exec s₂ =
        (.ok { report with skipped := [] }, s₂') ∧
      s₁'.Alike False s₂' ∧ s₂'.editing = s₁'.editing := by
  have ha := loadDescription_kept (d := d) ht hw hl
  rw [h] at ha
  have ⟨report', s₂', h', _, hs⟩ := ha.of_ok
  have he := exec_loadDescription_editing h
  have he' := exec_loadDescription_editing h'
  -- What the reports say can be read off the description.
  obtain ⟨_, _, hr, -⟩ | ⟨_, _, hr, -⟩ := exec_loadDescription hn s₁ <;> cases h.symm.trans hr
  have hn' : (Description.names { d with entities := d.entries.kept }).Nodup :=
    Entries.kept_names_nodup hn
  obtain ⟨_, _, hr', -⟩ | ⟨_, _, hr', -⟩ := exec_loadDescription hn' s₂ <;> cases h'.symm.trans hr'
  refine ⟨rfl, s₂', ?_, hs, he'.trans he.symm⟩
  rw [h']
  simp only [Description.entries, Entries.loaded_kept, Entries.skipped_kept]

-- The keys of an object are all different. Whatever the scenes have been through, they need to have in
-- common no more than their options and whether anybody is still told what happens.
theorem load_leaves_no_residue {s₁' : Scene α} {v : Value α} {report : LoadReport}
    (hv : v.checkDescription.toExcept = .ok d) (hn : d.names.Nodup)
    (ht : s₂.teleportDistance = s₁.teleportDistance) (hw : s₂.warnsOnDangling = s₁.warnsOnDangling)
    (hl : s₂.live = s₁.live) (h : (load v).exec s₁ = (.ok report, s₁')) :
    ∃ s₂', (load (v.withoutEntities (report.skipped.map (·.1)))).exec s₂ =
        (.ok { report with skipped := [] }, s₂') ∧
      s₁'.Alike False s₂' ∧ s₂'.editing = s₁'.editing := by
  rw [load_of_description hv] at h
  have ⟨hr, hs⟩ := exec_loadDescription_kept hn ht hw hl h
  have hk : d.entities.filter (·.1 ∉ d.entries.skipped.map (·.1)) = d.entries.kept :=
    (Entries.kept_eq_filter hn).symm
  have hv' := Value.checkDescription_withoutEntities (report.skipped.map (·.1)) hv
  rw [hr, hk] at hv'
  rwa [hr, load_of_description hv']

-- The camera follows itself, and so it is skipped.
def solo : Description Float :=
  ⟨none, some 3, none, [
    (camera, ⟨none, some (.tuple "entity" [.text camera]), none⟩),
    (ship, ⟨none, none, none⟩)]⟩

def soloValue : Value Float :=
  .object [("time", .number 3), ("entities", .object [
    (camera, .object [("track", following camera)]),
    (ship, .object [])])]

theorem soloValue_checks : soloValue.checkDescription.toExcept = .ok solo :=
  rfl

-- Another clock, an observer in the place of the camera, and somebody who edits.
def busy : Scene Float :=
  ((create {} ⟨5, 1⟩).withMember (.observer ⟨camera, 0, []⟩)).setEditing true

theorem load_solo_leaves_no_residue : ∃ report s₁' s₂',
    (load soloValue).exec (create {} ⟨0, 0⟩) = (.ok report, s₁') ∧
    (load (soloValue.withoutEntities (report.skipped.map (·.1)))).exec busy =
      (.ok { report with skipped := [] }, s₂') ∧
    s₁'.Alike False s₂' ∧ s₂'.editing = s₁'.editing := by
  have ho : ((load soloValue).exec (create {} ⟨0, 0⟩)).1.isOk := by decide +kernel
  have ht : busy.teleportDistance = (create {} ⟨0, 0⟩).teleportDistance := rfl
  rcases h : (load soloValue).exec (create {} ⟨0, 0⟩) with ⟨_ | report, s₁'⟩
  case error => simp [h, Except.isOk, Except.toBool] at ho
  case ok    =>
    have ⟨s₂', h', ha⟩ := load_leaves_no_residue soloValue_checks (by decide) ht rfl rfl h
    exact ⟨report, s₁', s₂', rfl, h', ha⟩

end Scene
end SceneMotion
