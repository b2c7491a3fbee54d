import SceneMotion.Proofs.Fields
import SceneMotion.Proofs.Scene.Checking
import SceneMotion.Proofs.Scene.DeclarationOrder

namespace SceneMotion

variable {α : Type} [Scalar α]

-- Each of the names is either among those loaded or among those skipped, and it is there only once.
def LoadReport.AccountsFor (report : LoadReport) (names : List Text) : Prop :=
  ∀ name ∈ names, (report.loaded ++ report.skipped.map (·.1)).count name = 1

namespace Scene

variable {s s' : Scene α} {done : Entries α} {d : Description α} {report : LoadReport}

-- Going to a time may sort the entities, but nobody comes or goes.
theorem Loaded.live_setTime {t : α} (h : Loaded s done) (hn : (done.map (·.1)).Nodup)
    (he : (setTime t).exec s = (.ok (), s')) :
    s'.order.Perm done.loaded ∧ s'.members.keys = done.loaded := by
  cases exec_setTime h.built (h.order_nodup hn) h.valid t
  case inr hf =>
    have ⟨_, _, hf, _⟩ := hf
    cases hf.symm.trans he
  case inl ho =>
    have ⟨order, log, ho, hp, _⟩ := ho
    cases ho.symm.trans he
    have hnamed : Named { s with time := t, order, needsSort := false, log } := h.named
    have hr := roles_advance hnamed .jump
    have hr' := roles_advance (hnamed.of_roles_eq hr) .jump
    refine ⟨?_, ?_⟩
    · rw [advance_order, advance_order]
      exact h.order ▸ hp
    · rw [keys_eq_of_roles_eq (hr'.trans hr)]
      exact h.keys

theorem exec_load_report {v : Value α} (hv : v.checkDescription.toExcept = .ok d)
    (hn : d.names.Nodup) (hl : (load v).exec s = (.ok report, s')) :
    report = ⟨d.name, d.entries.loaded, d.entries.skipped⟩ ∧
      s'.order.Perm d.entries.loaded ∧ s'.members.keys = d.entries.loaded := by
  rw [load_of_description hv] at hl
  cases exec_loadDescription hn s
  case inl ho =>
    obtain ⟨s₀, _, ho, h₀, ht, _⟩ := ho
    cases ho.symm.trans hl
    exact ⟨rfl, h₀.live_setTime hn ht⟩
  case inr he =>
    have ⟨_, _, he, _⟩ := he
    cases he.symm.trans hl

theorem exists_description_of_load {v : Value α} (hl : (load v).exec s = (.ok report, s')) :
    ∃ d, v.checkDescription.toExcept = .ok d := by
  cases hv : v.checkDescription.toExcept
  case ok d => exact ⟨d, rfl⟩
  case error =>
    rw [load, hv] at hl
    cases hl

-- The keys of the object are all different, since they come from a list of fields put into place one by
-- one. In the same order in which the object has them they are loaded, and reported.
theorem load_accounts {fields entities : List (Text × Value α)}
    (he : fields.lookup (Text.ofString "entities") = some (.object (Fields.ofList entities)))
    (hl : (load (.object fields)).exec s = (.ok report, s')) :
    report.AccountsFor ((entities.map (·.1)).filter (· ≠ omittedKey)) ∧
    (∀ name ∈ report.loaded ++ report.skipped.map (·.1),
      name ∈ entities.map (·.1) ∧ name ≠ omittedKey) ∧
    report.loaded.Pairwise (Fields.Before (entities.map (·.1))) ∧
    (report.skipped.map (·.1)).Pairwise (Fields.Before (entities.map (·.1))) ∧
    s'.order.Perm report.loaded ∧ s'.members.keys = report.loaded := by
  have ⟨d, hv⟩ := exists_description_of_load hl
  have ho := Fields.inOrder_ofList entities
  have ⟨hes, _⟩ := Value.Relists.checkDescription ⟨fun _ _ => rfl, he, he⟩ hv
  have hk : d.names = (Fields.ofList entities).keys.filter (· ≠ omittedKey) :=
    Value.keys_checkEntitiesFrom hes
  have hn : d.names.Nodup := hk ▸ ho.nodup.filter _
  have hmem (name : Text) : name ∈ d.names ↔ name ∈ entities.map (·.1) ∧ name ≠ omittedKey := by
    rw [hk, List.mem_filter, ho.mem, decide_eq_true_iff]
  have hb : d.names.Pairwise (Fields.Before (entities.map (·.1))) := hk ▸ ho.pairwise.filter _
  obtain ⟨rfl, hlive⟩ := exec_load_report hv hn hl
  have hp : (d.entries.loaded ++ d.entries.skipped.map (·.1)).Perm d.names :=
    d.entries.loaded_append_skipped_perm
  refine ⟨fun name hname => ?_, fun name hname => (hmem name).mp (hp.subset hname),
    hb.sublist d.entries.loaded_sublist, hb.sublist d.entries.skipped_sublist, hlive⟩
  rw [hp.count_eq]
  refine List.count_eq_one_of_mem hn ((hmem name).mpr ?_)
  simpa using hname

-- Nothing keeps entities from being loaded that mention nobody.
theorem exists_exec_load {v : Value α} (hv : v.checkDescription.toExcept = .ok d) (hn : d.names.Nodup)
    (hm : ∀ entity ∈ d.entities, entity.2.mentions = []) (s : Scene α) : ∃ s',
    (load v).exec s = (.ok ⟨d.name, d.entries.loaded, d.entries.skipped⟩, s') := by
  rw [load_of_description hv]
  cases exec_loadDescription hn s
  case inl ho =>
    have ⟨_, s', ho, _⟩ := ho
    exact ⟨s', ho⟩
  case inr he =>
    have ⟨_, _, _, ⟨_, hc⟩, _⟩ := he
    have ⟨_, ⟨⟨_, _, hd, hb⟩, _⟩, _⟩ := Relation.TransGen.head'_iff.mp hc
    rw [hm _ hd.left] at hb
    cases hb

-- Two of the keys are numbers, and two of the entities have tracks that cannot be read.
def fleet : List (Text × Value Float) := [
  (ship, .object []),
  ("10", .object []),
  (omittedKey, .object []),
  ("", .object [("track", .text "(")]),
  ("9", .object [("track", .text ")")]),
  ("toString", .object [])]

def fleetFields : List (Text × Value Float) :=
  [("entities", .object (Fields.ofList fleet))]

def fleetDescription : Description Float :=
  ⟨none, none, none, [
    ("9", ⟨none, some (.text ")"), none⟩),
    ("10", ⟨none, none, none⟩),
    (ship, ⟨none, none, none⟩),
    ("", ⟨none, some (.text "("), none⟩),
    ("toString", ⟨none, none, none⟩)]⟩

theorem fleet_checks :
    (Value.object fleetFields).checkDescription.toExcept = .ok fleetDescription := by
  rfl

theorem load_fleet : ∃ report s',
    (load (.object fleetFields)).exec (create {} ⟨0, 0⟩) = (.ok report, s') ∧
    report.AccountsFor [ship, "10", "", "9", "toString"] ∧
    report.loaded.Pairwise (Fields.Before (fleet.map (·.1))) ∧ s'.members.keys = report.loaded := by
  have ⟨s', hl⟩ := exists_exec_load fleet_checks (by decide) (by decide +kernel) (create {} ⟨0, 0⟩)
  have he : fleetFields.lookup (Text.ofString "entities") = some (.object (Fields.ofList fleet)) := rfl
  have ⟨ha, _, hp, _, _, hk⟩ := load_accounts he hl
  exact ⟨_, s', hl, ha, hp, hk⟩

def lost : List (Text × Value Float) :=
  [(omittedKey, .object [])]

-- It is left out without a word.
theorem load_loses_omittedKey : ¬∀ (fields entities : List (Text × Value Float)) (s s' : Scene Float)
    (report : LoadReport),
    fields.lookup (Text.ofString "entities") = some (.object (Fields.ofList entities)) →
    (load (.object fields)).exec s = (.ok report, s') →
    report.AccountsFor (entities.map (·.1)) := by
  intro h
  have hv : (Value.object [("entities", .object (Fields.ofList lost))]).checkDescription.toExcept =
    .ok ⟨none, none, none, []⟩ := rfl
  have ⟨s', hl⟩ := exists_exec_load hv .nil nofun (create {} ⟨0, 0⟩)
  have ha := h _ lost _ s' _ rfl hl omittedKey (List.mem_singleton.mpr rfl)
  cases ha

end Scene
end SceneMotion
