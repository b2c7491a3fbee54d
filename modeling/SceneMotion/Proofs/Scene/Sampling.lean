import Mathlib.Data.List.Induction
import SceneMotion.Proofs.Scene.Accounting
import SceneMotion.Proofs.Scene.Coherent
import SceneMotion.Scene.Sample

namespace SceneMotion
namespace Scene

variable {α : Type} [Scalar α]

variable {s s' : Scene α} {delta : Delta α} {name : Text} {names : List Text} {report : LoadReport}

theorem needsSort_of_exec_sort (h : sort.exec s = (.ok (), s')) : s'.needsSort = false := by
  cases hs : s.sorts
  case false =>
    cases (exec_sort_of_not_sorts hs).symm.trans h
    rfl
  case true  =>
    rw [exec_sort_of_sorts hs] at h
    cases ho : (s.graph.sort s.order).order <;> rw [ho] at h <;> cases h
    case ok order =>
      have ⟨_, ht⟩ := tell_eq { s.warned with order, needsSort := false } (.sorted order)
      rw [ht]

theorem needsSort_of_exec_step (h : (step delta).exec s = (.ok (), s')) : s'.needsSort = false := by
  have ⟨_, s₁, hs, ha⟩ := SceneM.exists_of_exec_bind h
  cases ha
  exact advance_needsSort.trans (needsSort_of_exec_sort hs)

theorem needsSort_of_exec_setTime {t : α} (h : (setTime t).exec s = (.ok (), s')) :
    s'.needsSort = false := by
  rw [setTime, SceneM.exec_modify_bind] at h
  obtain ⟨_, _, _, h⟩ := SceneM.exists_of_exec_bind h
  exact needsSort_of_exec_step h

-- Loading ends with a jump.
theorem needsSort_of_exec_load {v : Value α} (h : (load v).exec s = (.ok report, s')) :
    s'.needsSort = false := by
  have ⟨_, hv⟩ := exists_description_of_load h
  rw [load_of_description hv, loadDescription, SceneM.exec_modify_bind] at h
  obtain ⟨_, _, _, h⟩ := SceneM.exists_of_exec_bind h
  rw [SceneM.exec_modify_bind] at h
  obtain ⟨_, _, ht, h⟩ := SceneM.exists_of_exec_bind h
  cases h
  exact needsSort_of_exec_setTime ht

-- The induction is on the names from the last one on. What is set for a name more than once is the same
-- frame every time.
theorem get?_record (s : Scene α) (names : List Text) (name : Text) :
    (s.record names).frames.get? name = if name ∈ names then s.frameOf name else none := by
  induction names using List.reverseRecOn
  case nil => rfl
  case append_singleton names k hi =>
    simp only [record, List.foldl_append, List.foldl_cons, List.foldl_nil] at hi ⊢
    by_cases hk : name = k
    case pos =>
      subst hk
      cases hf : s.frameOf name <;> simp [Fields.get?_set, hi, hf]
    case neg => cases s.frameOf k <;> simp [Fields.get?_set, hi, hk]

-- The sample holds the frames that the entities have.
theorem get?_record_of_mem (hn : name ∈ names) (hl : name ∈ s.members.keys) : ∃ f,
    s.frameOf name = some f ∧ (s.record names).frames.get? name = some f := by
  have ⟨m, hm⟩ := Table.exists_get?_of_mem_keys hl
  have hf : s.frameOf name = some m.frame := congrArg (Option.map Member.frame) hm
  exact ⟨m.frame, hf, by rw [get?_record, if_pos hn, hf]⟩

-- The scene after a number of steps.
def stepped (s : Scene α) (delta : Delta α) (n : Nat) : Scene α :=
  s.after (.replicate n (.step delta))

theorem exec_step_of_not_needsSort (h : s.needsSort = false) :
    (step delta).exec s = (.ok (), s.advance delta) :=
  exec_step_of_sort (exec_sort_of_not_needsSort h)

theorem stepped_succ (h : s.needsSort = false) (n : Nat) :
    s.stepped delta (n + 1) = (s.advance delta).stepped delta n := by
  have hs : (Operation.step delta).perform.exec s = _ := exec_step_of_not_needsSort h
  rw [stepped, stepped, after, after, List.replicate_succ, List.foldl_cons, hs]

-- No step is refused, and everybody stays.
theorem stepped_keys (h : s.needsSort = false) (hn : s.Named) (n : Nat) :
    (s.stepped delta n).members.keys = s.members.keys := by
  induction n generalizing s
  case zero      => rfl
  case succ n hi =>
    have hr := roles_advance hn delta
    rw [stepped_succ h, hi (advance_needsSort.trans h) (hn.of_roles_eq hr), keys_eq_of_roles_eq hr]

theorem exec_recordSteps (h : s.needsSort = false) (names : List Text) (step : α) (n : Nat) :
    (recordSteps names step n).exec s =
      (.ok ((List.range (n + 1)).map fun i => (s.stepped (.ofNumber step) i).record names),
        s.stepped (.ofNumber step) n) := by
  induction n generalizing s
  case zero      => rfl
  case succ n hi =>
    have hn : (s.advance (.ofNumber step)).needsSort = false := advance_needsSort.trans h
    rw [recordSteps, SceneM.exec_get_bind, SceneM.exec_bind_ok (exec_step_of_not_needsSort h),
      SceneM.exec_bind_ok (hi hn), SceneM.exec_pure, List.range_succ_eq_map (n := n + 1), List.map_cons,
      List.map_map]
    simp only [Function.comp_def, Nat.succ_eq_add_one, stepped_succ h]
    rfl

theorem exec_requireMembers (h : ∀ name ∈ names, name ∈ s.members.keys) :
    (names.forM requireMember).exec s = (.ok (), s) := by
  induction names
  case nil => rfl
  case cons name names hi =>
    have ⟨hn, h⟩ := List.forall_mem_cons.mp h
    have hr : (requireMember name).exec s = (.ok (), s) := by
      simp [requireMember, Table.has_iff_mem_keys.mpr hn]
    exact (SceneM.exec_bind_ok hr).trans (hi h)

theorem exec_loadSampled {v : Value α} {names? : Option (List Text)}
    (hl : (load v).exec s = (.ok report, s'))
    (hn : ∀ name ∈ names?.getD report.loaded, name ∈ s'.members.keys) :
    (loadSampled v names?).exec s = (.ok (names?.getD report.loaded), s') := by
  rw [loadSampled, SceneM.exec_bind_ok hl]
  exact SceneM.exec_bind_ok (exec_requireMembers hn)

-- Both numbers are what they should be, each by itself.
structure Accepts (duration step : α) : Prop where
  step_pos        : 0 < step
  step_finite     : Scalar.isFinite step
  duration_nonneg : 0 ≤ duration
  duration_finite : Scalar.isFinite duration

variable {v : Value α} {names? : Option (List Text)} {duration step : α}

theorem sample_eq (ha : Accepts duration step) (hl : (load v).exec s = (.ok report, s'))
    (hn : ∀ name ∈ names?.getD report.loaded, name ∈ s'.members.keys) :
    (s.sample v duration step names?).1 =
      if stepsMade duration step < mostSamples then
        .ok ((List.range (stepsMade duration step + 1)).map fun i =>
          (s'.stepped (.ofNumber step) i).record (names?.getD report.loaded))
      else
        .error .full := by
  have hs : (loadSampled v names?).run.run s = _ := exec_loadSampled hl hn
  have hr : (recordSteps (names?.getD report.loaded) step (stepsMade duration step)).run.run s' = _ :=
    exec_recordSteps (needsSort_of_exec_load hl) ..
  simp only [sample, ha.step_pos, ha.step_finite, ha.duration_nonneg, ha.duration_finite, hs, hr,
    decide_true, Bool.and_self, Bool.not_true, Bool.false_eq_true, if_false, List.length_map,
    List.length_range, Nat.succ_le_iff]
  split <;> rfl

theorem stepsMade_of_lt {count : Nat} (hc : stepCount? duration step = some count)
    (h : count < mostSamples) : stepsMade duration step = count := by
  rw [stepsMade, hc]
  exact Nat.min_eq_left h.le

theorem mostSamples_le_stepsMade
    (h : ∀ count, stepCount? duration step = some count → mostSamples ≤ count) :
    mostSamples ≤ stepsMade duration step := by
  rw [stepsMade]
  split
  case h_1 count hc => exact Nat.le_min.mpr ⟨h count hc, le_rfl⟩
  case h_2          => exact le_rfl

-- Each sample is that of the scene after as many steps as there are samples before it.
def Records (s : Scene α) (names : List Text) (step : α) (samples : List (Sample α)) : Prop :=
  ∀ i (hi : i < samples.length),
    samples[i].time = (s.stepped (.ofNumber step) i).time ∧
    ∀ name ∈ names, ∃ f, (s.stepped (.ofNumber step) i).frameOf name = some f ∧
      samples[i].frames.get? name = some f

theorem records_map_stepped (hs : s.needsSort = false) (hn : s.Named)
    (hl : ∀ name ∈ names, name ∈ s.members.keys) (n : Nat) : s.Records names step
      ((List.range n).map fun i => (s.stepped (.ofNumber step) i).record names) := by
  intro i hi
  rw [List.getElem_map, List.getElem_range]
  refine ⟨rfl, fun name hname => get?_record_of_mem hname ?_⟩
  rw [stepped_keys hs hn]
  exact hl name hname

-- What a list has no room for is refused only when it is full, whether the number of steps is finite or
-- not.
theorem sample_returns (o : Options α) (clock : Clock α) (ha : Accepts duration step)
    (hl : (load v).exec (create o clock) = (.ok report, s'))
    (hn : ∀ name ∈ names?.getD report.loaded, name ∈ s'.members.keys) :
    (∀ count, stepCount? duration step = some count → count < mostSamples →
      ∃ samples, ((create o clock).sample v duration step names?).1 = .ok samples ∧
        samples.length = count + 1 ∧ s'.Records (names?.getD report.loaded) step samples) ∧
    ((∀ count, stepCount? duration step = some count → mostSamples ≤ count) →
      ((create o clock).sample v duration step names?).1 = .error .full) := by
  have hc : s'.Coherent := by
    have hc := Coherent.lasting.load v _ (.create o clock)
    rwa [hl] at hc
  rw [sample_eq ha hl hn]
  constructor
  · intro count hcount hlt
    rw [stepsMade_of_lt hcount hlt, if_pos hlt]
    refine ⟨_, rfl, by simp, records_map_stepped (needsSort_of_exec_load hl) hc.named hn _⟩
  · intro h
    rw [if_neg (mostSamples_le_stepsMade h).not_gt]

-- One entity, which circles twice in a unit of time.
def carousel : Description Float :=
  ⟨none, none, none, [(ship, ⟨none, some (.text "orbit(4, 0.5)"), none⟩)]⟩

def carouselValue : Value Float :=
  .object [("entities", .object [(ship, .object [("track", .text "orbit(4, 0.5)")])])]

theorem exec_load_carousel : ∃ s', (load carouselValue).exec (create {} ⟨0, 0⟩) =
    (.ok ⟨none, [ship], []⟩, s') ∧ ship ∈ s'.members.keys := by
  have hv : carouselValue.checkDescription.toExcept = .ok carousel := rfl
  have hn : carousel.names.Nodup := by decide
  have ⟨s', hl⟩ := exists_exec_load hv hn (by decide +kernel) (create {} ⟨0, 0⟩)
  have ⟨_, _, hk⟩ := exec_load_report hv hn hl
  have he : carousel.entries.loaded = [ship] := by decide +kernel
  have hs : carousel.entries.skipped.isEmpty := by decide +kernel
  rw [he, List.isEmpty_iff.mp hs] at hl
  rw [he] at hk
  exact ⟨s', hl, hk ▸ List.mem_singleton_self ship⟩

theorem sample_returns_carousel : ∃ samples,
    ((create {} ⟨0, 0⟩).sample carouselValue 1 0.25 none).1 = .ok samples ∧ samples.length = 5 := by
  have ⟨s', hl, hk⟩ := exec_load_carousel
  have ha : Accepts (1 : Float) 0.25 := by constructor <;> decide +kernel
  have hn : ∀ name ∈ (none : Option (List Text)).getD [ship], name ∈ s'.members.keys :=
    List.forall_mem_singleton.mpr hk
  have ⟨h, _⟩ := sample_returns {} ⟨0, 0⟩ ha hl hn
  have ⟨samples, hs, hn, _⟩ := h 4 (by decide +kernel) (by decide)
  exact ⟨samples, hs, hn⟩

-- The step fits into the duration more often than any number says.
theorem sample_not_returns : ¬∀ (o : Options Float) (clock : Clock Float) (v : Value Float)
    (report : LoadReport) (s' : Scene Float) (duration step : Float) (names : List Text),
    Accepts duration step → (load v).exec (create o clock) = (.ok report, s') →
    (∀ name ∈ names, name ∈ s'.members.keys) →
    ∃ count samples, stepCount? duration step = some count ∧
      ((create o clock).sample v duration step (some names)).1 = .ok samples ∧
      samples.length = count + 1 ∧ s'.Records names step samples := by
  intro h
  have ⟨s', hl, _⟩ := exec_load_carousel
  have ha : Accepts (1e308 : Float) 1e-308 := by constructor <;> decide +kernel
  have hn : stepCount? (1e308 : Float) 1e-308 = none := by decide +kernel
  have ⟨_, _, hc, _⟩ := h {} ⟨0, 0⟩ carouselValue _ s' _ _ [] ha hl nofun
  cases hn.symm.trans hc

end Scene
end SceneMotion
