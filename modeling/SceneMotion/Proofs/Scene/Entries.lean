import Mathlib.Logic.Relation
import SceneMotion.Proofs.Track.Mentions
import SceneMotion.Scene.Load

namespace SceneMotion

variable {α : Type} [Scalar α]

theorem Scene.compileTrack_mentioned {owner : Text} {e : Expr α} {track : Track α}
    (h : (compileTrack owner e).result = .ok track) :
    (compileTrack owner e).mentioned = (e.resolve.map Expr.mentions).toOption.getD [] ∧
      owner ∉ (compileTrack owner e).mentioned := by
  rw [compileTrack] at h ⊢
  split at h
  case h_1 e' he =>
    have ⟨hm, ho⟩ := Track.ofExpr_mentioned h
    simp only [he, hm]
    exact ⟨rfl, ho⟩
  case h_2       => contradiction

theorem Scene.compileTrack_reads {owner : Text} {e : Expr α} {track : Track α}
    (h : (compileTrack owner e).result = .ok track) :
    track.reads ⊆ (compileTrack owner e).mentioned := by
  rw [compileTrack] at h ⊢
  split at h
  case h_1 => exact Track.ofExpr_reads h
  case h_2 => contradiction

namespace EntityDescription

def compile (name : Text) (d : EntityDescription α) : Except TrackError (Option (Track α)) :=
  match d.track with
  | none   => .ok none
  | some e => (Scene.compileTrack name e).result.map some

-- The frame and the track of an entity, or why it is left out. The frame is read first.
def read (name : Text) (d : EntityDescription α) :
    Except TrackError (Option (Frame α) × Option (Track α)) := do
  let frame ← Scene.readFrame d.frame
  let track ← d.compile name
  return (frame, track)

-- The entities that the track mentions.
def mentions (d : EntityDescription α) : List Text :=
  match d.track with
  | none   => []
  | some e => (e.resolve.map Expr.mentions).toOption.getD []

variable {name : Text} {d : EntityDescription α} {frame : Option (Frame α)} {track : Option (Track α)}

theorem read_eq_ok_iff : d.read name = .ok (frame, track) ↔
    Scene.readFrame d.frame = .ok frame ∧ d.compile name = .ok track := by
  rw [read]
  cases Scene.readFrame d.frame <;> cases d.compile name <;> simp [bind, Except.bind, pure, Except.pure]

theorem compile_eq_error {e : TrackError} (h : d.compile name = .error e) :
    ∃ source, d.track = some source ∧ (Scene.compileTrack name source).result = .error e := by
  rw [compile] at h
  cases ht : d.track <;> rw [ht] at h
  case none        => contradiction
  case some source =>
    dsimp only at h
    cases hc : (Scene.compileTrack name source).result <;> rw [hc] at h <;> cases h
    exact ⟨source, rfl, hc⟩

theorem compile_eq_ok (h : d.compile name = .ok track) :
    (d.track = none ∧ track = none ∧ d.mentions = []) ∨
    ∃ source t, d.track = some source ∧ track = some t ∧
      (Scene.compileTrack name source).result = .ok t ∧
      d.mentions = (Scene.compileTrack name source).mentioned := by
  rw [compile] at h
  rw [mentions]
  cases ht : d.track <;> rw [ht] at h
  case none        =>
    cases h
    exact .inl ⟨rfl, rfl, rfl⟩
  case some source =>
    dsimp only at h
    cases hc : (Scene.compileTrack name source).result <;> rw [hc] at h <;> cases h
    exact .inr ⟨source, _, rfl, rfl, hc, (Scene.compileTrack_mentioned hc).left.symm⟩

-- An entity that mentions itself is left out, and a track reads nobody that has not been mentioned.
theorem mentions_of_read (h : d.read name = .ok (frame, track)) :
    name ∉ d.mentions ∧ ∀ t, track = some t → t.reads ⊆ d.mentions := by
  have ⟨_, h⟩ := read_eq_ok_iff.mp h
  obtain ⟨_, rfl, hm⟩ | ⟨source, t, _, rfl, hc, hm⟩ := compile_eq_ok h
  · exact ⟨hm ▸ List.not_mem_nil, nofun⟩
  · rw [hm]
    refine ⟨(Scene.compileTrack_mentioned hc).right, ?_⟩
    rintro _ ⟨⟩
    exact Scene.compileTrack_reads hc

end EntityDescription

abbrev Entries (α : Type) := List (Text × EntityDescription α)

namespace Entries

variable {entries : Entries α} {d d' : EntityDescription α} {a b k name : Text}
variable {r r' : Option (Frame α) × Option (Track α)}

-- There is such an entity, and this is what it comes to.
def Holds (entries : Entries α) (name : Text) (d : EntityDescription α)
    (r : Option (Frame α) × Option (Track α)) : Prop :=
  (name, d) ∈ entries ∧ d.read name = .ok r

-- The names of the entities that are loaded.
def loaded (entries : Entries α) : List Text :=
  entries.filterMap fun (name, d) =>
    match d.read name with
    | .ok _    => some name
    | .error _ => none

-- The entities that are left out, and why.
def skipped (entries : Entries α) : List (Text × TrackError) :=
  entries.filterMap fun (name, d) =>
    match d.read name with
    | .ok _    => none
    | .error e => some (name, e)

-- An entity that is loaded mentions somebody.
def Mentions (entries : Entries α) (a b : Text) : Prop :=
  ∃ d r, entries.Holds a d r ∧ b ∈ d.mentions

-- Of two entities that are loaded, the first mentions the second.
def Follows (entries : Entries α) (a b : Text) : Prop :=
  entries.Mentions a b ∧ b ∈ entries.loaded

-- Two of them follow each other.
def Mutual (entries : Entries α) : Prop :=
  ∃ a b, a ≠ b ∧ entries.Follows a b ∧ entries.Follows b a

-- Some of them follow one another all the way round.
def Cyclic (entries : Entries α) : Prop :=
  ∃ a, Relation.TransGen entries.Follows a a

theorem mem_loaded : name ∈ entries.loaded ↔ ∃ d r, entries.Holds name d r := by
  rw [loaded, List.mem_filterMap]
  constructor
  · rintro ⟨⟨k, d⟩, hd, hr⟩
    cases h : d.read k <;> simp only [h] at hr <;> cases hr
    exact ⟨d, _, hd, h⟩
  · rintro ⟨d, r, hd, h⟩
    exact ⟨(name, d), hd, by simp [h]⟩

theorem Mentions.mem_loaded (h : entries.Mentions a b) : a ∈ entries.loaded :=
  have ⟨d, r, hd, _⟩ := h
  Entries.mem_loaded.mpr ⟨d, r, hd⟩

theorem mem_names_of_mem_loaded (h : name ∈ entries.loaded) : name ∈ entries.map (·.1) := by
  have ⟨_, _, hd, _⟩ := mem_loaded.mp h
  exact List.mem_map_of_mem hd

theorem loaded_sublist (entries : Entries α) : entries.loaded.Sublist (entries.map (·.1)) := by
  induction entries
  case nil => exact .slnil
  case cons entry rest hi =>
    rw [loaded, List.filterMap_cons]
    split
    case h_1     => exact .cons _ hi
    case h_2 _ h =>
      cases hr : entry.2.read entry.1 <;> simp only [hr] at h <;> cases h
      exact .cons_cons _ hi

theorem skipped_sublist (entries : Entries α) :
    (entries.skipped.map (·.1)).Sublist (entries.map (·.1)) := by
  induction entries
  case nil => exact .slnil
  case cons entry rest hi =>
    rw [skipped, List.filterMap_cons]
    split
    case h_1     => exact .cons _ hi
    case h_2 _ h =>
      cases hr : entry.2.read entry.1 <;> simp only [hr] at h <;> cases h
      exact .cons_cons _ hi

-- Whoever is not loaded is left out.
theorem loaded_append_skipped_perm (entries : Entries α) :
    (entries.loaded ++ entries.skipped.map (·.1)).Perm (entries.map (·.1)) := by
  induction entries
  case nil => exact .refl _
  case cons entry rest hi =>
    rw [loaded, skipped, List.filterMap_cons, List.filterMap_cons]
    cases hr : entry.2.read entry.1 <;> simp only [hr]
    case ok    => exact hi.cons _
    case error => exact List.perm_middle.trans (hi.cons _)

theorem Mentions.ne (h : entries.Mentions a b) : a ≠ b := by
  have ⟨_, _, hd, hb⟩ := h
  rintro rfl
  exact (EntityDescription.mentions_of_read hd.right).left hb

-- Whoever mentions somebody has been loaded.
theorem Mentions.mutual (h : entries.Mentions a b) (h' : entries.Mentions b a) : entries.Mutual :=
  ⟨a, b, h.ne, ⟨h, h'.mem_loaded⟩, h', h.mem_loaded⟩

theorem Mutual.cyclic (h : entries.Mutual) : entries.Cyclic :=
  have ⟨a, _, _, hab, hba⟩ := h
  ⟨a, .tail (.single hab) hba⟩

theorem Holds.mono {entries' : Entries α} (h : entries.Holds name d r) (hs : entries ⊆ entries') :
    entries'.Holds name d r :=
  ⟨hs h.left, h.right⟩

theorem Mentions.mono {entries' : Entries α} (h : entries.Mentions a b) (hs : entries ⊆ entries') :
    entries'.Mentions a b :=
  have ⟨d, r, hd, hb⟩ := h
  ⟨d, r, hd.mono hs, hb⟩

theorem Follows.mono {entries' : Entries α} (h : entries.Follows a b) (hs : entries ⊆ entries') :
    entries'.Follows a b :=
  have ⟨d, r, hd⟩ := mem_loaded.mp h.right
  ⟨h.left.mono hs, mem_loaded.mpr ⟨d, r, hd.mono hs⟩⟩

theorem Cyclic.mono {entries' : Entries α} (h : entries.Cyclic) (hs : entries ⊆ entries') :
    entries'.Cyclic :=
  have ⟨a, ha⟩ := h
  ⟨a, ha.lift id fun _ _ hf => hf.mono hs⟩

theorem Mutual.mono {entries' : Entries α} (h : entries.Mutual) (hs : entries ⊆ entries') :
    entries'.Mutual :=
  have ⟨a, b, hne, hab, hba⟩ := h
  ⟨a, b, hne, hab.mono hs, hba.mono hs⟩

theorem loaded_perm {entries' : Entries α} (hp : entries'.Perm entries) :
    entries'.loaded.Perm entries.loaded :=
  hp.filterMap _

theorem skipped_perm {entries' : Entries α} (hp : entries'.Perm entries) :
    entries'.skipped.Perm entries.skipped :=
  hp.filterMap _

theorem holds_append_error {e : TrackError} (h : d.read name = .error e) :
    Holds (entries ++ [(name, d)]) k d' r ↔ entries.Holds k d' r := by
  simp only [Holds, List.mem_append, List.mem_singleton, Prod.mk.injEq]
  grind

theorem holds_append_ok (h : d.read name = .ok r) :
    Holds (entries ++ [(name, d)]) k d' r' ↔ entries.Holds k d' r' ∨ (k = name ∧ d' = d ∧ r' = r) := by
  simp only [Holds, List.mem_append, List.mem_singleton, Prod.mk.injEq]
  grind

theorem loaded_append {entries' : Entries α} :
    loaded (entries ++ entries') = entries.loaded ++ entries'.loaded :=
  List.filterMap_append

theorem skipped_append {entries' : Entries α} :
    skipped (entries ++ entries') = entries.skipped ++ entries'.skipped :=
  List.filterMap_append

end Entries

def Description.entries (d : Description α) : Entries α :=
  d.entities

def Description.names (d : Description α) : List Text :=
  d.entities.map (·.1)

-- What a report says once some more entities have been gone through.
def LoadReport.extend (report : LoadReport) (entries : Entries α) : LoadReport :=
  { report with
    loaded  := report.loaded ++ entries.loaded
    skipped := report.skipped ++ entries.skipped }

theorem LoadReport.extend_append (report : LoadReport) (entries entries' : Entries α) :
    (report.extend entries).extend entries' = report.extend (entries ++ entries') := by
  simp [extend, Entries.loaded_append, Entries.skipped_append]

end SceneMotion
