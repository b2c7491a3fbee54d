import SceneMotion.Double
import SceneMotion.Proofs.Names
import SceneMotion.Proofs.Track.Reads
import SceneMotion.Proofs.Track.Sharing

namespace SceneMotion

variable {α : Type} [Scalar α]

namespace Motion

variable {m a b x : Motion α} {label : Nat} {name : Text}

theorem exists_reaches_of_mem_reads {m : Motion α} (h : name ∈ m.reads) :
    ∃ offset, m.Reaches (entity name offset) := by
  rcases mem_reads_iff.mp h with ⟨offset, rfl⟩ | ⟨x, hx, hn⟩
  case inl => exact ⟨offset, .refl⟩
  case inr =>
    have ⟨offset, hr⟩ := exists_reaches_of_mem_reads hn
    exact ⟨offset, .head hx hr⟩
termination_by sizeOf m
decreasing_by exact sizeOf_lt_of_mem_parts hx

theorem Reaches.reads_subset (h : m.Reaches x) : x.reads ⊆ m.reads := by
  intro name hn
  induction h using Relation.ReflTransGen.head_induction_on
  case refl         => exact hn
  case head hp _ hi => exact mem_reads_iff.mpr (.inr ⟨_, hp, hi⟩)

theorem mem_reads_iff_reaches : name ∈ m.reads ↔ ∃ offset, m.Reaches (entity name offset) :=
  ⟨exists_reaches_of_mem_reads, fun ⟨_, h⟩ => h.reads_subset (List.mem_singleton_self name)⟩

-- What a walk has come by: the labels and the names of the entities.
structure Tour where
  seen  : List Nat
  names : List Text

def Tour.empty : Tour :=
  ⟨[], []⟩

def Tour.meet (tour : Tour) : Motion α → Tour
  | entity name _ => { tour with names := joinNames tour.names [name] }
  | _ => tour

def Tour.mark (tour : Tour) (label : Nat) : Tour :=
  { tour with seen := label :: tour.seen }

-- Takes the motions on a stack from the top and puts their parts there instead. What carries a label
-- that has been seen is passed over.
def gather (tour : Tour) : List (Motion α) → Tour
  | [] => tour
  | shared label m :: rest =>
    if label ∈ tour.seen then gather tour rest else gather (tour.mark label) (m :: rest)
  | m :: rest => gather (tour.meet m) (m.parts ++ rest)
termination_by stack => (stack.map sizeOf).sum
decreasing_by
  all_goals
    have := sizeOf_parts m
    simp only [List.map_cons, List.map_append, List.sum_cons, List.sum_append, shared.sizeOf_spec]
    omega

-- The walk through a motion alone.
def visit : Motion α → Tour → Tour
  | spline .., tour | orbit .., tour => tour
  | entity name offset, tour => tour.meet (.entity name offset)
  | transform a b, tour => a.visit (b.visit tour)
  | combine rotation translation, tour => rotation.visit (translation.visit tour)
  | lookAt base target _, tour => base.visit (target.visit tour)
  | timeShift motion _, tour => motion.visit tour
  | shared label motion, tour =>
    if label ∈ tour.seen then tour else motion.visit (tour.mark label)

variable {tour tour' : Tour}

theorem gather_nil : gather tour ([] : List (Motion α)) = tour := by
  rw [gather]

theorem gather_parts (h : m.isShared = false) (tour : Tour) (rest : List (Motion α)) :
    gather tour (m :: rest) = gather (tour.meet m) (m.parts ++ rest) := by
  rw [gather]
  rintro label motion rfl
  cases h

theorem gather_cons (m : Motion α) (tour : Tour) (rest : List (Motion α)) :
    gather tour (m :: rest) = gather (m.visit tour) rest := by
  induction m generalizing tour rest
  case spline => exact gather_parts rfl tour rest
  case entity => exact gather_parts rfl tour rest
  case orbit  => exact gather_parts rfl tour rest
  case transform a b ha hb => exact (gather_parts rfl tour rest).trans ((hb ..).trans (ha ..))
  case combine a b ha hb   => exact (gather_parts rfl tour rest).trans ((hb ..).trans (ha ..))
  case lookAt a b _ ha hb  => exact (gather_parts rfl tour rest).trans ((hb ..).trans (ha ..))
  case timeShift hi        => exact (gather_parts rfl tour rest).trans (hi ..)
  case shared hi =>
    rw [gather, visit]
    split
    case isTrue  => rfl
    case isFalse => exact hi ..

-- A walk may go on to a motion: whatever in it carries a label that has been seen has been gone through.
structure Tour.Ready (tour : Tour) (m : Motion α) : Prop where
  nodup   : tour.names.Nodup
  settled : ∀ label ∈ tour.seen, ∀ x, m.Reaches (shared label x) → x.reads ⊆ tour.names

-- One walk comes after the other, which has been through the motion in between.
structure Tour.Through (tour : Tour) (m : Motion α) (tour' : Tour) : Prop where
  names : tour'.names = joinNames tour.names m.reads
  seen  : ∀ label ∈ tour'.seen, label ∈ tour.seen ∨ ∃ x, m.Reaches (shared label x)

theorem Tour.Ready.of_reaches (h : tour.Ready m) (hx : m.Reaches x) : tour.Ready x :=
  ⟨h.nodup, fun label hl y hy => h.settled label hl y (hx.trans hy)⟩

-- The label of a motion does not occur in the motion itself, which would be larger than it is.
theorem Tour.Ready.mark (h : tour.Ready (shared label m)) (hc : (shared label m).Coherent) :
    (tour.mark label).Ready m where
  nodup := h.nodup
  settled other ho x hx := by
    have hp : (shared label m).Reaches m := .single List.mem_cons_self
    rcases List.mem_cons.mp ho with rfl | ho
    case inl =>
      obtain rfl := hc _ _ _ .refl (hp.trans hx)
      exact absurd hx.sizeOf_le (by simp)
    case inr => exact h.settled other ho x (hp.trans hx)

theorem Tour.Through.none (h : tour.Ready m) (hm : m.reads ⊆ tour.names) : tour.Through m tour where
  names := by
    rw [joinNames, Names.eraseDups_append_of_subset hm, Names.eraseDups_of_nodup h.nodup]
  seen  := fun _ hl => .inl hl

-- What the first part has left settled stays so for the second.
theorem Tour.Through.ready {tour₁ : Tour} (h : tour.Ready m) (hc : m.Coherent) (ha : m.Reaches a)
    (hb : m.Reaches b) (hvb : tour.Through b tour₁) : tour₁.Ready a where
  nodup := hvb.names ▸ Names.nodup_eraseDups _
  settled label hl x hx := by
    have hn {name : Text} : name ∈ tour₁.names ↔ name ∈ tour.names ∨ name ∈ b.reads :=
      hvb.names ▸ mem_joinNames
    intro name hm
    rcases hvb.seen label hl with hl | ⟨y, hy⟩
    case inl => exact hn.mpr (.inl (h.settled label hl x (ha.trans hx) hm))
    case inr =>
      obtain rfl := hc label x y (ha.trans hx) (hb.trans hy)
      have hs : x.reads ⊆ b.reads := Reaches.reads_subset (.tail hy List.mem_cons_self)
      exact hn.mpr (.inr (hs hm))

theorem Tour.Through.both {tour₁ : Tour} (hr : m.reads = joinNames b.reads a.reads) (ha : m.Reaches a)
    (hb : m.Reaches b) (hvb : tour.Through b tour₁) (hva : tour₁.Through a tour') :
    tour.Through m tour' where
  names := by
    rw [hva.names, hvb.names, hr]
    simp [joinNames]
  seen label hl := by
    rcases hva.seen label hl with hl | ⟨x, hx⟩
    case inr => exact .inr ⟨x, ha.trans hx⟩
    case inl =>
      rcases hvb.seen label hl with hl | ⟨x, hx⟩
      case inl => exact .inl hl
      case inr => exact .inr ⟨x, hb.trans hx⟩

theorem Tour.Through.single (ha : m.Reaches a) (hr : m.reads = a.reads) (h : tour.Through a tour') :
    tour.Through m tour' where
  names := hr ▸ h.names
  seen label hl := (h.seen label hl).imp_right fun ⟨x, hx⟩ => ⟨x, ha.trans hx⟩

theorem Tour.Through.labelled (h : (tour.mark label).Through m tour') :
    tour.Through (shared label m) tour' where
  names := h.names
  seen other ho := by
    rcases h.seen other ho with ho | ⟨x, hx⟩
    case inr => exact .inr ⟨x, .head List.mem_cons_self hx⟩
    case inl =>
      rcases List.mem_cons.mp ho with rfl | ho
      · exact .inr ⟨m, .refl⟩
      · exact .inl ho

-- The later of two parts comes first, and when it has been gone through the earlier one is ready.
theorem visit_both (hp : m.parts = [b, a]) (hr : m.reads = joinNames b.reads a.reads)
    (hva : ∀ {tour : Tour}, a.Coherent → tour.Ready a → tour.Through a (a.visit tour))
    (hvb : ∀ {tour : Tour}, b.Coherent → tour.Ready b → tour.Through b (b.visit tour))
    (hc : m.Coherent) (h : tour.Ready m) : tour.Through m (a.visit (b.visit tour)) := by
  have ha : m.Reaches a := .single (by simp [hp])
  have hb : m.Reaches b := .single (by simp [hp])
  have hv := hvb (hc.of_reaches hb) (h.of_reaches hb)
  exact hv.both hr ha hb (hva (hc.of_reaches ha) (hv.ready h hc ha hb))

-- The induction is on the motion.
theorem visit_through (hc : m.Coherent) (h : tour.Ready m) : tour.Through m (m.visit tour) := by
  induction m generalizing tour
  case spline          => exact .none h (List.nil_subset _)
  case orbit           => exact .none h (List.nil_subset _)
  case entity          => exact ⟨rfl, fun _ hl => .inl hl⟩
  case transform ha hb => exact visit_both rfl rfl ha hb hc h
  case combine ha hb   => exact visit_both rfl rfl ha hb hc h
  case lookAt ha hb    => exact visit_both rfl rfl ha hb hc h
  case timeShift m dt hi =>
    have hp : (timeShift m dt).Reaches m := .single List.mem_cons_self
    exact .single hp rfl (hi (hc.of_reaches hp) (h.of_reaches hp))
  case shared label m hi =>
    rw [visit]
    split
    case isTrue hl  => exact .none h (h.settled label hl m .refl)
    case isFalse =>
      exact (hi (hc.of_reaches (.single List.mem_cons_self)) (h.mark hc)).labelled

theorem reads_nodup (m : Motion α) : m.reads.Nodup := by
  induction m
  case spline       => exact .nil
  case orbit        => exact .nil
  case entity       => exact List.nodup_singleton _
  case transform    => exact Names.nodup_eraseDups _
  case combine      => exact Names.nodup_eraseDups _
  case lookAt       => exact Names.nodup_eraseDups _
  case timeShift hi => exact hi
  case shared hi    => exact hi

theorem gather_names (hc : m.Coherent) : (gather .empty [m]).names = m.reads := by
  have hr : Tour.empty.Ready m := ⟨.nil, nofun⟩
  have hv := visit_through hc hr
  rw [gather_cons, gather_nil, hv.names, joinNames]
  exact Names.eraseDups_of_nodup m.reads_nodup

end Motion

-- The names are those of the entities that the motion reaches, each once, as a walk finds them; and on
-- nobody else do the frames depend.
theorem Track.reads_exact (track : Track α) :
    track.reads.Nodup ∧
    (∀ name, name ∈ track.reads ↔ ∃ offset, track.motion.Reaches (.entity name offset)) ∧
    (track.motion.Coherent → (Motion.gather .empty [track.motion]).names = track.reads) ∧
    ∀ frameOf frameOf' t, (∀ name ∈ track.reads, frameOf name = frameOf' name) →
      track.frameAt frameOf t = track.frameAt frameOf' t := by
  rw [track.reads_eq]
  refine ⟨track.motion.reads_nodup, fun _ => Motion.mem_reads_iff_reaches, Motion.gather_names, ?_⟩
  exact fun frameOf frameOf' t h => Motion.frameAt_congr h

-- One name stands in two places, behind another entity in one of them.
def escort : Expr Float :=
  .tuple "with" [.table none [("ship", .tuple "entity" [.text "Ship"])],
    .tuple "lookAt" [.tuple "transform" [.text "ship", .tuple "entity" [.text "Dock"]], .text "ship"]]

def escortTrack : Track Float :=
  .lookAt (.transform (.shared 0 (.entity "Ship" .identity)) (.entity "Dock" .identity))
    (.shared 0 (.entity "Ship" .identity)) .unitY

theorem escort_compiles : (Track.ofExpr "Camera" escort).result = .ok escortTrack :=
  rfl

-- A third entity does not matter.
theorem escort_reads_exact : escortTrack.motion.Coherent ∧
    (Motion.gather .empty [escortTrack.motion]).names = ["Ship", "Dock"] ∧
    ∀ t, escortTrack.frameAt
        (fun name => if name = Text.ofString "Rock" then none else some .identity) t =
      escortTrack.frameAt (fun _ => some .identity) t := by
  have hc := Track.ofExpr_coherent escort_compiles
  have ⟨_, _, hg, hf⟩ := escortTrack.reads_exact
  refine ⟨hc, hg hc, fun t => hf _ _ t fun name hn => if_neg ?_⟩
  rintro rfl
  exact absurd hn (by decide)

end SceneMotion
