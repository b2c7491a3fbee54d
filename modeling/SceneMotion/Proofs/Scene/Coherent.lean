import SceneMotion.Proofs.Scene.Lasting
import SceneMotion.Proofs.Scene.Members
import SceneMotion.Proofs.Scene.Sort

namespace SceneMotion

namespace Graph

variable {g g' : Graph} {c : Change} {a b : Text}

-- Edits that unsettle nothing take edges away at most.
theorem hasOrder_of_edit (hg : g.Built) (he : g.edit c = .ok g') (hc : c.unsettles = false)
    (ho : g'.hasOrder a b) : g.hasOrder a b := by
  have ⟨edges, hr⟩ := hg.represents
  rw [(hr.edit he).hasOrder_iff] at ho
  rw [hr.hasOrder_iff]
  cases c <;> simp only [Change.unsettles, Bool.true_eq_false] at hc
  case remove name => exact (EdgeList.mem_without.mp ho).left
  case reset       => exact absurd ho List.not_mem_nil

end Graph

namespace UpdateOrder.Valid

variable {g g' : Graph} {order : List Text} {name a b : Text}

theorem mono (h : Valid g order) (hg : ∀ a b, g'.hasOrder a b → g.hasOrder a b) :
    Valid g' order :=
  fun a ha b hb hab => h a ha b hb (hg a b hab)

-- A name without edges may come last.
theorem append (h : Valid g order) (ha : ∀ a, g.hasOrder a name = false)
    (hd : ∀ a, g.hasOrder name a = false) : Valid g (order ++ [name]) := by
  intro a hma b hmb hab
  have hma := (List.mem_append.mp hma).resolve_right fun hn => by simp_all
  have hmb := (List.mem_append.mp hmb).resolve_right fun hn => by simp_all
  rw [List.idxOf_append_of_mem hma, List.idxOf_append_of_mem hmb]
  exact h a hma b hmb hab

theorem idxOf_erase_lt (hn : order.Nodup) (ha : a ∈ order.erase name) (hb : b ∈ order.erase name)
    (h : order.idxOf b < order.idxOf a) : (order.erase name).idxOf b < (order.erase name).idxOf a := by
  induction order
  case nil => contradiction
  case cons x rest hi =>
    have ⟨hx, hn⟩ := List.nodup_cons.mp hn
    by_cases hxn : x = name
    case pos =>
      rw [hxn, List.erase_cons_head] at ha hb ⊢
      rw [List.idxOf_cons_ne _ (ne_of_mem_of_not_mem hb hx).symm,
        List.idxOf_cons_ne _ (ne_of_mem_of_not_mem ha hx).symm] at h
      exact Nat.lt_of_succ_lt_succ h
    case neg =>
      rw [List.erase_cons_tail (by simpa using hxn)] at ha hb ⊢
      grind

-- The others keep their order.
theorem erase (h : Valid g order) (hn : order.Nodup) : Valid g (order.erase name) :=
  fun a ha b hb hab => idxOf_erase_lt hn ha hb <|
    h a (List.mem_of_mem_erase ha) b (List.mem_of_mem_erase hb) hab

end UpdateOrder.Valid

namespace Scene

variable {α : Type} [Scalar α]

variable {s s' : Scene α} {m : Member α} {name : Text}

theorem Named.withMember (h : s.Named) : (s.withMember m).Named := by
  intro name m' hm'
  rw [member?, Scene.withMember, Table.get?_set] at hm'
  split at hm'
  case isTrue hn  => rw [hn, ← Option.some.inj hm']
  case isFalse hn => exact h name m' hm'

theorem roles_withMember (hm : s.members.has m.name = false) :
    (s.withMember m).roles = s.roles ++ [(m.name, m.role)] := by
  have hk := Table.has_eq_false_iff.mp hm
  simp only [roles, Scene.withMember, Table.set_of_not_mem hk, List.map_append, List.map_singleton]

-- A new member stands behind all others, on the track that it came with.
theorem exec_insert_roles (h : s.Named) (hm : s.members.has m.name = false) :
    ∃ s', (Scene.insert m).exec s = (.ok (), s') ∧ s'.roles = s.roles ++ [(m.name, m.role)] ∧
      s'.order = s.order ++ [m.name] ∧ s'.graph = s.graph ∧
      s'.needsSort = (s.needsSort || s.graph.involves m.name) ∧ s'.Named := by
  have hw := h.withMember (m := m)
  have hr := roles_simulateMember hw m.name (.by 0)
  have ⟨_, _, hs⟩ := (s.withMember m).simulateMember_eq m.name (.by 0)
  have ⟨log, hi⟩ := Scene.exec_insert hm
  rw [hs] at hi hr
  exact ⟨_, hi, hr.trans (roles_withMember hm), rfl, rfl, rfl, hw.of_roles_eq hr⟩

structure Coherent (s : Scene α) : Prop where
  live  : s.live
  built : s.graph.Built
  named : s.Named
  nodup : s.order.Nodup
  perm  : s.order.Perm s.members.keys
  valid : s.needsSort = false → UpdateOrder.Valid s.graph s.order

namespace Coherent

variable {c : Change} {g : Graph}

theorem create (o : Options α) (clock : Clock α) : Coherent (create o clock) where
  live  := rfl
  built := .empty
  named := fun _ _ h => nomatch h
  nodup := .nil
  perm  := .refl _
  valid := fun _ _ h => absurd h List.not_mem_nil

-- The clocks, the time and what has been told do not matter, nor do the places of the members.
theorem congr (h : Coherent s) (hr : s'.roles = s.roles) (ho : s'.order = s.order)
    (hg : s'.graph = s.graph) (hs : s'.needsSort = s.needsSort) (hl : s'.live = s.live) :
    Coherent s' where
  live  := hl ▸ h.live
  built := hg ▸ h.built
  named := h.named.of_roles_eq hr
  nodup := ho ▸ h.nodup
  perm  := ho ▸ keys_eq_of_roles_eq hr ▸ h.perm
  valid := by rw [hs, hg, ho]; exact h.valid

theorem log (h : Coherent s) (log : List (Notice α)) : Coherent { s with log } :=
  h.congr rfl rfl rfl rfl rfl

theorem withGraph (h : Coherent s) (he : s.graph.edit c = .ok g) : Coherent (s.withGraph c g) := by
  have ⟨log, hw⟩ := s.withGraph_eq c g
  rw [hw]
  refine { h.log log with built := .edit h.built he, valid := ?_ }
  intro hs
  rw [Bool.or_eq_false_iff, Bool.and_eq_false_iff] at hs
  have hc := hs.right.resolve_left fun hl => by simp [h.live] at hl
  exact (h.valid hs.left).mono fun _ _ => Graph.hasOrder_of_edit h.built he hc

-- Another member under the same name.
theorem setMember (h : Coherent s) (hm : m.name ∈ s.members.keys) : Coherent (s.setMember m) where
  live  := h.live
  built := h.built
  named := by
    intro name m' hm'
    rw [member?_setMember] at hm'
    split at hm'
    case isTrue hn  => rw [hn, ← Option.some.inj hm']
    case isFalse hn => exact h.named name m' hm'
  nodup := h.nodup
  perm  := by
    rw [Scene.setMember, Table.keys_set_of_mem hm]
    exact h.perm
  valid := h.valid

theorem simulateMember (h : Coherent s) (name : Text) (delta : Delta α) :
    Coherent (s.simulateMember name delta) := by
  have hr := roles_simulateMember h.named name delta
  have ⟨_, _, hs⟩ := s.simulateMember_eq name delta
  rw [hs] at hr ⊢
  exact h.congr hr rfl rfl rfl rfl

theorem withMember (h : Coherent s) (hm : s.members.has m.name = false) :
    Coherent (s.withMember m) := by
  have hk := Table.has_eq_false_iff.mp hm
  have ho : m.name ∉ s.order := fun hn => hk (h.perm.mem_iff.mp hn)
  refine ⟨h.live, h.built, h.named.withMember, ?nodup, ?perm, ?valid⟩
  case nodup => exact List.nodup_append.mpr ⟨h.nodup, List.nodup_singleton _, by grind⟩
  case perm  =>
    rw [Scene.withMember, Table.keys_set_of_not_mem hk]
    exact h.perm.append_right _
  case valid =>
    intro hs
    obtain ⟨hs, hi⟩ := Bool.or_eq_false_iff.mp hs
    obtain ⟨edges, hr⟩ := h.built.represents
    refine (h.valid hs).append ?_ ?_
    all_goals
      intro a
      have := hr.not_mem_of_involves_eq_false hi (a := a)
      simp only [hr.hasOrder_eq_false_iff, this, not_false_iff]

theorem erase (h : Coherent s) (he : s.graph.edit (.remove name) = .ok g) :
    Coherent { s with
      graph := g, members := s.members.erase name, order := s.order.erase name } where
  live  := h.live
  built := .edit h.built he
  named := by
    intro k m hm
    rw [member?, Table.get?_erase] at hm
    split at hm
    case isTrue  => contradiction
    case isFalse => exact h.named k m hm
  nodup := h.nodup.erase _
  perm  := by
    rw [Table.keys_erase (h.perm.nodup_iff.mp h.nodup)]
    exact h.perm.erase name
  valid := fun hs => ((h.valid hs).erase h.nodup).mono fun _ _ =>
    Graph.hasOrder_of_edit h.built he rfl

theorem advance (h : Coherent s) (delta : Delta α) : Coherent (s.advance delta) :=
  h.congr (roles_advance h.named delta) advance_order advance_graph advance_needsSort advance_live

theorem clear (h : Coherent s) : Coherent s.clear := by
  have ⟨log, hs⟩ := s.clear_eq
  rw [hs]
  exact {
    live  := h.live
    built := .empty
    named := fun _ _ h => nomatch h
    nodup := .nil
    perm  := .refl _
    valid := fun _ _ h => absurd h List.not_mem_nil }

open SceneM (Preserves)

theorem stable : StableUnderEdits (Coherent (α := α)) :=
  fun _ _ _ he h => h.withGraph he

theorem sort : Preserves Coherent (Scene.sort : SceneM α Unit) := by
  intro s h
  cases exec_sort h.built h.nodup h.valid
  case inl ho =>
    have ⟨order, log, ho, hp, hv⟩ := ho
    rw [ho]
    exact {
      live  := h.live
      built := h.built
      named := h.named
      nodup := hp.nodup_iff.mpr h.nodup
      perm  := hp.trans h.perm
      valid := fun _ => hv }
  case inr he =>
    have ⟨_, log, he, _⟩ := he
    exact he ▸ h.log log

theorem newEntity (name : Text) (o : Entity.Options α) :
    Preserves Coherent (Scene.newEntity name o) := by
  intro s h
  have ⟨_, _, _, hs, _⟩ := exec_newEntity s name o
  rw [hs]
  exact h.congr rfl rfl rfl rfl rfl

theorem exec_insert (h : Coherent s) (hm : s.members.has m.name = false) :
    ∃ s', (Scene.insert m).exec s = (.ok (), s') ∧ s'.roles = s.roles ++ [(m.name, m.role)] ∧
      s'.order = s.order ++ [m.name] ∧ s'.graph = s.graph :=
  have ⟨s', hs, hr, ho, hg, _⟩ := exec_insert_roles h.named hm
  ⟨s', hs, hr, ho, hg⟩

theorem insert (m : Member α) : Preserves Coherent (Scene.insert m) := by
  intro s h
  by_cases hm : s.members.has m.name
  case pos => exact exec_insert_of_has hm ▸ h
  case neg =>
    have hm := Bool.eq_false_iff.mpr hm
    have ⟨log, hi⟩ := Scene.exec_insert hm
    rw [hi]
    exact ((h.withMember hm).simulateMember _ _).log log

theorem remove (name : Text) : Preserves Coherent (Scene.remove name : SceneM α Unit) := by
  intro s h
  by_cases hm : s.members.has name
  case pos =>
    have ⟨log, hr⟩ := exec_remove hm
    rw [hr]
    exact (h.erase rfl).congr rfl rfl rfl rfl rfl
  case neg => exact exec_remove_of_not_has (Bool.eq_false_iff.mpr hm) ▸ h

theorem name_mem_keys {e : Entity α} (h : Coherent s) (he : s.entity? name = some e) :
    e.name ∈ s.members.keys := by
  have ⟨m, hm, _⟩ := Option.bind_eq_some_iff.mp he
  exact h.named.entity_name he ▸ Table.mem_keys_of_get? hm

theorem editEntity (h : Coherent s) (name : Text) (edit : EntityEdit α) :
    Coherent (s.editEntity name edit) := by
  rw [Scene.editEntity]
  split
  case h_1 => exact h
  case h_2 e he =>
    have hn : (Member.entity (edit.apply e s.clock).1).name = e.name := EntityEdit.apply_name
    exact (h.setMember (hn ▸ h.name_mem_keys he)).congr rfl rfl rfl rfl rfl

theorem lasting : Lasting (Coherent (α := α)) where
  edits      := stable
  sort       := sort
  newEntity  := newEntity
  insert     := insert
  remove     := remove
  editEntity := fun _ name edit h => h.editEntity name edit
  clear      := fun _ h => h.clear
  advance    := fun _ delta h => h.advance delta
  time       := fun _ _ h => h.congr rfl rfl rfl rfl rfl
  editing    := fun _ _ h => h.congr rfl rfl rfl rfl rfl
  clock      := fun _ _ h => h.congr rfl rfl rfl rfl rfl
  warn       := fun _ _ h => h.log _

theorem perform (operation : Operation α) : Preserves Coherent operation.perform := by
  by_cases hc : operation = .collect
  case pos => exact hc ▸ .modify fun _ h => h.log _
  case neg => exact lasting.perform hc

theorem after (h : Coherent s) (operations : List (Operation α)) :
    Coherent (s.after operations) := by
  induction operations generalizing s
  case nil => exact h
  case cons operation _ hi => exact hi (perform operation s h)

-- Members that do not wait for each other in a circle can be put in order.
theorem exists_exec_sort (h : Coherent s) (hc : ¬s.graph.Cyclic s.order) :
    ∃ s', Scene.sort.exec s = (.ok (), s') := by
  cases exec_sort h.built h.nodup h.valid
  case inl ho =>
    have ⟨_, _, ho, _⟩ := ho
    exact ⟨_, ho⟩
  case inr hr =>
    have ⟨_, _, _, _, _, hc'⟩ := hr
    exact absurd hc' hc

-- Members that are new stand behind all others, in the order in which they came.
theorem after_insert (h : Coherent s) (ms : List (Member α))
    (hn : (s.members.keys ++ ms.map (·.name)).Nodup) :
    (s.after (ms.map .insert)).order = s.order ++ ms.map (·.name) ∧
    (s.after (ms.map .insert)).roles = s.roles ++ ms.map (fun m => (m.name, m.role)) ∧
    (s.after (ms.map .insert)).graph = s.graph := by
  induction ms generalizing s
  case nil => simp [Scene.after]
  case cons m ms hi =>
    have hk : s.members.has m.name = false := by
      rw [Table.has_eq_false_iff]
      grind
    have ⟨s', hs, hr, ho, hg⟩ := h.exec_insert hk
    have h' : Coherent s' := by
      have h' := insert m s h
      rwa [hs] at h'
    have hn' : (s'.members.keys ++ ms.map (·.name)).Nodup := by
      have hk' : s'.members.keys = s.members.keys ++ [m.name] := by
        rw [← keys_roles, ← keys_roles, hr, Table.keys, List.map_append]
        rfl
      rwa [hk', ← List.append_cons]
    have ha : s.after ((m :: ms).map .insert) = s'.after (ms.map .insert) := by
      simp only [Scene.after, List.map_cons, List.foldl_cons, Operation.perform, hs]
    obtain ⟨ho', hr', hg'⟩ := hi h' hn'
    rw [ha, ho', hr', hg', ho, hr, hg]
    simp

end Coherent

theorem coherent_after_create (o : Options α) (clock : Clock α) (operations : List (Operation α)) :
    Coherent ((create o clock).after operations) :=
  (Coherent.create o clock).after operations

end Scene
end SceneMotion
