import SceneMotion.Proofs.Scene.Jump
import SceneMotion.Proofs.Scene.Replay

namespace SceneMotion

-- The list after something has been told.
def Notice.amend {α : Type} (known : List Text) : Notice α → List Text
  | inserted name => known ++ [name]
  | removed name  => known.filter (· ≠ name)
  | sorted order  => order
  | _             => known

theorem Graph.isEmpty_of_edit {g g' : Graph} {c : Change} (h : g.isEmpty) (hc : c.unsettles = false)
    (he : g.edit c = .ok g') : g'.isEmpty := by
  cases c <;> cases hc <;> cases he
  case remove name => simp_all [isEmpty, removeEntity]
  case reset       => rfl

namespace Scene

variable {α β : Type} [Scalar α] {s s' : Scene α} {old left : List Text}
variable {result : Except SceneError Unit} {operation : Operation α}
variable {operations : List (Operation α)}

-- The list of somebody who has had an old one before all that has been told.
def roster (s : Scene α) (old : List Text) : List Text :=
  s.log.foldr (fun n known => n.amend known) old

theorem roster_eq : s.log.reverse.foldl Notice.amend old = s.roster old :=
  List.foldl_reverse

theorem roster_tell (hl : s.live) (n : Notice α) :
    (s.tell n).roster old = n.amend (s.roster old) := by
  simp [tell, hl, roster]

theorem roster_warned : s.warned.roster old = s.roster old :=
  warned_of (P := (·.roster old = s.roster old)) rfl fun _ _ _ h => h

theorem withGraph_order (c : Change) (g : Graph) : (s.withGraph c g).order = s.order := by
  have ⟨_, hw⟩ := s.withGraph_eq c g
  rw [hw]

-- The members are on the list in the order of their update, behind some who are left over.
structure Lists (old left : List Text) (s : Scene α) : Prop where
  live   : s.live
  listed : s.roster old = left ++ s.order

namespace Lists

theorem congr (h : Lists old left s) (hl : s'.live = s.live) (ho : s'.order = s.order)
    (hr : s'.roster old = s.roster old) : Lists old left s' where
  live   := hl ▸ h.live
  listed := by rw [hr, h.listed, ho]

theorem tell {n : Notice α} (hl : s.live) (hr : n.amend (s.roster old) = left ++ s.order) :
    Lists old left (s.tell n) := by
  have ⟨_, ht⟩ := s.tell_eq n
  refine ⟨by rw [ht]; exact hl, ?_⟩
  rw [roster_tell hl, hr, ht]

theorem withGraph (h : Lists old left s) (c : Change) (g : Graph) :
    Lists old left (s.withGraph c g) := by
  rw [Scene.withGraph]
  split
  case isTrue  => exact (Lists.tell (n := .change c) h.live h.listed).congr rfl rfl rfl
  case isFalse => exact h.congr rfl rfl rfl

theorem newEntity (name : Text) (o : Entity.Options α) :
    SceneM.Preserves (Lists old left) (Scene.newEntity name o) := by
  refine .bind (.modify fun s h => h.congr rfl rfl rfl) fun _ => .get_bind fun s h => ?_
  dsimp only
  split
  case isTrue  => exact h.congr rfl rfl rfl
  case isFalse => exact h

theorem insert (m : Member α) : SceneM.Preserves (Lists old left) (Scene.insert m) := by
  intro s h
  cases hm : s.members.has m.name
  case true  => rwa [exec_insert_of_has hm]
  case false =>
    have ⟨_, _, hs⟩ := (s.withMember m).simulateMember_eq m.name (.by 0)
    rw [exec_insert_of_not_has hm, hs]
    refine Lists.tell h.live ?_
    change s.roster old ++ [m.name] = left ++ (s.order ++ [m.name])
    rw [h.listed, List.append_assoc]

theorem editEntity (h : Lists old left s) (name : Text) (edit : EntityEdit α) :
    Lists old left (s.editEntity name edit) := by
  rw [Scene.editEntity]
  split
  case h_1 => exact h
  case h_2 => exact h.congr rfl rfl rfl

theorem steady : Steady (Lists (α := α) old left) where
  edits      := fun _ c g _ h => h.withGraph c g
  newEntity  := newEntity
  insert     := insert
  editEntity := fun _ name edit h => h.editEntity name edit
  warn       := fun _ _ h => h.congr rfl rfl rfl

-- Whoever is removed is struck out wherever the name stands.
theorem remove (h : Lists old left s) (hn : s.order.Nodup) {name : Text}
    (hm : s.members.has name) :
    Lists old (left.filter (· ≠ name)) ((Scene.remove name).exec s).2 := by
  have hw := h.withGraph (.remove name) (s.graph.removeEntity name)
  have hr : ((s.withGraph (.remove name) (s.graph.removeEntity name)).withoutMember name).roster old =
      left ++ s.order := hw.listed.trans (by rw [withGraph_order])
  have he : ((s.withGraph (.remove name) (s.graph.removeEntity name)).withoutMember name).order =
      s.order.filter (· ≠ name) := by
    rw [withoutMember, withGraph_order, hn.erase_eq_filter]
    exact List.filter_congr (by grind)
  rw [exec_remove_of_has hm]
  refine Lists.tell hw.live ?_
  rw [Notice.amend, hr, he, List.filter_append]

-- Nobody is told who has gone.
theorem clear (h : Lists old left s) : Lists old (left ++ s.order) s.clear where
  live   := (h.withGraph .reset .empty).live
  listed := by
    have hr := (h.withGraph .reset .empty).listed
    rw [withGraph_order] at hr
    exact hr.trans (List.append_nil _).symm

theorem advance (h : Lists old left s) (delta : Delta α) : Lists old left (s.advance delta) := by
  have ⟨_, _, _, _, ha⟩ := s.advance_eq_tell delta
  rw [ha]
  exact Lists.tell h.live h.listed

end Lists

-- Who is left over once the members are in order: nobody, if that has gone through and there has been
-- anything to be sorted.
def leftSorted (s : Scene α) (left : List Text) (result : Except SceneError β) : List Text :=
  if result.isOk && s.sorts then [] else left

theorem leftSorted_of_not_sorts (h : s.sorts = false) (result : Except SceneError β) :
    s.leftSorted left result = left := by
  simp [leftSorted, h]

-- What an operation comes to that puts the members in order.
structure Settles (old left : List Text) (s s' : Scene α) (result : Except SceneError Unit) : Prop where
  lists     : Lists old (s.leftSorted left result) s'
  graph     : s'.graph = s.graph
  needsSort : result.isOk → s'.needsSort = false

namespace Settles

theorem sort (h : Lists old left s) (he : sort.exec s = (result, s')) :
    Settles old left s s' result := by
  cases hs : s.sorts
  case false =>
    cases he.symm.trans (exec_sort_of_not_sorts hs)
    refine ⟨?_, rfl, fun _ => rfl⟩
    rw [leftSorted_of_not_sorts hs]
    exact h.congr rfl rfl rfl
  case true =>
    have ⟨_, hw⟩ := s.warned_eq
    have hwl : Lists old left s.warned := h.congr (by rw [hw]) (by rw [hw]) roster_warned
    rw [exec_sort_of_sorts hs] at he
    cases ho : (s.graph.sort s.order).order <;> rw [ho] at he <;> cases he
    case error e  => exact ⟨hwl, by rw [hw], nofun⟩
    case ok order =>
      have ⟨_, ht⟩ := tell_eq { s.warned with order, needsSort := false } (.sorted order)
      refine ⟨?_, by rw [ht, hw], fun _ => by rw [ht]⟩
      simp only [leftSorted, hs, Except.isOk, Except.toBool, Bool.and_self, if_true]
      exact Lists.tell hwl.live rfl

theorem step (h : Lists old left s) {delta : Delta α} (he : (step delta).exec s = (result, s')) :
    Settles old left s s' result := by
  rcases hs : Scene.sort.exec s with ⟨_ | _, s₁⟩
  case error e =>
    cases he.symm.trans (SceneM.exec_bind_error hs)
    exact sort h hs
  case ok =>
    have ht := sort h hs
    cases he.symm.trans (exec_step_of_sort hs)
    exact ⟨ht.lists.advance delta, by simpa using ht.graph, by simpa using ht.needsSort⟩

-- The second step of a jump finds nothing to be sorted.
theorem setTime (h : Lists old left s) {t : α} (he : (setTime t).exec s = (result, s')) :
    Settles old left s s' result := by
  have h' : Lists old left { s with time := t } := h.congr rfl rfl rfl
  rw [Scene.setTime, SceneM.exec_modify_bind] at he
  rcases hs : (Scene.step .jump).exec { s with time := t } with ⟨_ | _, s₁⟩
  case error e =>
    cases he.symm.trans (SceneM.exec_bind_error hs)
    have ht := step h' hs
    exact ⟨ht.lists, ht.graph, ht.needsSort⟩
  case ok =>
    have ht := step h' hs
    have hn := exec_sort_of_not_needsSort (ht.needsSort rfl)
    rw [SceneM.exec_bind_ok hs] at he
    cases he.symm.trans (exec_step_of_sort hn)
    refine ⟨ht.lists.advance .jump, by simpa using ht.graph, by simpa using ht.needsSort⟩

end Settles

-- As long as there are edges, the members are to be sorted.
structure Due (s : Scene α) : Prop where
  live : s.live
  due  : s.needsSort = false → s.graph.isEmpty

namespace Due

theorem congr (h : Due s) (hl : s'.live = s.live) (hs : s'.needsSort = s.needsSort)
    (hg : s'.graph = s.graph) : Due s' where
  live := hl ▸ h.live
  due  := hs ▸ hg ▸ h.due

theorem sorts (h : Due s) : s.sorts = !s.graph.isEmpty := by
  cases hs : s.needsSort
  case true  => simp [Scene.sorts, hs]
  case false => simp [Scene.sorts, hs, h.due hs]

theorem stable : StableUnderEdits (Due (α := α)) := by
  intro s c g he h
  have ⟨_, hw⟩ := s.withGraph_eq c g
  rw [hw]
  refine ⟨h.live, fun hs => ?_⟩
  rw [Bool.or_eq_false_iff, Bool.and_eq_false_iff] at hs
  exact Graph.isEmpty_of_edit (h.due hs.left) (hs.right.resolve_left (by simp [h.live])) he

theorem newEntity (name : Text) (o : Entity.Options α) :
    SceneM.Preserves Due (Scene.newEntity name o) := by
  intro s h
  have ⟨_, _, _, hs, _⟩ := exec_newEntity s name o
  rw [hs]
  exact h.congr rfl rfl rfl

theorem insert (m : Member α) : SceneM.Preserves Due (Scene.insert m) := by
  intro s h
  cases hm : s.members.has m.name
  case true  => rwa [exec_insert_of_has hm]
  case false =>
    have ⟨_, _, hs⟩ := (s.withMember m).simulateMember_eq m.name (.by 0)
    have ⟨_, hi⟩ := exec_insert hm
    rw [hi, hs]
    exact ⟨h.live, fun hn => h.due (Bool.or_eq_false_iff.mp hn).left⟩

theorem steady : Steady (Due (α := α)) where
  edits      := stable
  newEntity  := newEntity
  insert     := insert
  editEntity := by
    intro s name edit h
    rw [Scene.editEntity]
    split
    case h_1 => exact h
    case h_2 => exact h.congr rfl rfl rfl
  warn       := fun _ _ h => h.congr rfl rfl rfl

theorem clear (hl : s.live) : Due s.clear := by
  have ⟨_, hc⟩ := s.clear_eq
  rw [hc]
  exact ⟨hl, fun _ => rfl⟩

end Due

-- Who is left over after loading. Everybody who has been in the scene is, unless the jump at the end
-- finds edges and sorts the members.
def leftLoaded (s : Scene α) (left : List Text) (v : Value α) : List Text :=
  match v.checkDescription.toExcept, (load v).exec s with
  | .error _, _        => left
  | .ok _, (r, loaded) => if r.isOk && !loaded.graph.isEmpty then [] else left ++ s.order

theorem Lists.loadDescription {d : Description α} {result : Except SceneError LoadReport}
    (h : Lists old left s) (he : (Scene.loadDescription d).exec s = (result, s')) :
    Lists old (if result.isOk && !s'.graph.isEmpty then [] else left ++ s.order) s' := by
  have hp : Lists old (left ++ s.order) s.clear ∧ Due s.clear := ⟨h.clear, .clear h.live⟩
  have hl := (Lists.steady.and Due.steady).loadEntities ⟨d.name, [], []⟩ d.entities s.clear hp
  rw [Scene.loadDescription, SceneM.exec_modify_bind] at he
  rcases hs : (loadEntities ⟨d.name, [], []⟩ d.entities).exec s.clear with ⟨_ | report, s₁⟩
  case error e =>
    cases he.symm.trans (SceneM.exec_bind_error hs)
    rw [hs] at hl
    exact hl.left
  case ok =>
    rw [hs] at hl
    rw [SceneM.exec_bind_ok hs, SceneM.exec_modify_bind] at he
    have hls : Lists old (left ++ s.order) (s₁.setEditing (d.editing.getD false)) :=
      hl.left.congr rfl rfl rfl
    have hds : Due (s₁.setEditing (d.editing.getD false)) := hl.right.congr rfl rfl rfl
    rcases ht : (Scene.setTime (d.time.getD 0)).exec (s₁.setEditing (d.editing.getD false))
      with ⟨_ | _, s₂⟩
    case error e =>
      cases he.symm.trans (SceneM.exec_bind_error ht)
      exact (Settles.setTime hls ht).lists
    case ok =>
      rw [SceneM.exec_bind_ok ht] at he
      cases he
      have hst := Settles.setTime hls ht
      have hli := hst.lists
      rw [leftSorted, hds.sorts, ← hst.graph] at hli
      exact hli

theorem Lists.load (h : Lists old left s) (v : Value α) :
    Lists old (s.leftLoaded left v) ((Scene.load v).exec s).2 := by
  rw [leftLoaded, Scene.load]
  cases v.checkDescription.toExcept
  case error issues => exact h
  case ok d         => exact h.loadDescription rfl

-- Who is left over on the list after an operation.
def leftover (s : Scene α) (left : List Text) (operation : Operation α) : List Text :=
  let result := (operation.perform.exec s).1
  match operation with
  | .clear                       => left ++ s.order
  | .load v                      => s.leftLoaded left v
  | .remove name                 => if result.isOk then left.filter (· ≠ name) else left
  | .sort | .step _ | .setTime _ => s.leftSorted left result
  | _                            => left

theorem Lists.perform (h : Lists old left s) (hn : s.order.Nodup) (hc : operation ≠ .collect) :
    Lists old (s.leftover left operation) (operation.perform.exec s).2 := by
  cases operation
  case insert m       => exact insert m s h
  case remove name    =>
    cases hm : s.members.has name
    case true  =>
      have hr := h.remove hn hm
      simp only [leftover, Operation.perform, exec_remove_of_has hm] at hr ⊢
      exact hr
    case false =>
      simp only [leftover, Operation.perform, exec_remove_of_not_has hm]
      exact h
  case clear          => exact h.clear
  case editGraph c    => exact steady.edits.editGraph c s h
  case newEntity      => exact SceneM.Preserves.bind (newEntity _ _) (fun _ => .pure) s h
  case editEntity     => exact h.editEntity _ _
  case createTrack    => exact SceneM.Preserves.bind (steady.edits.createTrack _ _) (fun _ => .pure) s h
  case setEntityTrack => exact SceneM.Preserves.bind (steady.setEntityTrack _ _) (fun _ => .pure) s h
  case sort           => exact (Settles.sort h rfl).lists
  case step delta     => exact (Settles.step h rfl).lists
  case setTime t      => exact (Settles.setTime h rfl).lists
  case setEditing     => exact h.congr rfl rfl rfl
  case load v         =>
    have hs : ((Operation.load v).perform.exec s).2 = _ := SceneM.exec_bind_pure
    rw [hs]
    exact h.load v
  case collect        => contradiction
  case setClock       => exact h.congr rfl rfl rfl

-- Who is left over on the list after some operations, whether they have gone through or not.
def leftovers (s : Scene α) (left : List Text) : List (Operation α) → List Text
  | []                => left
  | operation :: rest =>
    (operation.perform.exec s).2.collect.2.leftovers (s.leftover left operation) rest

-- What is told in the course of an operation makes an old list into a new one.
theorem exec_perform_lists (hl : s.live) (hn : s.order.Nodup) (ho : s.log = [])
    (left : List Text) (operation : Operation α) : let s' := (operation.perform.exec s).2
    s'.roster (left ++ s.order) = s.leftover left operation ++ s'.order := by
  have hr : s.roster (left ++ s.order) = left ++ s.order := by rw [roster, ho, List.foldr_nil]
  by_cases hc : operation = .collect
  case pos =>
    subst hc
    rfl
  case neg => exact (Lists.perform ⟨hl, hr⟩ hn hc).listed

theorem roster_listen (h : Coherent s) (ho : s.log = []) (left : List Text)
    (operations : List (Operation α)) :
    (s.listen operations).1.foldl Notice.amend (left ++ s.order) =
      s.leftovers left operations ++ (s.listen operations).2.order := by
  induction operations generalizing s left
  case nil => rfl
  case cons operation rest hi =>
    have hr := exec_perform_lists h.live h.nodup ho left operation
    have hc : Coherent { (operation.perform.exec s).2 with log := [] } :=
      (Coherent.perform operation s h).log []
    rw [listen, List.foldl_append, leftovers]
    simp only [collect]
    rw [roster_eq, hr]
    exact hi hc rfl _

-- The list is right just as long as nobody is left over. The operations may stop anywhere.
theorem roster_listen_create (o : Options α) (clock : Clock α) (operations : List (Operation α)) :
    let heard := (create o clock).listen operations
    let left := (create o clock).leftovers [] operations
    heard.1.foldl Notice.amend [] = left ++ heard.2.order ∧
      (heard.1.foldl Notice.amend [] = heard.2.order ↔ left = []) := by
  have hr := roster_listen (.create o clock) rfl [] operations
  refine ⟨hr, ?_⟩
  rw [← List.append_left_eq_self, ← hr]
  rfl

-- A scene with one member, and then without.
theorem roster_not_listened : ¬∀ (o : Options Float) (clock : Clock Float)
    (operations : List (Operation Float)), let heard := (create o clock).listen operations
    heard.1.foldl Notice.amend [] = heard.2.order := by
  intro h
  have hl : [ship] = [] := h {} ⟨0, 0⟩ [.insert (fixed ship 0), .clear]
  contradiction

end Scene
end SceneMotion
