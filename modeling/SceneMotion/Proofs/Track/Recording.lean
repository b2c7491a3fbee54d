import SceneMotion.Double
import SceneMotion.Proofs.Dependency.Linking
import SceneMotion.Proofs.Track.Mentions
import SceneMotion.Proofs.Track.Reads
import SceneMotion.Track.Direct

namespace SceneMotion

namespace Graph

variable {owner a b : Text} {names : List Text}

@[simp]
theorem dependenciesOf_empty : empty.dependenciesOf a = [] :=
  rfl

@[simp]
theorem hasOrder_empty : empty.hasOrder a b = false :=
  rfl

theorem missing_empty : empty.missing owner names = names.eraseDups := by
  simp [missing]

theorem follow_empty (h : owner ∉ names) :
    empty.follow owner names = (empty.linked owner names.eraseDups, .ok ()) := by
  rw [follow_eq_linked, missing_empty]
  exact fun name hn => ⟨fun he => h (he ▸ hn), hasOrder_empty⟩

end Graph

namespace Track

variable {α : Type} [Scalar α] {g g' : Graph} {owner : Text} {v : Value α} {track : Track α}

theorem result_of_compileInto (h : compileInto g owner v = (g', .ok track)) :
    (ofValue owner v).result = .ok track := by
  simp only [compileInto] at h
  split at h
  case h_1 => cases h
  case h_2 =>
    cases hr : (ofValue owner v).result <;> rw [hr] at h <;> cases h
    rfl

-- Everything that is mentioned is recorded once, where it is first met, whether the track comes to
-- read it or not.
theorem compileInto_empty (h : compileInto .empty owner v = (g, .ok track)) :
    ∃ e, (v.checkExpr []).toExcept = .ok e ∧
      g.dependenciesOf owner = e.mentions.eraseDups ∧
      owner ∉ g.dependenciesOf owner ∧
      (∀ other, other ≠ owner → g.dependenciesOf other = []) ∧
      track.reads ⊆ g.dependenciesOf owner := by
  have hc := result_of_compileInto h
  have ⟨e, he, hm, ho⟩ := ofValue_mentioned hc
  have hg : Graph.empty.linked owner e.mentions.eraseDups = g := by
    rw [compileInto, hm, Graph.follow_empty ho] at h
    exact congrArg Prod.fst h
  have hd : g.dependenciesOf owner = e.mentions.eraseDups := by
    simp [← hg, Graph.dependenciesOf_linked]
  refine ⟨e, he, hd, ?itself, fun other hne => ?others, fun name hn => ?reads⟩
  case itself => rwa [hd, List.mem_eraseDups]
  case others => simp [← hg, Graph.dependenciesOf_linked, hne]
  case reads  =>
    rw [hd, List.mem_eraseDups, ← hm]
    exact ofValue_reads hc hn

def tug : Text := [84]

def barge : Text := [66]

def buoy : Text := [89]

-- The barge is mentioned three times, in the end under a name of the inner scope, and the buoy under
-- a name that is never used.
def tow : Value Float :=
  Expr.tupleValue "with"
    [Expr.tableValue none [("line", Expr.tupleValue "entity" [.text barge]),
      ("mark", Expr.tupleValue "entity" [.text buoy])],
     Expr.tupleValue "combine"
      [Expr.tupleValue "entity" [.text barge],
       Expr.tupleValue "with"
        [Expr.tableValue none [("mark", Expr.tupleValue "entity" [.text barge])],
         Expr.tupleValue "transform" [.text "mark", .text "line"]]]]

theorem compileInto_tow : ∃ g track, compileInto .empty tug tow = (g, .ok track) ∧
    g.dependenciesOf tug = [barge, buoy] ∧ g.dependenciesOf barge = [] ∧ track.reads = [barge] ∧
    track.reads ⊆ g.dependenciesOf tug := by
  have ⟨g, track, h, hd, hr⟩ : ∃ g track, compileInto .empty tug tow = (g, .ok track) ∧
      g.dependenciesOf tug = [barge, buoy] ∧ track.reads = [barge] := ⟨_, _, rfl, rfl, rfl⟩
  have ⟨_, _, _, _, ho, hs⟩ := compileInto_empty h
  exact ⟨g, track, h, hd, ho barge (by decide), hr, hs⟩

end Track
end SceneMotion
