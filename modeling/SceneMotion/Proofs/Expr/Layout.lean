import SceneMotion.Double
import SceneMotion.Expr.Parser
import SceneMotion.Proofs.Expr.Pieces

namespace SceneMotion

variable {α : Type}

-- Blanks and comments, one behind the other. The text of a line comment has no line end in it, and that
-- of a block comment does not close it.
inductive IsLayout : Text → Prop
  | blanks : (∀ u ∈ s, Unit16.isBlank u) → IsLayout s
  | line   : unit '\n' ∉ s → IsLayout (unit '/' :: unit '/' :: (s ++ [unit '\n']))
  | block  : ¬[unit '*', unit '/'] <:+: s →
    IsLayout (unit '/' :: unit '*' :: (s ++ [unit '*', unit '/']))
  | append : IsLayout s → IsLayout t → IsLayout (s ++ t)

-- What a text becomes when another is put in at some place.
def Text.insertAt (source : Text) (place : Nat) (gap : Text) : Text :=
  source.take place ++ (gap ++ source.drop place)

-- What is at the place or behind it moves on.
def pushed (place n position : Nat) : Nat :=
  if position < place then position else position + n

def Lexeme.pushed (place n : Nat) (t : Lexeme α) : Lexeme α :=
  ⟨t.token, SceneMotion.pushed place n t.position⟩

def ParseError.pushed (place n : Nat) (e : ParseError) : ParseError :=
  ⟨e.fault, SceneMotion.pushed place n e.position⟩

variable {gap rest s a b : Text} {place n position : Nat}

theorem pushed_of_lt (h : position < place) : pushed place n position = position :=
  if_pos h

theorem pushed_of_le (h : place ≤ position) : pushed place n position = position + n :=
  if_neg (Nat.not_lt.mpr h)

theorem detached_append (ha : Detached a) (hb : Detached b) : Detached (a ++ b) := by
  cases a
  case nil  => exact hb
  case cons => exact ha

theorem IsLayout.detached (h : IsLayout gap) : Detached gap := by
  induction h
  case blanks hs      => exact fun u hu => .inl (hs u (List.mem_of_mem_head? hu))
  case line           => exact fun u hu => .inr (Option.some.inj hu).symm
  case block          => exact fun u hu => .inr (Option.some.inj hu).symm
  case append hs ht   => exact detached_append hs ht

theorem detached_gap (h : IsLayout gap) (hne : gap ≠ []) (rest : Text) : Detached (gap ++ rest) := by
  obtain ⟨u, us, rfl⟩ := List.exists_cons_of_ne_nil hne
  exact h.detached

namespace Lexer

theorem lineLength_of_not_mem (h : unit '\n' ∉ s) (rest : Text) :
    lineLength (s ++ unit '\n' :: rest) = s.length + 1 := by
  induction s
  case nil => rfl
  case cons u us hi =>
    have ⟨hu, hus⟩ := not_or.mp (mt List.mem_cons.mpr h)
    rw [List.cons_append, lineLength, if_neg (Ne.symm hu), hi hus, List.length_cons]

-- The comment might be closed earlier only by a unit of its text and the one behind it.
theorem blockLength_of_not_infix (h : ¬[unit '*', unit '/'] <:+: s) (rest : Text) :
    blockLength? (s ++ unit '*' :: unit '/' :: rest) = some (s.length + 2) := by
  induction s
  case nil => rfl
  case cons u us hi =>
    replace hi := hi fun hs => h (hs.trans (List.suffix_cons u us).isInfix)
    have hu : (us ++ unit '*' :: unit '/' :: rest).head? = some (unit '/') → u ≠ unit '*' := by
      rintro hv rfl
      cases us
      case nil       => exact absurd (Option.some.inj hv) (by decide)
      case cons v vs => exact h ⟨[], vs, congrArg (unit '*' :: · :: vs) (Option.some.inj hv).symm⟩
    obtain ⟨v, vs, hv⟩ := List.exists_cons_of_ne_nil (l := us ++ unit '*' :: unit '/' :: rest) (by simp)
    rw [List.cons_append]
    rw [hv] at hi hu ⊢
    rw [blockLength?, if_neg fun hc => hu (congrArg some hc.right) hc.left, hi, Option.map_some,
      List.length_cons]

variable [Scalar α] {c : UInt16} {lexemes : List (Lexeme α)}

theorem tokensFrom_skip (hp : piece c (s ++ rest) = .ok (⟨none, s.length⟩ : Piece α))
    (position : Nat) : tokensFrom (α := α) position (c :: (s ++ rest)) =
      tokensFrom (position + (c :: s).length) rest := by
  rw [tokensFrom_cons hp, List.drop_left, List.length_cons, Nat.add_assoc, Nat.add_comm 1]
  cases tokensFrom (α := α) (position + (s.length + 1)) rest <;> rfl

-- Nothing comes of layout.
theorem tokensFrom_layout (h : IsLayout gap) (position : Nat) (rest : Text) :
    tokensFrom (α := α) position (gap ++ rest) = tokensFrom (position + gap.length) rest := by
  induction h generalizing position rest
  case blanks s hs =>
    induction s generalizing position
    case nil => rfl
    case cons u us hi =>
      have ⟨hu, hus⟩ := List.forall_mem_cons.mp hs
      have hp : piece u ([] ++ (us ++ rest)) = .ok (⟨none, 0⟩ : Piece α) := piece_eq_ok_iff.mpr (.blank hu)
      refine (tokensFrom_skip hp position).trans ((hi hus _).trans ?_)
      rw [List.length_cons, List.length_cons, List.length_nil, Nat.zero_add, Nat.add_assoc,
        Nat.add_comm 1]
  case line s hs =>
    refine tokensFrom_skip (s := unit '/' :: (s ++ [unit '\n'])) (piece_eq_ok_iff.mpr ?_) position
    have hl : lineLength (unit '/' :: (s ++ [unit '\n']) ++ rest) =
        (unit '/' :: (s ++ [unit '\n'])).length := by
      rw [List.cons_append, List.append_assoc, List.singleton_append, lineLength, if_neg (by decide),
        lineLength_of_not_mem hs, List.length_cons, List.length_append, List.length_singleton]
    exact hl ▸ .line rfl
  case block s hs =>
    refine tokensFrom_skip (s := unit '*' :: (s ++ [unit '*', unit '/'])) (piece_eq_ok_iff.mpr ?_) position
    have hl : blockLength? (s ++ [unit '*', unit '/'] ++ rest) =
        some (s ++ [unit '*', unit '/']).length := by
      rw [List.append_assoc, List.cons_append, List.singleton_append, blockLength_of_not_infix hs,
        List.length_append, List.length_cons, List.length_singleton]
    rw [List.cons_append, List.length_cons, Nat.add_comm]
    exact .block hl
  case append s t _ _ hs ht =>
    rw [List.append_assoc, hs, ht, List.length_append, Nat.add_assoc]

omit [Scalar α] in
theorem Piece.map_found {p : Piece α} {f : Lexeme α → Lexeme α} (position' : Nat)
    (h : ∀ token, f ⟨token, position⟩ = ⟨token, position'⟩) :
    (p.found position).map f = p.found position' := by
  cases ht : p.token? <;> simp [found, ht, h]

namespace Cut

theorem bounds (h : Cut position s lexemes) :
    ∀ t ∈ lexemes, position ≤ t.position ∧ t.position < position + s.length := by
  induction h
  case nil => nofun
  case cons hi =>
    intro t ht
    rw [List.length_cons]
    rcases List.mem_append.mp ht with ht | ht
    · rw [Piece.position_of_mem_found ht]
      omega
    · have := hi t ht
      rw [List.length_drop] at this
      omega

-- The same text stands further on.
theorem moved (h : Cut position s lexemes) (n : Nat) :
    Cut (position + n) s (lexemes.map fun t => ⟨t.token, t.position + n⟩) := by
  induction h
  case nil => exact .nil
  case cons _ _ _ position _ hp _ hi =>
    rw [List.map_append, Piece.map_found (position + n) fun _ => rfl]
    refine .cons hp ?_
    rwa [Nat.add_right_comm position, Nat.add_right_comm (position + 1)]

-- The induction is on the pieces in front of the place.
theorem insert (h : Cut position (a ++ b) lexemes)
    (ht : ∃ t ∈ lexemes, t.position = position + a.length) (hg : IsLayout gap) (hne : gap ≠ []) :
    Cut position (a ++ (gap ++ b)) (lexemes.map (·.pushed (position + a.length) gap.length)) := by
  generalize hs : a ++ b = s at h
  induction h generalizing a
  case nil => exact absurd ht (by simp)
  case cons c rest p position lexemes hp hr hi =>
    obtain ⟨t, hm, hpos⟩ := ht
    cases a
    case nil =>
      obtain rfl : b = c :: rest := hs
      have hc := Cut.cons hp hr
      have hl : (p.found position ++ lexemes).map (·.pushed position gap.length) =
          (p.found position ++ lexemes).map fun t => ⟨t.token, t.position + gap.length⟩ :=
        List.map_congr_left fun t ht => congrArg _ (pushed_of_le (hc.bounds t ht).left)
      refine cut_of_tokensFrom ((tokensFrom_layout hg position _).trans ?_)
      exact hl ▸ (hc.moved gap.length).tokensFrom
    case cons c' a =>
      obtain ⟨rfl, rfl⟩ : c' = c ∧ a ++ b = rest := List.cons.inj hs
      rw [List.length_cons] at hpos ⊢
      have hm := (List.mem_append.mp hm).resolve_left fun hf => by
        have := Piece.position_of_mem_found hf
        omega
      have ⟨hle, hlt⟩ := hr.bounds t hm
      rw [List.length_drop, List.length_append] at hlt
      have hp' : p.extra ≤ a.length := by omega
      have hb : b ≠ [] := fun hb => by
        rw [hb] at hlt
        simp at hlt
        omega
      have hplace : position + 1 + p.extra + (a.drop p.extra).length = position + (a.length + 1) := by
        rw [List.length_drop]
        omega
      have hi := hi ⟨t, hm, by omega⟩ (List.drop_append_of_le_length hp').symm
      rw [hplace] at hi
      have hfound : (p.found position).map (·.pushed (position + (a.length + 1)) gap.length) =
          p.found position :=
        Piece.map_found position fun _ => congrArg _ (pushed_of_lt (Nat.lt_add_of_pos_right (by omega)))
      rw [List.map_append, hfound]
      refine .cons (piece_eq_ok_iff.mpr ?piece) ?rest
      case piece =>
        exact (piece_eq_ok_iff.mp hp).append hp' (detached_gap hg hne b) fun hn => absurd hn hb
      case rest =>
        change Cut _ ((a ++ (gap ++ b)).drop p.extra) _
        rwa [List.drop_append_of_le_length hp']

end Cut
end Lexer

theorem Parser.run_pushed {length : Nat} (h : place ≤ length) (n : Nat) (s : State α)
    (lexemes : List (Lexeme α)) : run (length + n) s (lexemes.map (·.pushed place n)) =
      (run length s lexemes).mapError (·.pushed place n) := by
  induction lexemes generalizing s
  case nil =>
    rw [List.map_nil, run, run]
    cases s.finish
    case ok    => rfl
    case error => simp [Except.mapError, ParseError.pushed, pushed_of_le h]
  case cons t rest hi =>
    rw [List.map_cons, run, run, Lexeme.pushed]
    cases s.step t.token
    case error => rfl
    case ok s' => exact hi s'

variable [Scalar α]

theorem Expr.parse_insertAt {source gap : Text} {lexemes : List (Lexeme α)} {t : Lexeme α}
    (h : Lexer.tokens source = .ok lexemes) (ht : t ∈ lexemes) (hg : IsLayout gap) :
    Lexer.tokens (source.insertAt t.position gap) =
      .ok (lexemes.map (·.pushed t.position gap.length)) ∧
    (parse (source.insertAt t.position gap) : Except ParseError (Expr α)) =
      (parse source).mapError (·.pushed t.position gap.length) := by
  have hc := Lexer.cut_of_tokensFrom h
  have ⟨_, hlt⟩ := hc.bounds t ht
  rw [Nat.zero_add] at hlt
  have htokens : Lexer.tokens (source.insertAt t.position gap) =
      .ok (lexemes.map (·.pushed t.position gap.length)) := by
    by_cases hne : gap = []
    case pos =>
      subst hne
      have hid : (Lexeme.pushed t.position 0 : Lexeme α → Lexeme α) = id := by
        funext u
        simp [Lexeme.pushed, pushed]
      simpa [Text.insertAt, hid] using h
    case neg =>
      have hl : (source.take t.position).length = t.position := by
        rw [List.length_take]
        omega
      rw [← List.take_append_drop t.position source] at hc
      have hi := hc.insert ⟨t, ht, by rw [hl, Nat.zero_add]⟩ hg hne
      rw [hl, Nat.zero_add] at hi
      exact hi.tokensFrom
  have hlength : (source.insertAt t.position gap).length = source.length + gap.length := by
    simp only [Text.insertAt, List.length_append, List.length_take, List.length_drop]
    omega
  refine ⟨htokens, ?_⟩
  rw [parse, parse, h, htokens]
  change Parser.run _ _ _ = (Parser.run _ _ _).mapError _
  rw [hlength, Parser.run_pushed (Nat.le_of_lt hlt)]

-- A numeral and a name, which without the comment between them have nothing between them.
def adjoining : Text := "[.5e]"

def parted : Text := "[.5//]\ne]"

def adjoiningLexemes : List (Lexeme Float) := [
  ⟨.mark .openBracket, 0⟩, ⟨.number (Scalar.ofDecimal 5 (-1)), 1⟩, ⟨.name "e", 3⟩,
  ⟨.mark .closeBracket, 4⟩]

theorem adjoining_tokens : Lexer.tokens adjoining = .ok adjoiningLexemes := by
  have hn : Lexer.nameLength [unit 'e', unit ']'] = 1 := Lexer.nameLength_of_not_qualified nofun
  have hp : Lexer.piece (unit 'e') [unit ']'] =
      (.ok ⟨some (.name "e"), 0⟩ : Except _ (Lexer.Piece Float)) := by
    rw [Lexer.piece_of_isNameStart (by decide), hn]
    rfl
  refine Lexer.tokensFrom_cons_ok (p := ⟨some (.mark .openBracket), 0⟩) rfl ?_
  refine Lexer.tokensFrom_cons_ok (p := ⟨some (.number (Scalar.ofDecimal 5 (-1))), 1⟩) rfl ?_
  refine Lexer.tokensFrom_cons_ok hp ?_
  exact Lexer.tokensFrom_cons_ok (p := ⟨some (.mark .closeBracket), 0⟩) rfl (Lexer.tokensFrom_nil 5)

theorem adjoining_parse :
    (Expr.parse adjoining : Except ParseError (Expr Float)) = .error ⟨.expected .closeBracket, 3⟩ := by
  rw [Expr.parse, adjoining_tokens]
  rfl

theorem parse_insertAt_comment :
    Lexer.tokens parted = .ok (adjoiningLexemes.map (·.pushed 3 4)) ∧
    (Expr.parse parted : Except ParseError (Expr Float)) = .error ⟨.expected .closeBracket, 7⟩ := by
  have hg : IsLayout "//]\n" := .line (s := "]") (by decide)
  have h := Expr.parse_insertAt (t := ⟨.name "e", 3⟩) adjoining_tokens
    (List.mem_of_getElem? (i := 2) rfl) hg
  rw [adjoining_parse] at h
  exact h

end SceneMotion
