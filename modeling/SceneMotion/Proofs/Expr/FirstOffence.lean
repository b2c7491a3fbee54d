import SceneMotion.Double
import SceneMotion.Proofs.Expr.Grammar
import SceneMotion.Proofs.Expr.Pieces

namespace SceneMotion

variable {α : Type}

namespace Parser

open Grammar State

variable {s s' : State α} {t : Token α} {ts : List (Token α)} {v : Expr α}

-- Whatever is still open can be closed.
theorem exists_ends (stack : List (Context α)) (v : Expr α) : ∃ document ts, Ends document stack ts v := by
  induction stack generalizing v
  case nil => exact ⟨v, [], rfl, rfl⟩
  case cons c outer hi =>
    cases c
    case item kind before =>
      have ⟨document, ts, h⟩ := hi (kind.build (before ++ [v]))
      exact ⟨document, _, .inr ⟨ts, rfl, h⟩⟩
    case field tag? before key =>
      have ⟨document, ts, h⟩ := hi (.table tag? (before.set key v))
      exact ⟨document, _, .inr ⟨ts, rfl, h⟩⟩

-- Any text will do for a value that is missing.
theorem exists_awaits (s : State α) : ∃ document ts, s.Awaits document ts := by
  obtain ⟨goal, stack⟩ := s
  cases goal
  case value =>
    have ⟨document, ts, h⟩ := exists_ends stack (.text [])
    exact ⟨document, _, [_], _, ts, rfl, .text, h⟩
  case item kind before =>
    have ⟨document, ts, h⟩ := exists_ends stack (kind.build (before ++ []))
    exact ⟨document, _, [], [], ts, rfl, .nil, h⟩
  case key tag? before =>
    have ⟨document, ts, h⟩ := exists_ends stack (.table tag? before)
    exact ⟨document, _, [], [], ts, rfl, .nil, trivial, h⟩
  case equals tag? before key =>
    have ⟨document, ts, h⟩ := exists_ends (.field tag? before key :: stack) (.text [])
    exact ⟨document, _, _, rfl, [_], _, ts, rfl, .text, h⟩
  case named name =>
    have ⟨document, ts, h⟩ := exists_ends stack (.text name)
    exact ⟨document, ts, .inl h⟩
  case after v => exact exists_ends stack v

-- The tokens may come next, and more may come behind them.
def State.Allows (s : State α) (ts : List (Token α)) : Prop :=
  ∃ document more, s.Awaits document (ts ++ more)

theorem allows_nil (s : State α) : s.Allows [] :=
  exists_awaits s

theorem allows_cons_iff : s.Allows (t :: ts) ↔ ∃ s', s.step t = .ok s' ∧ s'.Allows ts := by
  simp only [State.Allows, List.cons_append, awaits_cons_iff]
  grind

-- The induction is on the tokens, with the state that has been reached.
theorem run_error {length : Nat} {lexemes : List (Lexeme α)} {e : ParseError}
    (h : run length s lexemes = .error e) :
    (∃ before token after, lexemes = before ++ ⟨token, e.position⟩ :: after ∧
      s.Allows (before.map (·.token)) ∧ ¬s.Allows (before.map (·.token) ++ [token])) ∨
    (e.position = length ∧ s.Allows (lexemes.map (·.token)) ∧
      ∀ document, ¬s.Awaits document (lexemes.map (·.token))) := by
  induction lexemes generalizing s
  case nil =>
    cases hf : s.finish <;> rw [run, hf] at h <;> cases h
    refine .inr ⟨rfl, allows_nil s, fun document ha => ?_⟩
    cases hf.symm.trans (awaits_nil_iff.mp ha)
  case cons t rest hi =>
    rw [run] at h
    cases hs : s.step t.token <;> rw [hs] at h
    case error =>
      cases h
      refine .inl ⟨[], t.token, rest, rfl, allows_nil s, fun hb => ?_⟩
      obtain ⟨_, hb, _⟩ := allows_cons_iff.mp hb
      cases hs.symm.trans hb
    case ok s' =>
      have hcons {ts : List (Token α)} : s.Allows (t.token :: ts) ↔ s'.Allows ts := by
        rw [allows_cons_iff, hs]
        simp
      rcases hi h with ⟨before, token, after, rfl, hb, hn⟩ | ⟨hp, hb, hn⟩
      · exact .inl ⟨t :: before, token, after, rfl, hcons.mpr hb, mt hcons.mp hn⟩
      · refine .inr ⟨hp, hcons.mpr hb, fun document ha => ?_⟩
        obtain ⟨_, hs', ha⟩ := awaits_cons_iff.mp ha
        cases hs.symm.trans hs'
        exact hn document ha

-- An expression is read from the tokens, wherever they stand.
def Accepts (ts : List (Token α)) : Prop :=
  ∃ (lexemes : List (Lexeme α)) (length : Nat) (v : Expr α),
    lexemes.map (·.token) = ts ∧ run length .start lexemes = .ok v

-- An expression may begin with the tokens.
def Viable (ts : List (Token α)) : Prop :=
  ∃ more, Accepts (ts ++ more)

theorem accepts_iff : Accepts ts ↔ ∃ v, start.Awaits v ts := by
  constructor
  case mp =>
    rintro ⟨lexemes, _, v, rfl, h⟩
    exact ⟨v, run_eq_ok_iff.mp h⟩
  case mpr =>
    rintro ⟨v, h⟩
    have ht : (ts.map fun t => (⟨t, 0⟩ : Lexeme α)).map (·.token) = ts := by
      rw [List.map_map]
      exact List.map_id ts
    exact ⟨_, 0, v, ht, run_eq_ok_iff.mpr (ht.symm ▸ h)⟩

theorem viable_iff : Viable ts ↔ start.Allows ts := by
  simp only [Viable, accepts_iff, State.Allows]
  exact exists_comm

end Parser

variable [Scalar α]

-- Where a text cannot be split any further, the text in front of that place can be split.
theorem Lexer.tokensFrom_error {s : Text} {position : Nat} {e : ParseError}
    (h : tokensFrom (α := α) position s = .error e) : ∃ before after, s = before ++ after ∧
      after ≠ [] ∧ e.position = position + before.length ∧
      ∃ lexemes : List (Lexeme α), tokensFrom position before = .ok lexemes := by
  fun_induction tokensFrom (α := α) position s generalizing e
  case case1 => cases h
  case case2 position c rest _ _ =>
    cases h
    exact ⟨[], c :: rest, rfl, List.cons_ne_nil _ _, rfl, [], tokensFrom_nil position⟩
  case case3 position c rest p hp e' he hi =>
    cases h
    obtain ⟨before, after, hr, ha, hpos, lexemes, hl⟩ := hi he
    have hlt : p.extra < rest.length := by
      have hlr := congrArg List.length hr
      have hla := List.length_pos_iff.mpr ha
      rw [List.length_drop, List.length_append] at hlr
      omega
    have ht : (rest.take p.extra).length = p.extra := List.length_take_of_le hlt.le
    have hrest : rest = rest.take p.extra ++ before ++ after := by
      rw [List.append_assoc, ← hr, List.take_append_drop]
    refine ⟨c :: (rest.take p.extra ++ before), after, congrArg _ hrest, ha, ?_, ?_⟩
    · simp only [List.length_cons, List.length_append, ht]
      omega
    · rw [hrest] at hp
      have hb : (rest.take p.extra ++ before).drop p.extra = before := List.drop_left' ht
      rw [← hb] at hl
      exact ⟨_, tokensFrom_cons_ok (piece_of_append hp (by simp [ht])) hl⟩
  case case4 => cases h

namespace Expr

-- The tokens in front of the one that is blamed may begin an expression, and with it they may not.
theorem parse_error_first_offence (source : Text) :
    (∀ (lexemes : List (Lexeme α)) e, Lexer.tokens source = .ok lexemes →
      (parse source : Except ParseError (Expr α)) = .error e →
      (∃ before token after, lexemes = before ++ ⟨token, e.position⟩ :: after ∧
        Parser.Viable (before.map (·.token)) ∧ ¬Parser.Viable (before.map (·.token) ++ [token])) ∨
      (e.position = source.length ∧ Parser.Viable (lexemes.map (·.token)) ∧
        ¬Parser.Accepts (lexemes.map (·.token)))) ∧
    (∀ e, (Lexer.tokens source : Except ParseError (List (Lexeme α))) = .error e →
      (parse source : Except ParseError (Expr α)) = .error e ∧ e.position < source.length ∧
      ∃ lexemes : List (Lexeme α), Lexer.tokens (source.take e.position) = .ok lexemes) := by
  refine ⟨fun lexemes e hl he => ?tokens, fun e he => ?text⟩
  case tokens =>
    rw [parse, hl] at he
    simp only [Parser.viable_iff, Parser.accepts_iff, not_exists]
    exact Parser.run_error he
  case text =>
    obtain ⟨before, after, rfl, ha, hp, lexemes, hl⟩ := Lexer.tokensFrom_error he
    have hpos := List.length_pos_iff.mpr ha
    rw [Nat.zero_add] at hp
    refine ⟨by rw [parse, he], ?_, lexemes, ?_⟩
    · rw [List.length_append]
      omega
    · rw [hp, List.take_left]
      exact hl

-- A table in which a key is met twice, and a text that is never closed.
def twice : Text := "\x7b\"a\"=\"b\";\"a\""

def unclosed : Text := "(\"b"

def twiceLexemes : List (Lexeme Float) := [
  ⟨.mark .openBrace, 0⟩, ⟨.text "a", 1⟩, ⟨.mark .equals, 4⟩, ⟨.text "b", 5⟩, ⟨.mark .semicolon, 8⟩,
  ⟨.text "a", 9⟩]

theorem twice_tokens : Lexer.tokens twice = .ok twiceLexemes := by
  refine Lexer.tokensFrom_cons_ok (p := ⟨some (.mark .openBrace), 0⟩) rfl ?_
  refine Lexer.tokensFrom_cons_ok (p := ⟨some (.text "a"), 2⟩) rfl ?_
  refine Lexer.tokensFrom_cons_ok (p := ⟨some (.mark .equals), 0⟩) rfl ?_
  refine Lexer.tokensFrom_cons_ok (p := ⟨some (.text "b"), 2⟩) rfl ?_
  refine Lexer.tokensFrom_cons_ok (p := ⟨some (.mark .semicolon), 0⟩) rfl ?_
  exact Lexer.tokensFrom_cons_ok (p := ⟨some (.text "a"), 2⟩) rfl (Lexer.tokensFrom_nil 12)

theorem twice_parse :
    (parse twice : Except ParseError (Expr Float)) = .error ⟨.duplicateKey "a", 9⟩ := by
  rw [parse, twice_tokens]
  rfl

theorem unclosed_tokens : (Lexer.tokens unclosed : Except ParseError (List (Lexeme Float))) =
    .error ⟨.unterminatedText, 1⟩ := by
  have hp : Lexer.piece (unit '"') [unit 'b'] = (.error .unterminatedText : Except _ (Lexer.Piece Float)) := rfl
  exact (Lexer.tokensFrom_cons (Lexer.piece_mark .openParen _) 0).trans
    (congrArg _ (Lexer.tokensFrom_cons_error hp 1))

theorem parse_error_twice_unclosed :
    (∃ before token after, twiceLexemes = before ++ ⟨token, 9⟩ :: after ∧
      Parser.Viable (before.map (·.token)) ∧ ¬Parser.Viable (before.map (·.token) ++ [token])) ∧
    (parse unclosed : Except ParseError (Expr Float)) = .error ⟨.unterminatedText, 1⟩ ∧
    ∃ lexemes : List (Lexeme Float), Lexer.tokens (unclosed.take 1) = .ok lexemes := by
  have ⟨ht, _⟩ := parse_error_first_offence (α := Float) twice
  have ⟨_, hu⟩ := parse_error_first_offence (α := Float) unclosed
  have ⟨hp, _, hl⟩ := hu _ unclosed_tokens
  refine ⟨(ht _ _ twice_tokens twice_parse).resolve_right fun h => ?_, hp, hl⟩
  exact absurd h.left (by decide)

end Expr
end SceneMotion
