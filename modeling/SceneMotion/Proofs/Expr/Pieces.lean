import SceneMotion.Proofs.Expr.Spelling

namespace SceneMotion

namespace Lexer

-- The pieces that a text may begin with. No two of the rules apply to the same text.
inductive IsPiece {α : Type} [Scalar α] : UInt16 → Text → Piece α → Prop
  | blank  : Unit16.isBlank c → IsPiece c rest ⟨none, 0⟩
  | line   : rest.head? = some (unit '/') → IsPiece (unit '/') rest ⟨none, lineLength rest⟩
  | block  : blockLength? rest = some n → IsPiece (unit '/') (unit '*' :: rest) ⟨none, 1 + n⟩
  | quote  : quoted? rest = some (s, n) → IsPiece (unit '"') rest ⟨some (.text s), n⟩
  | number : Numeral.scan? (c :: rest) = some numeral →
    IsPiece c rest ⟨some (.number numeral.value), numeral.length - 1⟩
  | name   : Unit16.isNameStart c →
    IsPiece c rest ⟨some (.name ((c :: rest).take (nameLength (c :: rest)))), nameLength (c :: rest) - 1⟩
  | mark   : IsPiece (Mark.toUnit m) rest ⟨some (.mark m), 0⟩

-- The token of a piece, if it has one, where the piece stands.
def Piece.found {α : Type} (p : Piece α) (position : Nat) : List (Lexeme α) :=
  (p.token?.map (Lexeme.mk · position)).toList

-- The text is cut into pieces from the left, and these are the tokens among them.
inductive Cut {α : Type} [Scalar α] : Nat → Text → List (Lexeme α) → Prop
  | nil  : Cut position [] []
  | cons : piece c rest = .ok p → Cut (position + 1 + p.extra) (rest.drop p.extra) lexemes →
    Cut position (c :: rest) (p.found position ++ lexemes)

theorem Piece.position_of_mem_found {α : Type} {p : Piece α} {t : Lexeme α} {position : Nat}
    (h : t ∈ p.found position) : t.position = position := by
  simp only [found, Option.mem_toList, Option.map_eq_some_iff] at h
  obtain ⟨_, _, rfl⟩ := h
  rfl

variable {α : Type} [Scalar α] {c : UInt16} {rest : Text} {p : Piece α}

theorem head_of_scan {numeral : Numeral} (h : Numeral.scan? (c :: rest) = some numeral) :
    Unit16.isDigit c ∨ c = unit '-' ∨ c = unit '.' := by
  by_contra hc
  simp only [not_or, Bool.not_eq_true] at hc
  rw [scan_eq_none hc.left hc.right.left hc.right.right] at h
  cases h

theorem piece_of_scan {numeral : Numeral} (h : Numeral.scan? (c :: rest) = some numeral) :
    piece c rest = .ok (⟨some (.number numeral.value), numeral.length - 1⟩ : Piece α) := by
  suffices hc : Unit16.isBlank c = false ∧ c ≠ unit '/' ∧ c ≠ unit '"' from
    piece_number hc.left hc.right.left hc.right.right h
  rcases head_of_scan h with hd | rfl | rfl
  · have ⟨hb, hs, hq, _⟩ := Unit16.plain_of_isNamePart (Unit16.isNamePart_of_isDigit hd)
    exact ⟨hb, hs, hq⟩
  · decide
  · decide

theorem piece_of_isNameStart (hc : Unit16.isNameStart c) : piece c rest =
    .ok (⟨some (.name ((c :: rest).take (nameLength (c :: rest)))), nameLength (c :: rest) - 1⟩ : Piece α) := by
  have ⟨hb, hs, hq, hm, _, hp, _⟩ := Unit16.plain_of_isNamePart (Unit16.isNamePart_of_isNameStart hc)
  have hd := Unit16.isDigit_eq_false_of_isNameStart hc
  rw [piece, if_neg (by simp [hb]), if_neg (fun h => hs h.left), if_neg (fun h => hs h.left),
    if_neg hq, scan_eq_none hd hm hp]
  simp [hc]

theorem toUnit_of_ofUnit {m : Mark} (h : Mark.ofUnit? c = some m) : m.toUnit = c := by
  simpa using List.find?_some h

theorem piece_eq_ok_iff : piece c rest = .ok p ↔ IsPiece c rest p := by
  constructor
  case mp =>
    intro h
    rw [piece] at h
    split at h
    case isTrue hb =>
      cases h
      exact .blank hb
    split at h
    case isTrue hs =>
      cases h
      exact hs.left ▸ .line hs.right
    split at h
    case isTrue hs =>
      obtain ⟨rest, rfl⟩ := List.head?_eq_some_iff.mp hs.right
      split at h <;> cases h
      case h_1 hn => exact hs.left ▸ .block hn
    split at h
    case isTrue hq =>
      split at h <;> cases h
      case h_1 hn => exact hq ▸ .quote hn
    split at h
    case h_1 hn =>
      cases h
      exact .number hn
    split at h
    case isTrue hc =>
      cases h
      exact .name hc
    split at h <;> cases h
    case h_1 m hm => exact toUnit_of_ofUnit hm ▸ .mark
  case mpr =>
    intro h
    cases h
    case blank hb  => exact if_pos hb
    case line hs   => rw [piece, if_neg (by decide), if_pos ⟨rfl, hs⟩]
    case block hn  =>
      have hs : some (unit '*') ≠ some (unit '/') := by decide
      rw [piece, if_neg (by decide), if_neg (fun h => hs h.right), if_pos ⟨rfl, rfl⟩, List.tail_cons, hn]
    case quote hn  =>
      have hs : unit '"' ≠ unit '/' := by decide
      rw [piece, if_neg (by decide), if_neg (fun h => hs h.left), if_neg (fun h => hs h.left),
        if_pos rfl, hn]
    case number hn => exact piece_of_scan hn
    case name hc   => exact piece_of_isNameStart hc
    case mark      => exact piece_mark _ _

end Lexer

-- It begins with a blank or with a comment, if with anything.
def Detached (more : Text) : Prop :=
  ∀ u ∈ more.head?, Unit16.isBlank u ∨ u = unit '/'

theorem detached_nil : Detached [] :=
  nofun

section

variable {more a b : Text} {p : UInt16 → Bool}

theorem Detached.apart (h : Detached more) : Apart more := by
  intro u hu
  rcases h u hu with hb | rfl
  case inl =>
    refine ⟨Bool.eq_false_iff.mpr fun hp => ?_, ?_, ?_⟩
    · simp [Unit16.plain_of_isNamePart hp] at hb
    all_goals
      rintro rfl
      exact absurd hb (by decide)
  case inr => decide

theorem Detached.not_sign (h : Detached more) : ∀ u ∈ more.head?, Numeral.isSign u = false := by
  intro u hu
  rcases h u hu with hb | rfl
  case inl =>
    refine Bool.eq_false_iff.mpr fun hs => ?_
    simp only [Numeral.isSign, decide_eq_true_iff] at hs
    rcases hs with rfl | rfl <;> exact absurd hb (by decide)
  case inr => decide

-- They end before the cut or with it.
theorem takeWhile_append_of_length_le (h : ((a ++ b).takeWhile p).length ≤ a.length) :
    (a ++ b).takeWhile p = a.takeWhile p ∧ (a ++ b).dropWhile p = a.dropWhile p ++ b := by
  induction a
  case nil =>
    have hb : b.takeWhile p = [] := List.length_eq_zero_iff.mp (Nat.le_zero.mp h)
    exact ⟨hb, by simpa [hb] using b.takeWhile_append_dropWhile (p := p)⟩
  case cons u a hi =>
    cases hu : p u
    case false => simp [hu]
    case true =>
      have hl : ((a ++ b).takeWhile p).length ≤ a.length := by simpa [hu] using h
      simp [hu, hi hl]

theorem takeWhile_append_of_head (h : ∀ u ∈ b.head?, p u = false) :
    (a ++ b).takeWhile p = a.takeWhile p ∧ (a ++ b).dropWhile p = a.dropWhile p ++ b := by
  refine takeWhile_append_of_length_le ?_
  induction a
  case nil =>
    cases b
    case nil       => exact Nat.le_refl _
    case cons u us => simp [h u rfl]
  case cons u a hi =>
    cases hu : p u
    case false => simp [hu]
    case true  => simpa [hu] using hi

end

namespace Numeral

variable {a b more s : Text} {n : Nat} {whole fraction : Text} {x : Int}

theorem scanDigits_of_point {rest : Text} (hd : s.dropWhile Unit16.isDigit = unit '.' :: rest) :
    scanDigits s =
      if s.takeWhile Unit16.isDigit = [] ∧ rest.takeWhile Unit16.isDigit = [] then none
      else some (s.takeWhile Unit16.isDigit, rest.takeWhile Unit16.isDigit,
        (s.takeWhile Unit16.isDigit).length + 1 + (rest.takeWhile Unit16.isDigit).length) := by
  simp [scanDigits, hd]

theorem scanDigits_of_no_point (hd : (s.dropWhile Unit16.isDigit).head? ≠ some (unit '.')) :
    scanDigits s =
      if s.takeWhile Unit16.isDigit = [] then none
      else some (s.takeWhile Unit16.isDigit, [], (s.takeWhile Unit16.isDigit).length) := by
  rw [scanDigits]
  split
  case h_1   => rfl
  case h_2 h => rw [if_neg fun hc => hd (by rw [h, hc]; rfl)]

-- Either way the whole part has been found, and there is at least one unit.
theorem scanDigits_bounds (h : scanDigits s = some (whole, fraction, n)) :
    (s.takeWhile Unit16.isDigit).length ≤ n ∧ 0 < n := by
  by_cases hd : (s.dropWhile Unit16.isDigit).head? = some (unit '.')
  case pos =>
    obtain ⟨rest, hd⟩ := List.head?_eq_some_iff.mp hd
    rw [scanDigits_of_point hd] at h
    split at h <;> cases h
    omega
  case neg =>
    rw [scanDigits_of_no_point hd] at h
    split at h <;> cases h
    case isFalse hw => exact ⟨Nat.le_refl _, List.length_pos_iff.mpr hw⟩

theorem scanDigits_append (h : scanDigits (a ++ b) = some (whole, fraction, n)) (hn : n ≤ a.length)
    (hm : Detached more) : scanDigits (a ++ more) = some (whole, fraction, n) := by
  have ⟨hw, hdrop⟩ := takeWhile_append_of_length_le ((scanDigits_bounds h).left.trans hn)
  have ⟨hw', hdrop'⟩ := takeWhile_append_of_head (a := a) hm.apart.not_digit
  have hl := congrArg List.length (a.takeWhile_append_dropWhile (p := Unit16.isDigit))
  rw [List.length_append] at hl
  cases hd : a.dropWhile Unit16.isDigit
  case nil =>
    -- The numeral ends with the text in front of the cut.
    rw [hd] at hl hdrop hdrop'
    have hp' : more.head? ≠ some (unit '.') := fun hp => (hm.apart _ hp).right.right rfl
    rw [scanDigits_of_no_point (by rwa [hdrop']), hw']
    by_cases hp : b.head? = some (unit '.')
    case pos =>
      obtain ⟨rest, rfl⟩ := List.head?_eq_some_iff.mp hp
      rw [scanDigits_of_point hdrop, hw] at h
      split at h <;> cases h
      simp at hl
      omega
    case neg => rwa [scanDigits_of_no_point (by rwa [hdrop]), hw] at h
  case cons u rest =>
    rw [hd] at hl
    rw [hd, List.cons_append] at hdrop hdrop'
    by_cases hu : u = unit '.'
    case pos =>
      subst hu
      have ⟨hf', _⟩ := takeWhile_append_of_head (a := rest) hm.apart.not_digit
      rw [scanDigits_of_point hdrop, hw] at h
      rw [scanDigits_of_point hdrop', hw', hf']
      have hf : (rest ++ b).takeWhile Unit16.isDigit = rest.takeWhile Unit16.isDigit := by
        split at h <;> cases h
        refine (takeWhile_append_of_length_le ?_).left
        simp at hl
        omega
      rwa [hf] at h
    case neg =>
      rw [scanDigits_of_no_point (by simpa [hdrop] using hu), hw] at h
      rwa [scanDigits_of_no_point (by simpa [hdrop'] using hu), hw']

-- At most one unit is a sign, and it is the first one.
theorem sign_append {p : UInt16 → Bool} (ha : a ≠ []) (b : Text) :
    ((a ++ b).takeWhile p).take 1 = (a.takeWhile p).take 1 := by
  obtain ⟨u, us, rfl⟩ := List.exists_cons_of_ne_nil ha
  cases hu : p u <;> simp [hu]

theorem sign_length_le {p : UInt16 → Bool} : ((a.takeWhile p).take 1).length ≤ a.length := by
  rw [List.length_take]
  have := (a.takeWhile_prefix p).length_le
  omega

theorem scanExponent_length (h : scanExponent s = (x, n)) : n = 0 ∧ x = 0 ∨ 2 ≤ n := by
  cases s
  case nil =>
    cases h
    exact .inl ⟨rfl, rfl⟩
  case cons c s =>
    rw [scanExponent] at h
    split at h
    case isFalse =>
      cases h
      exact .inl ⟨rfl, rfl⟩
    case isTrue =>
      dsimp only at h
      split at h <;> cases h
      case isTrue => exact .inl ⟨rfl, rfl⟩
      case isFalse hd =>
        have := List.length_pos_iff.mpr hd
        omega

theorem scanExponent_append (hn : (scanExponent (a ++ b)).2 ≤ a.length) (hm : Detached more) :
    scanExponent (a ++ more) = scanExponent (a ++ b) := by
  rcases h : scanExponent (a ++ b) with ⟨x, n⟩
  rw [h] at hn
  have hl := scanExponent_length h
  rcases a with _ | ⟨c, _ | ⟨u, a⟩⟩
  case nil =>
    simp only [List.length_nil] at hn
    obtain ⟨rfl, rfl⟩ := hl.resolve_right (by omega)
    exact scanExponent_of_apart hm.apart
  case cons.nil =>
    -- There is no room for a digit.
    simp only [List.length_cons, List.length_nil] at hn
    obtain ⟨rfl, rfl⟩ := hl.resolve_right (by omega)
    have hs : more.takeWhile isSign = [] := by
      simpa using (takeWhile_append_of_head (a := []) hm.not_sign).left
    have hd : more.takeWhile Unit16.isDigit = [] := by
      simpa using (takeWhile_append_of_head (a := []) hm.apart.not_digit).left
    rw [List.singleton_append, scanExponent]
    split <;> simp [hs, hd]
  case cons.cons =>
    rw [List.cons_append, scanExponent] at h ⊢
    split at h
    case isFalse hc => rwa [if_neg hc]
    case isTrue hc =>
      rw [if_pos hc]
      have hsign := sign_append (p := isSign) (List.cons_ne_nil u a)
      have hle := sign_length_le (p := isSign) (a := u :: a)
      simp only [hsign, List.drop_append_of_le_length hle] at h ⊢
      generalize ((u :: a).takeWhile isSign).take 1 = sign at h hle ⊢
      have hd : (((u :: a).drop sign.length ++ b).takeWhile Unit16.isDigit).length ≤
          ((u :: a).drop sign.length).length := by
        split at h <;> cases h
        case isTrue hd => simp [hd]
        case isFalse =>
          rw [List.length_drop]
          simp only [List.length_cons] at hn hle ⊢
          omega
      rw [(takeWhile_append_of_length_le hd).left] at h
      rwa [(takeWhile_append_of_head hm.apart.not_digit).left]

theorem scan_length_pos {numeral : Numeral} (h : scan? s = some numeral) : 0 < numeral.length := by
  simp only [scan?, Option.map_eq_some_iff] at h
  obtain ⟨⟨_, _, _⟩, hd, rfl⟩ := h
  have := (scanDigits_bounds hd).right
  dsimp only
  omega

theorem scan_append {numeral : Numeral} (h : scan? (a ++ b) = some numeral)
    (hn : numeral.length ≤ a.length) (hm : Detached more) : scan? (a ++ more) = some numeral := by
  have hpos := scan_length_pos h
  have ha : a ≠ [] := List.length_pos_iff.mp (by omega)
  have hsign := sign_append (p := isMinus) ha
  have hle := sign_length_le (p := isMinus) (a := a)
  simp only [scan?, hsign, List.drop_append_of_le_length hle, Option.map_eq_some_iff] at h ⊢
  obtain ⟨⟨whole, fraction, n⟩, hd, rfl⟩ := h
  generalize ((a.takeWhile isMinus).take 1) = sign at hd hle hn ⊢
  dsimp only at hn
  have hl : n ≤ (a.drop sign.length).length := by
    rw [List.length_drop]
    omega
  refine ⟨_, scanDigits_append hd hl hm, ?_⟩
  simp only [List.drop_append_of_le_length hl] at hn ⊢
  have he : (scanExponent ((a.drop sign.length).drop n ++ b)).2 ≤ ((a.drop sign.length).drop n).length := by
    simp only [List.length_drop]
    omega
  rw [scanExponent_append he hm]

end Numeral

namespace Lexer

variable {a b more s : Text} {n : Nat} {c : UInt16} {rest : Text}

theorem nameLength_of_qualified
    (hd : s.dropWhile Unit16.isNamePart = unit ':' :: unit ':' :: c :: rest) (hc : Unit16.isNameStart c) :
    nameLength s = (s.takeWhile Unit16.isNamePart).length + 2 + nameLength (c :: rest) := by
  rw [nameLength]
  split
  case h_1 h =>
    cases hd.symm.trans h
    rw [if_pos ⟨rfl, rfl, hc⟩]
  case h_2 h => exact absurd hd (h _ _ _ _)

theorem nameLength_of_not_qualified
    (hd : ∀ c rest, s.dropWhile Unit16.isNamePart = unit ':' :: unit ':' :: c :: rest →
      Unit16.isNameStart c = false) :
    nameLength s = (s.takeWhile Unit16.isNamePart).length := by
  rw [nameLength]
  split
  case h_2 => rfl
  case h_1 h =>
    rw [if_neg]
    rintro ⟨rfl, rfl, hc⟩
    simp [hd _ _ h] at hc

theorem takeWhile_length_le_nameLength (s : Text) :
    (s.takeWhile Unit16.isNamePart).length ≤ nameLength s := by
  rw [nameLength]
  split
  case h_1 => split <;> omega
  case h_2 => exact Nat.le_refl _

theorem nameLength_pos (hc : Unit16.isNameStart c) (rest : Text) : 0 < nameLength (c :: rest) := by
  have := takeWhile_length_le_nameLength (c :: rest)
  rw [List.takeWhile_cons_of_pos (Unit16.isNamePart_of_isNameStart hc), List.length_cons] at this
  omega

-- The induction is on the identifiers that are joined.
theorem nameLength_append {a b more : Text} (hn : nameLength (a ++ b) ≤ a.length)
    (hm : Detached more) : nameLength (a ++ more) = nameLength (a ++ b) := by
  have ⟨hw, hdrop⟩ := takeWhile_append_of_length_le ((takeWhile_length_le_nameLength _).trans hn)
  have ⟨hw', hdrop'⟩ := takeWhile_append_of_head (a := a) fun u hu => (hm.apart u hu).left
  have hl := congrArg List.length (a.takeWhile_append_dropWhile (p := Unit16.isNamePart))
  rw [List.length_append] at hl
  by_cases hq : ∃ c rest, (a ++ b).dropWhile Unit16.isNamePart = unit ':' :: unit ':' :: c :: rest ∧
    Unit16.isNameStart c
  case pos =>
    obtain ⟨c, rest, hd, hc⟩ := hq
    have hpos := nameLength_pos hc rest
    rw [nameLength_of_qualified hd hc, hw] at hn ⊢
    rw [hdrop] at hd
    -- There is room in front of the cut for the colons and for the unit behind them.
    have hp : [unit ':', unit ':', c] <+: a.dropWhile Unit16.isNamePart ++ b := ⟨rest, hd.symm⟩
    obtain ⟨inner, hr⟩ := List.prefix_of_prefix_length_le hp (List.prefix_append _ b) (by simp; omega)
    rw [← hr] at hd hl hdrop'
    obtain rfl : inner ++ b = rest := by simpa using hd
    have ha : a.length = (a.takeWhile Unit16.isNamePart).length + 2 + (c :: inner).length := by
      simp only [List.length_append, List.length_cons, List.length_nil] at hl ⊢
      omega
    have hi := nameLength_append (a := c :: inner) (b := b) (by rw [List.cons_append]; omega) hm
    rw [nameLength_of_qualified hdrop' hc, hw']
    exact congrArg _ hi
  case neg =>
    have hb : nameLength (a ++ b) = (a.takeWhile Unit16.isNamePart).length := by
      rw [nameLength_of_not_qualified, hw]
      exact fun c rest hd => Bool.eq_false_iff.mpr fun hc => hq ⟨c, rest, hd, hc⟩
    rw [hb, nameLength_of_not_qualified, hw']
    rw [hdrop] at hq
    rw [hdrop']
    intro c rest hd
    refine Bool.eq_false_iff.mpr fun hc => ?_
    rcases hr : a.dropWhile Unit16.isNamePart with _ | ⟨_, _ | ⟨_, _ | ⟨_, inner⟩⟩⟩ <;> rw [hr] at hd hq
    case nil            => exact (hm.apart (unit ':') (by simp at hd; simp [hd])).right.left rfl
    case cons.nil       => exact (hm.apart (unit ':') (by simp at hd; simp [hd])).right.left rfl
    case cons.cons.nil  =>
      have hu := (hm.apart c (by simp at hd; simp [hd])).left
      exact absurd (Unit16.isNamePart_of_isNameStart hc) (by simp [hu])
    case cons.cons.cons =>
      obtain ⟨rfl, rfl, rfl, _⟩ : _ ∧ _ ∧ _ ∧ inner ++ more = rest := by simpa using hd
      exact hq ⟨_, inner ++ b, rfl, hc⟩
termination_by a.length
decreasing_by omega

-- A comment that the text ends with would go on.
theorem lineLength_append (hn : lineLength (a ++ b) ≤ a.length) (hb : b = [] → more = []) :
    lineLength (a ++ more) = lineLength (a ++ b) := by
  induction a
  case nil =>
    cases b
    case nil       => rw [hb rfl]
    case cons u us =>
      rw [List.nil_append, lineLength] at hn
      split at hn <;> simp at hn
  case cons u a hi =>
    simp only [List.cons_append, lineLength] at hn ⊢
    split
    case isTrue => rfl
    case isFalse hu =>
      rw [if_neg hu, List.length_cons] at hn
      rw [hi (by omega)]

theorem two_le_blockLength (h : blockLength? s = some n) : 2 ≤ n := by
  fun_induction blockLength? s generalizing n
  case case1 => cases h
  case case2 => cases h
  case case3 =>
    cases h
    exact Nat.le_refl _
  case case4 hi =>
    obtain ⟨k, hk, rfl⟩ := Option.map_eq_some_iff.mp h
    have := hi hk
    omega

theorem blockLength_append (h : blockLength? (a ++ b) = some n) (hn : n ≤ a.length) (more : Text) :
    blockLength? (a ++ more) = some n := by
  have htwo := two_le_blockLength h
  induction a generalizing n
  case nil => simp at hn; omega
  case cons u a hi =>
    cases a
    case nil => simp at hn; omega
    case cons v a =>
      rw [List.cons_append, List.cons_append, blockLength?] at h ⊢
      split at h
      case isTrue he  => rwa [if_pos he]
      case isFalse he =>
        obtain ⟨k, hk, rfl⟩ := Option.map_eq_some_iff.mp h
        rw [if_neg he]
        exact Option.map_eq_some_iff.mpr
          ⟨k, hi hk (Nat.le_of_succ_le_succ hn) (two_le_blockLength hk), rfl⟩

theorem quoted_quote : quoted? (unit '"' :: rest) = some ([], 1) := by
  cases rest <;> rfl

theorem quoted_escaped :
    quoted? (unit '\\' :: c :: rest) = (quoted? rest).map fun (s, n) => (unescape c :: s, n + 2) :=
  rfl

theorem quoted_plain (hq : c ≠ unit '"') (hb : c ≠ unit '\\') :
    quoted? (c :: rest) = (quoted? rest).map fun (s, n) => (c :: s, n + 1) := by
  cases rest <;> simp [quoted?, hq, hb]

theorem quoted_length_pos {t : Text} (h : quoted? s = some (t, n)) : 0 < n := by
  fun_induction quoted? s generalizing t n
  case case1 => cases h
  case case2 => cases h; exact Nat.one_pos
  case case3 => cases h
  case case4 => cases h; exact Nat.one_pos
  case case5 =>
    obtain ⟨⟨_, k⟩, _, he⟩ := Option.map_eq_some_iff.mp h
    cases he
    exact Nat.succ_pos _
  case case6 =>
    obtain ⟨⟨_, k⟩, _, he⟩ := Option.map_eq_some_iff.mp h
    cases he
    exact Nat.succ_pos _

-- The induction is on the text in front of the cut.
theorem quoted_append {t : Text} (h : quoted? (a ++ b) = some (t, n)) (hn : n ≤ a.length)
    (more : Text) : quoted? (a ++ more) = some (t, n) := by
  have hpos := quoted_length_pos h
  fun_induction quoted? a generalizing t n
  case case1 => simp at hn; omega
  case case2 => exact quoted_quote.trans (quoted_quote.symm.trans h)
  case case3 c hq =>
    -- The closing quote would stand behind the cut.
    by_cases hb : c = unit '\\'
    case pos =>
      cases b
      case nil => simp [quoted?, hq] at h
      case cons =>
        rw [hb, List.singleton_append, quoted_escaped] at h
        obtain ⟨_, _, he⟩ := Option.map_eq_some_iff.mp h
        cases he
        simp at hn
    case neg =>
      rw [List.singleton_append, quoted_plain hq hb] at h
      obtain ⟨_, hk, he⟩ := Option.map_eq_some_iff.mp h
      cases he
      have := quoted_length_pos hk
      simp at hn
      omega
  case case4 => exact quoted_quote.trans (quoted_quote.symm.trans h)
  case case5 hi =>
    rw [List.cons_append, List.cons_append, quoted_escaped] at h ⊢
    obtain ⟨_, hk, he⟩ := Option.map_eq_some_iff.mp h
    cases he
    simp only [List.length_cons] at hn
    rw [hi hk (by omega) (quoted_length_pos hk), Option.map_some]
  case case6 hq hb hi =>
    rw [List.cons_append, quoted_plain hq hb] at h ⊢
    obtain ⟨_, hk, he⟩ := Option.map_eq_some_iff.mp h
    cases he
    rw [hi hk (Nat.le_of_succ_le_succ hn) (quoted_length_pos hk), Option.map_some]

variable {α : Type} [Scalar α] {p : Piece α}

-- A piece stays what it is if the text is cut behind it.
theorem IsPiece.append (h : IsPiece c (a ++ b) p) (hp : p.extra ≤ a.length) (hm : Detached more)
    (hb : b = [] → more = []) : IsPiece c (a ++ more) p := by
  generalize hr : a ++ b = rest at h
  cases h
  case blank hc => exact .blank hc
  case mark     => exact .mark
  case line hs =>
    subst hr
    cases a
    case nil =>
      obtain ⟨_, rfl⟩ := List.head?_eq_some_iff.mp hs
      rw [List.nil_append, lineLength] at hp
      split at hp <;> simp at hp
    case cons u a => exact lineLength_append hp hb ▸ .line hs
  case block hn =>
    cases a
    case nil => simp at hp
    case cons u a =>
      obtain ⟨rfl, rfl⟩ := List.cons.inj hr
      exact .block (blockLength_append hn (by simp at hp; omega) more)
  case quote hn =>
    subst hr
    exact .quote (quoted_append hn hp more)
  case number hn =>
    subst hr
    rw [← List.cons_append] at hn
    exact .number (Numeral.scan_append hn (Nat.le_succ_of_pred_le hp) hm)
  case name hc =>
    subst hr
    have hn : nameLength (c :: a ++ b) ≤ (c :: a).length := Nat.le_succ_of_pred_le hp
    have he := nameLength_append hn hm
    rw [← List.cons_append, List.take_append_of_le_length hn, ← he,
      ← List.take_append_of_le_length (he ▸ hn)]
    exact .name hc

-- In particular the text may end there.
theorem piece_of_append (hp : piece c (a ++ b) = .ok p) (ha : p.extra ≤ a.length) :
    piece c a = .ok p := by
  have h := (piece_eq_ok_iff.mp hp).append ha detached_nil fun _ => rfl
  rw [List.append_nil] at h
  exact piece_eq_ok_iff.mpr h

theorem tokensFrom_nil (position : Nat) :
    tokensFrom position [] = .ok ([] : List (Lexeme α)) := by
  rw [tokensFrom.eq_def]

theorem tokensFrom_cons (hp : piece c rest = .ok p) (position : Nat) :
    tokensFrom position (c :: rest) =
      (tokensFrom (position + 1 + p.extra) (rest.drop p.extra)).map
        ((p.token?.map (Lexeme.mk · position)).toList ++ ·) := by
  rw [tokensFrom.eq_def]
  simp only [hp]
  cases tokensFrom (α := α) (position + 1 + p.extra) (rest.drop p.extra)
  case error => rfl
  case ok    => cases p.token? <;> rfl

theorem tokensFrom_cons_ok {position : Nat} {lexemes : List (Lexeme α)} (hp : piece c rest = .ok p)
    (h : tokensFrom (position + 1 + p.extra) (rest.drop p.extra) = .ok lexemes) :
    tokensFrom position (c :: rest) =
      .ok ((p.token?.map (Lexeme.mk · position)).toList ++ lexemes) := by
  rw [tokensFrom_cons hp, h]
  rfl

theorem tokensFrom_cons_error {f : ParseFault} (hp : piece (α := α) c rest = .error f)
    (position : Nat) : tokensFrom (α := α) position (c :: rest) = .error ⟨f, position⟩ := by
  rw [tokensFrom.eq_def]
  simp only [hp]

theorem Cut.tokensFrom {position : Nat} {s : Text} {lexemes : List (Lexeme α)}
    (h : Cut position s lexemes) : tokensFrom position s = .ok lexemes := by
  induction h
  case nil          => exact tokensFrom_nil _
  case cons hp _ hi => exact tokensFrom_cons_ok hp hi

theorem cut_of_tokensFrom {position : Nat} {s : Text} {lexemes : List (Lexeme α)}
    (h : tokensFrom position s = .ok lexemes) : Cut position s lexemes := by
  fun_induction tokensFrom (α := α) position s generalizing lexemes
  case case1 => cases h; exact .nil
  case case2 => cases h
  case case3 => cases h
  case case4 p hp tokens ht hi =>
    have hc := Cut.cons hp (hi ht)
    cases h
    cases ht : p.token? <;> simpa [Piece.found, ht] using hc

end Lexer

end SceneMotion
