import Mathlib.Data.List.TakeWhile
import SceneMotion.Expr.Lexer

namespace SceneMotion

-- Neither a name nor a numeral can go on with it.
def Apart (rest : Text) : Prop :=
  ∀ u ∈ rest.head?, Unit16.isNamePart u = false ∧ u ≠ unit ':' ∧ u ≠ unit '.'

namespace Unit16

variable {u : UInt16}

theorem isNamePart_of_isDigit (h : isDigit u) : isNamePart u := by
  simp [isNamePart, h]

theorem isNamePart_of_isNameStart (h : isNameStart u) : isNamePart u := by
  simp [isNamePart, h]

-- What a name is made of means nothing else.
theorem plain_of_isNamePart (h : isNamePart u) : isBlank u = false ∧ u ≠ unit '/' ∧ u ≠ unit '"' ∧
    u ≠ unit '-' ∧ u ≠ unit '+' ∧ u ≠ unit '.' ∧ u ≠ unit ':' := by
  have hu : unit '/' = 47 ∧ unit '"' = 34 ∧ unit '-' = 45 ∧ unit '+' = 43 ∧ unit '.' = 46 ∧
    unit ':' = 58 := by decide
  simp only [hu, isNamePart, isNameStart, isDigit, isBlank, Bool.or_eq_true, Bool.and_eq_true,
    decide_eq_true_eq, beq_iff_eq, Bool.or_eq_false_iff, Bool.and_eq_false_iff,
    decide_eq_false_iff_not, beq_eq_false_iff_ne, UInt16.le_iff_toNat_le, ne_eq,
    ← UInt16.toNat_inj] at h ⊢
  simp at h ⊢
  omega

theorem isDigit_eq_false_of_isNameStart (h : isNameStart u) : isDigit u = false := by
  simp only [isNameStart, isDigit, Bool.or_eq_true, Bool.and_eq_true, decide_eq_true_eq, beq_iff_eq,
    Bool.and_eq_false_iff, decide_eq_false_iff_not, UInt16.le_iff_toNat_le, ← UInt16.toNat_inj] at h ⊢
  simp at h ⊢
  omega

end Unit16

section

variable {p : UInt16 → Bool} {s rest : Text}

theorem takeWhile_append_eq (hs : ∀ u ∈ s, p u) (hr : ∀ u ∈ rest.head?, p u = false) :
    (s ++ rest).takeWhile p = s := by
  rw [List.takeWhile_append_of_pos hs]
  cases rest
  case nil       => simp
  case cons u us => simp [hr u rfl]

theorem dropWhile_append_eq (hs : ∀ u ∈ s, p u) (hr : ∀ u ∈ rest.head?, p u = false) :
    (s ++ rest).dropWhile p = rest := by
  rw [List.dropWhile_append_of_pos hs]
  cases rest
  case nil       => simp
  case cons u us => simp [hr u rfl]

theorem Apart.not_digit (h : Apart rest) : ∀ u ∈ rest.head?, Unit16.isDigit u = false := by
  intro u hu
  have hp := (h u hu).left
  simp only [Unit16.isNamePart, Bool.or_eq_false_iff] at hp
  exact hp.right

end

inductive Sign where
  | absent
  | plus
  | minus

def Sign.text : Sign → Text
  | absent => []
  | plus   => [unit '+']
  | minus  => [unit '-']

-- An `e` in either case, a sign or none, and digits.
structure Exponent where
  mark     : UInt16
  sign     : Sign
  digits   : Text
  isMark   : mark = unit 'e' ∨ mark = unit 'E'
  nonempty : digits ≠ []
  decimal  : ∀ u ∈ digits, Unit16.isDigit u

namespace Exponent

def text (e : Exponent) : Text :=
  e.mark :: (e.sign.text ++ e.digits)

def value (e : Exponent) : Int :=
  match e.sign with
  | .minus => -Text.toNat e.digits
  | _      => Text.toNat e.digits

end Exponent

-- A minus or none, digits with at most one point among or before or behind them, and an exponent or
-- none.
structure Spelling where
  negative  : Bool
  whole     : Text
  fraction? : Option Text
  exponent? : Option Exponent
  decimal   : ∀ u ∈ whole ++ fraction?.getD [], Unit16.isDigit u
  nonempty  : whole ++ fraction?.getD [] ≠ []

namespace Spelling

def digitsText (n : Spelling) : Text :=
  match n.fraction? with
  | none          => n.whole
  | some fraction => n.whole ++ unit '.' :: fraction

def exponentText (n : Spelling) : Text :=
  match n.exponent? with
  | none   => []
  | some e => e.text

def signText (n : Spelling) : Text :=
  if n.negative then [unit '-'] else []

def text (n : Spelling) : Text :=
  n.signText ++ (n.digitsText ++ n.exponentText)

def exponent (n : Spelling) : Int :=
  match n.exponent? with
  | none   => 0
  | some e => e.value

def toNumeral (n : Spelling) : Numeral :=
  ⟨n.negative, n.whole, n.fraction?.getD [], n.exponent, n.text.length⟩

end Spelling

section

variable {s rest : Text}

theorem scanExponent_of_apart (h : Apart rest) : Numeral.scanExponent rest = (0, 0) := by
  cases rest
  case nil       => rfl
  case cons u us =>
    have hp := (h u rfl).left
    have he : ¬(u = unit 'e' ∨ u = unit 'E') := by
      rintro (rfl | rfl) <;> exact absurd hp (by decide)
    rw [Numeral.scanExponent, if_neg he]

theorem Sign.scan (sign : Sign) (h : ∀ u ∈ s.head?, Numeral.isSign u = false) :
    ((sign.text ++ s).takeWhile Numeral.isSign).take 1 = sign.text := by
  cases sign
  case absent => rw [text, takeWhile_append_eq (by simp) h, List.take_nil]
  case plus   => rfl
  case minus  => rfl

theorem not_sign_of_isDigit {u : UInt16} (h : Unit16.isDigit u) : Numeral.isSign u = false := by
  have hp := Unit16.plain_of_isNamePart (Unit16.isNamePart_of_isDigit h)
  simp [Numeral.isSign, hp]

theorem Exponent.scan (e : Exponent) (h : Apart rest) :
    Numeral.scanExponent (e.text ++ rest) = (e.value, e.text.length) := by
  have hs : ∀ u ∈ (e.digits ++ rest).head?, Numeral.isSign u = false := by
    obtain ⟨d, ds, hd⟩ := List.exists_cons_of_ne_nil e.nonempty
    rw [hd]
    rintro _ ⟨⟩
    exact not_sign_of_isDigit (e.decimal d (hd ▸ List.mem_cons_self))
  rw [text, List.cons_append, List.append_assoc, Numeral.scanExponent, if_pos e.isMark]
  simp only [e.sign.scan hs, List.drop_left, takeWhile_append_eq e.decimal h.not_digit, e.nonempty, if_false]
  have hu : unit '+' ≠ unit '-' := by decide
  cases hsign : e.sign <;> simp [value, hsign, Sign.text, Numeral.isMinus, hu] <;> omega

theorem Spelling.scanDigits (n : Spelling) (h : ∀ u ∈ rest.head?, Unit16.isDigit u = false)
    (hp : ∀ u ∈ rest.head?, u ≠ unit '.') :
    Numeral.scanDigits (n.digitsText ++ rest) =
      some (n.whole, n.fraction?.getD [], n.digitsText.length) := by
  have hd (s : Text) (hs : ∀ u ∈ s.head?, Unit16.isDigit u = false) :
      (n.whole ++ s).takeWhile Unit16.isDigit = n.whole ∧
      (n.whole ++ s).dropWhile Unit16.isDigit = s :=
    have hw : ∀ u ∈ n.whole, Unit16.isDigit u := fun u hu => n.decimal u (List.mem_append_left _ hu)
    ⟨takeWhile_append_eq hw hs, dropWhile_append_eq hw hs⟩
  cases hf : n.fraction?
  case none =>
    have hne : n.whole ≠ [] := by simpa [hf] using n.nonempty
    simp only [digitsText, hf, Numeral.scanDigits, hd rest h]
    split
    case h_1 => simp [hne]
    case h_2 c us => simp [hp c rfl, hne]
  case some fraction =>
    have hne : ¬(n.whole = [] ∧ fraction = []) := by simpa [hf] using n.nonempty
    have hfd : ∀ u ∈ fraction, Unit16.isDigit u := fun u hu =>
      n.decimal u (List.mem_append_right _ (by simpa [hf] using hu))
    have hs : ∀ u ∈ (unit '.' :: (fraction ++ rest)).head?, Unit16.isDigit u = false := by
      rintro _ ⟨⟩
      decide
    simp only [digitsText, hf, Numeral.scanDigits, List.append_assoc, List.cons_append, hd _ hs]
    simp [takeWhile_append_eq hfd h, hne]
    omega

theorem Spelling.digitsText_eq_cons (n : Spelling) :
    ∃ u us, n.digitsText = u :: us ∧ (Unit16.isDigit u ∨ u = unit '.') := by
  cases hw : n.whole
  case cons d ds =>
    have hd : Unit16.isDigit d := n.decimal d (by simp [hw])
    cases hf : n.fraction? <;> simp only [digitsText, hf, hw] <;> exact ⟨d, _, rfl, .inl hd⟩
  case nil =>
    cases hf : n.fraction?
    case none          => exact absurd (by simp [hw, hf]) n.nonempty
    case some fraction => exact ⟨unit '.', fraction, by simp [digitsText, hf, hw], .inr rfl⟩

theorem Spelling.scan_exponentText (n : Spelling) (h : Apart rest) :
    Numeral.scanExponent (n.exponentText ++ rest) = (n.exponent, n.exponentText.length) := by
  cases he : n.exponent?
  case none   =>
    simp only [exponentText, exponent, he]
    exact scanExponent_of_apart h
  case some e => simpa only [exponentText, exponent, he] using e.scan h

-- An exponent begins with neither a digit nor a point.
theorem Spelling.exponentText_apart (n : Spelling) (h : Apart rest) :
    ∀ u ∈ (n.exponentText ++ rest).head?, Unit16.isDigit u = false ∧ u ≠ unit '.' := by
  cases he : n.exponent?
  case none   =>
    simp only [exponentText, he]
    exact fun u hu => ⟨h.not_digit u hu, (h u hu).right.right⟩
  case some e =>
    simp only [exponentText, he]
    rintro _ ⟨⟩
    rcases e.isMark with hm | hm <;> rw [hm] <;> decide

theorem Spelling.scan_signText (n : Spelling) :
    ((n.signText ++ (n.digitsText ++ rest)).takeWhile Numeral.isMinus).take 1 = n.signText := by
  obtain ⟨u, us, hu, hc⟩ := n.digitsText_eq_cons
  have hm : u ≠ unit '-' := by
    rcases hc with hd | rfl
    · exact (Unit16.plain_of_isNamePart (Unit16.isNamePart_of_isDigit hd)).right.right.right.left
    · decide
  rw [hu, signText]
  cases n.negative
  case false => simp [Numeral.isMinus, hm]
  case true  => rfl

theorem Spelling.scan (n : Spelling) (h : Apart rest) :
    Numeral.scan? (n.text ++ rest) = some n.toNumeral := by
  have he := n.exponentText_apart h
  have hd := n.scanDigits (fun u hu => (he u hu).left) fun u hu => (he u hu).right
  have ht : n.text ++ rest = n.signText ++ (n.digitsText ++ (n.exponentText ++ rest)) := by
    simp only [text, List.append_assoc]
  have hn : n.negative = decide (n.signText ≠ []) := by
    cases hn : n.negative <;> simp [signText, hn]
  rw [ht, Numeral.scan?]
  simp only [n.scan_signText, List.drop_left, hd, Option.map_some, n.scan_exponentText h, toNumeral,
    text, List.length_append, Nat.add_assoc, hn]

end

-- A letter or an underscore, and digits besides these from then on.
def IsIdentifier (s : Text) : Prop :=
  ∃ u us, s = u :: us ∧ Unit16.isNameStart u ∧ ∀ v ∈ us, Unit16.isNamePart v

-- Identifiers joined by `::`.
inductive IsName : Text → Prop
  | plain     : IsIdentifier s → IsName s
  | qualified : IsIdentifier s → IsName t → IsName (s ++ unit ':' :: unit ':' :: t)

section

variable {s t rest : Text}

theorem IsIdentifier.isNamePart (h : IsIdentifier s) : ∀ u ∈ s, Unit16.isNamePart u := by
  obtain ⟨u, us, rfl, hu, hus⟩ := h
  exact List.forall_mem_cons.mpr ⟨Unit16.isNamePart_of_isNameStart hu, hus⟩

theorem IsName.eq_cons (h : IsName s) : ∃ u us, s = u :: us ∧ Unit16.isNameStart u := by
  cases h
  case plain hi       =>
    obtain ⟨u, us, rfl, hu, _⟩ := hi
    exact ⟨u, us, rfl, hu⟩
  case qualified hi _ =>
    obtain ⟨u, us, rfl, hu, _⟩ := hi
    exact ⟨u, _, rfl, hu⟩

theorem IsName.nameLength (h : IsName s) (hr : Apart rest) :
    Lexer.nameLength (s ++ rest) = s.length := by
  induction h
  case plain hi =>
    have hp : ∀ u ∈ rest.head?, Unit16.isNamePart u = false := fun u hu => (hr u hu).left
    rw [Lexer.nameLength, takeWhile_append_eq hi.isNamePart hp]
    split
    case h_2 => rfl
    case h_1 u _ _ us hd =>
      rw [dropWhile_append_eq hi.isNamePart hp] at hd
      have hu : u ≠ unit ':' := (hr u (hd ▸ rfl)).right.left
      rw [if_neg fun h => hu h.left]
  case qualified hi ht hn =>
    obtain ⟨u, us, rfl, hu⟩ := ht.eq_cons
    have hp : ∀ v ∈ (unit ':' :: unit ':' :: (u :: us ++ rest)).head?, Unit16.isNamePart v = false := by
      rintro _ ⟨⟩
      decide
    rw [List.append_assoc, List.cons_append, List.cons_append, Lexer.nameLength,
      takeWhile_append_eq hi.isNamePart hp]
    split
    case h_1 hd =>
      rw [dropWhile_append_eq hi.isNamePart hp] at hd
      cases hd
      rw [if_pos ⟨rfl, rfl, hu⟩]
      change _ + 2 + Lexer.nameLength (u :: us ++ rest) = _
      rw [hn]
      simp only [List.length_append, List.length_cons]
      omega
    case h_2 hd => exact absurd (dropWhile_append_eq hi.isNamePart hp) (hd _ _ _ _)

-- A quote or a backslash is put behind a backslash.
def escape (s : Text) : Text :=
  s.flatMap fun u => if u = unit '"' ∨ u = unit '\\' then [unit '\\', u] else [u]

def quote (s : Text) : Text :=
  unit '"' :: (escape s ++ [unit '"'])

theorem quoted_escape (s rest : Text) :
    Lexer.quoted? (escape s ++ unit '"' :: rest) = some (s, (escape s).length + 1) := by
  induction s
  case nil => cases rest <;> rfl
  case cons u us hi =>
    by_cases hu : u = unit '"' ∨ u = unit '\\'
    case pos =>
      have he : escape (u :: us) = unit '\\' :: u :: escape us := by simp [escape, hu]
      rw [he, List.cons_append, List.cons_append, Lexer.quoted?, if_neg (by decide), if_pos rfl, hi]
      have hv : Lexer.unescape u = u := by rcases hu with rfl | rfl <;> decide
      simp [hv]
    case neg =>
      have he : escape (u :: us) = u :: escape us := by simp [escape, hu]
      rw [not_or] at hu
      have hne : escape us ++ unit '"' :: rest ≠ [] := by simp
      obtain ⟨v, vs, hv⟩ := List.exists_cons_of_ne_nil hne
      rw [he, List.cons_append]
      rw [hv] at hi ⊢
      rw [Lexer.quoted?, if_neg hu.left, if_neg hu.right, hi]
      rfl

end

section

variable {α : Type} [Scalar α] {u : UInt16} {us rest : Text}

theorem scan_eq_none (hd : Unit16.isDigit u = false) (hm : u ≠ unit '-') (hp : u ≠ unit '.') :
    Numeral.scan? (u :: us) = none := by
  have hs : ((u :: us).takeWhile Numeral.isMinus).take 1 = [] := by simp [Numeral.isMinus, hm]
  simp [Numeral.scan?, hs, Numeral.scanDigits, hd, hp]

theorem Lexer.piece_blank (rest : Text) :
    Lexer.piece (unit ' ') rest = .ok (⟨none, 0⟩ : Lexer.Piece α) :=
  if_pos rfl

theorem Lexer.piece_quote (s rest : Text) :
    Lexer.piece (unit '"') (escape s ++ unit '"' :: rest) =
      .ok (⟨some (.text s), (escape s).length + 1⟩ : Lexer.Piece α) := by
  have hb : ¬Unit16.isBlank (unit '"') := by decide
  have hs : unit '"' ≠ unit '/' := by decide
  rw [Lexer.piece, if_neg hb, if_neg (fun h => hs h.left), if_neg (fun h => hs h.left), if_pos rfl,
    quoted_escape]

theorem Lexer.piece_number {n : Numeral} (hb : Unit16.isBlank u = false) (hs : u ≠ unit '/')
    (hq : u ≠ unit '"') (hn : Numeral.scan? (u :: rest) = some n) :
    Lexer.piece u rest = .ok (⟨some (.number n.value), n.length - 1⟩ : Lexer.Piece α) := by
  rw [Lexer.piece, if_neg (by simp [hb]), if_neg (fun h => hs h.left), if_neg (fun h => hs h.left),
    if_neg hq, hn]

theorem Lexer.piece_mark (m : Mark) (rest : Text) :
    Lexer.piece m.toUnit rest = .ok (⟨some (.mark m), 0⟩ : Lexer.Piece α) := by
  have hs : m.toUnit ≠ unit '/' := by cases m <;> decide
  have hn : Numeral.scan? (m.toUnit :: rest) = none := by
    cases m <;> exact scan_eq_none (by decide) (by decide) (by decide)
  rw [Lexer.piece, if_neg (by cases m <;> decide), if_neg (fun h => hs h.left),
    if_neg (fun h => hs h.left), if_neg (by cases m <;> decide), hn]
  cases m <;> rfl

theorem Spelling.eq_cons (n : Spelling) : ∃ u us, n.text = u :: us ∧ Unit16.isBlank u = false ∧
    u ≠ unit '/' ∧ u ≠ unit '"' := by
  cases hn : n.negative
  case true  => exact ⟨unit '-', _, by rw [text, signText, if_pos hn]; rfl, by decide⟩
  case false =>
    obtain ⟨u, us, hu, hc⟩ := n.digitsText_eq_cons
    refine ⟨u, us ++ n.exponentText, by simp [text, signText, hn, hu], ?_⟩
    rcases hc with hd | rfl
    · have hp := Unit16.plain_of_isNamePart (Unit16.isNamePart_of_isDigit hd)
      exact ⟨hp.left, hp.right.left, hp.right.right.left⟩
    · decide

theorem IsName.piece (hn : IsName (u :: us)) (h : Apart rest) :
    Lexer.piece u (us ++ rest) = .ok (⟨some (.name (u :: us)), us.length⟩ : Lexer.Piece α) := by
  obtain ⟨_, _, ⟨rfl, rfl⟩, hu⟩ := hn.eq_cons
  have ⟨hb, hs, hq, hm, _, hp, _⟩ := Unit16.plain_of_isNamePart (Unit16.isNamePart_of_isNameStart hu)
  have hd := Unit16.isDigit_eq_false_of_isNameStart hu
  have hl := hn.nameLength h
  rw [List.cons_append] at hl
  rw [Lexer.piece, if_neg (by simp [hb]), if_neg (fun h => hs h.left), if_neg (fun h => hs h.left),
    if_neg hq, scan_eq_none hd hm hp]
  simp [hu, hl]

end

section

variable {α : Type} [Scalar α] {u : UInt16} {us rest s : Text} {t : Token α} {ts : List (Token α)}

-- The text is split into these tokens, wherever it begins.
def Splits (s : Text) (ts : List (Token α)) : Prop :=
  ∀ position, ∃ lexemes, Lexer.tokensFrom position s = .ok lexemes ∧ lexemes.map (·.token) = ts

namespace Splits

theorem nil : Splits [] ([] : List (Token α)) :=
  fun _ => ⟨[], by rw [Lexer.tokensFrom.eq_def], rfl⟩

theorem skip {n : Nat} (hp : Lexer.piece u us = .ok (⟨none, n⟩ : Lexer.Piece α))
    (h : Splits (us.drop n) ts) : Splits (u :: us) ts := by
  intro position
  have ⟨lexemes, hl, ht⟩ := h (position + 1 + n)
  refine ⟨lexemes, ?_, ht⟩
  rw [Lexer.tokensFrom.eq_def]
  simp only [hp, hl]

theorem token {n : Nat} (hp : Lexer.piece u us = .ok ⟨some t, n⟩) (h : Splits (us.drop n) ts) :
    Splits (u :: us) (t :: ts) := by
  intro position
  have ⟨lexemes, hl, ht⟩ := h (position + 1 + n)
  refine ⟨⟨t, position⟩ :: lexemes, ?_, by rw [List.map_cons, ht]⟩
  rw [Lexer.tokensFrom.eq_def]
  simp only [hp, hl]

theorem blank (h : Splits rest ts) : Splits (unit ' ' :: rest) ts :=
  skip (Lexer.piece_blank rest) h

theorem mark (m : Mark) (h : Splits rest ts) : Splits (m.toUnit :: rest) (.mark m :: ts) :=
  token (Lexer.piece_mark m rest) h

theorem quote (s : Text) (h : Splits rest ts) : Splits (quote s ++ rest) (.text s :: ts) := by
  rw [SceneMotion.quote, List.cons_append, List.append_assoc, List.singleton_append]
  refine token (Lexer.piece_quote s rest) ?_
  rwa [List.append_cons, List.drop_left' (by simp)]

theorem number (n : Spelling) (hr : Apart rest) (h : Splits rest ts) :
    Splits (n.text ++ rest) (.number n.toNumeral.value :: ts) := by
  obtain ⟨u, us, hn, hb, hs, hq⟩ := n.eq_cons
  have hscan := n.scan hr
  have hl : n.toNumeral.length - 1 = us.length := by simp [Spelling.toNumeral, hn]
  rw [hn, List.cons_append] at hscan ⊢
  refine token (Lexer.piece_number hb hs hq hscan) ?_
  rwa [hl, List.drop_left]

theorem name (hn : IsName s) (hr : Apart rest) (h : Splits rest ts) :
    Splits (s ++ rest) (.name s :: ts) := by
  obtain ⟨u, us, rfl, _⟩ := hn.eq_cons
  rw [List.cons_append]
  refine token (hn.piece hr) ?_
  rwa [List.drop_left]

end Splits

theorem apart_nil : Apart [] :=
  nofun

theorem apart_mark (m : Mark) (rest : Text) : Apart (m.toUnit :: rest) := by
  rintro _ ⟨⟩
  cases m <;> decide

theorem apart_blank (rest : Text) : Apart (unit ' ' :: rest) := by
  rintro _ ⟨⟩
  decide

end

end SceneMotion
