import SceneMotion.Double
import SceneMotion.Proofs.Expr.Grammar
import SceneMotion.Proofs.Expr.Spelling

namespace SceneMotion

open Grammar

-- A name that can stand in front of a table or the arguments of a tuple.
structure Tag where
  name    : Text
  isName  : IsName name
  isPlain : IsPlain name

-- An expression that is to be written. Its numbers are given by numerals.
inductive Source where
  | flag (value : Bool)
  | text (value : Text)
  | number (value : Spelling)
  | list (items : List Source)
  | tuple (tag : Tag) (args : List Source)
  | table (tag? : Option Tag) (fields : List (Text × Source))

namespace Source

variable {α : Type}

mutual

-- The keys of every table are distinct, and none of them is reserved.
def Legal : Source → Prop
  | flag _ | text _ | number _ => True
  | list items        => ListLegal items
  | tuple _ args      => ListLegal args
  | table _ fields    =>
    (fields.map (·.1)).Nodup ∧ Parser.State.reserved ∉ fields.map (·.1) ∧ FieldsLegal fields

def ListLegal : List Source → Prop
  | []        => True
  | e :: rest => Legal e ∧ ListLegal rest

def FieldsLegal : List (Text × Source) → Prop
  | []             => True
  | (_, e) :: rest => Legal e ∧ FieldsLegal rest

end

def flagName (b : Bool) : Text :=
  if b then "true" else "false"

-- What stands behind the last field of a table.
def closing (closed : Bool) : Text :=
  if closed then [unit ';', unit ' '] else [unit ' ']

def closingTokens (closed : Bool) : List (Token α) :=
  if closed then [.mark .semicolon] else []

-- A tag is set apart from the brace.
def tagText : Option Tag → Text
  | none     => []
  | some tag => tag.name ++ [unit ' ']

mutual

-- The expression as text. A semicolon may stand behind the last field of a table as well, or only
-- between two of them.
def write (closed : Bool) : Source → Text
  | flag b            => flagName b
  | text s            => quote s
  | number n          => n.text
  | list items        => unit '[' :: (writeList closed items ++ [unit ']'])
  | tuple tag args    => tag.name ++ unit '(' :: (writeList closed args ++ [unit ')'])
  | table tag? fields =>
    tagText tag? ++ unit '{' :: unit ' ' :: (writeFields closed fields ++ [unit '}'])

def writeList (closed : Bool) : List Source → Text
  | []              => []
  | [e]             => write closed e
  | e :: e' :: rest => write closed e ++ unit ',' :: unit ' ' :: writeList closed (e' :: rest)

def writeFields (closed : Bool) : List (Text × Source) → Text
  | []         => []
  | [(key, e)] =>
    quote key ++ unit ' ' :: unit '=' :: unit ' ' :: (write closed e ++ closing closed)
  | (key, e) :: field :: rest =>
    quote key ++ unit ' ' :: unit '=' :: unit ' ' :: (write closed e ++
      unit ';' :: unit ' ' :: writeFields closed (field :: rest))

end

variable [Scalar α]

mutual

-- The expression that is meant.
def toExpr : Source → Expr α
  | flag b            => .flag b
  | text s            => .text s
  | number n          => .number n.toNumeral.value
  | list items        => .list (listToExpr items)
  | tuple tag args    => .tuple tag.name (listToExpr args)
  | table tag? fields => .table (tag?.map (·.name)) (Fields.ofList (fieldsToExpr fields))

def listToExpr : List Source → List (Expr α)
  | []        => []
  | e :: rest => toExpr e :: listToExpr rest

def fieldsToExpr : List (Text × Source) → List (Text × Expr α)
  | []               => []
  | (key, e) :: rest => (key, toExpr e) :: fieldsToExpr rest

end

mutual

-- The tokens of the text.
def tokens (closed : Bool) : Source → List (Token α)
  | flag b            => [.name (flagName b)]
  | text s            => [.text s]
  | number n          => [.number n.toNumeral.value]
  | list items        => .mark .openBracket :: (listTokens closed items ++ [.mark .closeBracket])
  | tuple tag args    =>
    .name tag.name :: .mark .openParen :: (listTokens closed args ++ [.mark .closeParen])
  | table tag? fields =>
    (tag?.map fun tag => Token.name tag.name).toList ++
      .mark .openBrace :: (fieldsTokens closed fields ++ [.mark .closeBrace])

def listTokens (closed : Bool) : List Source → List (Token α)
  | []              => []
  | [e]             => tokens closed e
  | e :: e' :: rest => tokens closed e ++ .mark .comma :: listTokens closed (e' :: rest)

def fieldsTokens (closed : Bool) : List (Text × Source) → List (Token α)
  | []         => []
  | [(key, e)] =>
    .text key :: .mark .equals :: (tokens closed e ++ closingTokens closed)
  | (key, e) :: field :: rest =>
    .text key :: .mark .equals :: (tokens closed e ++
      .mark .semicolon :: fieldsTokens closed (field :: rest))

end

section

variable {rest : Text} {ts : List (Token α)} {closed : Bool}

theorem isName_flagName (b : Bool) : IsName (flagName b) := by
  cases b
  case false => exact .plain ⟨_, _, rfl, by decide, List.all_eq_true.mp rfl⟩
  case true  => exact .plain ⟨_, _, rfl, by decide, List.all_eq_true.mp rfl⟩

theorem splits_tagText (tag? : Option Tag) (h : Splits rest ts) :
    Splits (tagText tag? ++ rest) ((tag?.map fun tag => Token.name tag.name).toList ++ ts) := by
  cases tag?
  case none     => exact h
  case some tag =>
    rw [tagText, List.append_assoc]
    exact .name tag.isName (apart_blank rest) (.blank h)

theorem splits_key (key : Text) (h : Splits rest ts) :
    Splits (quote key ++ unit ' ' :: unit '=' :: unit ' ' :: rest)
      (.text key :: .mark .equals :: ts) :=
  .quote key (.blank (.mark .equals (.blank h)))

theorem apart_closing : Apart (closing closed ++ rest) := by
  cases closed
  case false => exact apart_blank rest
  case true  => exact apart_mark .semicolon _

theorem splits_closing (h : Splits rest ts) :
    Splits (closing closed ++ rest) (closingTokens closed ++ ts) := by
  cases closed
  case false => exact .blank h
  case true  => exact .mark .semicolon (.blank h)

mutual

-- What comes behind the text is kept open, as the end of a numeral or a name depends on it.
theorem splits_write (e : Source) {rest : Text} {ts : List (Token α)} (hr : Apart rest)
    (h : Splits rest ts) : Splits (e.write closed ++ rest) (e.tokens closed ++ ts) := by
  cases e
  case flag b   => exact .name (isName_flagName b) hr h
  case text s   => exact .quote s h
  case number n => exact .number n hr h
  case list items =>
    rw [write, tokens, List.cons_append, List.cons_append, List.append_assoc, List.append_assoc]
    exact .mark .openBracket (splits_writeList items .closeBracket h)
  case tuple tag args =>
    rw [write, tokens, List.append_assoc, List.cons_append, List.cons_append, List.cons_append,
      List.append_assoc, List.append_assoc]
    exact .name tag.isName (apart_mark .openParen _)
      (.mark .openParen (splits_writeList args .closeParen h))
  case table tag? fields =>
    simp only [write, tokens, List.append_assoc, List.cons_append]
    exact splits_tagText tag? (.mark .openBrace (.blank (splits_writeFields fields h)))

theorem splits_writeList (items : List Source) {rest : Text} {ts : List (Token α)} (close : Mark)
    (h : Splits rest ts) :
    Splits (writeList closed items ++ ([close.toUnit] ++ rest))
      (listTokens closed items ++ ([.mark close] ++ ts)) := by
  match items with
  | []               => exact .mark close h
  | [e]              => exact splits_write e (apart_mark close rest) (.mark close h)
  | e :: e' :: items =>
    rw [writeList, listTokens, List.append_assoc, List.append_assoc]
    exact splits_write e (apart_mark .comma _)
      (.mark .comma (.blank (splits_writeList (e' :: items) close h)))

theorem splits_writeFields (fields : List (Text × Source)) {rest : Text} {ts : List (Token α)}
    (h : Splits rest ts) :
    Splits (writeFields closed fields ++ ([unit '}'] ++ rest))
      (fieldsTokens closed fields ++ ([.mark .closeBrace] ++ ts)) := by
  match fields with
  | []         => exact .mark .closeBrace h
  | [(key, e)] =>
    simp only [writeFields, fieldsTokens, List.append_assoc, List.cons_append]
    exact splits_key key (splits_write e apart_closing (splits_closing (.mark .closeBrace h)))
  | (key, e) :: field :: fields =>
    simp only [writeFields, fieldsTokens, List.append_assoc, List.cons_append]
    exact splits_key key (splits_write e (apart_mark .semicolon _)
      (.mark .semicolon (.blank (splits_writeFields (field :: fields) h))))

end

end

section

variable {closed : Bool}

theorem keys_fieldsToExpr (fields : List (Text × Source)) :
    (fieldsToExpr fields : List (Text × Expr α)).map (·.1) = fields.map (·.1) := by
  induction fields
  case nil             => rfl
  case cons field _ hi => rw [fieldsToExpr, List.map_cons, List.map_cons, hi]

theorem isLegal_fieldsToExpr {fields : List (Text × Source)} (hn : (fields.map (·.1)).Nodup)
    (hr : Parser.State.reserved ∉ fields.map (·.1)) :
    IsLegal (fieldsToExpr fields : List (Text × Expr α)) :=
  ⟨keys_fieldsToExpr (α := α) fields ▸ hn, keys_fieldsToExpr (α := α) fields ▸ hr⟩

omit [Scalar α] in
theorem writes_lastField {ts : List (Token α)} {v : Expr α} (key : Text) (closed : Bool)
    (h : Writes ts v) :
    WritesFields (.text key :: .mark .equals :: (ts ++ closingTokens closed)) [(key, v)] := by
  cases closed
  case false =>
    rw [closingTokens, if_neg Bool.false_ne_true, List.append_nil]
    exact .last (.text key) h
  case true  => exact .cons (.text key) h (.inr rfl) .nil

mutual

theorem writes_tokens (e : Source) (h : e.Legal) :
    Writes (e.tokens closed) (e.toExpr : Expr α) := by
  cases e
  case flag b =>
    cases b
    case false => exact .no
    case true  => exact .yes
  case text s         => exact .text
  case number n       => exact .number
  case list items     => exact .brackets (writes_listTokens items h)
  case tuple tag args => exact .tuple tag.isPlain (writes_listTokens args h)
  case table tag? fields =>
    have ⟨hn, hr, hf⟩ := h
    have hl := isLegal_fieldsToExpr (α := α) hn hr
    have hw := writes_fieldsTokens fields hf
    cases tag?
    case none     => exact .braces hw hl
    case some tag => exact .table tag.isPlain hw hl

theorem writes_listTokens (items : List Source) (h : ListLegal items) :
    WritesItems (listTokens closed items) (listToExpr items : List (Expr α)) := by
  match items with
  | []               => exact .nil
  | [e]              => exact .last (writes_tokens e h.left)
  | e :: e' :: items => exact .cons (writes_tokens e h.left) (writes_listTokens (e' :: items) h.right)

theorem writes_fieldsTokens (fields : List (Text × Source)) (h : FieldsLegal fields) :
    WritesFields (fieldsTokens closed fields) (fieldsToExpr fields : List (Text × Expr α)) := by
  match fields with
  | []         => exact .nil
  | [(key, e)] => exact writes_lastField key closed (writes_tokens e h.left)
  | (key, e) :: field :: fields =>
    exact .cons (.text key) (writes_tokens e h.left) (.inr rfl)
      (writes_fieldsTokens (field :: fields) h.right)

end

end

theorem parse_write (e : Source) (closed : Bool) (h : e.Legal) :
    Expr.parse (e.write closed) = .ok (e.toExpr : Expr α) := by
  have hs : Splits (e.write closed) (e.tokens closed : List (Token α)) := by
    simpa using splits_write e apart_nil .nil
  have ⟨lexemes, hl, ht⟩ := hs 0
  rw [Expr.parse, Lexer.tokens, hl]
  refine Parser.run_eq_ok_iff.mpr (Parser.awaits_start_iff.mpr ?_)
  rw [ht]
  exact writes_tokens e h

-- A name with a qualifier, and a numeral with all its parts.
def chase : Tag :=
  ⟨"Chase::aim", .qualified (s := "Chase") (t := "aim") ⟨_, _, rfl, by decide, List.all_eq_true.mp rfl⟩
    (.plain ⟨_, _, rfl, by decide, List.all_eq_true.mp rfl⟩), by decide, by decide⟩

def recoil : Spelling where
  negative  := true
  whole     := "0"
  fraction? := some "25"
  exponent? := some ⟨unit 'e', .plus, "3", .inl rfl, by decide, List.all_eq_true.mp rfl⟩
  decimal   := List.all_eq_true.mp rfl
  nonempty  := by decide

-- The keys do not stand in key order, and there is a text that looks like its own end and a comment.
def bearing : Source :=
  .table (some chase) [("constructor", .text "\" // \\"), ("9", .list [.flag true, .number recoil])]

def bearingText : Text :=
  "Chase::aim \x7b \"constructor\" = \"\\\" // \\\\\"; \"9\" = [true, -0.25e+3] \x7d"

theorem parse_bearing : bearing.Legal ∧ Expr.parse bearingText = .ok (.table (some "Chase::aim") [
    ("9", .list [.flag true, .number (-Scalar.ofDecimal 25 1)]),
    ("constructor", .text "\" // \\")] : Expr Float) := by
  have h : bearing.Legal := ⟨by decide, by decide, trivial, ⟨trivial, trivial, trivial⟩, trivial⟩
  have hw : bearing.write false = bearingText := by decide
  exact ⟨h, hw ▸ parse_write bearing false h⟩

end Source
end SceneMotion
