import SceneMotion.Expr.Schema
import SceneMotion.Proofs.Double
import SceneMotion.Proofs.Expr.Grammar
import SceneMotion.Proofs.Expr.Pieces
import SceneMotion.Proofs.Track.Ledger

namespace SceneMotion

variable {α : Type}

namespace Expr

mutual

-- The expression with every table put together anew, field by field.
def rebuild : Expr α → Expr α
  | list items => list (rebuildItems items)
  | tuple tag args => tuple tag (rebuildItems args)
  | table tag? fields => table tag? (Fields.ofList (rebuildFields fields))
  | e => e

def rebuildItems : List (Expr α) → List (Expr α)
  | [] => []
  | e :: rest => rebuild e :: rebuildItems rest

def rebuildFields : List (Text × Expr α) → List (Text × Expr α)
  | [] => []
  | (key, e) :: rest => (key, rebuild e) :: rebuildFields rest

end

variable [Scalar α]

-- An expression that a check has nothing against: there is no undefined number in it, and in its tables
-- the keys are in order, the one that is left out not being among them.
inductive Sound : Expr α → Prop
  | number : Scalar.isNaN x = false → Sound (.number x)
  | text   : Sound (.text s)
  | flag   : Sound (.flag b)
  | list   : (∀ e ∈ items, Sound e) → Sound (.list items)
  | tuple  : (∀ e ∈ args, Sound e) → Sound (.tuple tag args)
  | table (tag? : Option Text) : (∀ field ∈ fields, Sound field.2) →
    omittedKey ∉ fields.map (·.1) → Fields.ofList fields = fields → Sound (.table tag? fields)

variable {e : Expr α} {items : List (Expr α)} {fields : List (Text × Expr α)}

omit [Scalar α] in
theorem rebuildItems_eq_self (h : ∀ e ∈ items, e.rebuild = e) : rebuildItems items = items := by
  induction items
  case nil => rfl
  case cons e rest hi =>
    have ⟨he, hr⟩ := List.forall_mem_cons.mp h
    rw [rebuildItems, he, hi hr]

omit [Scalar α] in
theorem rebuildFields_eq_self (h : ∀ field ∈ fields, field.2.rebuild = field.2) :
    rebuildFields fields = fields := by
  induction fields
  case nil => rfl
  case cons field rest hi =>
    have ⟨he, hr⟩ := List.forall_mem_cons.mp h
    rw [rebuildFields, he, hi hr]

theorem Sound.rebuild (h : e.Sound) : e.rebuild = e := by
  induction h
  case number => rfl
  case text   => rfl
  case flag   => rfl
  case list hi  => rw [Expr.rebuild, rebuildItems_eq_self hi]
  case tuple hi => rw [Expr.rebuild, rebuildItems_eq_self hi]
  case table ho hi => rw [Expr.rebuild, rebuildFields_eq_self hi, ho]

theorem checkItems_listToValue (h : ∀ e ∈ items, ∀ path, e.toValue.checkExpr path = .ok e)
    (path : List PathPart) (index : Nat) :
    Value.checkItems path index (listToValue items) = .ok items := by
  induction items generalizing index
  case nil => rfl
  case cons e rest hi =>
    have ⟨he, hr⟩ := List.forall_mem_cons.mp h
    rw [listToValue, Value.checkItems, he, hi hr]
    rfl

theorem checkRecord_fieldsToValue
    (h : ∀ field ∈ fields, ∀ path, field.2.toValue.checkExpr path = .ok field.2)
    (hk : omittedKey ∉ fields.map (·.1)) (path : List PathPart) :
    Value.checkRecord path (fieldsToValue fields) = .ok fields := by
  induction fields
  case nil => rfl
  case cons field rest hi =>
    have ⟨he, hr⟩ := List.forall_mem_cons.mp h
    have ⟨hf, hk⟩ := not_or.mp (mt List.mem_cons.mpr hk)
    rw [fieldsToValue, Value.checkRecord, he, hi hr hk]
    simp [Checked.map₂, Checked.ok, Ne.symm hf]

theorem checkExpr_tupleValue {path : List PathPart} {values : List (Value α)}
    (h : Value.checkItems (path ++ [.key "args"]) 0 values = .ok items) (tag : Text) :
    (tupleValue tag values).checkExpr path = .ok (tuple tag items) := by
  have ha : Value.checkArgs path [("tag", .text tag), ("args", .list values)] = .ok items := h
  rw [tupleValue, Value.checkExpr, ha]
  rfl

-- What makes it no tuple is that it has no arguments.
theorem checkExpr_tableValue {path : List PathPart} {values : List (Text × Value α)}
    (h : Value.checkRecord (path ++ [.key "fields"]) values = .ok fields) (tag? : Option Text) :
    (tableValue tag? values).checkExpr path = .ok (table tag? fields) := by
  cases tag?
  case none =>
    have hf : Value.checkEntries path [("fields", .object values)] = .ok fields := h
    rw [tableValue, Value.checkExpr, hf]
    rfl
  case some tag =>
    have hf : Value.checkEntries path [("tag", .text tag), ("fields", .object values)] = .ok fields := h
    rw [tableValue, Value.checkExpr, hf]
    rfl

theorem Sound.checkExpr (h : e.Sound) (path : List PathPart) : e.toValue.checkExpr path = .ok e := by
  induction h generalizing path
  case number hx => exact if_neg (by simp [hx])
  case text => rfl
  case flag => rfl
  case list hi =>
    rw [toValue, Value.checkExpr, checkItems_listToValue hi]
    rfl
  case tuple tag _ hi =>
    rw [toValue, checkExpr_tupleValue (checkItems_listToValue hi ..)]
  case table tag? _ hk _ hi =>
    rw [toValue, checkExpr_tableValue (checkRecord_fieldsToValue hi hk _)]

end Expr

namespace Grammar

variable [Scalar α] {ts ts' : List (Token α)}

-- No token is an undefined number.
def Defined (ts : List (Token α)) : Prop :=
  ∀ x, Token.number x ∈ ts → Scalar.isNaN x = false

theorem defined_append : Defined (ts ++ ts') ↔ Defined ts ∧ Defined ts' := by
  simp [Defined, or_imp, forall_and]

theorem Defined.tail {t : Token α} (h : Defined (t :: ts)) : Defined ts :=
  fun x hx => h x (List.mem_cons_of_mem _ hx)

-- The tokens of the inside of brackets.
theorem Defined.inside {left right : Token α} (h : Defined (left :: (ts ++ [right]))) : Defined ts :=
  (defined_append.mp h.tail).left

theorem IsLegal.sound {fields : List (Text × Expr α)} (h : IsLegal fields)
    (hf : ∀ field ∈ fields, field.2.Sound) (tag? : Option Text) :
    (Expr.table tag? (Fields.ofList fields)).Sound := by
  refine .table tag? (fun field hm => hf field (Fields.mem_of_mem_ofList hm)) ?_
    (Fields.ofList_ofList fields)
  exact mt ((Fields.inOrder_ofList fields).mem _).mp h.reserved

mutual

theorem sound_of_writes {ts : List (Token α)} {e : Expr α} :
    Writes ts e → Defined ts → e.Sound
  | .number, hd        => .number (hd _ List.mem_cons_self)
  | .text, _           => .text
  | .yes, _            => .flag
  | .no, _             => .flag
  | .name _, _         => .text
  | .tuple _ hw, hd    => .tuple (sound_of_writesItems hw hd.tail.inside)
  | .table _ hw hl, hd => hl.sound (sound_of_writesFields hw hd.tail.inside) _
  | .parens hw, hd     => .list (sound_of_writesItems hw hd.inside)
  | .brackets hw, hd   => .list (sound_of_writesItems hw hd.inside)
  | .braces hw hl, hd  => hl.sound (sound_of_writesFields hw hd.inside) _

theorem sound_of_writesItems {ts : List (Token α)} {es : List (Expr α)} :
    WritesItems ts es → Defined ts → ∀ e ∈ es, e.Sound
  | .nil, _         => nofun
  | .last hw, hd    => List.forall_mem_singleton.mpr (sound_of_writes hw hd)
  | .cons hw hr, hd =>
    have ⟨hv, hd⟩ := defined_append.mp hd
    List.forall_mem_cons.mpr ⟨sound_of_writes hw hv, sound_of_writesItems hr hd.tail⟩

theorem sound_of_writesFields {ts : List (Token α)} {fs : List (Text × Expr α)} :
    WritesFields ts fs → Defined ts → ∀ field ∈ fs, field.2.Sound
  | .nil, _             => nofun
  | .last _ hw, hd      => List.forall_mem_singleton.mpr (sound_of_writes hw hd.tail.tail)
  | .cons _ hw _ hr, hd =>
    have ⟨hv, hd⟩ := defined_append.mp hd.tail.tail
    List.forall_mem_cons.mpr ⟨sound_of_writes hw hv, sound_of_writesFields hr hd.tail⟩

end
end Grammar

open Grammar

variable [Scalar α] [LawfulDecimal α]

theorem Numeral.isNaN_value (n : Numeral) : Scalar.isNaN (n.value : α) = false := by
  rw [value]
  split
  case isTrue  => exact LawfulDecimal.isNaN_neg _ (LawfulDecimal.isNaN_ofDecimal ..)
  case isFalse => exact LawfulDecimal.isNaN_ofDecimal ..

namespace Lexer

theorem IsPiece.defined {c : UInt16} {rest : Text} {p : Piece α} (h : IsPiece c rest p)
    (position : Nat) : Defined ((p.found position).map (·.token)) := by
  intro x hx
  cases h <;> simp [Piece.found] at hx
  case number =>
    rw [hx]
    exact Numeral.isNaN_value _

theorem Cut.defined {position : Nat} {s : Text} {lexemes : List (Lexeme α)}
    (h : Cut position s lexemes) : Defined (lexemes.map (·.token)) := by
  induction h
  case nil => nofun
  case cons hp _ hi =>
    rw [List.map_append, defined_append]
    exact ⟨(piece_eq_ok_iff.mp hp).defined _, hi⟩

end Lexer

theorem Expr.sound_of_parse {source : Text} {e : Expr α} (h : parse source = .ok e) : e.Sound := by
  rw [parse] at h
  split at h
  case h_1 => contradiction
  case h_2 lexemes ht =>
    have hw := ((Parser.run_start_eq_ok_iff_writes _ lexemes).left e).mp h
    exact sound_of_writes hw (Lexer.cut_of_tokensFrom ht).defined

omit [LawfulDecimal α] in
theorem Track.ofValue_toValue {e : Expr α} (h : e.Sound) (owner : Text) :
    ofValue owner e.toValue = ofExpr owner e := by
  rw [ofValue, h.checkExpr]
  rfl

theorem Expr.checkExpr_of_parse {source : Text} {e : Expr α} (h : parse source = .ok e) :
    (∀ path, e.toValue.checkExpr path = .ok e) ∧ e.rebuild = e ∧
    (∀ owner, Track.ofValue owner e.toValue = Track.ofExpr owner e) ∧
    ∀ owner issue, (Track.ofValue owner e.toValue).result ≠ .error (.malformed issue) := by
  have hs := sound_of_parse h
  refine ⟨hs.checkExpr, hs.rebuild, Track.ofValue_toValue hs, fun owner issue hm => ?_⟩
  rw [Track.ofValue_toValue hs] at hm
  exact Bool.false_ne_true (Track.ofExpr_blames owner e _ hm)

-- A numeral that is read as an infinite number, a key that every object seems to have, and one that does
-- not keep its place.
def overflowText : Text :=
  "\x7b\"constructor\"=9e999;\"9\"=\"b\"\x7d"

def overflow : Expr Float :=
  .table none [("9", .text "b"), ("constructor", .number (Scalar.ofDecimal 9 999))]

theorem overflow_parse : Expr.parse overflowText = .ok overflow := by
  have ht : Lexer.tokens overflowText = .ok [
      ⟨.mark .openBrace, 0⟩, ⟨.text "constructor", 1⟩, ⟨.mark .equals, 14⟩,
      ⟨.number (Scalar.ofDecimal 9 999 : Float), 15⟩, ⟨.mark .semicolon, 20⟩, ⟨.text "9", 21⟩,
      ⟨.mark .equals, 24⟩, ⟨.text "b", 25⟩, ⟨.mark .closeBrace, 28⟩] := by
    refine Lexer.tokensFrom_cons_ok (p := ⟨some (.mark .openBrace), 0⟩) rfl ?_
    refine Lexer.tokensFrom_cons_ok (p := ⟨some (.text "constructor"), 12⟩) rfl ?_
    refine Lexer.tokensFrom_cons_ok (p := ⟨some (.mark .equals), 0⟩) rfl ?_
    refine Lexer.tokensFrom_cons_ok (p := ⟨some (.number (Scalar.ofDecimal 9 999)), 4⟩) rfl ?_
    refine Lexer.tokensFrom_cons_ok (p := ⟨some (.mark .semicolon), 0⟩) rfl ?_
    refine Lexer.tokensFrom_cons_ok (p := ⟨some (.text "9"), 2⟩) rfl ?_
    refine Lexer.tokensFrom_cons_ok (p := ⟨some (.mark .equals), 0⟩) rfl ?_
    refine Lexer.tokensFrom_cons_ok (p := ⟨some (.text "b"), 2⟩) rfl ?_
    exact Lexer.tokensFrom_cons_ok (p := ⟨some (.mark .closeBrace), 0⟩) rfl (Lexer.tokensFrom_nil 29)
  rw [Expr.parse, ht]
  rfl

theorem checkExpr_overflow : Expr.parse overflowText = .ok overflow ∧
    overflow.toValue.checkExpr [] = .ok overflow ∧ overflow.rebuild = overflow ∧
    (Track.ofValue "Camera" overflow.toValue).result = .error (.unrecognizedTrack "table") := by
  have ⟨hc, hr, ho, _⟩ := Expr.checkExpr_of_parse overflow_parse
  exact ⟨overflow_parse, hc [], hr, congrArg (·.result) (ho "Camera")⟩

end SceneMotion
