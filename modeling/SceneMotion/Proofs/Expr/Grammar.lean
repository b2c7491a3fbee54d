import Mathlib.Data.Set.Subsingleton
import SceneMotion.Expr.Parser
import SceneMotion.Proofs.Fields

namespace SceneMotion

variable {α : Type}

namespace Grammar

-- Any name but the two flags.
def IsPlain (name : Text) : Prop :=
  name ≠ Text.ofString "true" ∧ name ≠ Text.ofString "false"

-- A key is a text or a name without a qualifier.
inductive IsKey : Token α → Text → Prop
  | text (s : Text) : IsKey (.text s) s
  | name (s : Text) (h : unit ':' ∉ s) : IsKey (.name s) s

-- The keys of a table are distinct, and none of them is reserved.
structure IsLegal (fields : List (Text × Expr α)) : Prop where
  nodup    : (fields.map (·.1)).Nodup
  reserved : Parser.State.reserved ∉ fields.map (·.1)

@[simp]
theorem isKey_text_iff {s key : Text} : IsKey (.text s : Token α) key ↔ s = key :=
  ⟨fun h => by cases h; rfl, fun h => h ▸ .text s⟩

@[simp]
theorem isKey_name_iff {s key : Text} : IsKey (.name s : Token α) key ↔ unit ':' ∉ s ∧ s = key :=
  ⟨fun h => by cases h; exact ⟨‹_›, rfl⟩, fun ⟨h, hs⟩ => hs ▸ .name s h⟩

@[simp]
theorem not_isKey_number {x : α} {key : Text} : ¬IsKey (.number x) key :=
  nofun

@[simp]
theorem not_isKey_mark {m : Mark} {key : Text} : ¬IsKey (.mark m : Token α) key :=
  nofun

mutual

inductive Writes : List (Token α) → Expr α → Prop
  | number   : Writes [.number x] (.number x)
  | text     : Writes [.text s] (.text s)
  | yes      : Writes [.name (Text.ofString "true")] (.flag true)
  | no       : Writes [.name (Text.ofString "false")] (.flag false)
  | name     : IsPlain s → Writes [.name s] (.text s)
  | tuple    : IsPlain s → WritesItems ts es →
    Writes (.name s :: .mark .openParen :: (ts ++ [.mark .closeParen])) (.tuple s es)
  | table    : IsPlain s → WritesFields ts fs → IsLegal fs →
    Writes (.name s :: .mark .openBrace :: (ts ++ [.mark .closeBrace])) (.table (some s) (Fields.ofList fs))
  | parens   : WritesItems ts es →
    Writes (.mark .openParen :: (ts ++ [.mark .closeParen])) (.list es)
  | brackets : WritesItems ts es →
    Writes (.mark .openBracket :: (ts ++ [.mark .closeBracket])) (.list es)
  | braces   : WritesFields ts fs → IsLegal fs →
    Writes (.mark .openBrace :: (ts ++ [.mark .closeBrace])) (.table none (Fields.ofList fs))

-- There may be a comma behind the last item.
inductive WritesItems : List (Token α) → List (Expr α) → Prop
  | nil  : WritesItems [] []
  | last : Writes ts e → WritesItems ts [e]
  | cons : Writes ts e → WritesItems rest es → WritesItems (ts ++ .mark .comma :: rest) (e :: es)

-- There may be a separator behind the last field.
inductive WritesFields : List (Token α) → List (Text × Expr α) → Prop
  | nil  : WritesFields [] []
  | last : IsKey t key → Writes ts e → WritesFields (t :: .mark .equals :: ts) [(key, e)]
  | cons : IsKey t key → Writes ts e → (sep = Mark.comma ∨ sep = .semicolon) →
    WritesFields rest fs →
    WritesFields (t :: .mark .equals :: (ts ++ .mark sep :: rest)) ((key, e) :: fs)

end

end Grammar

namespace Parser

open Grammar State

-- What may come behind a value.
abbrev Rest (α : Type) :=
  List (Token α) → Expr α → Prop

-- The fields may be added to a table one by one.
def Extends (before : Fields (Expr α)) : List (Text × Expr α) → Prop
  | []               => True
  | (key, v) :: rest => key ≠ reserved ∧ before.has key = false ∧ Extends (Fields.set key v before) rest

-- In a table that is begun, distinct keys are those that are distinct and not there yet.
theorem extends_iff {before : Fields (Expr α)} {fields : List (Text × Expr α)} :
    Extends before fields ↔ IsLegal fields ∧ ∀ key ∈ fields.map (·.1), before.has key = false := by
  induction fields generalizing before
  case nil => simp [Extends, IsLegal.mk]
  case cons field rest hi =>
    have hs (key : Text) : (Fields.set field.1 field.2 before).has key = false ↔
        key ≠ field.1 ∧ before.has key = false := by
      rw [← Bool.not_eq_true, Fields.has_set, not_or, Bool.not_eq_true]
    simp only [Extends, hi, hs]
    constructor
    case mp =>
      rintro ⟨hr, hb, hl, hn⟩
      refine ⟨⟨?_, ?_⟩, ?_⟩
      · exact List.nodup_cons.mpr ⟨fun hm => (hn _ hm).left rfl, hl.nodup⟩
      · exact fun hm => (List.mem_cons.mp hm).elim (Ne.symm hr) hl.reserved
      · exact List.forall_mem_cons.mpr ⟨hb, fun key hm => (hn key hm).right⟩
    case mpr =>
      rintro ⟨hl, hn⟩
      have ⟨hb, hn⟩ := List.forall_mem_cons.mp hn
      have ⟨hf, hd⟩ := List.nodup_cons.mp hl.nodup
      refine ⟨fun hr => hl.reserved (hr ▸ List.mem_cons_self), hb, ?_, ?_⟩
      · exact ⟨hd, fun hm => hl.reserved (List.mem_cons_of_mem _ hm)⟩
      · exact fun key hm => ⟨ne_of_mem_of_not_mem hm hf, hn key hm⟩

variable {rest : Rest α} {kind : Sequence} {before : List (Expr α)} {v document : Expr α}
variable {t : Token α} {ts : List (Token α)} {stack : List (Context α)} {tag? : Option Text}
variable {fields : Fields (Expr α)} {s s' : State α}

-- First comes what is looked for, and then the rest.
def EndsValue (rest : Rest α) (ts : List (Token α)) : Prop :=
  ∃ inner v after, ts = inner ++ after ∧ Writes inner v ∧ rest after v

def EndsItems (rest : Rest α) (kind : Sequence) (before : List (Expr α)) (ts : List (Token α)) : Prop :=
  ∃ inner items after, ts = inner ++ .mark kind.close :: after ∧ WritesItems inner items ∧
    rest after (kind.build (before ++ items))

def EndsFields (rest : Rest α) (tag? : Option Text) (before : Fields (Expr α))
    (ts : List (Token α)) : Prop :=
  ∃ inner fields after, ts = inner ++ .mark .closeBrace :: after ∧ WritesFields inner fields ∧
    Extends before fields ∧
    rest after (.table tag? (fields.foldl (fun fields (key, v) => Fields.set key v fields) before))

def Context.Ends (rest : Rest α) : Context α → Rest α
  | .item kind before => fun ts v =>
    (∃ after, ts = .mark .comma :: after ∧ EndsItems rest kind (before ++ [v]) after) ∨
    (∃ after, ts = .mark kind.close :: after ∧ rest after (kind.build (before ++ [v])))
  | .field tag? before key => fun ts v =>
    (∃ sep after, (sep = Mark.comma ∨ sep = .semicolon) ∧ ts = .mark sep :: after ∧
      EndsFields rest tag? (Fields.set key v before) after) ∨
    (∃ after, ts = .mark .closeBrace :: after ∧ rest after (.table tag? (Fields.set key v before)))

def Ends (document : Expr α) : List (Context α) → Rest α
  | []         => fun ts v => ts = [] ∧ v = document
  | c :: outer => c.Ends (Ends document outer)

def Goal.Awaits (rest : Rest α) (ts : List (Token α)) : Goal α → Prop
  | .value                  => EndsValue rest ts
  | .item kind before       => EndsItems rest kind before ts
  | .key tag? before        => EndsFields rest tag? before ts
  | .equals tag? before k   =>
    ∃ after, ts = .mark .equals :: after ∧ EndsValue ((Context.field tag? before k).Ends rest) after
  | .named name             => rest ts (.text name) ∨
    (∃ after, ts = .mark .openParen :: after ∧ EndsItems rest (.args name) [] after) ∨
    (∃ after, ts = .mark .openBrace :: after ∧ EndsFields rest (some name) [] after)
  | .after v                => rest ts v

-- The tokens to come may complete the document, given what has been read.
def State.Awaits (document : Expr α) (s : State α) (ts : List (Token α)) : Prop :=
  s.goal.Awaits (Ends document s.stack) ts

theorem beginValue_name {name : Text} (h : IsPlain name) :
    beginValue stack (.name name) = .ok ⟨.named name, stack⟩ := by
  rw [beginValue, if_neg h.left, if_neg h.right]

theorem extends_nil_iff {fields : List (Text × Expr α)} : Extends [] fields ↔ IsLegal fields := by
  simp [extends_iff, Table.has]

theorem endsValue_cons_iff : EndsValue (Ends document stack) (t :: ts) ↔
    ∃ s, beginValue stack t = .ok s ∧ s.Awaits document ts := by
  constructor
  case mp =>
    rintro ⟨inner, v, after, he, hw, hr⟩
    cases hw <;> simp only [List.cons_append, List.nil_append, List.append_assoc, List.cons.injEq] at he <;>
      obtain ⟨rfl, rfl⟩ := he
    case number       => exact ⟨_, rfl, hr⟩
    case text         => exact ⟨_, rfl, hr⟩
    case yes          => exact ⟨_, rfl, hr⟩
    case no           => exact ⟨_, rfl, hr⟩
    case name hp      => exact ⟨_, beginValue_name hp, Or.inl hr⟩
    case tuple hp hi  =>
      exact ⟨_, beginValue_name hp, Or.inr <| .inl ⟨_, rfl, _, _, _, rfl, hi, hr⟩⟩
    case table hp hf hl =>
      exact ⟨_, beginValue_name hp,
        Or.inr <| .inr ⟨_, rfl, _, _, _, rfl, hf, extends_nil_iff.mpr hl, hr⟩⟩
    case parens hi    => exact ⟨_, rfl, _, _, _, rfl, hi, hr⟩
    case brackets hi  => exact ⟨_, rfl, _, _, _, rfl, hi, hr⟩
    case braces hf hl => exact ⟨_, rfl, _, _, _, rfl, hf, extends_nil_iff.mpr hl, hr⟩
  case mpr =>
    rintro ⟨s, hs, ha⟩
    cases t
    case number => cases hs; exact ⟨[_], _, ts, rfl, .number, ha⟩
    case text   => cases hs; exact ⟨[_], _, ts, rfl, .text, ha⟩
    case name name =>
      rw [beginValue] at hs
      split at hs
      case isTrue h => cases hs; exact ⟨[_], _, ts, rfl, h ▸ .yes, ha⟩
      case isFalse ht =>
        split at hs
        case isTrue h => cases hs; exact ⟨[_], _, ts, rfl, h ▸ .no, ha⟩
        case isFalse hf =>
          cases hs
          rcases ha with hr | ⟨_, rfl, _, _, _, rfl, hi, hr⟩ | ⟨_, rfl, _, _, _, rfl, hw, hl, hr⟩
          · exact ⟨[_], _, ts, rfl, .name ⟨ht, hf⟩, hr⟩
          · exact ⟨_, _, _, by simp [Sequence.close], .tuple ⟨ht, hf⟩ hi, hr⟩
          · exact ⟨_, _, _, by simp, .table ⟨ht, hf⟩ hw (extends_nil_iff.mp hl), hr⟩
    case mark m =>
      cases m <;> cases hs
      case openParen =>
        obtain ⟨_, _, _, rfl, hi, hr⟩ := ha
        exact ⟨_, _, _, by simp [Sequence.close], .parens hi, hr⟩
      case openBracket =>
        obtain ⟨_, _, _, rfl, hi, hr⟩ := ha
        exact ⟨_, _, _, by simp [Sequence.close], .brackets hi, hr⟩
      case openBrace =>
        obtain ⟨_, _, _, rfl, hw, hl, hr⟩ := ha
        exact ⟨_, _, _, by simp, .braces hw (extends_nil_iff.mp hl), hr⟩

-- A sequence ends here, or goes on with a value.
theorem endsItems_iff : EndsItems rest kind before ts ↔
    (∃ after, ts = .mark kind.close :: after ∧ rest after (kind.build before)) ∨
    EndsValue ((Context.item kind before).Ends rest) ts := by
  constructor
  case mp =>
    rintro ⟨inner, items, after, rfl, hi, hr⟩
    cases hi
    case nil        => exact .inl ⟨after, rfl, by simpa using hr⟩
    case last hw    => exact .inr ⟨_, _, _, rfl, hw, .inr ⟨after, rfl, hr⟩⟩
    case cons hw hi =>
      refine .inr ⟨_, _, _, by simp, hw, .inl ⟨_, rfl, _, _, after, rfl, hi, by simpa using hr⟩⟩
  case mpr =>
    rintro (⟨after, rfl, hr⟩ | ⟨_, _, _, rfl, hw, ⟨_, rfl, _, _, after, rfl, hi, hr⟩ | ⟨after, rfl, hr⟩⟩)
    · exact ⟨[], [], after, rfl, .nil, by simpa using hr⟩
    · exact ⟨_, _, after, by simp, .cons hw hi, by simpa using hr⟩
    · exact ⟨_, _, after, rfl, .last hw, hr⟩

-- A table ends here, or goes on with a key.
theorem endsFields_iff : EndsFields rest tag? fields ts ↔
    (∃ after, ts = .mark .closeBrace :: after ∧ rest after (.table tag? fields)) ∨
    (∃ t key after, ts = t :: after ∧ IsKey t key ∧ key ≠ reserved ∧ fields.has key = false ∧
      (Goal.equals tag? fields key).Awaits rest after) := by
  constructor
  case mp =>
    rintro ⟨inner, more, after, rfl, hf, he, hr⟩
    cases hf
    case nil => exact .inl ⟨after, rfl, hr⟩
    case last hk hw =>
      have ⟨hn, hh, _⟩ := he
      exact .inr ⟨_, _, _, rfl, hk, hn, hh, _, rfl, _, _, _, rfl, hw, .inr ⟨after, rfl, hr⟩⟩
    case cons hk hw hs hf =>
      have ⟨hn, hh, he⟩ := he
      exact .inr ⟨_, _, _, rfl, hk, hn, hh, _, rfl, _, _, _, by simp, hw,
        .inl ⟨_, _, hs, rfl, _, _, after, rfl, hf, he, hr⟩⟩
  case mpr =>
    rintro (⟨after, rfl, hr⟩ | ⟨_, _, _, rfl, hk, hn, hh, _, rfl, _, _, _, rfl, hw,
      ⟨_, _, hs, rfl, _, _, after, rfl, hf, he, hr⟩ | ⟨after, rfl, hr⟩⟩)
    · exact ⟨[], [], after, rfl, .nil, trivial, hr⟩
    · exact ⟨_, _, after, by simp, .cons hk hw hs hf, ⟨hn, hh, he⟩, hr⟩
    · exact ⟨_, _, after, rfl, .last hk hw, ⟨hn, hh, trivial⟩, hr⟩

theorem Sequence.close_ne_comma : kind.close ≠ .comma := by
  cases kind <;> nofun

theorem ends_cons_iff : Ends document stack (t :: ts) v ↔
    ∃ s, afterValue v stack t = .ok s ∧ s.Awaits document ts := by
  cases stack
  case nil => simp [Ends, afterValue]
  case cons c outer =>
    cases t
    case mark m =>
      cases c
      case item kind before =>
        have hc := kind.close_ne_comma
        by_cases hm : m = .comma
        case pos => simp [Ends, Context.Ends, afterValue, State.Awaits, Goal.Awaits, hm, hc.symm]
        case neg =>
          by_cases hk : m = kind.close
          case pos => simp [Ends, Context.Ends, afterValue, State.Awaits, Goal.Awaits, hk, hc]
          case neg => simp [Ends, Context.Ends, afterValue, State.Awaits, Goal.Awaits, hm, hk]
      case field =>
        cases m <;> simp [Ends, Context.Ends, afterValue, State.Awaits, Goal.Awaits]
    all_goals cases c <;> simp [Ends, Context.Ends, afterValue]

-- No value begins with a mark that closes a sequence.
theorem beginValue_close (kind : Sequence) (stack : List (Context α)) :
    ∃ e, beginValue stack (.mark kind.close) = .error e := by
  cases kind <;> exact ⟨_, rfl⟩

-- No mark that opens a sequence or a table comes behind a value.
theorem afterValue_open {m : Mark} (v : Expr α) (stack : List (Context α))
    (h : m = .openParen ∨ m = .openBrace) : ∃ e, afterValue v stack (.mark m) = .error e := by
  rcases h with rfl | rfl
  all_goals
    rcases stack with _ | ⟨⟨_ | _⟩ | _, _⟩ <;> exact ⟨_, rfl⟩

theorem takeKey_ok_iff {key : Text} : takeKey tag? fields key stack = .ok s ↔
    key ≠ reserved ∧ fields.has key = false ∧ s = ⟨.equals tag? fields key, stack⟩ := by
  rw [takeKey]
  by_cases hr : key = reserved
  case pos => simp [hr]
  case neg => cases fields.has key <;> simp [hr, eq_comm]

theorem endsFields_cons_iff : EndsFields (Ends document stack) tag? fields (t :: ts) ↔
    ∃ s, beginField tag? fields stack t = .ok s ∧ s.Awaits document ts := by
  rw [endsFields_iff]
  cases t
  case number => simp [beginField]
  case text => simp [beginField, takeKey_ok_iff, State.Awaits, and_assoc]
  case name name =>
    by_cases hq : unit ':' ∈ name
    case pos => simp [beginField, hq]
    case neg => simp [beginField, hq, takeKey_ok_iff, State.Awaits, and_assoc]
  case mark m =>
    cases m <;> simp [beginField, State.Awaits, Goal.Awaits]

theorem awaits_cons_iff : s.Awaits document (t :: ts) ↔
    ∃ s', s.step t = .ok s' ∧ s'.Awaits document ts := by
  obtain ⟨goal, stack⟩ := s
  cases goal
  case value => exact endsValue_cons_iff
  case after => exact ends_cons_iff
  case key   => exact endsFields_cons_iff
  case item kind before =>
    have hv : EndsValue (Ends document (.item kind before :: stack)) (t :: ts) ↔ _ := endsValue_cons_iff
    refine endsItems_iff.trans ((or_congr_right hv).trans ?_)
    cases t
    case mark m =>
      by_cases hm : m = kind.close
      case pos =>
        have ⟨_, he⟩ := beginValue_close (α := α) kind (.item kind before :: stack)
        simp [State.step, hm, he, State.Awaits, Goal.Awaits]
      case neg => simp [State.step, hm]
    all_goals simp [State.step]
  case equals =>
    cases t
    case mark m => cases m <;> simp [State.Awaits, Goal.Awaits, State.step, Ends]
    all_goals simp [State.Awaits, Goal.Awaits, State.step]
  case named name =>
    have he : Ends document stack (t :: ts) (.text name) ↔ _ := ends_cons_iff
    refine (or_congr_left he).trans ?_
    cases t
    case mark m =>
      cases m
      case openParen =>
        have ⟨_, ho⟩ := afterValue_open (.text name) stack (.inl rfl)
        simp [State.step, ho, State.Awaits, Goal.Awaits]
      case openBrace =>
        have ⟨_, ho⟩ := afterValue_open (.text name) stack (.inr rfl)
        simp [State.step, ho, State.Awaits, Goal.Awaits]
      all_goals simp [State.step]
    all_goals simp [State.step]

theorem not_endsValue_nil : ¬EndsValue rest [] := by
  rintro ⟨inner, v, after, he, hw, _⟩
  have ⟨hi, _⟩ := List.append_eq_nil_iff.mp he.symm
  cases hw <;> cases hi

theorem ends_nil_iff : Ends document stack [] v ↔ stack = [] ∧ v = document := by
  rcases stack with _ | ⟨_ | _, _⟩ <;> simp [Ends, Context.Ends]

theorem awaits_nil_iff : s.Awaits document [] ↔ s.finish = .ok document := by
  obtain ⟨goal, stack⟩ := s
  cases goal
  case value  => simp [State.Awaits, Goal.Awaits, State.finish, not_endsValue_nil]
  case item   => simp [State.Awaits, Goal.Awaits, State.finish, EndsItems]
  case key    => simp [State.Awaits, Goal.Awaits, State.finish, EndsFields]
  case equals => simp [State.Awaits, Goal.Awaits, State.finish]
  case named  => cases stack <;> simp [State.Awaits, Goal.Awaits, State.finish, ends_nil_iff]
  case after  => cases stack <;> simp [State.Awaits, Goal.Awaits, State.finish, ends_nil_iff]

theorem run_eq_ok_iff {length : Nat} {tokens : List (Lexeme α)} :
    run length s tokens = .ok v ↔ s.Awaits v (tokens.map (·.token)) := by
  induction tokens generalizing s
  case nil =>
    rw [List.map_nil, awaits_nil_iff, run]
    cases s.finish <;> simp [Except.mapError]
  case cons t rest hi =>
    rw [List.map_cons, awaits_cons_iff, run]
    cases s.step t.token
    case error => simp
    case ok s' => simp [hi]

theorem awaits_start_iff : start.Awaits v ts ↔ Writes ts v := by
  constructor
  · rintro ⟨inner, v', after, rfl, hw, rfl, rfl⟩
    rwa [List.append_nil]
  · exact fun h => ⟨ts, v, [], (List.append_nil _).symm, h, rfl, rfl⟩

theorem run_start_eq_ok_iff_writes (length : Nat) (tokens : List (Lexeme α)) :
    (∀ v, run length .start tokens = .ok v ↔ Writes (tokens.map (·.token)) v) ∧
    {v | Writes (tokens.map (·.token)) v}.Subsingleton := by
  have h (v : Expr α) : run length .start tokens = .ok v ↔ Writes (tokens.map (·.token)) v :=
    run_eq_ok_iff.trans awaits_start_iff
  refine ⟨h, fun v hv v' hv' => ?_⟩
  have hr := (h v).mpr hv
  rw [(h v').mpr hv'] at hr
  cases hr
  rfl

end Parser
end SceneMotion
