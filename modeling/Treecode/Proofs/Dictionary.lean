import Mathlib
import Treecode.Proofs.Lookahead
import Treecode.Proofs.Listed
import Treecode.Proofs.SelfEqual
import Treecode.Proofs.Spelled

set_option autoImplicit false

namespace Treecode

namespace Double

theorem equals_trans {x y z : Double} (first : x.equals y = true) (last : y.equals z = true) :
    x.equals z = true := by
  simp only [equals, Bool.and_eq_true, Bool.or_eq_true, Bool.not_eq_true',
    beq_iff_eq] at first last ⊢
  obtain ⟨⟨number, _⟩, first⟩ := first
  obtain ⟨⟨_, number'⟩, last⟩ := last
  refine ⟨⟨number, number'⟩, ?_⟩
  rcases first with rfl | zeros
  · exact last
  · rcases last with rfl | zeros'
    · exact .inr zeros
    · exact .inr ⟨zeros.1, zeros'.2⟩

end Double

namespace Value

mutual

theorem equals_trans {u v w : Value} (first : u.equals v = true) (last : v.equals w = true) :
    u.equals w = true := by
  cases u <;> cases v <;> try (cases first; done)
  all_goals cases w <;> try (cases last; done)
  case nil.nil.nil => rfl
  case integer.integer.integer =>
    exact beq_iff_eq.2 ((beq_iff_eq.1 first).trans (beq_iff_eq.1 last))
  case float.float.float => exact Double.equals_trans first last
  case boolean.boolean.boolean =>
    exact beq_iff_eq.2 ((beq_iff_eq.1 first).trans (beq_iff_eq.1 last))
  case string.string.string => exact beq_iff_eq.2 ((beq_iff_eq.1 first).trans (beq_iff_eq.1 last))
  case array.array.array => exact itemsEqual_trans first last
  case record.record.record => exact entriesEqual_trans first last

theorem itemsEqual_trans {us vs ws : List Value} (first : itemsEqual us vs = true)
    (last : itemsEqual vs ws = true) : itemsEqual us ws = true := by
  match us, vs, ws with
  | [], [], [] => rfl
  | u :: us, v :: vs, w :: ws =>
    rw [itemsEqual, Bool.and_eq_true] at first last ⊢
    exact ⟨equals_trans first.1 last.1, itemsEqual_trans first.2 last.2⟩

theorem entriesEqual_trans {us vs ws : List (Value × Value)} (first : entriesEqual us vs = true)
    (last : entriesEqual vs ws = true) : entriesEqual us ws = true := by
  match us, vs, ws with
  | [], [], [] => rfl
  | (key, u) :: us, (key', v) :: vs, (key'', w) :: ws =>
    rw [entriesEqual, Bool.and_eq_true, Bool.and_eq_true] at first last ⊢
    exact ⟨⟨equals_trans first.1.1 last.1.1, equals_trans first.1.2 last.1.2⟩,
      entriesEqual_trans first.2 last.2⟩

end

/-- Entries are the dictionary of pairs: their keys are those of the pairs, each where it first
comes and as it is spelled there, and have the values of the last pairs with equal keys. -/
structure Dictionary (pairs entries : List (Value × Value)) : Prop where
  apart : KeysApart entries
  keys : entries.map (·.1) = (pairs.map (·.1)).eraseDupsBy equals
  last : ∀ entry ∈ entries,
    (pairs.filter fun pair => pair.1.equals entry.1).getLast?.map (·.2) = some entry.2

/-- The entries of a record after pairs were inserted one by one. -/
def inserted (pairs : List (Value × Value)) : List (Value × Value) :=
  pairs.foldl (fun known (key, value) => insertEntry key value known) []

theorem inserted_append (pairs : List (Value × Value)) (key value : Value) :
    inserted (pairs ++ [(key, value)]) = insertEntry key value (inserted pairs) := by
  rw [inserted, List.foldl_append]
  rfl

/-- One more element comes last unless an equal one is there. -/
theorem eraseDupsBy_append {α : Type} (same : α → α → Bool) (list : List α) (a : α) :
    (list ++ [a]).eraseDupsBy same =
      if (list.eraseDupsBy same).any (same a) then list.eraseDupsBy same
        else list.eraseDupsBy same ++ [a] := by
  have loop : ∀ known, List.eraseDupsBy.loop same (list ++ [a]) known =
      if (List.eraseDupsBy.loop same list known).any (same a)
        then List.eraseDupsBy.loop same list known
      else List.eraseDupsBy.loop same list known ++ [a] := by
    induction list with
    | nil =>
      intro known
      simp only [List.nil_append, List.eraseDupsBy.loop, List.any_reverse]
      cases known.any (same a) <;> simp
    | cons first rest ih =>
      intro known
      rw [List.cons_append, List.eraseDupsBy.loop, List.eraseDupsBy.loop]
      cases known.any (same first) with
      | true => exact ih known
      | false => exact ih (first :: known)
  exact loop []

theorem insertEntry_cases {entries : List (Value × Value)} {key value : Value}
    {entry : Value × Value}
    (apart : KeysApart entries) (numbers : key.HasNumbers)
    (member : entry ∈ insertEntry key value entries) :
    (entry ∈ entries ∧ key.equals entry.1 = false) ∨
    (entry.2 = value ∧ key.equals entry.1 = true) := by
  induction entries with
  | nil =>
    obtain rfl := List.mem_singleton.1 member
    exact .inr ⟨rfl, key.equals_of_hasNumbers numbers⟩
  | cons first rest ih =>
    obtain ⟨known, old⟩ := first
    obtain ⟨others, apart⟩ := List.pairwise_cons.1 apart
    rw [insertEntry] at member
    split at member
    · rename_i same
      rcases List.mem_cons.1 member with rfl | further
      · exact .inr ⟨rfl, (equals_comm key known).trans same⟩
      · refine .inl ⟨List.mem_cons_of_mem _ further, Bool.eq_false_iff.2 fun equal => ?_⟩
        exact absurd (equals_trans same equal) (Bool.eq_false_iff.1 (others entry further))
    · rename_i other
      rcases List.mem_cons.1 member with rfl | further
      · exact .inl ⟨List.mem_cons_self, (equals_comm key known).trans (Bool.eq_false_iff.2 other)⟩
      · exact (ih apart further).imp_left fun old => ⟨List.mem_cons_of_mem _ old.1, old.2⟩

theorem Dictionary.insert {pairs entries : List (Value × Value)} {key : Value}
    (before : Dictionary pairs entries) (numbers : key.HasNumbers) (value : Value) :
    Dictionary (pairs ++ [(key, value)]) (insertEntry key value entries) := by
  have known : ((pairs.map (·.1)).eraseDupsBy equals).any key.equals =
      entries.any (·.1.equals key) := by
    rw [← before.keys, List.any_map]
    exact congrArg (entries.any ·) (funext fun entry => equals_comm key entry.1)
  refine ⟨keysApart_insertEntry key value before.apart, ?_, ?_⟩
  · rw [List.map_append, List.map_singleton, eraseDupsBy_append, known]
    split
    · rename_i old
      rw [keys_insertEntry_of_known value old, before.keys]
    · rename_i new
      rw [insertEntry_of_new value (Bool.eq_false_iff.2 new), List.map_append, before.keys]
      rfl
  · intro entry member
    rw [List.filter_append]
    rcases insertEntry_cases before.apart numbers member with ⟨old, other⟩ | ⟨rfl, same⟩
    · rw [List.filter_cons, other, if_neg Bool.false_ne_true, List.filter_nil, List.append_nil]
      exact before.last entry old
    · rw [List.filter_cons, if_pos same, List.filter_nil, List.getLast?_concat]
      rfl

/-- Pairs with keys whose floats are numbers, inserted one by one, make their dictionary. -/
theorem dictionary_inserted (pairs : List (Value × Value))
    (numbers : ∀ pair ∈ pairs, pair.1.HasNumbers) : Dictionary pairs (inserted pairs) := by
  induction pairs using List.reverseRecOn with
  | nil => exact ⟨.nil, rfl, List.forall_mem_nil _⟩
  | append_singleton pairs pair ih =>
    rw [inserted_append]
    exact (ih fun other member => numbers other (List.mem_append_left _ member)).insert
      (numbers pair (List.mem_append_right _ (List.mem_singleton_self _))) pair.2

end Value

namespace Expression

open Reader

/-- An entry of a record as it is written: the tokens of its key and of its value, and what they
spell. -/
structure WrittenEntry where
  keySpan : List Token
  colon : Token
  valueSpan : List Token
  key : Value
  value : Value

namespace WrittenEntry

def tokens (entry : WrittenEntry) : List Token := entry.keySpan ++ entry.colon :: entry.valueSpan

def pair (entry : WrittenEntry) : Value × Value := (entry.key, entry.value)

end WrittenEntry

/-- Tokens that are parts with commas between them. -/
inductive Commas : List (List Token) → List Token → Prop
  | nothing : Commas [] []
  | single {part} : Commas [part] part
  | further {part next rest tail} {comma : Token} (between : comma.kind = .comma)
      (others : Commas (next :: rest) tail) : Commas (part :: next :: rest) (part ++ comma :: tail)

/-- Tokens that spell a literal. A record is the dictionary of its entries in the order in which
they are written. -/
inductive Spells : List Token → Value → Prop
  | scalar {token : Token} {value} (whole : token.kind ∉ pieces) (means : token.value = .ok value) :
      Spells [token] value
  | noItems {token : Token}
      (word : token.kind = .newArray ∨ token.kind = .typeName ∧ token.text = "array") :
      Spells [token] (.array [])
  | noEntries {token : Token}
      (word : token.kind = .newRecord ∨ token.kind = .typeName ∧ token.text = "record") :
      Spells [token] (.record [])
  | parentheses {opening closing : Token} {inner value} (opens : opening.kind = .leftParen)
      (closes : closing.kind = .rightParen) (inside : Spells inner value) :
      Spells (opening :: (inner ++ [closing])) value
  | array {opening closing : Token} {inner} {items : List (List Token × Value)}
      (opens : opening.kind = .leftBracket)
      (closes : closing.kind = .rightBracket) (between : Commas (items.map (·.1)) inner)
      (each : ∀ item ∈ items, Spells item.1 item.2) :
      Spells (opening :: (inner ++ [closing])) (.array (items.map (·.2)))
  | record {opening closing : Token} {inner} {written : List WrittenEntry} {entries}
      (opens : opening.kind = .leftBrace)
      (closes : closing.kind = .rightBrace) (between : Commas (written.map (·.tokens)) inner)
      (colons : ∀ entry ∈ written, entry.colon.kind = .colon)
      (scalars : ∀ entry ∈ written, entry.key.isScalar)
      (keys : ∀ entry ∈ written, Spells entry.keySpan entry.key)
      (values : ∀ entry ∈ written, Spells entry.valueSpan entry.value)
      (dictionary : Value.Dictionary (written.map (·.pair)) entries) :
      Spells (opening :: (inner ++ [closing])) (.record entries)

/-- An entry is a scalar key, a colon and a value. -/
structure WrittenEntry.Holds (entry : WrittenEntry) : Prop where
  colon : entry.colon.kind = .colon
  scalar : entry.key.isScalar = true
  key : Spells entry.keySpan entry.key
  value : Spells entry.valueSpan entry.value

/-- Whatever literal a reader yields is an interpolated string or spelled by the tokens that the
reader takes. -/
def Spelled (reader : Reader Expression) : Prop :=
  ∀ tokens token value rest, reader tokens = .ok (.literal token value, rest) →
    (token.kind ∈ pieces ∧ ∃ text, value = .string text) ∨ ∃ span, tokens = span ++ rest ∧
      Spells span value

theorem hasNumbers_token {token : Token} {value : Value} (means : token.value = .ok value) :
    value.HasNumbers := by
  unfold Token.value Literal.value at means
  split at means
  · split at means
    · cases means
      trivial
    · cases means
  · split at means
    · split at means
      · rename_i finite
        cases means
        exact decide_eq_false (Nat.not_lt_of_lt (of_decide_eq_true finite))
      · cases means
    · cases means
  all_goals
    cases means
    try trivial

/-- A scalar that is spelled holds no float that is not a number. -/
theorem Spells.hasNumbers {span : List Token} {value : Value} (spells : Spells span value)
    (scalar : value.isScalar = true) : value.HasNumbers := by
  induction spells with
  | scalar _ means => exact hasNumbers_token means
  | parentheses _ _ _ ih => exact ih scalar
  | noItems | noEntries | array | record => cases scalar

section Lists

variable {α β : Type} {item : Reader α} {span : β → List Token} {value : β → α} {good : β → Prop}
  (reads : ∀ tokens a rest, item tokens = .ok (a, rest) →
    ∃ part, tokens = span part ++ rest ∧ value part = a ∧ good part)
include reads

/-- What follows a first part: further ones, each after a comma. -/
theorem further_parts (first : β) {tokens rest : List Token} {items : List α}
    (read : many (do if ← eat .comma then return some (← item) else return none) tokens =
      .ok (items, rest)) :
    ∃ (parts : List β) (tail : List Token), tokens = tail ++ rest ∧
      Commas ((first :: parts).map span) (span first ++ tail) ∧ parts.map value = items ∧
      ∀ part ∈ parts, good part := by
  induction count : tokens.length using Nat.strongRecOn generalizing tokens items first with
  | ind count ih =>
    by_cases next : nextKind tokens = .comma
    · obtain ⟨comma, left, rfl, between⟩ := cons_of_nextKind next (by decide)
      have step : (do if ← eat .comma then return some (← item) else return none) (comma :: left) =
          (do return some (← item)) left := bind_of_ok (eat_of_kind between)
      cases found : item left with
      | error unexpected =>
        rw [many, step, bind_of_error found] at read
        cases read
      | ok result =>
        obtain ⟨a, behind⟩ := result
        rw [bind_of_ok found] at step
        obtain ⟨part, rfl, rfl, here⟩ := reads _ _ _ found
        have shorter : behind.length < (comma :: (span part ++ behind)).length := by
          rw [List.length_cons, List.length_append]
          omega
        rw [many_of_some step shorter] at read
        split at read
        · cases read
        · rename_i others rest' repeated
          cases read
          obtain ⟨parts, tail, rfl, commas, rfl, furtherGood⟩ :=
            ih _ (count ▸ shorter) part repeated rfl
          refine ⟨part :: parts, comma :: (span part ++ tail), ?_, .further between commas, rfl,
            List.forall_mem_cons.2 ⟨here, furtherGood⟩⟩
          rw [List.cons_append, List.append_assoc]
    · have step : (do if ← eat .comma then return some (← item) else return none) tokens =
          .ok (none, tokens) :=
        bind_of_ok (eat_of_ne next)
      rw [many_of_none step] at read
      cases read
      refine ⟨[], [], rfl, ?_, rfl, List.forall_mem_nil _⟩
      rw [List.append_nil]
      exact .single

theorem listUpTo_parts {close : Kind} {tokens rest : List Token} {items : List α}
    (read : listUpTo close item tokens = .ok (items, rest)) :
    ∃ (parts : List β) (inner : List Token), tokens = inner ++ rest ∧
      Commas (parts.map span) inner ∧ parts.map value = items ∧ ∀ part ∈ parts, good part := by
  obtain ⟨kind, between, peeked, read⟩ := bind_ok read
  cases peeked
  split at read
  · cases read
    exact ⟨[], [], rfl, .nothing, rfl, List.forall_mem_nil _⟩
  · obtain ⟨a, between, first, read⟩ := bind_ok read
    obtain ⟨others, behind, further, last⟩ := bind_ok read
    cases last
    obtain ⟨part, rfl, rfl, here⟩ := reads _ _ _ first
    obtain ⟨parts, tail, rfl, commas, rfl, furtherGood⟩ := further_parts reads part further
    exact ⟨part :: parts, span part ++ tail, (List.append_assoc ..).symm, commas, rfl,
      List.forall_mem_cons.2 ⟨here, furtherGood⟩⟩

end Lists

theorem chain_eq_literal {left : Expression} {others : List (Token × Expression)} {token : Token}
    {value : Value}
    (same : chain left others = .literal token value) :
    others = [] ∧ left = .literal token value := by
  rcases List.eq_nil_or_concat others with rfl | ⟨front, last, rfl⟩
  · exact ⟨rfl, same⟩
  · rw [chain, List.concat_eq_append, List.foldl_append] at same
    cases same

theorem many_nil {α : Type} {step : Reader (Option α)} {tokens rest : List Token}
    (read : many step tokens = .ok ([], rest)) : step tokens = .ok (none, rest) := by
  rw [many] at read
  split at read
  · cases read
  · rename_i stops
    cases read
    exact stops
  · split at read
    · split at read <;> cases read
    · cases read

theorem takeAny_none {kinds : List Kind} {tokens rest : List Token}
    (read : takeAny kinds tokens = .ok (none, rest)) : rest = tokens := by
  cases tokens with
  | nil =>
    cases read
    rfl
  | cons token tokens =>
    rw [takeAny] at read
    split at read <;> cases read
    rfl

theorem level_literal {operators : List Kind} {operand : Reader Expression}
    {tokens rest : List Token} {token : Token}
    {value : Value} (read : level operators operand tokens = .ok (.literal token value, rest)) :
    operand tokens = .ok (.literal token value, rest) := by
  obtain ⟨first, between, found, read⟩ := bind_ok read
  obtain ⟨others, behind, repeated, last⟩ := bind_ok read
  obtain ⟨same, rfl⟩ := Prod.mk.inj (Except.ok.inj last)
  obtain ⟨rfl, rfl⟩ := chain_eq_literal same
  obtain ⟨operator, after, taken, stops⟩ := bind_ok (many_nil repeated)
  cases operator with
  | none =>
    cases stops
    rw [found, takeAny_none taken]
  | some operator =>
    obtain ⟨right, behind, _, last⟩ := bind_ok stops
    cases last

theorem levels_literal {list : List (List Kind)} {operand : Reader Expression}
    {tokens rest : List Token}
    {token : Token} {value : Value}
    (read : list.foldr level operand tokens = .ok (.literal token value, rest)) :
    operand tokens = .ok (.literal token value, rest) := by
  induction list with
  | nil => exact read
  | cons operators list ih => exact ih (level_literal read)

/-- Where a sign may stand and a literal is read there was no sign. -/
theorem signed_literal {operand : Reader Expression} {tokens rest : List Token} {token : Token}
    {value : Value} (read : signed operand tokens = .ok (.literal token value, rest)) :
    operand tokens = .ok (.literal token value, rest) := by
  cases tokens with
  | nil => exact read
  | cons first tokens =>
    rw [signed] at read
    split at read
    · split at read <;> cases read
    · exact read

section Parts

variable {self : Reader Expression} (parts : Spelled self)
include parts

theorem element_spelled {expected : Expectation} {tokens rest : List Token} {value : Value}
    (read : element self expected tokens = .ok (value, rest)) :
    ∃ span, tokens = span ++ rest ∧ Spells span value := by
  obtain ⟨e, between, found, read⟩ := bind_ok read
  cases e with
  | literal token value =>
    dsimp only at read
    split at read
    · cases read
    · rename_i whole
      cases read
      exact (parts _ _ _ _ found).resolve_left fun piece => whole piece.1
  | _ => cases read

theorem entry_spelled {tokens rest : List Token} {pair : Value × Value}
    (read : entry self tokens = .ok (pair, rest)) :
    ∃ written : WrittenEntry, tokens = written.tokens ++ rest ∧ written.pair = pair ∧
      written.Holds := by
  obtain ⟨keyToken, between, peeked, read⟩ := bind_ok read
  cases peeked
  obtain ⟨key, between, keyRead, read⟩ := bind_ok read
  split at read
  · cases read
  · rename_i scalar
    obtain ⟨colon, behind, marked, read⟩ := bind_ok read
    obtain ⟨value, left, valueRead, last⟩ := bind_ok read
    cases last
    obtain ⟨keySpan, rfl, spellsKey⟩ := element_spelled parts keyRead
    obtain ⟨rfl, colonKind⟩ := cons_of_expect marked
    obtain ⟨valueSpan, rfl, spellsValue⟩ := element_spelled parts valueRead
    refine ⟨⟨keySpan, colon, valueSpan, key, value⟩, ?_, rfl, colonKind, ?_, spellsKey, spellsValue⟩
    · rw [WrittenEntry.tokens, List.append_assoc, List.cons_append]
    · simpa using scalar

theorem arrayLiteral_spelled {bracket : Token} (opens : bracket.kind = .leftBracket)
    {tokens rest : List Token}
    {e : Expression} (read : arrayLiteral self bracket tokens = .ok (e, rest)) :
    ∃ span value, bracket :: tokens = span ++ rest ∧ e = .literal bracket value ∧
      Spells span value := by
  obtain ⟨items, between, listed, read⟩ := bind_ok read
  obtain ⟨closing, behind, closes, last⟩ := bind_ok read
  cases last
  have elements : ∀ tokens a rest, element self .arrayElement tokens = .ok (a, rest) →
      ∃ part : List Token × Value, tokens = part.1 ++ rest ∧ part.2 = a ∧ Spells part.1 part.2 := by
    intro tokens a rest found
    obtain ⟨span, same, spells⟩ := element_spelled parts found
    exact ⟨(span, a), same, rfl, spells⟩
  obtain ⟨parts, inner, rfl, commas, rfl, each⟩ := listUpTo_parts elements listed
  obtain ⟨rfl, kind⟩ := cons_of_expect closes
  exact ⟨_, _, by rw [List.cons_append, List.append_assoc]; rfl, rfl, .array opens kind commas each⟩

theorem recordLiteral_spelled {brace : Token} (opens : brace.kind = .leftBrace)
    {tokens rest : List Token}
    {e : Expression} (read : recordLiteral self brace tokens = .ok (e, rest)) :
    ∃ span entries, brace :: tokens = span ++ rest ∧ e = .literal brace (.record entries) ∧
      Spells span (.record entries) := by
  obtain ⟨pairs, between, listed, read⟩ := bind_ok read
  obtain ⟨closing, behind, closes, last⟩ := bind_ok read
  cases last
  obtain ⟨written, inner, rfl, commas, rfl, each⟩ :=
    listUpTo_parts (fun _ _ _ found => entry_spelled parts found) listed
  obtain ⟨rfl, kind⟩ := cons_of_expect closes
  have numbers : ∀ pair ∈ written.map (·.pair), pair.1.HasNumbers := by
    intro pair member
    obtain ⟨entry, known, rfl⟩ := List.mem_map.1 member
    exact (each entry known).key.hasNumbers (each entry known).scalar
  exact ⟨_, _, by rw [List.cons_append, List.append_assoc]; rfl, rfl,
    .record opens kind commas (fun entry member => (each entry member).colon)
      (fun entry member => (each entry member).scalar) (fun entry member => (each entry member).key)
      (fun entry member => (each entry member).value) (Value.dictionary_inserted _ numbers)⟩

omit parts in
theorem named_literal {name token : Token} {tokens rest : List Token} {value : Value} :
    named self name tokens ≠ .ok (.literal token value, rest) := by
  intro read
  obtain ⟨index, between, _, read⟩ := bind_ok read
  obtain ⟨opens, behind, _, read⟩ := bind_ok read
  split at read
  · obtain ⟨args, left, _, last⟩ := bind_ok read
    have same := (Prod.mk.inj (Except.ok.inj last)).1
    split at same <;> cases same
  · have same := (Prod.mk.inj (Except.ok.inj read)).1
    split at same <;> cases same

omit parts in
/-- An interpolated string is a chain, or a literal string that is marked as a piece. -/
theorem interpolated_literal {start token : Token} (starts : start.kind = .stringInterpolationStart)
    {tokens rest : List Token} {value : Value}
    (read : interpolated self start tokens = .ok (.literal token value, rest)) :
    token.kind ∈ pieces ∧ ∃ text, value = .string text := by
  obtain ⟨stop, between, _, read⟩ := bind_ok read
  cases stop with
  | some stop =>
    obtain ⟨joined, same, read⟩ : ∃ joined : Reader Expression, joined = _ ∧
        joined between = .ok (.literal token value, rest) := ⟨_, rfl, read⟩
    dsimp only at same
    split at same
    · subst same
      cases read
      exact ⟨by rw [starts]; decide, _, rfl⟩
    · subst same
      cases read
  | none =>
    obtain ⟨first, left, _, read⟩ := bind_ok read
    obtain ⟨middle, left, _, read⟩ := bind_ok read
    obtain ⟨stop, left, _, read⟩ := bind_ok read
    obtain ⟨last, left, _, read⟩ := bind_ok read
    have chained := (chain_eq_literal (Prod.mk.inj (Except.ok.inj read)).1).1
    exact absurd chained (List.append_ne_nil_of_right_ne_nil _ (List.cons_ne_nil _ _))

omit parts in
theorem literalOf_literal {first token : Token} {tokens rest : List Token} {value : Value}
    (read : literalOf first tokens = .ok (.literal token value, rest))
    (whole : first.kind ∉ pieces) :
    ∃ span, first :: tokens = span ++ rest ∧ Spells span value := by
  unfold literalOf at read
  cases means : first.value with
  | error fault =>
    rw [means] at read
    cases read
  | ok v =>
    rw [means] at read
    cases read
    exact ⟨[_], rfl, .scalar whole means⟩

theorem operand_spelled : Spelled (operand self) := by
  intro tokens token value rest read
  cases tokens with
  | nil => cases read
  | cons first tokens =>
    simp only [operand] at read
    split at read
    case h_1 opens =>
      obtain ⟨inner, between, found, read⟩ := bind_ok read
      obtain ⟨closing, behind, closes, last⟩ := bind_ok read
      cases last
      refine (parts _ _ _ _ found).imp_right ?_
      rintro ⟨span, same, spells⟩
      obtain ⟨rfl, kind⟩ := cons_of_expect closes
      exact ⟨_, by rw [same, List.cons_append, List.append_assoc]; rfl,
        .parentheses opens kind spells⟩
    case h_2 => exact absurd read named_literal
    case h_8 starts => exact .inl (interpolated_literal starts read)
    case h_9 word =>
      cases read
      exact .inr ⟨[_], rfl, .noItems (.inl word)⟩
    case h_10 word =>
      cases read
      exact .inr ⟨[_], rfl, .noEntries (.inl word)⟩
    case h_11 word =>
      split at read
      · rename_i text
        cases read
        exact .inr ⟨[_], rfl, .noItems (.inr ⟨word, text⟩)⟩
      · split at read
        · rename_i text
          cases read
          exact .inr ⟨[_], rfl, .noEntries (.inr ⟨word, text⟩)⟩
        · cases read
    case h_12 opens =>
      obtain ⟨span, _, same, whole, spells⟩ := arrayLiteral_spelled parts opens read
      cases whole
      exact .inr ⟨span, same, spells⟩
    case h_13 opens =>
      obtain ⟨span, _, same, whole, spells⟩ := recordLiteral_spelled parts opens read
      cases whole
      exact .inr ⟨span, same, spells⟩
    case h_14 =>
      obtain ⟨e, left, _, last⟩ := bind_ok read
      cases last
    case h_15 =>
      split at read
      · obtain ⟨e, left, _, last⟩ := bind_ok read
        cases last
      · cases read
    all_goals
      next kind => exact .inr (literalOf_literal read (by rw [kind]; decide))

theorem fromParts_spelled : Spelled (fromParts self) := fun tokens _ _ rest read =>
  operand_spelled parts tokens _ _ rest (signed_literal (levels_literal read))

end Parts

theorem shorterThan_spelled {tokens : List Token} {expected : Expectation}
    {reader : Reader Expression}
    (parts : ∀ short : List Token, short.length < tokens.length → ∀ token value rest,
      reader short = .ok (.literal token value, rest) →
        (token.kind ∈ pieces ∧ ∃ text, value = .string text) ∨ ∃ span,
          short = span ++ rest ∧ Spells span value) :
    Spelled (shorterThan tokens (fun short _ => reader short) expected) := by
  intro short token value rest read
  unfold shorterThan at read
  split at read
  · rename_i shorter
    exact parts short shorter token value rest read
  · cases short <;> cases read

/-- The literals that are read, interpolated strings apart, are spelled by the tokens that they are
read from. -/
theorem spells_read : Spelled read := by
  intro tokens
  induction count : tokens.length using Nat.strongRecOn generalizing tokens with
  | ind count ih =>
    rw [read]
    apply fromParts_spelled
    exact shorterThan_spelled fun short shorter => ih short.length (count ▸ shorter) short rfl

/-- Insertion one by one makes the dictionary of the pairs inserted. Wherever an expression is read,
an operand that opens a brace is a record, and a record is spelled by the tokens that it is read
from: its entries are the dictionary of those that are written, in their order. -/
theorem records_read :
    (∀ pairs : List (Value × Value), (∀ pair ∈ pairs, pair.1.HasNumbers) →
      Value.Dictionary pairs (Value.inserted pairs)) ∧
    ∀ source tokens e rest,
      operand (shorterThan source (fun short _ => read short) .expression) tokens = .ok (e, rest) →
        (nextKind tokens = .leftBrace → ∃ brace entries, e = .literal brace (.record entries)) ∧
        ∀ token entries, e = .literal token (.record entries) →
          ∃ span, tokens = span ++ rest ∧ Spells span (.record entries) := by
  refine ⟨Value.dictionary_inserted, fun source tokens e rest success => ?_⟩
  have parts : Spelled (shorterThan source (fun short _ => read short) .expression) :=
    shorterThan_spelled fun short _ => spells_read short
  constructor
  · intro next
    obtain ⟨brace, left, rfl, opens⟩ := cons_of_nextKind next (by decide)
    simp only [operand, opens] at success
    obtain ⟨_, entries, _, rfl, _⟩ := recordLiteral_spelled parts opens success
    exact ⟨brace, entries, rfl⟩
  · rintro token entries rfl
    refine (operand_spelled parts tokens token _ rest success).resolve_left ?_
    rintro ⟨_, text, other⟩
    cases other

/-- A record that is written with one key twice, in whose dictionary the second value stands for the
key. -/
theorem records_read_twice :
    let tokens : List Token :=
  [(.leftBrace, "\x7b"), (.integer, "1"), (.colon, ":"), (.integer, "2"), (.comma, ","),
      (.integer, "1"), (.colon, ":"), (.integer, "3"), (.rightBrace, "\x7d")].map
        fun (kind, text) => ⟨kind, some text, .start⟩
    Value.Dictionary [(.integer 1, .integer 2), (.integer 1, .integer 3)]
      [(.integer 1, .integer 3)] ∧
      operand (shorterThan tokens (fun short _ => read short) .expression) tokens =
        .ok (.literal ⟨.leftBrace, some "\x7b", .start⟩ (.record [(.integer 1, .integer 3)]), []) ∧
      Spells tokens (.record [(.integer 1, .integer 3)]) := by
  intro tokens
  have success : operand (shorterThan tokens (fun short _ => read short) .expression) tokens =
      .ok (.literal ⟨.leftBrace, some "\x7b", .start⟩ (.record [(.integer 1, .integer 3)]),
        []) := by cbv
  have numbers : ∀ pair ∈ [(Value.integer 1, Value.integer 2), (.integer 1, .integer 3)],
      pair.1.HasNumbers :=
    List.forall_mem_cons.2 ⟨trivial, List.forall_mem_singleton.2 trivial⟩
  obtain ⟨span, same, spells⟩ := (records_read.2 tokens tokens _ _ success).2 _ _ rfl
  rw [List.append_nil] at same
  exact ⟨records_read.1 _ numbers, success, same ▸ spells⟩

end Expression

end Treecode
