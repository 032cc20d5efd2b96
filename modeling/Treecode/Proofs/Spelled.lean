import Treecode.Proofs.StatementGrammar
import Treecode.Proofs.Words

set_option autoImplicit false

namespace Treecode

/-- Whether a text is the name of something: one word, and no reserved one. -/
def IsName (name : String) : Prop :=
  Lexer.isWord name.toList = true ∧ Lexer.nameKind name.toList = .identifier

mutual

/-- Whether a value can be written as a literal. -/
def Value.IsLiteral : Value → Prop
  | .integer n => 0 ≤ n.toInt
  | .float x => x.isFinite = true ∧ x.negative = false
  | .array items => Value.AllLiteral items
  | .record entries =>
    Value.EntriesLiteral entries ∧ entries.Pairwise fun first last => first.1.equals last.1 = false
  | _ => True

def Value.AllLiteral : List Value → Prop
  | [] => True
  | item :: items => item.IsLiteral ∧ Value.AllLiteral items

def Value.EntriesLiteral : List (Value × Value) → Prop
  | [] => True
  | (key, value) :: entries =>
    key.isScalar = true ∧ key.IsLiteral ∧ value.IsLiteral ∧ Value.EntriesLiteral entries

end

namespace Value

theorem allLiteral_iff {items : List Value} :
    AllLiteral items ↔ ∀ item ∈ items, item.IsLiteral := by
  induction items with
  | nil => simp [AllLiteral]
  | cons item items ih => simp [AllLiteral, ih]

theorem entriesLiteral_iff {entries : List (Value × Value)} :
    EntriesLiteral entries ↔
      ∀ entry ∈ entries, entry.1.isScalar = true ∧ entry.1.IsLiteral ∧ entry.2.IsLiteral := by
  induction entries with
  | nil => simp [EntriesLiteral]
  | cons entry entries ih =>
    obtain ⟨key, value⟩ := entry
    simp [EntriesLiteral, ih, and_assoc]

def KeysApart (entries : List (Value × Value)) : Prop :=
  entries.Pairwise fun first last => first.1.equals last.1 = false

theorem keysApart_insertEntry {entries : List (Value × Value)} (key value : Value)
    (apart : KeysApart entries) : KeysApart (insertEntry key value entries) := by
  unfold KeysApart at apart ⊢
  by_cases known : entries.any (·.1.equals key)
  · have keys := keys_insertEntry_of_known value known
    have mapped : (entries.map (·.1)).Pairwise fun first last => first.equals last = false := by
      rw [List.pairwise_map]
      exact apart
    rw [← keys, List.pairwise_map] at mapped
    exact mapped
  · rw [Bool.not_eq_true] at known
    rw [insertEntry_of_new value known, List.pairwise_append]
    refine ⟨apart, List.pairwise_singleton .., ?_⟩
    intro entry member last single
    rw [List.mem_singleton.1 single]
    rw [List.any_eq_false] at known
    simpa using known entry member

/-- Insertion brings in the key and the value and nothing else. -/
theorem mem_insertEntry {entries : List (Value × Value)} {key value : Value} {entry : Value × Value}
    (member : entry ∈ insertEntry key value entries) :
    entry ∈ entries ∨ entry = (key, value) ∨ ∃ old ∈ entries, entry = (old.1, value) := by
  induction entries with
  | nil =>
    simp only [insertEntry, List.mem_singleton] at member
    exact .inr (.inl member)
  | cons first rest ih =>
    obtain ⟨known, old⟩ := first
    unfold insertEntry at member
    split at member
    · rcases List.mem_cons.1 member with rfl | inner
      · exact .inr (.inr ⟨(known, old), List.mem_cons_self .., rfl⟩)
      · exact .inl (List.mem_cons_of_mem _ inner)
    · rcases List.mem_cons.1 member with rfl | inner
      · exact .inl (List.mem_cons_self ..)
      · rcases ih inner with before | new | ⟨other, listed, same⟩
        · exact .inl (List.mem_cons_of_mem _ before)
        · exact .inr (.inl new)
        · exact .inr (.inr ⟨other, List.mem_cons_of_mem _ listed, same⟩)

/-- A record that is read entry by entry can be written as a literal. -/
theorem isLiteral_inserted (entries known : List (Value × Value))
    (before : EntriesLiteral known ∧ KeysApart known)
    (all : ∀ entry ∈ entries, entry.1.isScalar ∧ entry.1.IsLiteral ∧ entry.2.IsLiteral) :
    (record (entries.foldl (fun known entry => insertEntry entry.1 entry.2 known)
      known)).IsLiteral := by
  induction entries generalizing known with
  | nil => exact before
  | cons entry entries ih =>
    rw [List.foldl_cons]
    apply ih _ _ fun other member => all other (List.mem_cons_of_mem _ member)
    have here := all entry (List.mem_cons_self ..)
    refine ⟨?_, keysApart_insertEntry entry.1 entry.2 before.2⟩
    rw [entriesLiteral_iff] at before ⊢
    intro other member
    rcases mem_insertEntry member with old | rfl | ⟨old, listed, rfl⟩
    · exact before.1 other old
    · exact here
    · exact ⟨(before.1 old listed).1, (before.1 old listed).2.1, here.2.2⟩

end Value

/-- What the text of a token is by its kind. -/
structure Token.Lexed (token : Token) : Prop where
  name : token.kind = .identifier → IsName token.text
  number : token.kind = .integer ∨ token.kind = .float →
    ∃ c more, token.text.toList = c :: more ∧ c.isDigit
  star : token.kind = .operatorMultiplication → token.text = "*"

theorem Token.lexed_of_kind {token : Token}
    (other : token.kind ∉ [.identifier, .integer, .float, .operatorMultiplication]) :
    token.Lexed := by
  simp only [List.mem_cons, List.not_mem_nil, or_false, not_or] at other
  refine ⟨fun kind => absurd kind other.1, ?_, fun kind => absurd kind other.2.2.2⟩
  intro kind
  rcases kind with kind | kind
  · exact absurd kind other.2.1
  · exact absurd kind other.2.2.1

namespace Lexer

open Text

theorem nameKind_ne (text : List Char) :
    nameKind text ≠ .integer ∧ nameKind text ≠ .float ∧ nameKind text ≠
      .operatorMultiplication := by
  unfold nameKind Kind.ofWord?
  split <;> decide

/-- What a plain token is: white space or a comment, a number, a word or a mark. -/
theorem plain_cases {c : Char} {rest : List Char} {kind : Kind} {more : Nat}
    (found : plain c rest = .ok (kind, more)) :
    kind.isTrivia ∨
    (c.isDigit = true ∧ number rest = (kind, more)) ∨
    (isWord (c :: rest.takeWhile continuesName) = true ∧
      kind = nameKind (c :: rest.takeWhile continuesName) ∧
      more = (rest.takeWhile continuesName).length) ∨
    ∃ spelling, (spelling, kind) ∈ marks ∧ spelling.isPrefixOf (c :: rest) ∧
      more = spelling.length - 1 := by
  unfold plain at found
  split at found
  · cases found
    exact .inl rfl
  · rename_i notBlank
    split at found
    · cases found
      exact .inl rfl
    · split at found
      · split at found
        · cases found
          exact .inl rfl
        · cases found
      · split at found
        · rename_i digit
          exact .inr (.inl ⟨digit, Except.ok.inj found⟩)
        · rename_i notDigit
          split at found
          · rename_i starts
            cases found
            refine .inr (.inr (.inl ⟨?_, rfl, rfl⟩))
            simp only [isWord, notBlank, notDigit, starts, Bool.not_false, Bool.and_self,
              List.all_takeWhile]
          · split at found
            · rename_i spelling kind mark
              cases found
              have listed := List.mem_of_find?_eq_some mark
              have fits := List.find?_some mark
              exact .inr (.inr (.inr ⟨spelling, listed, fits, rfl⟩))
            · cases found

theorem number_kind (rest : List Char) : (number rest).1 = .integer ∨ (number rest).1 = .float := by
  unfold number
  dsimp only
  split
  · split
    · exact .inr rfl
    · exact .inl rfl
  · exact .inl rfl

/-- What holds of the kinds of white space and comments, of numbers, words and marks holds of every
plain token. -/
theorem plain_kind (property : Kind → Prop) (trivia : ∀ kind : Kind, kind.isTrivia → property kind)
    (numbers : property .integer ∧ property .float) (words : ∀ text, property (nameKind text))
    (punctuation : ∀ mark ∈ marks, property mark.2) {c : Char} {rest : List Char}
    {kind : Kind} {more : Nat}
    (found : plain c rest = .ok (kind, more)) : property kind := by
  rcases plain_cases found with blank | ⟨_, number⟩ | ⟨_, rfl, _⟩ | ⟨spelling, mark, _⟩
  · exact trivia kind blank
  · have kinds := number_kind rest
    rw [number] at kinds
    rcases kinds with rfl | rfl
    · exact numbers.1
    · exact numbers.2
  · exact words _
  · exact punctuation _ mark

theorem lexemeAt_cases {openings : List Opening} {p : Position} {c : Char} {rest : List Char}
    {lexeme : Lexeme} (found : lexemeAt openings p c rest = .ok lexeme) :
    lexeme.kind ∈ [.stringInterpolationStart, .stringInterpolationStringPart,
      .stringInterpolationEnd, .string] ∨ plain c rest = .ok (lexeme.kind, lexeme.more) := by
  unfold lexemeAt at found
  split at found
  · split at found
    · cases found
    · cases found
      exact .inl (by simp)
    · cases found
      exact .inl (by simp)
  · split at found
    · split at found
      · cases found
      · cases found
        exact .inl (by simp)
      · cases found
        exact .inl (by simp)
    · split at found
      · cases found
      · rename_i same
        cases found
        exact .inr same
      · rename_i same
        cases found
        exact .inr same
      · rename_i same
        cases found
        exact .inr same

theorem mark_kinds : ∀ mark ∈ marks,
    mark.2 ≠ .identifier ∧ mark.2 ≠ .integer ∧ mark.2 ≠ .float ∧
      (mark.2 = .operatorMultiplication → mark.1 = ['*']) := by decide

theorem mark_ne_nil : ∀ mark ∈ marks, mark.1 ≠ [] := by decide

theorem Token.lexed_of_number {token : Token} (kinds : token.kind = .integer ∨ token.kind = .float)
    (digit : ∃ c more, token.text.toList = c :: more ∧ c.isDigit) : token.Lexed := by
  refine ⟨fun name => ?_, fun _ => digit, fun star => ?_⟩
  · rw [name] at kinds
    exact absurd kinds (by decide)
  · rw [star] at kinds
    exact absurd kinds (by decide)

theorem Token.lexed_of_word {token : Token} (word : isWord token.text.toList = true)
    (kind : token.kind = nameKind token.text.toList) : token.Lexed := by
  obtain ⟨integer, float, star⟩ := nameKind_ne token.text.toList
  rw [← kind] at integer float star
  exact ⟨fun name => ⟨word, kind.symm.trans name⟩,
    fun number => number.elim (absurd · integer) (absurd · float), fun found => absurd found star⟩

theorem Token.lexed_of_mark {token : Token} (mark : (token.text.toList, token.kind) ∈ marks) :
    token.Lexed := by
  obtain ⟨name, integer, float, star⟩ := mark_kinds _ mark
  refine ⟨fun found => absurd found name,
    fun number => number.elim (absurd · integer) (absurd · float), ?_⟩
  intro found
  have alone : token.text.toList = ['*'] := star found
  exact String.ofList_toList.symm.trans (congrArg String.ofList alone)

/-- The tokens of a text are spelled as their kinds ask. -/
theorem lexed_of_lexemeAt {openings : List Opening} {p : Position} {c : Char} {rest : List Char}
    {lexeme : Lexeme} (found : lexemeAt openings p c rest = .ok lexeme) :
    Token.Lexed ⟨lexeme.kind, some (String.ofList (c :: rest.take lexeme.more)), p⟩ := by
  have text : (String.ofList (c :: rest.take lexeme.more)).toList = c :: rest.take lexeme.more :=
    String.toList_ofList
  rcases lexemeAt_cases found with string | plainly
  · apply Token.lexed_of_kind
    intro kind
    dsimp only at kind
    revert string kind
    generalize lexeme.kind = kind
    revert kind
    decide
  · rcases plain_cases plainly with trivia | ⟨digit, same⟩ | ⟨word, kind, more⟩ |
      ⟨spelling, mark, fits, more⟩
    · apply Token.lexed_of_kind
      intro kind
      dsimp only at kind
      revert trivia kind
      generalize lexeme.kind = kind
      cases kind <;> decide
    · have kinds := number_kind rest
      rw [same] at kinds
      exact Token.lexed_of_number kinds ⟨c, rest.take lexeme.more, text, digit⟩
    · have whole : (String.ofList (c :: rest.take lexeme.more)).toList =
          c :: rest.takeWhile continuesName := by
        rw [text, more, ← List.prefix_iff_eq_take.1 (List.takeWhile_prefix continuesName)]
      exact Token.lexed_of_word (whole ▸ word) (whole ▸ kind)
    · have positive : 0 < spelling.length := List.length_pos_iff.2 (mark_ne_nil _ mark)
      have whole : (String.ofList (c :: rest.take lexeme.more)).toList = spelling := by
        rw [text, List.prefix_iff_eq_take.1 (List.isPrefixOf_iff_prefix.1 fits), more,
          ← List.take_succ_cons, Nat.sub_one_add_one (Nat.ne_of_gt positive)]
      exact Token.lexed_of_mark (whole ▸ mark)

/-- What holds of each token that is read off a text, from the interpolations that are open in front
of it, holds of all tokens of the text. -/
theorem forall_of_tokensFrom (known : List Opening → Prop) {property : Token → Prop}
    (step : ∀ openings p c rest lexeme, known openings → lexemeAt openings p c rest = .ok lexeme →
      property ⟨lexeme.kind, some (String.ofList (c :: rest.take lexeme.more)), p⟩ ∧
        known lexeme.openings)
    (stop : ∀ p, property ⟨.eof, none, p⟩) {openings : List Opening} (start : known openings)
    {p : Position}
    {text : List Char} {tokens : List Token} (success : tokensFrom openings p text = .ok tokens) :
    ∀ token ∈ tokens, property token := by
  induction openings, p, text, tokens, success using tokensFrom_induct with
  | stop p => exact List.forall_mem_singleton.2 (stop p)
  | lexeme openings p c rest lexeme tokens found _ _ ih =>
    obtain ⟨here, next⟩ := step _ _ _ _ _ start found
    exact List.forall_mem_cons.2 ⟨here, ih next⟩

theorem lexed_of_tokensFrom {openings : List Opening} {p : Position} {text : List Char}
    {tokens : List Token} (success : tokensFrom openings p text = .ok tokens) :
    ∀ token ∈ tokens, token.Lexed :=
  forall_of_tokensFrom (fun _ => True) (fun _ _ _ _ _ _ found => ⟨lexed_of_lexemeAt found, trivial⟩)
    (fun _ => Token.lexed_of_kind (by simp)) trivial success

end Lexer

theorem lexed_of_tokenize {source file : String} {tokens : List Token}
    (success : tokenize source file = .ok tokens) : ∀ token ∈ tokens, token.Lexed := by
  unfold tokenize at success
  split at success
  · rename_i found
    cases success
    exact Lexer.lexed_of_tokensFrom found
  · cases success

namespace Decimal

theorem splitSign_digit {c : Char} (rest : List Char) (digit : c.isDigit) :
    splitSign (c :: rest) = (false, c :: rest) := by
  unfold splitSign
  split
  · rename_i same
    cases same
    cases digit
  · rename_i same
    cases same
    cases digit
  · rfl

theorem fieldOf_le (c : Nat) (e : Int) : fieldOf c e ≤ Double.infinityField := by
  unfold fieldOf
  dsimp only
  split
  · exact Nat.zero_le _
  · split
    · exact Nat.le_refl _
    · exact Double.fieldOfRatio_le _ _

/-- A number without a sign is not negative. -/
theorem integer?_unsigned {c : Char} {more : List Char} {n : Int64} (digit : c.isDigit)
    (read : integer? (c :: more) = some n) : 0 ≤ n.toInt := by
  unfold integer? at read
  rw [splitSign_digit more digit] at read
  simp only [Option.bind_eq_bind, Option.bind_eq_some_iff, Bool.false_eq_true, ↓reduceIte,
    Option.ite_none_right_eq_some, Option.some.injEq] at read
  obtain ⟨magnitude, _, ⟨low, high⟩, rfl⟩ := read
  rw [Int64.toInt_ofInt_of_le low (Int.lt_of_le_sub_one high)]
  exact Int.natCast_nonneg magnitude

theorem double?_unsigned {c : Char} {more : List Char} {x : Double} (digit : c.isDigit)
    (read : double? (c :: more) = some x) : x.negative = false := by
  have below : Double.infinityField < Double.signWeight := by decide
  unfold double? at read
  rw [splitSign_digit more digit] at read
  dsimp only at read
  split at read
  · cases read
    exact Double.negative_ofField below
  · split at read
    · cases read
      exact Double.negative_ofField (by decide)
    · obtain ⟨field, found, rfl⟩ := Option.map_eq_some_iff.1 read
      apply Double.negative_ofField
      unfold magnitude? at found
      dsimp only at found
      split at found
      · cases found
      · simp only [Option.bind_eq_bind, Option.bind_eq_some_iff, Option.pure_def,
          Option.some.injEq] at found
        obtain ⟨e, _, rfl⟩ := found
        exact Nat.lt_of_le_of_lt (fieldOf_le _ _) below

end Decimal

theorem Token.isLiteral_value {token : Token} {v : Value} (lexed : token.Lexed)
    (spelled : token.value = .ok v) : v.IsLiteral := by
  unfold Token.value Literal.value at spelled
  split at spelled
  · rename_i kind
    split at spelled
    · rename_i n found
      cases spelled
      obtain ⟨c, more, text, digit⟩ := lexed.number (.inl kind)
      rw [text] at found
      exact Decimal.integer?_unsigned digit found
    · cases spelled
  · rename_i kind
    split at spelled
    · rename_i x found
      split at spelled
      · rename_i finite
        cases spelled
        obtain ⟨c, more, text, digit⟩ := lexed.number (.inr kind)
        rw [text] at found
        exact ⟨finite, Decimal.double?_unsigned digit found⟩
      · cases spelled
    · cases spelled
  · cases spelled
    trivial
  · cases spelled
    trivial
  all_goals
    cases spelled
    try trivial

def Spelling.lexed : Spelling := ⟨Token.Lexed, Value.IsLiteral⟩

theorem Spelling.lexed_literalsFrom : LiteralsFrom .lexed := by
  refine ⟨fun _ _ lexed spelled => Token.isLiteral_value lexed spelled, fun _ => trivial, ?_, ?_⟩
  · intro items all
    exact Value.allLiteral_iff.2 all
  · intro entries all
    apply Value.isLiteral_inserted entries [] _ all
    exact ⟨trivial, List.Pairwise.nil⟩

/-- A program that was read from a text has proper names, and its literals can be written again. -/
theorem Program.lexed_ofSource {source file : String} {program : Program}
    (read : Program.ofSource source file = .ok program) :
    Statement.AllRegular .lexed program.statements := by
  unfold Program.ofSource at read
  split at read
  · rename_i tokens lexed
    exact (Program.regular_ofTokens Spelling.lexed_literalsFrom (lexed_of_tokenize lexed) read).2
  · cases read

/-- The name of a variable or a function is a name. -/
theorem Spelling.Name.isName {name : Token} (named : Spelling.lexed.Name name) : IsName name.text :=
  named.2.name named.1

end Treecode
