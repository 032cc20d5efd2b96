import Treecode.Proofs.TakenWords
import Treecode.Proofs.Translation

set_option autoImplicit false

namespace Treecode

open Word Reader

def Word.literalHeads : List Kind :=
  [.nil, .integer, .float, .boolean, .string, .newArray, .newRecord, .leftBracket, .leftBrace]

def Word.operandHeads : List Kind :=
  literalHeads ++ [.identifier, .leftParen, .typeStatement, .isIntStatement, .isFloatStatement,
    .isStringStatement, .isBoolStatement, .isArrayStatement, .isRecordStatement,
      .isFunctionStatement,
    .isNilStatement]

def Word.expressionHeads : List Kind := operandHeads ++ Expression.signs

def Word.StartsIn (heads : List Kind) (words : List Word) : Prop :=
  ∃ word rest, words = word :: rest ∧ word.1 ∈ heads

theorem Word.StartsIn.mono {heads more : List Kind} {words : List Word}
    (starts : StartsIn heads words) (fewer : heads ⊆ more) : StartsIn more words := by
  obtain ⟨word, rest, rfl, fits⟩ := starts
  exact ⟨word, rest, rfl, fewer fits⟩

theorem Word.StartsIn.append {heads : List Kind} {words : List Word} (starts : StartsIn heads words)
    (more : List Word) : StartsIn heads (words ++ more) := by
  obtain ⟨word, rest, rfl, fits⟩ := starts
  exact ⟨word, rest ++ more, rfl, fits⟩

theorem Word.StartsIn.head_ne {heads : List Kind} {words : List Word} {close : Kind}
    (starts : StartsIn heads words) (other : close ∉ heads) :
    ∃ word rest, words = word :: rest ∧ word.1 ≠ close := by
  obtain ⟨word, rest, rfl, fits⟩ := starts
  refine ⟨word, rest, rfl, ?_⟩
  rintro rfl
  exact other fits

theorem Value.startsIn_words (v : Value) : StartsIn literalHeads v.words := by
  cases v with
  | nil | integer | float | boolean | string => exact ⟨_, [], rfl, by simp [literalHeads]⟩
  | array items =>
    unfold Value.words
    split
    · exact ⟨_, [], rfl, by simp [literalHeads]⟩
    · exact ⟨_, _, rfl, by simp [literalHeads, leftBracket]⟩
  | record entries =>
    unfold Value.words
    split
    · exact ⟨_, [], rfl, by simp [literalHeads]⟩
    · exact ⟨_, _, rfl, by simp [literalHeads, leftBrace]⟩

theorem Value.itemWords_eq (items : List Value) :
    Value.itemWords items = items.map Value.words := by
  induction items with
  | nil => rfl
  | cons item items ih => simp [Value.itemWords, ih]

theorem Value.entryWords_eq (entries : List (Value × Value)) :
    Value.entryWords entries = entries.map fun entry =>
      entry.1.words ++ colon :: entry.2.words := by
  induction entries with
  | nil => rfl
  | cons entry entries ih =>
    obtain ⟨key, value⟩ := entry
    simp [Value.entryWords, ih]

theorem Value.insertEntry_all {entries known : List (Value × Value)}
    (apart : KeysApart (known ++ entries)) :
    entries.foldl (fun known entry => insertEntry entry.1 entry.2 known) known =
      known ++ entries := by
  induction entries generalizing known with
  | nil => simp
  | cons entry entries ih =>
    have new : known.any (·.1.equals entry.1) = false := by
      rw [List.any_eq_false]
      intro old member
      have different := (List.pairwise_append.1 apart).2.2 old member entry (List.mem_cons_self ..)
      rw [different]
      exact Bool.false_ne_true
    have shifted : known ++ entry :: entries = known ++ [entry] ++ entries := by simp
    rw [shifted] at apart
    rw [List.foldl_cons, insertEntry_of_new entry.2 new, ih apart, shifted]

theorem eq_of_forall₂ {α : Type} {list read : List α}
    (same : List.Forall₂ (fun a b => b = a) list read) : read = list := by
  induction same with
  | nil => rfl
  | cons first _ ih => rw [first, ih]

namespace Expression

variable {bound : Nat} {self : Reader Expression}

def AfterOperand (kind : Kind) : Prop := kind ≠ .leftBracket ∧ kind ≠ .leftParen

def Ends (kind : Kind) : Prop := AfterOperand kind ∧ kind ∉ levels.flatten

instance : DecidablePred AfterOperand := fun _ => inferInstanceAs (Decidable (_ ∧ _))

instance : DecidablePred Ends := fun _ => inferInstanceAs (Decidable (_ ∧ _))

/-- Whether a reader reads expressions, on lists shorter than a bound. -/
def Agrees (bound : Nat) (self : Reader Expression) : Prop :=
  ∀ tokens, tokens.length < bound → self tokens = read tokens

/-- What is read in the grammar where it refers to itself only on shorter lists. -/
theorem takes_read {words : List Word} {follows : Kind → Prop} {property : Expression → Prop}
    (parts : ∀ bound self, Agrees bound self →
      Takes (bound + 1) (fromParts self) words follows property)
    (bound : Nat) : Takes bound read words follows property := by
  intro tokens more short same follow
  have agree : Agrees tokens.length (shorterThan tokens (fun rest _ => read rest) .expression) := by
    intro rest shorter
    rw [shorterThan_of_lt shorter]
  obtain ⟨e, rest, found, left, holds⟩ :=
    parts tokens.length _ agree tokens more (by omega) same follow
  refine ⟨e, rest, ?_, left, holds⟩
  rw [read]
  exact found

section Levels

variable {operand : Reader Expression} {words : List Word} {follows : Kind → Prop}
  {property : Expression → Prop}

def further (operators : List Kind) (operand : Reader Expression) :
    Reader (Option (Token × Expression)) := do
  match ← takeAny operators with
  | some operator => return some (operator, ← operand)
  | none => return none

theorem level_eq (operators : List Kind) (operand : Reader Expression) :
    level operators operand = do
      let first ← operand
      let others ← many (further operators operand)
      return chain first others := rfl

theorem takes_further_none (operators : List Kind) (operand : Reader Expression) :
    Takes bound (further operators operand) [] (· ∉ operators) (· = none) := by
  refine Takes.bind (takes_takeAny_none operators) ?_ (fun _ follow => follow)
  rintro taken rfl
  exact Takes.pure _ rfl

/-- A level without an operator of its own passes an operand on. -/
theorem takes_level_pass (operators : List Kind)
    (takes : Takes bound operand words follows property) :
    Takes bound (level operators operand) words (fun kind => follows kind ∧ kind ∉ operators)
      property := by
  have nothing : Takes bound (many (further operators operand)) []
      (fun kind => follows kind ∧ kind ∉ operators) (· = []) := by
    intro tokens more short same follow
    obtain ⟨taken, rest, read, left, rfl⟩ :=
      takes_further_none operators operand tokens more short same follow.2
    exact ⟨[], rest, many_of_none read, left, rfl⟩
  rw [level_eq, ← List.append_nil words]
  refine Takes.bind takes ?_ fun more follow => follow.1
  intro first holds
  rw [← List.append_nil ([] : List Word)]
  refine Takes.bind nothing ?_ fun _ follow => follow
  rintro others rfl
  exact Takes.pure _ holds

theorem takes_levels_pass (list : List (List Kind))
    (takes : Takes bound operand words follows property) :
    Takes bound (list.foldr level operand) words (fun kind => follows kind ∧ kind ∉ list.flatten)
      property := by
  induction list with
  | nil => exact takes.mono (fun _ follow => follow.1) fun _ holds => holds
  | cons operators list ih =>
    refine (takes_level_pass operators ih).mono ?_ fun _ holds => holds
    intro kind follow
    rw [List.flatten_cons, List.mem_append, not_or] at follow
    exact ⟨⟨follow.1, follow.2.2⟩, follow.2.1⟩

theorem takes_signed_pass {heads : List Kind} (takes : Takes bound operand words follows property)
    (starts : StartsIn heads words) (plain : ∀ kind ∈ heads, kind ∉ signs) :
    Takes bound (signed operand) words follows property := by
  intro tokens more short same follow
  obtain ⟨e, rest, read, left, holds⟩ := takes tokens more short same follow
  obtain ⟨word, others, rfl, fits⟩ := starts
  refine ⟨e, rest, ?_, left, holds⟩
  obtain ⟨token, tail, rfl, first, _⟩ := cons_of_words same
  have noSign : token.kind ∉ signs := by
    rw [kind_of_word first]
    exact plain _ fits
  unfold signed
  rw [if_neg noSign]
  exact read

theorem takes_signed {word : Word} {opcode : Opcode} {code : Instruction} (sign : word.1 ∈ signs)
    (operation : Compile.unary? word.1 = some opcode)
    (takes : Takes bound (signed operand) words follows (·.code? = some code)) :
    Takes (bound + 1) (signed operand) (word :: words) follows
      (·.code? = some (.unary opcode code)) := by
  intro tokens more short same follow
  obtain ⟨token, tail, rfl, first, left⟩ := cons_of_words same
  rw [List.length_cons] at short
  obtain ⟨e, rest, read, left', holds⟩ := takes tail more (by omega) left follow
  have kind := kind_of_word first
  refine ⟨.unary token e, rest, ?_, left', ?_⟩
  · unfold signed
    rw [if_pos (by rw [kind]; exact sign), read]
  · simp only [Expression.code?, kind, operation, holds]
    rfl

theorem takes_level {word : Word} {words' : List Word} {operators : List Kind} {opcode : Opcode}
    {left right : Instruction} (known : word.1 ∈ operators)
    (operation : Compile.binary? word.1 = some opcode) (between : follows word.1)
    (takesLeft : Takes bound operand words follows (·.code? = some left))
    (takesRight : Takes bound operand words' follows (·.code? = some right)) :
    Takes bound (level operators operand) (words ++ word :: words')
      (fun kind => follows kind ∧ kind ∉ operators)
      (·.code? = some (.binary opcode left right)) := by
  have step : Takes bound (further operators operand) (word :: words') follows fun item =>
      ∃ other, item = some other ∧ other.1.word = word ∧ other.2.code? = some right := by
    refine Takes.bind (takes_takeAny known) ?_ fun _ _ => trivial
    rintro taken ⟨token, rfl, first⟩
    rw [← List.append_nil words']
    refine Takes.bind takesRight ?_ fun _ follow => follow
    intro e holds
    exact Takes.pure _ ⟨(token, e), rfl, first, holds⟩
  have one : Takes bound (many (further operators operand)) (word :: words')
      (fun kind => follows kind ∧ kind ∉ operators) fun others =>
        ∃ other, others = [other] ∧ other.1.word = word ∧ other.2.code? = some right := by
    intro tokens more short same follow
    obtain ⟨item, rest, read, left, other, rfl, first, holds⟩ :=
      step tokens more short same follow.1
    have length := length_of_words same left
    rw [List.length_cons] at length
    have shorter : rest.length < bound := by omega
    obtain ⟨nothing, rest', read', left', rfl⟩ :=
      takes_further_none operators operand rest more shorter left follow.2
    refine ⟨[other], rest', ?_, left', other, rfl, first, holds⟩
    rw [many_of_some read (by omega), many_of_none read']
  rw [level_eq]
  refine Takes.bind takesLeft ?_ fun _ _ => between
  intro first holdsLeft
  rw [← List.append_nil (word :: words')]
  refine Takes.bind one ?_ fun _ follow => follow
  rintro others ⟨other, rfl, same, holdsRight⟩
  apply Takes.pure
  show (Expression.binary other.1 first other.2).code? = _
  have kind := kind_of_word same
  simp only [Expression.code?, kind, operation, holdsLeft, holdsRight]
  rfl

end Levels

/-- A literal of a given value that is no piece of an interpolated string. -/
def IsLiteralOf (v : Value) (e : Expression) : Prop :=
  ∃ token, e = .literal token v ∧ token.kind ∉ pieces

theorem takes_fromParts {heads : List Kind} {words : List Word} {follows : Kind → Prop}
    {property : Expression → Prop} (takes : Takes bound (operand self) words follows property)
    (starts : StartsIn heads words) (plain : ∀ kind ∈ heads, kind ∉ signs) :
    Takes bound (fromParts self) words
      (fun kind => follows kind ∧ kind ∉ levels.flatten) property :=
  takes_levels_pass levels (takes_signed_pass takes starts plain)

theorem takes_scalar {word : Word} {v : Value}
    (kind : word.1 ∈ [Kind.integer, .float, .string, .boolean, .nil])
    (spells : Literal.value word.1 word.2 = .ok v) :
    Takes (bound + 1) (operand self) [word] (fun _ => True) (IsLiteralOf v) := by
  apply Takes.head literalOf
  · intro token rest first
    have same := kind_of_word first
    simp only [List.mem_cons, List.not_mem_nil, or_false] at kind
    rcases kind with kind | kind | kind | kind | kind <;>
      · rw [kind] at same
        simp only [operand, same]
  · intro token first
    have value : token.value = .ok v := by
      unfold Token.value
      rw [kind_of_word first, text_of_word first, spells]
    have whole : token.kind ∉ pieces := by
      rw [kind_of_word first]
      revert kind
      generalize word.1 = kind
      revert kind
      decide
    unfold literalOf
    rw [value]
    exact Takes.pure _ ⟨token, rfl, whole⟩

theorem takes_empty {word : Word} {v : Value}
    (empty : word.1 = .newArray ∧ v = .array [] ∨ word.1 = .newRecord ∧ v = .record []) :
    Takes (bound + 1) (operand self) [word] (fun _ => True) (IsLiteralOf v) := by
  apply Takes.head fun token => Pure.pure (.literal token v)
  · intro token rest first
    have same := kind_of_word first
    rcases empty with ⟨kind, rfl⟩ | ⟨kind, rfl⟩ <;>
      · rw [kind] at same
        simp only [operand, same]
        rfl
  · intro token first
    have same := kind_of_word first
    have whole : token.kind ∉ pieces := by
      rcases empty with ⟨kind, _⟩ | ⟨kind, _⟩ <;>
        · rw [same, kind]
          decide
    exact Takes.pure _ ⟨token, rfl, whole⟩

/-- A part of an array or a record. -/
theorem takes_element {words : List Word} {v : Value} (expected : Expectation)
    (takes : Takes bound self words Ends (IsLiteralOf v)) :
    Takes bound (element self expected) words Ends (· = v) := by
  rw [← List.append_nil words]
  refine Takes.bind takes ?_ fun _ follow => follow
  rintro e ⟨token, rfl, whole⟩
  show Takes bound (if token.kind ∈ pieces then failAt (some token) .literalExpression expected
    else Pure.pure v) [] Ends (· = v)
  rw [if_neg whole]
  exact Takes.pure _ rfl

theorem takes_arrayLiteral {items : List Value}
    (each : ∀ item ∈ items, Takes bound self item.words Ends (IsLiteralOf item)) :
    Takes (bound + 1) (operand self)
      (leftBracket :: (withCommas (Value.itemWords items) ++ [rightBracket]))
      (fun _ => True) (IsLiteralOf (.array items)) := by
  apply Takes.head (arrayLiteral self)
  · intro token rest first
    have same : token.kind = .leftBracket := kind_of_word first
    simp only [operand, same]
  · intro token first
    have same : token.kind = .leftBracket := kind_of_word first
    rw [Value.itemWords_eq]
    refine Takes.bind (Takes.listUpTo
      (fun item member => takes_element .arrayElement (each item member))
      (fun item _ => item.startsIn_words.head_ne (by decide)) (by decide) (by decide) (by decide))
        ?_
      fun _ _ => rfl
    intro read all
    rw [eq_of_forall₂ all, ← List.append_nil [rightBracket]]
    refine Takes.bind (takes_expectMark "]" rfl) ?_ fun _ _ => trivial
    intro mark _
    exact Takes.pure _ ⟨token, rfl, by rw [same]; decide⟩

theorem takes_entry {key value : Value} (scalar : key.isScalar)
    (takesKey : Takes bound self key.words Ends (IsLiteralOf key))
    (takesValue : Takes bound self value.words Ends (IsLiteralOf value)) :
    Takes bound (entry self) (key.words ++ colon :: value.words) Ends (· = (key, value)) := by
  have peeks : Takes bound peek [] (fun _ => True) fun _ => True :=
    fun tokens more _ same _ => ⟨_, tokens, rfl, same, trivial⟩
  rw [← List.nil_append (key.words ++ colon :: value.words)]
  refine Takes.bind peeks ?_ fun _ _ => trivial
  intro keyToken _
  refine Takes.bind (takes_element .recordKey takesKey) ?_ fun _ _ => (by decide : Ends .colon)
  rintro read rfl
  simp only [scalar, Bool.not_true, Bool.false_eq_true, ↓reduceIte]
  refine Takes.bind (takes_expectMark ":" rfl) ?_ fun _ _ => trivial
  intro mark _
  rw [← List.append_nil value.words]
  refine Takes.bind (takes_element .recordValue takesValue) ?_ fun _ follow => follow
  rintro read' rfl
  exact Takes.pure _ rfl

theorem takes_recordLiteral {entries : List (Value × Value)} (apart : Value.KeysApart entries)
    (each : ∀ entry ∈ entries, entry.1.isScalar ∧
      Takes bound self entry.1.words Ends (IsLiteralOf entry.1) ∧
      Takes bound self entry.2.words Ends (IsLiteralOf entry.2)) :
    Takes (bound + 1) (operand self)
      (leftBrace :: (withCommas (Value.entryWords entries) ++ [rightBrace]))
      (fun _ => True) (IsLiteralOf (.record entries)) := by
  apply Takes.head (recordLiteral self)
  · intro token rest first
    have same : token.kind = .leftBrace := kind_of_word first
    simp only [operand, same]
  · intro token first
    have same : token.kind = .leftBrace := kind_of_word first
    rw [Value.entryWords_eq]
    refine Takes.bind (Takes.listUpTo
      (fun entry member => takes_entry (each entry member).1 (each entry member).2.1
        (each entry member).2.2)
      (fun entry _ => (entry.1.startsIn_words.append _).head_ne (by decide)) (by decide) (by decide)
      (by decide)) ?_ fun _ _ => rfl
    intro read all
    rw [eq_of_forall₂ all, ← List.append_nil [rightBrace]]
    refine Takes.bind (takes_expectMark "\x7d" rfl) ?_ fun _ _ => trivial
    intro mark _
    have inserted := @Value.insertEntry_all entries [] apart
    exact Takes.pure _ ⟨token,
      congrArg (fun kept => Expression.literal token (.record kept)) inserted, by rw [same]; decide⟩

theorem takes_read_operand {words : List Word} {property : Expression → Prop}
    {follows : Kind → Prop} {heads : List Kind} (fewer : ∀ kind, Ends kind → follows kind)
    (takes : ∀ bound self, Agrees bound self →
      Takes (bound + 1) (operand self) words follows property)
    (starts : StartsIn heads words) (plain : ∀ kind ∈ heads, kind ∉ signs) (bound : Nat) :
    Takes bound read words Ends property := by
  apply takes_read
  intro bound self agree
  refine (takes_fromParts (takes bound self agree) starts plain).mono ?_ fun _ holds => holds
  intro kind ends
  exact ⟨fewer kind ends, ends.2⟩

theorem literalHeads_plain : ∀ kind ∈ literalHeads, kind ∉ signs := by decide

mutual

theorem takes_operand_value (v : Value) (literal : v.IsLiteral) (bound : Nat)
    (self : Reader Expression) (agree : Agrees bound self) :
    Takes (bound + 1) (operand self) v.words (fun _ => True) (IsLiteralOf v) := by
  cases v with
  | nil => exact @takes_scalar bound self (.nil, "nil") .nil (by decide) rfl
  | integer n =>
    exact @takes_scalar bound self (.integer, Value.integerText n) (.integer n) (by simp)
      (Literal.value_integerText literal).2
  | float x =>
    exact @takes_scalar bound self (.float, Value.floatText x) (.float x) (by simp)
      (Literal.value_floatText literal.1 literal.2)
  | boolean b =>
    cases b with
    | true => exact @takes_scalar bound self (.boolean, "true") (.boolean true) (by decide) rfl
    | false => exact @takes_scalar bound self (.boolean, "false") (.boolean false) (by decide) rfl
  | string text =>
    exact @takes_scalar bound self (.string, Value.stringText text) (.string text) (by simp)
      (Literal.value_stringText text)
  | array items =>
    unfold Value.words
    split
    · rename_i empty
      rw [List.isEmpty_iff.1 empty]
      exact takes_empty (.inl ⟨rfl, rfl⟩)
    · exact takes_arrayLiteral fun item member =>
        (takes_items items literal item member bound).congr agree
  | record entries =>
    unfold Value.words
    split
    · rename_i empty
      rw [List.isEmpty_iff.1 empty]
      exact takes_empty (.inr ⟨rfl, rfl⟩)
    · apply takes_recordLiteral literal.2
      intro entry member
      obtain ⟨scalar, key, value⟩ := takes_entries entries literal.1 entry member bound
      exact ⟨scalar, key.congr agree, value.congr agree⟩

theorem takes_items (items : List Value) (literal : Value.AllLiteral items) :
    ∀ item ∈ items, ∀ bound, Takes bound read item.words Ends (IsLiteralOf item) := by
  cases items with
  | nil =>
    intro item member
    cases member
  | cons first rest =>
    have others := takes_items rest literal.2
    have here := takes_read_operand (fun _ _ => trivial) (takes_operand_value first literal.1)
      first.startsIn_words literalHeads_plain
    exact List.forall_mem_cons.2 ⟨here, others⟩

theorem takes_entries (entries : List (Value × Value)) (literal : Value.EntriesLiteral entries) :
    ∀ entry ∈ entries, ∀ bound, entry.1.isScalar ∧
      Takes bound read entry.1.words Ends (IsLiteralOf entry.1) ∧
      Takes bound read entry.2.words Ends (IsLiteralOf entry.2) := by
  match entries with
  | [] =>
    intro entry member
    cases member
  | (key, value) :: rest =>
    have others := takes_entries rest literal.2.2.2
    have keyTakes := takes_read_operand (fun _ _ => trivial) (takes_operand_value key literal.2.1)
      key.startsIn_words literalHeads_plain
    have valueTakes := takes_read_operand (fun _ _ => trivial)
      (takes_operand_value value literal.2.2.1) value.startsIn_words literalHeads_plain
    exact List.forall_mem_cons.2
      ⟨fun bound => ⟨literal.1, keyTakes bound, valueTakes bound⟩, others⟩

end

theorem takes_value (v : Value) (literal : v.IsLiteral) (bound : Nat) :
    Takes bound read v.words Ends (IsLiteralOf v) :=
  takes_read_operand (fun _ _ => trivial) (takes_operand_value v literal) v.startsIn_words
    literalHeads_plain bound

end Expression

namespace Instruction

theorem startsIn_operandWords {i : Instruction}
    (starts : i.isOperator = false → StartsIn operandHeads i.words) :
    StartsIn operandHeads (operandWords i i.words) := by
  unfold operandWords
  cases operator : i.isOperator with
  | true => exact ⟨leftParen, _, rfl, by decide⟩
  | false => exact starts operator

theorem testWord_head {kind : Kind} {word : String} (tests : kind.testWord? = some word) :
    (reserved word).1 ∈ operandHeads ∧ (reserved word).1.testedType? = some kind := by
  cases kind
  all_goals first
    | (cases tests; decide)
    | cases tests

/-- The words of an expression start as an expression starts, and as an operand starts where it
applies no operator. -/
theorem startsIn_words (i : Instruction) (written : i.IsExpression) :
    StartsIn expressionHeads i.words ∧ (i.isOperator = false → StartsIn operandHeads i.words) := by
  have wider : operandHeads ⊆ expressionHeads := List.subset_append_left _ _
  have operand : StartsIn operandHeads i.words →
      StartsIn expressionHeads i.words ∧ (i.isOperator = false → StartsIn operandHeads i.words) :=
    fun starts => ⟨starts.mono wider, fun _ => starts⟩
  cases i with
  | binary opcode left right =>
    have starts := startsIn_operandWords (startsIn_words left written.2.1).2
    refine ⟨(starts.append _).mono wider, ?_⟩
    intro nothing
    cases nothing
  | unary opcode operand =>
    refine ⟨⟨_, _, rfl, ?_⟩, ?_⟩
    · obtain ⟨kind, found⟩ := Option.isSome_iff_exists.1 written.1
      have sign : kind ∈ Expression.signs := List.mem_of_find?_eq_some found
      show opcode.before?.getD .eof ∈ expressionHeads
      rw [found]
      exact List.mem_append_right _ sign
    · intro nothing
      cases nothing
  | loadConstant value =>
    exact operand ((value.startsIn_words).mono (List.subset_append_left _ _))
  | loadVariable name index => exact operand ⟨_, _, rfl, by simp [operandHeads, Word.name]⟩
  | call name args => exact operand ⟨_, _, rfl, by simp [operandHeads, Word.name]⟩
  | isType inner kind =>
    obtain ⟨word, tests⟩ := Option.isSome_iff_exists.1 written.1
    apply operand
    refine ⟨reserved word, leftParen :: (inner.words ++ [rightParen]), ?_, (testWord_head tests).1⟩
    rw [words, tests]
    rfl
  | typeOf inner => exact operand ⟨reserved "Type", _, rfl, by decide⟩
  | _ => cases written

theorem listWords_eq (is : List Instruction) : listWords is = is.map words := by
  induction is with
  | nil => rfl
  | cons i is ih => simp [listWords, ih]

theorem indexWords_eq (is : List Instruction) :
    indexWords is = is.flatMap fun key => leftBracket :: (key.words ++ [rightBracket]) := by
  induction is with
  | nil => rfl
  | cons i is ih => simp [indexWords, ih]

theorem allExpressions_iff {is : List Instruction} :
    AllExpressions is ↔ ∀ i ∈ is, i.IsExpression := by
  induction is with
  | nil => simp [AllExpressions]
  | cons i is ih => simp [AllExpressions, ih]

end Instruction

namespace Expression

variable {bound : Nat} {self : Reader Expression}

theorem codes?_of_forall₂ {is : List Instruction} {es : List Expression}
    (all : List.Forall₂ (fun i e => e.code? = some i) is es) : Expression.codes? es = some is := by
  induction all with
  | nil => rfl
  | cons first _ ih => simp [Expression.codes?, first, ih]

theorem takes_parens {words : List Word} {property : Expression → Prop}
    (takes : Takes bound self words Ends property) :
    Takes (bound + 1) (operand self) (leftParen :: (words ++ [rightParen]))
      (fun _ => True) property := by
  apply Takes.head fun _ => do
    let inner ← self
    let _ ← expectMark .rightParen ")"
    return inner
  · intro token rest first
    have same : token.kind = .leftParen := kind_of_word first
    simp only [operand, same]
  · intro token _
    refine Takes.bind takes ?_ fun _ _ => (by decide : Ends .rightParen)
    intro e holds
    rw [← List.append_nil [rightParen]]
    refine Takes.bind (takes_expectMark ")" rfl) ?_ fun _ _ => trivial
    intro mark _
    exact Takes.pure _ holds

/-- The one expression that a type test or a type query takes. -/
theorem takes_argument {words : List Word} {property : Expression → Prop}
    (takes : Takes bound self words Ends property) :
    Takes bound (argument self) (leftParen :: (words ++ [rightParen]))
      (fun _ => True) property := by
  rw [← List.singleton_append]
  refine Takes.bind (takes_expectMark "(" rfl) ?_ fun _ _ => trivial
  intro mark _
  refine Takes.bind takes ?_ fun _ _ => (by decide : Ends .rightParen)
  intro e holds
  rw [← List.append_nil [rightParen]]
  refine Takes.bind (takes_expectMark ")" rfl) ?_ fun _ _ => trivial
  intro mark _
  exact Takes.pure _ holds

/-- The arguments of a call, after the opening mark. -/
theorem takes_arguments {args : List Instruction} (written : ∀ i ∈ args, i.IsExpression)
    (each : ∀ i ∈ args, Takes bound self i.words Ends (·.code? = some i)) :
    Takes bound (arguments self) (withCommas (Instruction.listWords args) ++ [rightParen])
      (fun _ => True) (Expression.codes? · = some args) := by
  have heads : ∀ i ∈ args, ∃ word words, i.words = word :: words ∧ word.1 ≠ .rightParen :=
    fun i member => (i.startsIn_words (written i member)).1.head_ne (by decide)
  rw [Instruction.listWords_eq]
  refine Takes.bind (Takes.listUpTo each heads (by decide) (by decide) (by decide)) ?_ fun _ _ =>
    rfl
  intro es all
  rw [← List.append_nil [rightParen]]
  refine Takes.bind (takes_expectMark ")" rfl) ?_ fun _ _ => trivial
  intro mark _
  exact Takes.pure _ (codes?_of_forall₂ all)

theorem takes_indexChain {index : List Instruction}
    (each : ∀ i ∈ index, Takes bound self i.words Ends (·.code? = some i)) :
    Takes bound (indexChain self) (Instruction.indexWords index) (· ≠ .leftBracket)
      (Expression.codes? · = some index) := by
  have step : ∀ i ∈ index, Takes bound (do
      if ← eat .leftBracket then
        let index ← self
        let _ ← expectMark .rightBracket "]"
        return some index
      else return none) (leftBracket :: (i.words ++ [rightBracket])) (fun _ => True) fun item =>
        ∃ e, item = some e ∧ e.code? = some i := by
    intro i member
    rw [← List.singleton_append]
    refine Takes.bind (takes_eat rfl) ?_ fun _ _ => trivial
    rintro taken rfl
    rw [if_pos rfl]
    refine Takes.bind (each i member) ?_ fun _ _ => (by decide : Ends .rightBracket)
    intro e holds
    rw [← List.append_nil [rightBracket]]
    refine Takes.bind (takes_expectMark "]" rfl) ?_ fun _ _ => trivial
    intro mark _
    exact Takes.pure _ ⟨e, rfl, holds⟩
  have stop : Takes bound (do
      if ← eat .leftBracket then
        let index ← self
        let _ ← expectMark .rightBracket "]"
        return some index
      else return none) [] (· ≠ .leftBracket) (· = none) := by
    refine Takes.bind (takes_eat_none .leftBracket) ?_ fun _ follow => follow
    rintro taken rfl
    exact Takes.pure _ rfl
  rw [Instruction.indexWords_eq]
  have chain := Takes.many (fun i e => e.code? = some i) (fun _ => True) (· ≠ .leftBracket) step
    (fun _ _ => List.cons_ne_nil _ _) (fun _ _ _ => trivial) (fun _ _ => trivial) stop
  exact chain.mono (fun _ follow => follow) fun _ all => codes?_of_forall₂ all

/-- A variable as the grammar makes it has the instruction that loads it. -/
theorem code?_variable {name : Token} {es : List Expression} {index : List Instruction}
    (codes : Expression.codes? es = some index) :
    (if es.isEmpty then Expression.plain name else .indexed name es).code? =
      some (.loadVariable name.text index) := by
  cases es with
  | nil =>
    cases codes
    rfl
  | cons e es =>
    show (Expression.indexed name (e :: es)).code? = _
    simp only [Expression.code?, codes]
    rfl

theorem takes_variable {name : String} {index : List Instruction}
    (each : ∀ i ∈ index, Takes bound self i.words Ends (·.code? = some i)) :
    Takes (bound + 1) (operand self) (Word.name name :: Instruction.indexWords index) AfterOperand
      (·.code? = some (.loadVariable name index)) := by
  apply Takes.head (named self)
  · intro token rest first
    have same : token.kind = .identifier := kind_of_word first
    simp only [operand, same]
  · intro token first
    have text : token.text = name := text_of_word first
    unfold named
    rw [← List.append_nil (Instruction.indexWords index)]
    refine Takes.bind (takes_indexChain each) ?_ fun _ follow => follow.1
    intro es codes
    rw [← List.append_nil ([] : List Word)]
    refine Takes.bind ((takes_eat_none .leftParen).mono (fun _ follow => follow.2) fun _ no =>
      no) ?_ fun _ follow => follow
    rintro taken rfl
    apply Takes.pure
    rw [code?_variable codes, text]

theorem takes_call {name : String} {args : List Instruction} (written : ∀ i ∈ args, i.IsExpression)
    (each : ∀ i ∈ args, Takes bound self i.words Ends (·.code? = some i)) :
    Takes (bound + 1) (operand self)
      (Word.name name :: leftParen :: (withCommas (Instruction.listWords args) ++ [rightParen]))
      (fun _ => True) (·.code? = some (.call name args)) := by
  apply Takes.head (named self)
  · intro token rest first
    have same : token.kind = .identifier := kind_of_word first
    simp only [operand, same]
  · intro token first
    have text : token.text = name := text_of_word first
    have nothing : Takes bound (indexChain self) (Instruction.indexWords []) (· ≠ .leftBracket)
        (Expression.codes? · = some []) := takes_indexChain (by simp)
    unfold named
    rw [← List.nil_append (leftParen :: _)]
    refine Takes.bind nothing ?_ fun _ _ => (by decide : leftParen.1 ≠ .leftBracket)
    intro es codes
    have empty : es = [] := by
      cases es with
      | nil => rfl
      | cons e es =>
        simp [Expression.codes?, Option.bind_eq_some_iff] at codes
    subst empty
    rw [← List.singleton_append]
    refine Takes.bind (takes_eat rfl) ?_ fun _ _ => trivial
    rintro taken rfl
    rw [if_pos rfl, ← List.append_nil (withCommas _ ++ _)]
    refine Takes.bind (takes_arguments written each) ?_ fun _ _ => trivial
    intro es codes
    apply Takes.pure
    show (Expression.call token es).code? = _
    simp only [Expression.code?, codes, text]
    rfl

theorem takes_isType {inner : Instruction} {kind : Kind} {word : String}
    (tests : kind.testWord? = some word)
    (takes : Takes bound self inner.words Ends (·.code? = some inner)) :
    Takes (bound + 1) (operand self) (reserved word :: leftParen :: (inner.words ++ [rightParen]))
      (fun _ => True) (·.code? = some (.isType inner kind)) := by
  apply Takes.head fun token => do return .isType token (← argument self) kind
  · intro token rest first
    have same : token.kind = (reserved word).1 := kind_of_word first
    cases kind
    all_goals first
      | (cases tests; simp only [operand, same]; rfl)
      | cases tests
  · intro token _
    rw [← List.append_nil (leftParen :: _)]
    refine Takes.bind (takes_argument takes) ?_ fun _ _ => trivial
    intro e holds
    apply Takes.pure
    simp only [Expression.code?, holds]
    rfl

theorem takes_typeOf {inner : Instruction}
    (takes : Takes bound self inner.words Ends (·.code? = some inner)) :
    Takes (bound + 1) (operand self) (reserved "Type" :: leftParen :: (inner.words ++ [rightParen]))
      (fun _ => True) (·.code? = some (.typeOf inner)) := by
  apply Takes.head fun token => do return .typeOf token (← argument self)
  · intro token rest first
    have same : token.kind = .typeStatement := kind_of_word first
    simp only [operand, same]
  · intro token _
    rw [← List.append_nil (leftParen :: _)]
    refine Takes.bind (takes_argument takes) ?_ fun _ _ => trivial
    intro e holds
    apply Takes.pure
    simp only [Expression.code?, holds]
    rfl

/-- The words of an instruction are read as an expression that compiles to it. An operand that
applies an operator is read in its parentheses. -/
structure Readable (i : Instruction) : Prop where
  operand : ∀ bound self, Agrees bound self →
    Takes (bound + 1) (operand self) (Instruction.operandWords i i.words) AfterOperand
      (·.code? = some i)
  whole : ∀ bound, Takes bound read i.words Ends (·.code? = some i)

theorem operandHeads_plain : ∀ kind ∈ operandHeads, kind ∉ signs := by decide

theorem Readable.of_operand {i : Instruction} (starts : StartsIn operandHeads i.words)
    (plain : i.isOperator = false)
    (takes : ∀ bound self, Agrees bound self →
      Takes (bound + 1) (Expression.operand self) i.words AfterOperand (·.code? = some i)) :
    Readable i := by
  constructor
  · intro bound self agree
    unfold Instruction.operandWords
    rw [plain, if_neg Bool.false_ne_true]
    exact takes bound self agree
  · exact takes_read_operand (fun _ ends => ends.1) takes starts operandHeads_plain

theorem Readable.of_operator {i : Instruction} (operator : i.isOperator = true)
    (whole : ∀ bound, Takes bound read i.words Ends (·.code? = some i)) : Readable i := by
  refine ⟨?_, whole⟩
  intro bound self agree
  unfold Instruction.operandWords
  rw [operator, if_pos rfl]
  exact (takes_parens ((whole bound).congr agree)).any _

/-- Each operator has one level, and none of the tighter ones. -/
theorem level_of_mem {kind : Kind} (member : kind ∈ levels.flatten) :
    ∃ outer operators inner, levels = outer ++ operators :: inner ∧ kind ∈ operators ∧
      kind ∉ inner.flatten := by
  obtain ⟨operators, listed, fits⟩ := List.mem_flatten.1 member
  obtain ⟨outer, inner, split⟩ := List.append_of_mem listed
  refine ⟨outer, operators, inner, split, fits, ?_⟩
  have nodup : levels.flatten.Nodup := by decide
  rw [split, List.flatten_append, List.flatten_cons] at nodup
  have tail := (List.nodup_append.1 nodup).2.1
  intro inside
  exact (List.nodup_append.1 tail).2.2 kind fits kind inside rfl

theorem readable_binary {opcode : Opcode} {left right : Instruction}
    (known : opcode.between?.isSome)
    (writtenLeft : left.IsExpression) (writtenRight : right.IsExpression) (readLeft : Readable left)
    (readRight : Readable right) : Readable (.binary opcode left right) := by
  apply Readable.of_operator rfl
  apply takes_read
  intro bound self agree
  obtain ⟨kind, found⟩ := Option.isSome_iff_exists.1 known
  have word : (Instruction.operatorWord opcode.between? opcode).1 = kind := by
    rw [found]
    rfl
  have member : kind ∈ levels.flatten := List.mem_of_find?_eq_some found
  have operation : Compile.binary? kind = some opcode := by
    have holds := List.find?_some found
    exact beq_iff_eq.1 holds
  obtain ⟨outer, operators, inner, split, fits, tighter⟩ := level_of_mem member
  have after : AfterOperand kind := by
    revert member
    generalize kind = kind
    revert kind
    decide
  have operandsLeft := takes_levels_pass inner
    (takes_signed_pass (readLeft.operand bound self agree)
      (Instruction.startsIn_operandWords (left.startsIn_words writtenLeft).2) operandHeads_plain)
  have operandsRight := takes_levels_pass inner
    (takes_signed_pass (readRight.operand bound self agree)
      (Instruction.startsIn_operandWords (right.startsIn_words writtenRight).2) operandHeads_plain)
  have here := takes_level (by rw [word]; exact fits) (by rw [word]; exact operation)
    (by rw [word]; exact ⟨after, tighter⟩) operandsLeft operandsRight
  have whole := takes_levels_pass outer here
  have shape : fromParts self = outer.foldr level
      (level operators (inner.foldr level (signed (operand self)))) := by
    unfold fromParts
    rw [split, List.foldr_append, List.foldr_cons]
  rw [shape]
  refine whole.mono ?_ fun _ holds => holds
  intro kind ends
  have outside := ends.2
  rw [split, List.flatten_append, List.flatten_cons, List.mem_append, List.mem_append, not_or,
    not_or] at outside
  exact ⟨⟨⟨ends.1, outside.2.2⟩, outside.2.1⟩, outside.1⟩

theorem readable_unary {opcode : Opcode} {inner : Instruction} (known : opcode.before?.isSome)
    (written : inner.IsExpression) (readInner : Readable inner) :
    Readable (.unary opcode inner) := by
  apply Readable.of_operator rfl
  apply takes_read
  intro bound self agree
  obtain ⟨kind, found⟩ := Option.isSome_iff_exists.1 known
  have word : (Instruction.operatorWord opcode.before? opcode).1 = kind := by
    rw [found]
    rfl
  have member : kind ∈ signs := List.mem_of_find?_eq_some found
  have operation : Compile.unary? kind = some opcode := by
    have holds := List.find?_some found
    exact beq_iff_eq.1 holds
  have inside := takes_signed_pass (readInner.operand bound self agree)
    (Instruction.startsIn_operandWords (inner.startsIn_words written).2) operandHeads_plain
  have signedTakes := takes_signed (by rw [word]; exact member) (by rw [word]; exact operation)
    (inside.lower (Nat.le_succ bound))
  exact takes_levels_pass levels signedTakes

mutual

theorem readable (i : Instruction) (written : i.IsExpression) : Readable i := by
  have starts := (i.startsIn_words written).2
  cases i with
  | binary opcode left right =>
    exact readable_binary written.1 written.2.1 written.2.2 (readable left written.2.1)
      (readable right written.2.2)
  | unary opcode inner => exact readable_unary written.1 written.2 (readable inner written.2)
  | loadConstant value =>
    apply Readable.of_operand (starts rfl) rfl
    intro bound self agree
    refine (takes_operand_value value written bound self agree).mono (fun _ _ => trivial) ?_
    rintro e ⟨token, rfl, _⟩
    rfl
  | loadVariable name index =>
    have each := readable_all index written.2
    apply Readable.of_operand (starts rfl) rfl
    intro bound self agree
    exact takes_variable fun key member => ((each key member).whole bound).congr agree
  | call name args =>
    have each := readable_all args written.2
    apply Readable.of_operand (starts rfl) rfl
    intro bound self agree
    exact (takes_call (Instruction.allExpressions_iff.1 written.2)
      fun key member => ((each key member).whole bound).congr agree).any _
  | isType inner kind =>
    obtain ⟨word, tests⟩ := Option.isSome_iff_exists.1 written.1
    have same : (Instruction.isType inner kind).words =
        reserved word :: leftParen :: (inner.words ++ [rightParen]) := by
      rw [Instruction.words, tests]
      rfl
    have whole := (readable inner written.2).whole
    apply Readable.of_operand (starts rfl) rfl
    intro bound self agree
    rw [same]
    exact (takes_isType tests ((whole bound).congr agree)).any _
  | typeOf inner =>
    have whole := (readable inner written).whole
    apply Readable.of_operand (starts rfl) rfl
    intro bound self agree
    exact (takes_typeOf ((whole bound).congr agree)).any _
  | _ => cases written

theorem readable_all (is : List Instruction) (written : Instruction.AllExpressions is) :
    ∀ i ∈ is, Readable i := by
  cases is with
  | nil =>
    intro i member
    cases member
  | cons first rest =>
    exact List.forall_mem_cons.2 ⟨readable first written.1, readable_all rest written.2⟩

end

/-- The words of an instruction are read as an expression that compiles to it. -/
theorem takes_expression {i : Instruction} (written : i.IsExpression) (bound : Nat) :
    Takes bound read i.words Ends (·.code? = some i) :=
  (readable i written).whole bound

end Expression

end Treecode
