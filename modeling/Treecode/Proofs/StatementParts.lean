import Treecode.Proofs.ExpressionWords
import Treecode.Proofs.PrintedStatements
import Treecode.Proofs.Soundness
import Treecode.Proofs.StatementExtension

set_option autoImplicit false

namespace Treecode

open Word Reader

namespace Instruction

def isDeclaration : Instruction → Bool
  | .newVariable _ => true
  | _ => false

mutual

/-- Whether an instruction is written as a statement. -/
def Spells : Instruction → Statement → Prop
  | .storeVariable target value append, s => ∃ place sign stored,
    s = .assign place sign stored append false ∧ sign.kind = .operatorAssignment ∧
      place.isVariable ∧ place.code? = some target ∧ stored.code? = some value
  | .ifElse condition body elifs otherwise, s => ∃ word guard brace inner further last,
    s = .ifElse word guard (.mk brace inner) further last ∧ guard.code? = some condition ∧
      AllSpell body inner ∧ ElifsSpell elifs further ∧
      if otherwise.isEmpty then last = none
      else ∃ word brace inner, last = some (.mk word (.mk brace inner)) ∧ AllSpell otherwise inner
  | .whileLoop condition body, s => ∃ word guard brace inner,
    s = .whileLoop word guard (.mk brace inner) ∧ guard.code? = some condition ∧ AllSpell body inner
  | .foreach iterable body, s => ∃ word guard brace inner,
    s = .foreach word guard (.mk brace inner) ∧ guard.code? = some iterable ∧ AllSpell body inner
  | .switch head cases default, s => ∃ word guard clauses last,
    s = .switch word guard clauses last ∧ guard.code? = some head ∧ CasesSpell cases clauses ∧
      if default.isEmpty then last = none
      else ∃ word brace inner, last = some (.mk word (.mk brace inner)) ∧ AllSpell default inner
  | .define name params body, s => ∃ token list result brace inner,
    s = .define token list result (.block (.mk brace inner)) ∧ token.text = name ∧
      list.map (·.name.text) = params ∧ AllSpell body inner
  | .defineExternal name params module function, s => ∃ token list result,
    s = .define token list result (.external module function) ∧ token.text = name ∧
      list.map (·.name.text) = params
  | .select fields source filter distinct merge target, s => ∃ word list origin condition place,
    s = .select word distinct list origin condition merge place ∧ Compile.fieldNames list = fields ∧
      origin.code? = some source ∧ Expression.optionalCode? condition = some filter ∧
      Expression.optionalIndexesAreProper condition ∧ place.isVariable ∧ place.code? = some target ∧
      place.indexesAreProper
  | i, s => Compile.simpleCode? s = some i

def AllSpell : List Instruction → List Statement → Prop
  | [], list => list = []
  | first :: rest, list =>
    if first.isDeclaration then AllSpell rest list
    else ∃ s others, list = s :: others ∧ Spells first s ∧ AllSpell rest others

def ElifsSpell : List (Instruction × List Instruction) → List Clause → Prop
  | [], list => list = []
  | (condition, body) :: rest, list => ∃ word guard brace inner others,
    list = .mk word guard (.mk brace inner) :: others ∧ guard.code? = some condition ∧
      AllSpell body inner ∧ ElifsSpell rest others

def CasesSpell : List (Value × List Instruction) → List Clause → Prop
  | [], list => list = []
  | (label, body) :: rest, list => ∃ word token brace inner others,
    list = .mk word (.literal token label) (.mk brace inner) :: others ∧
      AllSpell body inner ∧ CasesSpell rest others

end

def written (list : List Instruction) : List Instruction := list.filter (!·.isDeclaration)

theorem bodyWords_eq (list : List Instruction) :
    bodyWords list = (written list).flatMap statementWords := by
  induction list with
  | nil => rfl
  | cons first rest ih =>
    rw [bodyWords, ih]
    cases first with
    | newVariable name => rfl
    | _ => rfl

theorem allSpell_of_forall₂ {list : List Instruction} {statements : List Statement}
    (all : List.Forall₂ Spells (written list) statements) : AllSpell list statements := by
  induction list generalizing statements with
  | nil =>
    cases all
    rfl
  | cons first rest ih =>
    unfold AllSpell
    unfold written at all
    rw [List.filter_cons] at all
    cases declares : first.isDeclaration with
    | true =>
      rw [declares] at all
      exact ih all
    | false =>
      rw [declares] at all
      rw [if_neg Bool.false_ne_true]
      cases all with
      | cons spells others => exact ⟨_, _, rfl, spells, ih others⟩

def statementHeads : List Kind :=
  [.ifStatement, .whileStatement, .foreachStatement, .selectStatement, .breakStatement,
    .continueStatement,
    .returnStatement, .haltStatement, .printStatement, .switchStatement, .identifier]

theorem startsIn_statementWords {i : Instruction} (isStatement : i.IsStatement)
    (notDeclaration : i.isDeclaration = false) : StartsIn statementHeads i.statementWords := by
  cases i with
  | newVariable name => cases notDeclaration
  | storeVariable target value append =>
    cases target with
    | loadVariable name index => exact ⟨Word.name name, _, rfl, by simp [statementHeads, Word.name]⟩
    | _ => cases isStatement.1
  | call name args => exact ⟨Word.name name, _, rfl, by simp [statementHeads, Word.name]⟩
  | returnValue value => exact ⟨reserved "return", _, rfl, by decide⟩
  | halt value => exact ⟨reserved "halt", _, rfl, by decide⟩
  | breakLoop => exact ⟨reserved "break", _, rfl, by decide⟩
  | continueLoop => exact ⟨reserved "continue", _, rfl, by decide⟩
  | print args => exact ⟨reserved "print", _, rfl, by decide⟩
  | ifElse condition body elifs otherwise => exact ⟨reserved "if", _, rfl, by decide⟩
  | whileLoop condition body => exact ⟨reserved "while", _, rfl, by decide⟩
  | foreach iterable body => exact ⟨reserved "foreach", _, rfl, by decide⟩
  | switch head cases default => exact ⟨reserved "switch", _, rfl, by decide⟩
  | define name params body => exact ⟨Word.name name, _, rfl, by simp [statementHeads, Word.name]⟩
  | defineExternal name params module function =>
    exact ⟨Word.name name, _, rfl, by simp [statementHeads, Word.name]⟩
  | select fields source filter distinct merge target =>
    exact ⟨reserved "select", _, rfl, by decide⟩
  | _ => cases isStatement

end Instruction

def Word.NoArrow (words : List Word) : Prop := ∀ word ∈ words, word.1 ≠ .operatorArrow

theorem Word.noArrow_nil : NoArrow [] := fun _ member => by cases member

theorem Word.noArrow_cons {word : Word} {words : List Word} :
    NoArrow (word :: words) ↔ word.1 ≠ .operatorArrow ∧ NoArrow words := List.forall_mem_cons

theorem Word.noArrow_append {words words' : List Word} :
    NoArrow (words ++ words') ↔ NoArrow words ∧ NoArrow words' := List.forall_mem_append

theorem Word.NoArrow.between {opening close : Word} {words : List Word} (plain : NoArrow words)
    (first : opening.1 ≠ .operatorArrow) (last : close.1 ≠ .operatorArrow) :
    NoArrow (opening :: (words ++ [close])) :=
  noArrow_cons.2 ⟨first, noArrow_append.2 ⟨plain, noArrow_cons.2 ⟨last, noArrow_nil⟩⟩⟩

theorem Word.noArrow_withCommas {lists : List (List Word)} (all : ∀ words ∈ lists, NoArrow words) :
    NoArrow (withCommas lists) := by
  cases lists with
  | nil => exact noArrow_nil
  | cons first rest =>
    rw [withCommas_cons, noArrow_append]
    refine ⟨all first (List.mem_cons_self ..), ?_⟩
    intro word member
    obtain ⟨words, listed, inside⟩ := List.mem_flatMap.1 member
    have plain : NoArrow (comma :: words) :=
      noArrow_cons.2 ⟨by decide, all words (List.mem_cons_of_mem _ listed)⟩
    exact plain word inside

theorem Word.reserved_ne_arrow (text : String) : (reserved text).1 ≠ .operatorArrow := by
  unfold reserved Lexer.nameKind Kind.ofWord?
  split <;> simp

mutual

theorem Value.noArrow_words (v : Value) : NoArrow v.words := by
  cases v with
  | nil | integer | float | boolean | string =>
    exact noArrow_cons.2 ⟨Kind.noConfusion, noArrow_nil⟩
  | array items =>
    unfold Value.words
    split
    · exact noArrow_cons.2 ⟨Kind.noConfusion, noArrow_nil⟩
    · exact (noArrow_withCommas (Value.noArrow_items items)).between (by decide) (by decide)
  | record entries =>
    unfold Value.words
    split
    · exact noArrow_cons.2 ⟨Kind.noConfusion, noArrow_nil⟩
    · exact (noArrow_withCommas (Value.noArrow_entries entries)).between (by decide) (by decide)

theorem Value.noArrow_items (items : List Value) :
    ∀ words ∈ Value.itemWords items, NoArrow words := by
  cases items with
  | nil => simp [Value.itemWords]
  | cons item items => exact List.forall_mem_cons.2 ⟨item.noArrow_words, Value.noArrow_items items⟩

theorem Value.noArrow_entries (entries : List (Value × Value)) :
    ∀ words ∈ Value.entryWords entries, NoArrow words := by
  match entries with
  | [] => simp [Value.entryWords]
  | (key, value) :: entries =>
    refine List.forall_mem_cons.2 ⟨?_, Value.noArrow_entries entries⟩
    exact noArrow_append.2 ⟨key.noArrow_words, noArrow_cons.2 ⟨by decide, value.noArrow_words⟩⟩

end

namespace Instruction

theorem noArrow_operand {i : Instruction} (plain : NoArrow i.words) :
    NoArrow (operandWords i i.words) := by
  unfold operandWords
  split
  · exact plain.between (by decide) (by decide)
  · exact plain

mutual

theorem noArrow_words (i : Instruction) (isExpression : i.IsExpression) : NoArrow i.words := by
  cases i with
  | binary opcode left right =>
    obtain ⟨kind, known⟩ := Option.isSome_iff_exists.1 isExpression.1
    have listed : kind ∈ Expression.levels.flatten := List.mem_of_find?_eq_some known
    have sign : (operatorWord opcode.between? opcode).1 ≠ .operatorArrow := by
      rw [known]
      rintro rfl
      exact absurd listed (by decide)
    exact noArrow_append.2 ⟨noArrow_operand (noArrow_words left isExpression.2.1),
      noArrow_cons.2 ⟨sign, noArrow_operand (noArrow_words right isExpression.2.2)⟩⟩
  | unary opcode inner =>
    obtain ⟨kind, known⟩ := Option.isSome_iff_exists.1 isExpression.1
    have listed : kind ∈ Expression.signs := List.mem_of_find?_eq_some known
    have sign : (operatorWord opcode.before? opcode).1 ≠ .operatorArrow := by
      rw [known]
      rintro rfl
      exact absurd listed (by decide)
    exact noArrow_cons.2 ⟨sign, noArrow_operand (noArrow_words inner isExpression.2)⟩
  | loadConstant value => exact value.noArrow_words
  | loadVariable name index =>
    refine noArrow_cons.2 ⟨Kind.noConfusion, ?_⟩
    rw [indexWords_eq]
    intro word member
    obtain ⟨key, listed, inside⟩ := List.mem_flatMap.1 member
    have inner := noArrow_all index isExpression.2 key listed
    have whole : NoArrow (leftBracket :: (key.words ++ [rightBracket])) :=
      inner.between (by decide) (by decide)
    exact whole word inside
  | call name args =>
    refine noArrow_cons.2 ⟨Kind.noConfusion, ?_⟩
    refine (noArrow_withCommas ?_).between (by decide) (by decide)
    rw [listWords_eq]
    intro words member
    obtain ⟨arg, listed, rfl⟩ := List.mem_map.1 member
    exact noArrow_all args isExpression.2 arg listed
  | isType inner kind =>
    exact noArrow_cons.2
      ⟨reserved_ne_arrow _, (noArrow_words inner isExpression.2).between (by decide) (by decide)⟩
  | typeOf inner =>
    exact noArrow_cons.2
      ⟨reserved_ne_arrow _, (noArrow_words inner isExpression).between (by decide) (by decide)⟩
  | _ => cases isExpression

theorem noArrow_all (is : List Instruction) (areExpressions : AllExpressions is) :
    ∀ i ∈ is, NoArrow i.words := by
  cases is with
  | nil => simp
  | cons first rest =>
    exact List.forall_mem_cons.2
      ⟨noArrow_words first areExpressions.1, noArrow_all rest areExpressions.2⟩

end

end Instruction

namespace Statement

/-- Words without an arrow, up to the end of their statement, are no parameters with an arrow behind
them. -/
theorem arrowAfterParameters_eq_false {tokens : List Token} {words more : List Word}
    (plain : NoArrow words)
    (same : tokens.map Token.word = words ++ Word.semicolon :: more) :
    arrowAfterParameters tokens = false := by
  obtain ⟨front, behind, rfl, rfl, left⟩ := List.map_eq_append_iff.1 same
  obtain ⟨stop, rest, rfl, first, _⟩ := cons_of_words left
  exact arrowAfterParameters_before (fun token member => plain _ (List.mem_map_of_mem member))
    (kind_of_word first)

end Statement

namespace Statement

open Instruction (Spells AllSpell ElifsSpell CasesSpell written optionalWords
    statementWords bodyWords)

variable {bound : Nat} {self : Reader Statement}

def Ends (kind : Kind) : Prop := kind ∉ [Kind.semicolon, .elifStatement, .elseStatement]

instance : DecidablePred Ends := fun _ => inferInstanceAs (Decidable (¬ _))

/-- Whether a reader reads statements, on lists shorter than a bound. -/
def Agrees (bound : Nat) (self : Reader Statement) : Prop :=
  ∀ tokens, tokens.length < bound → self tokens = read tokens

/-- What is read in the grammar where it refers to itself only on shorter lists. -/
theorem takes_read {words : List Word} {follows : Kind → Prop} {property : Statement → Prop}
    (parts : ∀ bound self, Agrees bound self →
      Takes (bound + 1) (fromParts self) words follows property)
    (bound : Nat) : Takes bound read words follows property := by
  intro tokens more short same follow
  have agree : Agrees tokens.length (shorterThan tokens (fun rest _ => read rest) .statement) := by
    intro rest shorter
    rw [shorterThan_of_lt shorter]
  obtain ⟨s, rest, found, left, holds⟩ :=
    parts tokens.length _ agree tokens more (by omega) same follow
  refine ⟨s, rest, ?_, left, holds⟩
  rw [read]
  exact found

theorem takes_semicolon (bound : Nat) :
    Takes bound semicolon [Word.semicolon] (fun _ => True) fun _ => True :=
  (takes_expectMark ";" rfl).mono (fun _ follow => follow) fun _ _ => trivial

/-- The semicolon of a statement, whose result it does not change. -/
theorem takes_end {α : Type} {a : α} {property : α → Prop} (follows : Kind → Prop)
    (holds : property a) :
    Takes bound (do let _ ← semicolon; return a) [Word.semicolon] follows property :=
  Takes.map ((takes_semicolon bound).any follows) fun _ _ => holds

theorem takes_guard {i : Instruction} (isExpression : i.IsExpression) (bound : Nat) :
    Takes bound expression i.words Expression.Ends (·.code? = some i) :=
  Expression.takes_expression isExpression bound

/-- In an expression that is read every index has a key. -/
theorem takes_properGuard {i : Instruction} (isExpression : i.IsExpression) (bound : Nat) :
    Takes bound expression i.words Expression.Ends fun e =>
      e.code? = some i ∧ e.indexesAreProper := by
  intro tokens more short same follow
  obtain ⟨e, rest, read, left, holds⟩ :=
    takes_guard isExpression bound tokens more short same follow
  have regular : e.Regular .any :=
    (Expression.gives_read Spelling.any_literalsFrom tokens e rest (fun _ _ => trivial) read).1
  exact ⟨e, rest, read, left, holds, regular.indexesAreProper⟩

theorem takes_expressionOrEnd {value : Option Instruction}
    (isExpression : Instruction.OptionalExpression value) (bound : Nat) :
    Takes bound expressionOrEnd (optionalWords value) (· = .semicolon)
      (Expression.optionalCode? · = some value) := by
  unfold expressionOrEnd
  cases value with
  | none =>
    refine @Takes.peekKind _ _ _ _ _ _ (· = .semicolon) (fun more follow => follow) ?_
    rintro kind rfl
    exact Takes.pure _ rfl
  | some i =>
    have opening : ∀ more, headKind (i.words ++ more) ≠ .semicolon := by
      intro more
      obtain ⟨word, words, same, other⟩ := (i.startsIn_words isExpression).1.head_ne
        (by decide : Kind.semicolon ∉ expressionHeads)
      rw [same]
      exact other
    refine @Takes.peekKind _ _ _ _ _ _ (· ≠ .semicolon) (fun more _ => opening more) ?_
    intro kind other
    rw [if_neg other]
    have ends : ∀ kind : Kind, kind = .semicolon → Expression.Ends kind := by
      rintro kind rfl
      decide
    refine Takes.map ((takes_guard isExpression bound).mono ends fun _ holds => holds) ?_
    intro e holds
    simp only [Expression.optionalCode?, holds]
    rfl

/-- Whether a reader takes statements one by one. -/
structure TakesBody (bound : Nat) (reader : Reader Statement) (body : List Instruction) : Prop where
  isStatement : ∀ i ∈ written body, i.IsStatement
  each : ∀ i ∈ written body, Takes bound reader i.statementWords Ends (Spells i)

theorem TakesBody.starts {body : List Instruction} (takes : TakesBody bound self body) :
    ∀ i ∈ written body, Word.StartsIn Instruction.statementHeads i.statementWords := by
  intro i member
  have notDeclaration := (List.mem_filter.1 member).2
  exact Instruction.startsIn_statementWords (takes.isStatement i member)
    (by simpa using notDeclaration)

/-- Whether a block is of the statements that instructions are written as. -/
def BlockSpells (body : List Instruction) (b : Block) : Prop :=
  ∃ brace inner, b = .mk brace inner ∧ AllSpell body inner

theorem takes_block {body : List Instruction} (takes : TakesBody bound self body) :
    Takes (bound + 1) (blockOf self) (Word.block (bodyWords body)) (fun _ => True)
      (BlockSpells body) := by
  have heads : ∀ kind ∈ Instruction.statementHeads, Ends kind ∧ kind ≠ .rightBrace := by decide
  apply Takes.head
  case opens =>
    intro token rest first
    have same : token.kind = .leftBrace := kind_of_word first
    simp only [blockOf, same]
    rfl
  intro token _
  rw [Instruction.bodyWords_eq]
  refine Takes.bind (Takes.many Spells Ends (· = .rightBrace) ?each ?nonempty ?next ?last ?stop) ?_
    fun _ _ => rfl
  case each =>
    intro i member
    obtain ⟨word, words, same, fits⟩ := takes.starts i member
    refine @Takes.peek _ _ _ _ _ _ (· ∈ Instruction.statementHeads) (by decide)
      (fun more _ => ?_) ?_
    · rw [same]
      exact fits
    · intro token kind
      dsimp only
      rw [if_neg (heads _ kind).2]
      exact Takes.map (takes.each i member) fun s holds => ⟨s, rfl, holds⟩
  case stop =>
    refine @Takes.peek _ _ _ _ _ _ (· = .rightBrace) (by decide) (fun more follow => follow) ?_
    intro token closes
    dsimp only
    rw [if_pos closes]
    exact Takes.pure _ rfl
  case nonempty =>
    intro i member
    obtain ⟨word, words, same, _⟩ := takes.starts i member
    rw [same]
    exact List.cons_ne_nil _ _
  case next =>
    intro i member more
    obtain ⟨word, words, same, fits⟩ := takes.starts i member
    rw [same]
    exact (heads _ fits).1
  case last =>
    rintro kind rfl
    decide
  intro statements all
  refine Takes.map (takes_expectMark "\x7d" rfl) fun mark _ => ?_
  exact ⟨token, statements, rfl, Instruction.allSpell_of_forall₂ all⟩

theorem takes_wordValue {word : Word} {value : Option Instruction}
    {f : Token → Option Expression → Statement}
    {i : Instruction} (isExpression : Instruction.OptionalExpression value)
    (opens : ∀ token rest, token.word = word → fromParts self (token :: rest) = (do
      let value ← expressionOrEnd
      let _ ← semicolon
      return f token value : Reader Statement) rest)
    (spells : ∀ token e, Expression.optionalCode? e = some value → Spells i (f token e)) :
    Takes (bound + 1) (fromParts self) (word :: (optionalWords value ++ [Word.semicolon])) Ends
      (Spells i) := by
  refine Takes.head _ opens ?_
  intro token _
  refine Takes.bind (takes_expressionOrEnd isExpression bound) ?_ fun _ _ => rfl
  intro e holds
  exact takes_end _ (spells token e holds)

theorem takes_return {value : Option Instruction}
    (isExpression : Instruction.OptionalExpression value) :
    Takes (bound + 1) (fromParts self) (statementWords (.returnValue value)) Ends
      (Spells (.returnValue value)) := by
  apply takes_wordValue isExpression
  · intro token rest first
    have same : token.kind = .returnStatement := kind_of_word first
    simp only [fromParts, same]
    rfl
  · intro token e holds
    show Option.map _ _ = _
    rw [holds]
    rfl

theorem takes_halt {value : Option Instruction}
    (isExpression : Instruction.OptionalExpression value) :
    Takes (bound + 1) (fromParts self) (statementWords (.halt value)) Ends
      (Spells (.halt value)) := by
  apply takes_wordValue isExpression
  · intro token rest first
    have same : token.kind = .haltStatement := kind_of_word first
    simp only [fromParts, same]
    rfl
  · intro token e holds
    show Option.map _ _ = _
    rw [holds]
    rfl

theorem takes_wordOnly {word : Word} {f : Token → Statement} {i : Instruction}
    (opens : ∀ token rest, token.word = word → fromParts self (token :: rest) = (do
      let _ ← semicolon
      return f token : Reader Statement) rest)
    (spells : ∀ token, Spells i (f token)) :
    Takes (bound + 1) (fromParts self) [word, Word.semicolon] Ends (Spells i) := by
  refine Takes.head _ opens ?_
  intro token _
  exact takes_end _ (spells token)

theorem takes_break : Takes (bound + 1) (fromParts self) (statementWords .breakLoop) Ends
    (Spells .breakLoop) := by
  apply takes_wordOnly
  · intro token rest first
    have same : token.kind = .breakStatement := kind_of_word first
    simp only [fromParts, same]
    rfl
  · intro token
    rfl

theorem takes_continue : Takes (bound + 1) (fromParts self) (statementWords .continueLoop) Ends
    (Spells .continueLoop) := by
  apply takes_wordOnly
  · intro token rest first
    have same : token.kind = .continueStatement := kind_of_word first
    simp only [fromParts, same]
    rfl
  · intro token
    rfl

theorem takes_argumentsOf {args : List Instruction}
    (areExpressions : Instruction.AllExpressions args) (bound : Nat) :
    Takes bound (Expression.arguments expression)
      (withCommas (Instruction.listWords args) ++ [rightParen])
      (fun _ => True) (Expression.codes? · = some args) := by
  have each := Instruction.allExpressions_iff.1 areExpressions
  exact Expression.takes_arguments each fun i member => takes_guard (each i member) bound

theorem takes_print {args : List Instruction} (areExpressions : Instruction.AllExpressions args) :
    Takes (bound + 1) (fromParts self) (statementWords (.print args)) Ends
      (Spells (.print args)) := by
  apply Takes.head printRest
  · intro token rest first
    have same : token.kind = .printStatement := kind_of_word first
    simp only [fromParts, same]
  · intro token _
    refine Takes.word (takes_expectMark "(" rfl) ?_
    intro mark _
    refine Takes.bind (takes_argumentsOf areExpressions bound) ?_ fun _ _ => trivial
    intro es holds
    refine takes_end _ ?_
    show Option.map _ _ = _
    rw [holds]
    rfl

theorem takes_named {name : String} {words : List Word} {follows : Kind → Prop}
    {property : Statement → Prop}
    (takes : Takes bound (nameStatement self false) (Word.name name :: words) follows property) :
    Takes bound (fromParts self) (Word.name name :: words) follows property := by
  intro tokens more short same follow
  obtain ⟨token, rest, rfl, first, _⟩ := cons_of_words same
  obtain ⟨s, left, read, others⟩ := takes _ more short same follow
  have kind : token.kind = .identifier := kind_of_word first
  refine ⟨s, left, ?_, others⟩
  simp only [fromParts, kind]
  exact read

theorem takes_noIndex (bound : Nat) :
    Takes bound (Expression.indexChain expression) [] (· ≠ .leftBracket) (· = []) := by
  have nothing : Takes bound (Expression.indexChain expression) (Instruction.indexWords [])
    (· ≠ .leftBracket) (Expression.codes? · = some []) := Expression.takes_indexChain (by simp)
  refine nothing.mono (fun _ follow => follow) ?_
  intro es codes
  cases es with
  | nil => rfl
  | cons e es => simp [Expression.codes?, Option.bind_eq_some_iff] at codes

theorem takes_callStatement {name : String} {args : List Instruction}
    (areExpressions : Instruction.AllExpressions args) :
    Takes bound (fromParts self) (statementWords (.call name args)) Ends
      (Spells (.call name args)) := by
  apply takes_named
  refine Takes.word (takes_expect _ rfl) ?_
  intro token first
  have text : token.text = name := text_of_word first
  refine Takes.nothing (takes_noIndex bound) ?_ fun _ _ =>
    (by decide : Kind.leftParen ≠ .leftBracket)
  rintro es rfl
  refine @Takes.peekKind _ _ _ _ _ _ (· = .leftParen) (fun more _ => rfl) ?_
  rintro kind rfl
  rw [if_pos rfl, if_neg Bool.false_ne_true]
  refine Takes.word (takes_expectMark "(" rfl) ?_
  intro mark _
  refine Takes.bind (takes_argumentsOf areExpressions bound) ?_ fun _ _ => trivial
  intro es holds
  refine takes_end _ ?_
  show Option.map _ _ = _
  rw [holds, text]
  rfl

theorem takes_signRest {name : Token} {es : List Expression} {value : Instruction} (append : Bool)
    (isExpression : value.IsExpression) :
    Takes (bound + 1) (signRest self name es append false)
      (assignment :: (value.words ++ [Word.semicolon])) Ends fun s => ∃ sign stored,
        s = .assign (if es.isEmpty then .plain name else .indexed name es) sign stored
          append false ∧ sign.kind = .operatorAssignment ∧ stored.code? = some value := by
  intro tokens more short same follow
  obtain ⟨sign, rest, rfl, first, left⟩ := cons_of_words same
  rw [List.length_cons] at short
  have kind : sign.kind = .operatorAssignment := kind_of_word first
  have ended : rest.map Token.word = value.words ++ Word.semicolon :: more := by
    rw [left, List.append_eq, List.append_assoc]
    rfl
  have noParameters : arrowAfterParameters rest = false :=
    arrowAfterParameters_eq_false (Instruction.noArrow_words value isExpression) ended
  have assigns : Takes bound (assignmentRest name es sign append false)
    (value.words ++ [Word.semicolon]) Ends fun s => ∃ sign stored,
        s = .assign (if es.isEmpty then .plain name else .indexed name es) sign stored
          append false ∧ sign.kind = .operatorAssignment ∧ stored.code? = some value := by
    refine Takes.bind (takes_guard isExpression bound) ?_ fun _ _ =>
      (by decide : Expression.Ends .semicolon)
    intro e holds
    exact takes_end _ ⟨sign, e, rfl, kind, holds⟩
  obtain ⟨s, left', read, others⟩ := assigns rest more (by omega) left follow
  refine ⟨s, left', ?_, others⟩
  have isAssignment : sign.kind.isAssignment = true := by
    rw [kind]
    rfl
  have noArrow : ¬ (sign.kind = .operatorArrow ∨
      sign.kind = .operatorAssignment ∧ arrowAfterParameters rest = true) := by
    rw [kind, noParameters]
    decide
  rw [signRest, isAssignment, if_neg noArrow]
  exact read

theorem takes_store {name : String} {index : List Instruction} {value : Instruction} (append : Bool)
    (areExpressions : Instruction.AllExpressions index) (isExpression : value.IsExpression) :
    Takes bound (fromParts self)
      (statementWords (.storeVariable (.loadVariable name index) value append)) Ends
      (Spells (.storeVariable (.loadVariable name index) value append)) := by
  apply takes_named
  refine Takes.word (takes_expect _ rfl) ?_
  intro token first
  have text : token.text = name := text_of_word first
  have each := Instruction.allExpressions_iff.1 areExpressions
  have sign : ∀ more, headKind
    (onlyIf append [newArray] ++ assignment :: (value.words ++ [Word.semicolon]) ++ more) ∈
      [Kind.newArray, .operatorAssignment] := by
    intro more
    cases append <;> simp [onlyIf, headKind, newArray, assignment]
  have apart : ∀ kind ∈ [Kind.newArray, .operatorAssignment], kind ≠ .leftBracket ∧
    kind ≠ .leftParen := by decide
  refine Takes.bind (Expression.takes_indexChain fun i member =>
    takes_guard (each i member) bound) ?_ fun more _ => (apart _ (sign more)).1
  intro es codes
  refine @Takes.peekKind _ _ _ _ _ _ (· ≠ .leftParen) (fun more _ => (apart _ (sign more)).2) ?_
  intro kind other
  rw [if_neg other]
  have rest := (@takes_signRest bound self token es value append isExpression).lower
    (Nat.le_succ bound)
  have whole : Takes bound (do
      let append ← eat .newArray
      signRest self token es append false)
      (onlyIf append [newArray] ++ assignment :: (value.words ++ [Word.semicolon])) Ends fun s =>
        ∃ sign stored,
        s = .assign (if es.isEmpty then .plain token else .indexed token es) sign stored
          append false ∧ sign.kind = .operatorAssignment ∧ stored.code? = some value := by
    cases append with
    | false =>
      refine Takes.nothing (takes_eat_none .newArray) ?_ fun _ _ =>
        (by decide : Kind.operatorAssignment ≠ .newArray)
      rintro taken rfl
      exact rest
    | true =>
      refine Takes.word (takes_eat rfl) ?_
      rintro taken rfl
      exact rest
  refine whole.mono (fun _ follow => follow) ?_
  rintro s ⟨sign, stored, rfl, kind, holds⟩
  have code := @Expression.code?_variable token es index codes
  rw [text] at code
  refine ⟨_, sign, stored, rfl, kind, ?_, code, holds⟩
  cases es <;> rfl

/-- The type that is taken where none is written. -/
theorem takes_noType (otherwise : Kind) :
    Takes bound (typeTagOr otherwise) [] (· ≠ .typeName) fun _ => True := by
  refine @Takes.peekKind _ _ _ _ _ _ (· ≠ .typeName) (fun more follow => follow) ?_
  intro kind other
  rw [if_neg other]
  exact Takes.pure _ trivial

theorem takes_parameter (name : String) :
    Takes bound parameter [Word.name name] (fun _ => True) (·.name.text = name) := by
  refine Takes.nothing (takes_noType .any) ?_ fun _ _ => (by decide : Kind.identifier ≠ .typeName)
  intro declared _
  exact Takes.map (takes_expect _ rfl) fun token first => text_of_word first

theorem names_of_forall₂ {params : List String} {list : List Parameter}
    (all : List.Forall₂ (fun name param => param.name.text = name) params list) :
    list.map (·.name.text) = params := by
  induction all with
  | nil => rfl
  | cons first _ ih => rw [List.map_cons, first, ih]

theorem takes_parameters (params : List String) :
    Takes bound parameters (leftParen :: Instruction.parameterWords params)
      (fun _ => True) fun list =>
      list.map (·.name.text) = params := by
  refine Takes.word (takes_expectMark "(" rfl) ?_
  intro mark _
  unfold Instruction.parameterWords
  cases params with
  | nil =>
    show Takes bound _ [rightParen] _ _
    refine Takes.word (takes_eat rfl) ?_
    rintro taken rfl
    exact Takes.pure _ rfl
  | cons first rest =>
    rw [List.map_cons, withCommas_cons, List.append_assoc, List.flatMap_map]
    refine Takes.nothing (takes_eat_none .rightParen) ?_ fun _ _ =>
      (by decide : Kind.identifier ≠ .rightParen)
    rintro taken rfl
    rw [if_neg Bool.false_ne_true]
    refine Takes.bind (takes_parameter first) ?_ fun _ _ => trivial
    intro param named
    refine Takes.bind (Takes.many (fun name param => param.name.text = name) (fun _ => True)
      (· = .rightParen) ?each ?nonempty ?next ?last ?stop) ?_ fun _ _ => rfl
    case each =>
      intro name _
      refine Takes.word (takes_eat rfl) ?_
      rintro taken rfl
      rw [if_pos rfl]
      refine @Takes.peekKind _ _ _ _ _ _ (· = .identifier) (fun _ _ => rfl) ?_
      rintro kind rfl
      rw [if_neg (by decide)]
      exact Takes.map (takes_parameter name) fun param named => ⟨param, rfl, named⟩
    case stop =>
      refine Takes.nothing (takes_eat_none .comma) ?_ fun more follow => ?_
      · rintro taken rfl
        exact Takes.pure _ rfl
      · rw [List.nil_append, follow]
        decide
    case nonempty => exact fun _ _ => List.cons_ne_nil _ _
    case next => exact fun _ _ _ => trivial
    case last => exact fun _ _ => trivial
    intro others all
    refine Takes.map (takes_expectMark ")" rfl) fun mark _ => ?_
    exact names_of_forall₂ (.cons named all)

/-- A string that names something outside. -/
theorem takes_stringLiteral (expected : Expectation) (text : String) :
    Takes bound (stringLiteral expected) [(.string, Value.stringText text)] (fun _ => True)
      (· = text) := by
  refine Takes.word (takes_expect _ rfl) ?_
  intro token first
  have value : token.value = .ok (.string text) := by
    unfold Token.value
    rw [kind_of_word first, text_of_word first]
    exact Literal.value_stringText text
  rw [value]
  exact Takes.pure _ rfl

theorem takes_definitionRest {name : Token} {params : List String} {words : List Word}
    {property : FunctionBody → Prop} (plain : ∀ more, headKind (words ++ more) ≠ .typeName)
    (takes : Takes bound (functionBody self) words Ends property) :
    Takes (bound + 1) (signRest self name [] false false)
      (arrow :: leftParen :: (Instruction.parameterWords params ++ words)) Ends fun s =>
        ∃ list result body, s = .define name list result body ∧ list.map (·.name.text) = params ∧
          property body := by
  apply Takes.head fun sign => definitionRest self name (sign.kind = .operatorAssignment)
  · intro sign rest first
    have kind : sign.kind = .operatorArrow := kind_of_word first
    have isAssignment : sign.kind.isAssignment = true := by
      rw [kind]
      rfl
    rw [signRest, isAssignment, if_pos (Or.inl kind)]
    rfl
  · intro sign first
    have kind : sign.kind = .operatorArrow := kind_of_word first
    rw [← List.cons_append]
    refine Takes.bind (takes_parameters params) ?_ fun _ _ => trivial
    intro list named
    rw [kind]
    refine Takes.nothing (takes_noType .nil) ?_ fun more _ => plain more
    intro result _
    exact Takes.map takes fun body holds => ⟨list, result, body, rfl, named, holds⟩

theorem takes_definitionWords {name : String} {params : List String} {words : List Word}
    {i : Instruction}
    {property : FunctionBody → Prop} (plain : ∀ more, headKind (words ++ more) ≠ .typeName)
    (takes : Takes bound (functionBody self) words Ends property)
    (spells : ∀ (token : Token) list result body, token.text = name →
      list.map (·.name.text) = params → property body → Spells i (.define token list result body)) :
    Takes (bound + 1) (fromParts self)
      (Word.name name :: arrow :: leftParen :: (Instruction.parameterWords params ++ words)) Ends
      (Spells i) := by
  apply takes_named
  refine Takes.word (takes_expect _ rfl) ?_
  intro token first
  refine Takes.nothing (takes_noIndex _) ?_ fun _ _ =>
    (by decide : Kind.operatorArrow ≠ .leftBracket)
  rintro es rfl
  refine @Takes.peekKind _ _ _ _ _ _ (· = .operatorArrow) (fun more _ => rfl) ?_
  rintro kind rfl
  rw [if_neg (by decide)]
  refine Takes.nothing (takes_eat_none .newArray) ?_ fun _ _ =>
    (by decide : Kind.operatorArrow ≠ .newArray)
  rintro taken rfl
  refine (takes_definitionRest plain takes).mono (fun _ follow => follow) ?_
  rintro s ⟨list, result, body, rfl, named, holds⟩
  exact spells token list result body (text_of_word first) named holds

theorem takes_define {name : String} {params : List String} {body : List Instruction}
    (takes : TakesBody bound self body) :
    Takes (bound + 2) (fromParts self) (statementWords (.define name params body)) Ends
      (Spells (.define name params body)) := by
  have inner : Takes (bound + 1) (functionBody self) (Word.block (bodyWords body)) Ends fun b =>
      ∃ block, b = .block block ∧ BlockSpells body block := by
    refine Takes.nothing (takes_eat_none .externalStatement) ?_
      fun _ _ => (by decide : Kind.leftBrace ≠ .externalStatement)
    rintro taken rfl
    rw [if_neg Bool.false_ne_true, ← List.append_nil (Word.block _)]
    refine Takes.bind (takes_block takes) ?_ fun _ _ => trivial
    intro block spells
    refine Takes.nothing (takes_eat_none .semicolon) ?_ ?_
    · intro taken _
      exact Takes.pure _ ⟨block, rfl, spells⟩
    · intro more ends same
      rw [List.nil_append] at same
      rw [same] at ends
      exact absurd ends (by decide)
  refine takes_definitionWords ?_ inner ?_
  · exact fun _ => (by decide : Kind.leftBrace ≠ .typeName)
  rintro token list result _ text named ⟨_, rfl, brace, statements, rfl, all⟩
  exact ⟨token, list, result, brace, statements, rfl, text, named, all⟩

theorem takes_defineExternal {name module function : String} {params : List String} :
    Takes (bound + 1) (fromParts self)
      (statementWords (.defineExternal name params module function)) Ends
      (Spells (.defineExternal name params module function)) := by
  have inner : Takes bound (functionBody self)
    (reserved "external" :: (.string, Value.stringText module) ::
      comma :: (.string, Value.stringText function) :: [Word.semicolon]) Ends
          (· = .external module function) := by
    refine Takes.word (takes_eat rfl) ?_
    rintro taken rfl
    rw [if_pos rfl]
    refine Takes.word (takes_stringLiteral _ module) ?_
    rintro _ rfl
    refine Takes.word (takes_expectMark "," rfl) ?_
    intro mark _
    refine Takes.word (takes_stringLiteral _ function) ?_
    rintro _ rfl
    exact takes_end _ rfl
  refine takes_definitionWords ?_ inner ?_
  · exact fun _ => (by decide : (reserved "external").1 ≠ .typeName)
  rintro token list result _ text named rfl
  exact ⟨token, list, result, rfl, text, named⟩

end Statement

end Treecode
