import Treecode.Proofs.StatementParts

set_option autoImplicit false

namespace Treecode

open Word Reader

namespace Statement

open Instruction (Spells AllSpell ElifsSpell CasesSpell written optionalWords
    statementWords bodyWords)

variable {bound : Nat} {self : Reader Statement}

theorem takes_guarded {α : Type} {guard : Instruction} {body : List Instruction}
    {f : Expression → Block → α}
    {property : α → Prop} (isExpression : guard.IsExpression) (takes : TakesBody bound self body)
    (spells : ∀ e brace inner, e.code? = some guard → AllSpell body inner →
      property (f e (.mk brace inner))) :
    Takes (bound + 1) (do
      let condition ← expression
      return f condition (← blockOf self))
      (guard.words ++ Word.block (bodyWords body)) (fun _ => True) property := by
  refine Takes.bind (takes_guard isExpression _) ?_ fun _ _ =>
    (by decide : Expression.Ends .leftBrace)
  intro e holds
  refine Takes.map (takes_block takes) ?_
  rintro _ ⟨brace, inner, rfl, all⟩
  exact spells e brace inner holds all

theorem takes_wordGuarded {word : Word} {guard : Instruction} {body : List Instruction}
    {f : Token → Expression → Block → Statement} {i : Instruction}
    (isExpression : guard.IsExpression)
    (takes : TakesBody bound self body)
    (opens : ∀ token rest, token.word = word → fromParts self (token :: rest) = (do
      let guard ← expression
      return f token guard (← blockOf self) : Reader Statement) rest)
    (spells : ∀ token e brace inner, e.code? = some guard → AllSpell body inner →
      Spells i (f token e (.mk brace inner))) :
    Takes (bound + 2) (fromParts self) (word :: (guard.words ++ Word.block (bodyWords body))) Ends
      (Spells i) := by
  refine Takes.head _ opens ?_
  intro token _
  exact (takes_guarded isExpression takes (spells token)).any _

theorem takes_while {condition : Instruction} {body : List Instruction}
    (isExpression : condition.IsExpression) (takes : TakesBody bound self body) :
    Takes (bound + 2) (fromParts self) (statementWords (.whileLoop condition body)) Ends
      (Spells (.whileLoop condition body)) := by
  apply takes_wordGuarded isExpression takes
  · intro token rest first
    have same : token.kind = .whileStatement := kind_of_word first
    simp only [fromParts, same]
    rfl
  · intro token e brace inner holds all
    exact ⟨token, e, brace, inner, rfl, holds, all⟩

theorem takes_foreach {iterable : Instruction} {body : List Instruction}
    (isExpression : iterable.IsExpression) (takes : TakesBody bound self body) :
    Takes (bound + 2) (fromParts self) (statementWords (.foreach iterable body)) Ends
      (Spells (.foreach iterable body)) := by
  apply takes_wordGuarded isExpression takes
  · intro token rest first
    have same : token.kind = .foreachStatement := kind_of_word first
    simp only [fromParts, same]
    rfl
  · intro token e brace inner holds all
    exact ⟨token, e, brace, inner, rfl, holds, all⟩

/-- Whether a last block is of the statements that instructions are written as. -/
def LastSpells (body : List Instruction) (last : Option LastClause) : Prop :=
  if body.isEmpty then last = none
  else ∃ word brace inner, last = some (.mk word (.mk brace inner)) ∧ AllSpell body inner

/-- A further condition and its block. -/
def ElifSpells (entry : Instruction × List Instruction) (clause : Clause) : Prop :=
  ∃ word guard brace inner, clause = .mk word guard (.mk brace inner) ∧ guard.code? = some entry.1 ∧
    AllSpell entry.2 inner

def CaseSpells (entry : Value × List Instruction) (clause : Clause) : Prop :=
  ∃ word token brace inner, clause = .mk word (.literal token entry.1) (.mk brace inner) ∧
    AllSpell entry.2 inner

theorem elifsSpell_of_forall₂ {elifs : List (Instruction × List Instruction)}
    {clauses : List Clause}
    (all : List.Forall₂ ElifSpells elifs clauses) : ElifsSpell elifs clauses := by
  induction all with
  | nil => rfl
  | cons first _ ih =>
    obtain ⟨word, guard, brace, inner, rfl, code, body⟩ := first
    exact ⟨word, guard, brace, inner, _, rfl, code, body, ih⟩

theorem casesSpell_of_forall₂ {cases : List (Value × List Instruction)} {clauses : List Clause}
    (all : List.Forall₂ CaseSpells cases clauses) : CasesSpell cases clauses := by
  induction all with
  | nil => rfl
  | cons first _ ih =>
    obtain ⟨word, token, brace, inner, rfl, body⟩ := first
    exact ⟨word, token, brace, inner, _, rfl, body, ih⟩

theorem elifWords_eq (elifs : List (Instruction × List Instruction)) :
    Instruction.elifWords elifs = elifs.flatMap fun entry =>
      reserved "elif" :: (entry.1.words ++ Word.block (bodyWords entry.2)) := by
  induction elifs with
  | nil => rfl
  | cons entry elifs ih => rw [Instruction.elifWords, ih, List.flatMap_cons]

theorem caseWords_eq (cases : List (Value × List Instruction)) :
    Instruction.caseWords cases = cases.flatMap fun entry =>
      reserved "case" :: (entry.1.words ++ colon :: Word.block (bodyWords entry.2)) := by
  induction cases with
  | nil => rfl
  | cons entry cases ih => rw [Instruction.caseWords, ih, List.flatMap_cons]

theorem takes_ifElse {condition : Instruction} {body otherwise : List Instruction}
    {elifs : List (Instruction × List Instruction)} (isExpression : condition.IsExpression)
    (first : TakesBody bound self body)
    (further : ∀ entry ∈ elifs, entry.1.IsExpression ∧ TakesBody bound self entry.2)
    (last : TakesBody bound self otherwise) :
    Takes (bound + 2) (fromParts self)
      (statementWords (.ifElse condition body elifs otherwise)) Ends
      (Spells (.ifElse condition body elifs otherwise)) := by
  have lastHead : ∀ more, Ends (headKind more) →
      headKind (onlyIf (!otherwise.isEmpty) (reserved "else" :: Word.block (bodyWords otherwise)) ++
        more) ≠ .elifStatement := by
    intro more ends
    cases otherwise with
    | nil =>
      intro same
      have found : headKind more = .elifStatement := same
      rw [found] at ends
      exact absurd ends (by decide)
    | cons i rest => exact (by decide : (reserved "else").1 ≠ .elifStatement)
  apply Takes.head (ifRest self)
  · intro token rest first
    have same : token.kind = .ifStatement := kind_of_word first
    simp only [fromParts, same]
  · intro token _
    refine Takes.bind (takes_guard isExpression _) ?_ fun _ _ =>
      (by decide : Expression.Ends .leftBrace)
    intro e holds
    refine Takes.bind (takes_block first) ?_ fun _ _ => trivial
    rintro _ ⟨brace, inner, rfl, all⟩
    rw [elifWords_eq]
    refine Takes.bind (Takes.many ElifSpells (fun _ => True)
      (· ≠ .elifStatement) ?each ?nonempty ?next ?last ?stop) ?_ lastHead
    case each =>
      intro entry member
      refine Takes.word (takes_take rfl) ?_
      rintro _ ⟨word, rfl, _⟩
      refine Takes.map (f := some)
        (takes_guarded (further entry member).1 (further entry member).2 ?_)
        fun clause spells => ⟨clause, rfl, spells⟩
      intro e brace inner holds all
      exact ⟨word, e, brace, inner, rfl, holds, all⟩
    case stop =>
      refine Takes.nothing (takes_take_none .elifStatement) ?_ fun _ follow => follow
      rintro taken rfl
      exact Takes.pure _ rfl
    case nonempty => exact fun _ _ => List.cons_ne_nil _ _
    case next => exact fun _ _ _ => trivial
    case last => exact fun _ _ => trivial
    intro clauses spelled
    cases otherwise with
    | nil =>
      refine Takes.nothing (takes_take_none .elseStatement) ?_ fun more ends same => ?_
      · rintro taken rfl
        exact Takes.pure _ ⟨token, e, brace, inner, clauses, none, rfl, holds, all,
          elifsSpell_of_forall₂ spelled, rfl⟩
      · have found : headKind more = .elseStatement := same
        rw [found] at ends
        exact absurd ends (by decide)
    | cons i rest =>
      refine Takes.word (takes_take rfl) ?_
      rintro _ ⟨word, rfl, _⟩
      refine (Takes.map (takes_block last) ?_).any _
      rintro _ ⟨brace', inner', rfl, all'⟩
      exact ⟨token, e, brace, inner, clauses, _, rfl, holds, all, elifsSpell_of_forall₂ spelled,
        word, brace', inner', rfl, all'⟩

theorem shape_code {e : Expression} {i : Instruction} (code : e.code? = some i) :
    e.isVariable = i.isVariable ∧ e.isCallOrVariable = i.isCallOrVariable := by
  cases e with
  | plain name | literal token value =>
    cases code
    exact ⟨rfl, rfl⟩
  | indexedCall name index args => cases code
  | indexed name index | call name args | isType word operand target | typeOf word operand =>
    simp only [Expression.code?, Option.bind_eq_bind, Option.bind_eq_some_iff, Option.pure_def,
      Option.some.injEq] at code
    obtain ⟨_, _, rfl⟩ := code
    exact ⟨rfl, rfl⟩
  | unary operator operand =>
    simp only [Expression.code?, Option.bind_eq_bind, Option.bind_eq_some_iff, Option.pure_def,
      Option.some.injEq] at code
    obtain ⟨_, _, _, _, rfl⟩ := code
    exact ⟨rfl, rfl⟩
  | binary operator left right =>
    simp only [Expression.code?, Option.bind_eq_bind, Option.bind_eq_some_iff, Option.pure_def,
      Option.some.injEq] at code
    obtain ⟨_, _, _, _, _, _, rfl⟩ := code
    exact ⟨rfl, rfl⟩

theorem takes_caseRest {label : Value} {body : List Instruction} (literal : label.IsLiteral)
    (word : Token) (takes : TakesBody bound self body) :
    Takes (bound + 1) (caseRest self word) (label.words ++ colon :: Word.block (bodyWords body))
      (fun _ => True) (CaseSpells (label, body)) := by
  refine Takes.bind (Expression.takes_value label literal _) ?_ fun _ _ =>
    (by decide : Expression.Ends .colon)
  rintro _ ⟨token, rfl, _⟩
  refine Takes.word (takes_expectMark ":" rfl) ?_
  intro mark _
  refine Takes.map (takes_block takes) ?_
  rintro _ ⟨brace, inner, rfl, all⟩
  exact ⟨word, token, brace, inner, rfl, all⟩

theorem takes_switch {head : Instruction} {cases : List (Value × List Instruction)}
    {default : List Instruction} (shaped : head.isCallOrVariable) (isExpression : head.IsExpression)
    (each : ∀ entry ∈ cases, entry.1.IsLiteral ∧ TakesBody bound self entry.2)
    (last : TakesBody bound self default) :
    Takes (bound + 2) (fromParts self) (statementWords (.switch head cases default)) Ends
      (Spells (.switch head cases default)) := by
  apply Takes.head (switchRest self)
  · intro token rest first
    have same : token.kind = .switchStatement := kind_of_word first
    simp only [fromParts, same]
  · intro token _
    refine Takes.bind (takes_guard isExpression _) ?_ fun _ _ =>
      (by decide : Expression.Ends .leftBrace)
    intro e holds
    rw [(shape_code holds).2, shaped, Bool.not_true, if_neg Bool.false_ne_true]
    refine Takes.nothing (takes_eat_none .newRecord) ?_ fun _ _ =>
      (by decide : Kind.leftBrace ≠ .newRecord)
    rintro taken rfl
    rw [if_neg Bool.false_ne_true]
    refine Takes.word (takes_expectMark "\x7b" rfl) ?_
    intro mark _
    rw [caseWords_eq, List.append_assoc]
    refine Takes.bind (Takes.many CaseSpells (fun _ => True)
      (· ≠ .caseStatement) ?each ?nonempty ?next ?last ?stop)
      ?_ fun more _ => by cases default <;> exact Kind.noConfusion
    case each =>
      intro entry member
      refine Takes.word (takes_take rfl) ?_
      rintro _ ⟨word, rfl, _⟩
      exact Takes.map (f := some) (takes_caseRest (each entry member).1 word (each entry member).2)
        fun clause spells => ⟨clause, rfl, spells⟩
    case stop =>
      refine Takes.nothing (takes_take_none .caseStatement) ?_ fun _ follow => follow
      rintro taken rfl
      exact Takes.pure _ rfl
    case nonempty => exact fun _ _ => List.cons_ne_nil _ _
    case next => exact fun _ _ _ => trivial
    case last => exact fun _ _ => trivial
    intro clauses spelled
    have spelledCases := casesSpell_of_forall₂ spelled
    have finish : ∀ clause, LastSpells default clause → Takes (bound + 1) (do
        let _ ← expect .rightBrace .caseOrEnd
        return Statement.switch token e clauses clause) [rightBrace] Ends
        (Spells (.switch head cases default)) := by
      intro clause spelledLast
      refine (Takes.map (takes_expect .caseOrEnd rfl) fun _ _ => ?_).any _
      exact ⟨token, e, clauses, clause, rfl, holds, spelledCases, spelledLast⟩
    cases default with
    | nil =>
      refine Takes.nothing (takes_take_none .defaultStatement) ?_
        fun _ _ => (by decide : Kind.rightBrace ≠ .defaultStatement)
      rintro taken rfl
      exact finish none rfl
    | cons i rest =>
      refine Takes.word (takes_take rfl) ?_
      rintro _ ⟨word, rfl, _⟩
      refine Takes.word (takes_expectMark ":" rfl) ?_
      intro mark _
      refine Takes.bind (takes_block last) ?_ fun _ _ => trivial
      rintro _ ⟨brace, inner, rfl, all⟩
      exact finish _ ⟨word, brace, inner, rfl, all⟩

theorem takes_eat_onlyIf {kind : Kind} {word : Word} (fits : word.1 = kind) (condition : Bool) :
    Takes bound (eat kind) (onlyIf condition [word]) (· ≠ kind) (· = condition) := by
  cases condition with
  | false => exact takes_eat_none kind
  | true => exact (takes_eat fits).any _

theorem takes_field {name : String} {newName : Option String} (named : name ≠ "*") :
    Takes bound field (Instruction.fieldWords (name, newName)) (· ≠ .asStatement) fun taken =>
      (taken.name.text, taken.newName.map Token.text) = (name, newName) := by
  cases newName with
  | none =>
    have single : Instruction.fieldWords (name, none) = [Word.name name] := if_neg named
    rw [single]
    refine Takes.word (@takes_expect _ _ (Word.name name) _ rfl) ?_
    intro token first
    refine Takes.nothing (takes_eat_none .asStatement) ?_ fun _ follow => follow
    rintro taken rfl
    exact Takes.pure _ (congrArg (·, none) (text_of_word first))
  | some newName =>
    refine Takes.word (takes_expect _ rfl) ?_
    intro token first
    refine Takes.word (takes_eat rfl) ?_
    rintro taken rfl
    rw [if_pos rfl]
    refine Takes.word (@takes_expect _ _ (Word.name newName) _ rfl) ?_
    intro other second
    apply Takes.pure
    rw [text_of_word first, Option.map_some, text_of_word second]
    rfl

theorem fieldNames_of_forall₂ {fields : List (String × Option String)} {list : List Field}
    (all : List.Forall₂ (fun given taken => (taken.name.text, taken.newName.map Token.text) = given)
      fields list) :
    Compile.fieldNames list = fields := by
  induction all with
  | nil => rfl
  | cons first _ ih =>
    rw [← first, ← ih]
    rfl

theorem ne_star {name : String} (named : IsName name) : name ≠ "*" := by
  rintro rfl
  exact absurd named.1 (by decide)

/-- What a select starts its end with. -/
theorem mergeHead (merge : Bool) (more : List Word) :
    headKind (onlyIf merge [reserved "merge"] ++ reserved "into" :: more) ∈
      [Kind.mergeStatement, .intoStatement] := by
  cases merge with
  | false => exact (by decide : (reserved "into").1 ∈ [Kind.mergeStatement, .intoStatement])
  | true => exact (by decide : (reserved "merge").1 ∈ [Kind.mergeStatement, .intoStatement])

theorem takes_selectEnd {target : Instruction} {property : Statement → Prop}
    {f : Bool → Expression → Statement}
    (merge : Bool) (shaped : target.isVariable) (isExpression : target.IsExpression)
    (spells : ∀ e, e.code? = some target → e.isVariable → e.indexesAreProper →
      property (f merge e)) :
    Takes bound (do
      let merge ← eat .mergeStatement
      let _ ← expectMark .intoStatement "into"
      let target ← expression
      if !target.isVariable then failAt (some target.token) target.kind .intoTarget
      else
        let _ ← semicolon
        return f merge target)
      (onlyIf merge [reserved "merge"] ++ reserved "into" :: (target.words ++ [Word.semicolon]))
      Ends property := by
  refine Takes.bind (@takes_eat_onlyIf _ _ (reserved "merge") rfl merge) ?_
    fun _ _ => (by decide : (reserved "into").1 ≠ .mergeStatement)
  rintro taken rfl
  refine Takes.word (takes_expectMark "into" rfl) ?_
  intro mark _
  refine Takes.bind (takes_properGuard isExpression _) ?_ fun _ _ =>
    (by decide : Expression.Ends .semicolon)
  rintro e ⟨holds, proper⟩
  have same := (shape_code holds).1
  rw [shaped] at same
  rw [same, Bool.not_true, if_neg Bool.false_ne_true]
  exact takes_end _ (spells e holds same proper)

theorem takes_selectRest {source target : Instruction} {filter : Option Instruction}
    {property : Statement → Prop}
    {f : Expression → Option Expression → Bool → Expression → Statement}
    (merge : Bool) (isExpression : source.IsExpression)
    (filtered : Instruction.OptionalExpression filter)
    (shaped : target.isVariable) (targetIsExpression : target.IsExpression)
    (spells : ∀ origin condition e, origin.code? = some source →
      Expression.optionalCode? condition = some filter →
      Expression.optionalIndexesAreProper condition → e.code? = some target → e.isVariable →
      e.indexesAreProper → property (f origin condition merge e)) :
    Takes bound (do
      let _ ← expectMark .fromStatement "from"
      let source ← expression
      let filter ← do
        if ← eat .whereStatement then pure (some (← expression)) else pure none
      let merge ← eat .mergeStatement
      let _ ← expectMark .intoStatement "into"
      let target ← expression
      if !target.isVariable then failAt (some target.token) target.kind .intoTarget
      else
        let _ ← semicolon
        return f source filter merge target)
      (reserved "from" :: (source.words ++
        (Instruction.filterWords filter ++ (onlyIf merge [reserved "merge"] ++
          reserved "into" :: (target.words ++ [Word.semicolon]))))) Ends property := by
  have ends : ∀ kind ∈ [Kind.mergeStatement, .intoStatement],
      Expression.Ends kind ∧ kind ≠ .whereStatement := by decide
  refine Takes.word (takes_expectMark "from" rfl) ?_
  intro mark _
  refine Takes.bind (takes_guard isExpression _) ?_ ?_
  · intro origin holds
    cases filter with
    | none =>
      refine Takes.nothing (takes_eat_none .whereStatement) ?_ fun more _ => ?_
      · rintro taken rfl
        exact takes_selectEnd merge shaped targetIsExpression fun e =>
          spells origin none e holds rfl rfl
      · have head := mergeHead merge (target.words ++ [Word.semicolon] ++ more)
        exact (ends _ (by simpa [Instruction.filterWords] using head)).2
    | some condition =>
      refine Takes.word (takes_eat rfl) ?_
      rintro taken rfl
      refine Takes.bind (takes_properGuard filtered _) ?_ fun more _ => ?_
      · rintro guard ⟨found, proper⟩
        exact takes_selectEnd merge shaped targetIsExpression fun e =>
          spells origin (some guard) e holds (congrArg (Option.map some) found) proper
      · rw [List.append_assoc]
        exact (ends _ (mergeHead merge _)).1
  · intro more _
    cases filter with
    | none =>
      rw [List.append_assoc, List.append_assoc]
      exact (ends _ (mergeHead merge _)).1
    | some condition => exact (by decide : Expression.Ends (reserved "where").1)

theorem takes_select {fields : List (String × Option String)} {source target : Instruction}
    {filter : Option Instruction} (distinct merge : Bool) (named : Instruction.FieldsNamed fields)
    (isExpression : source.IsExpression) (filtered : Instruction.OptionalExpression filter)
    (shaped : target.isVariable) (targetIsExpression : target.IsExpression) :
    Takes (bound + 1) (fromParts self)
      (statementWords (.select fields source filter distinct merge target)) Ends
      (Spells (.select fields source filter distinct merge target)) := by
  apply Takes.head selectRest
  · intro token rest first
    have same : token.kind = .selectStatement := kind_of_word first
    simp only [fromParts, same]
  intro token _
  have finish : ∀ list, Compile.fieldNames list = fields → ∀ origin condition place,
      origin.code? = some source → Expression.optionalCode? condition = some filter →
      Expression.optionalIndexesAreProper condition → place.code? = some target → place.isVariable →
      place.indexesAreProper →
      Spells (.select fields source filter distinct merge target)
        (.select token distinct list origin condition merge place) :=
    fun list same origin condition place first second proper third shape proper' =>
      ⟨token, list, origin, condition, place, rfl, same, first, second, proper, shape,
        third, proper'⟩
  rcases named with rfl | ⟨nonempty, named⟩
  · refine Takes.bind (@takes_eat_onlyIf _ _ (reserved "distinct") rfl distinct) ?_
      fun _ _ => (by decide : Kind.operatorMultiplication ≠ .distinctStatement)
    rintro taken rfl
    refine Takes.word (takes_take rfl) ?_
    rintro _ ⟨mark, rfl, first⟩
    apply takes_selectRest merge isExpression filtered shaped targetIsExpression
    exact finish [⟨mark, none⟩] (congrArg (fun text => [(text, none)]) (text_of_word first))
  · cases fields with
    | nil => exact absurd rfl nonempty
    | cons field fields =>
      have head : ∀ more, headKind
        (withCommas ((field :: fields).map Instruction.fieldWords) ++ more) = .identifier := by
        intro more
        obtain ⟨name, newName⟩ := field
        have other := ne_star (named _ (List.mem_cons_self ..)).1
        rw [List.map_cons, withCommas_cons]
        cases newName <;> simp [Instruction.fieldWords, other, headKind, Word.name]
      have stops : ∀ kind, kind = Kind.fromStatement → kind ≠ Kind.asStatement ∧ kind ≠ .comma := by
        rintro kind rfl
        decide
      refine Takes.bind (@takes_eat_onlyIf _ _ (reserved "distinct") rfl distinct) ?_ fun more _ =>
        ?_
      · rintro taken rfl
        refine Takes.nothing (takes_take_none .operatorMultiplication) ?_ fun more _ => ?_
        · rintro _ rfl
          refine Takes.bind (Takes.separated
            (fun field member => takes_field (ne_star (named field member).1))
            (by decide) stops) ?_ fun _ _ => rfl
          intro list all
          apply takes_selectRest merge isExpression filtered shaped targetIsExpression
          exact finish list (fieldNames_of_forall₂ all)
        · rw [List.append_assoc, head]
          decide
      · rw [List.append_assoc, head]
        decide

theorem TakesBody.agree {body : List Instruction} (takes : TakesBody bound read body)
    (agree : Agrees bound self) : TakesBody bound self body :=
  ⟨takes.isStatement, fun i member => (takes.each i member).congr agree⟩

mutual

/-- The words of an instruction are read as a statement that it is written as. -/
theorem takes_statement (i : Instruction) (isStatement : i.IsStatement)
    (notDeclaration : i.isDeclaration = false)
    (bound : Nat) : Takes bound read i.statementWords Ends (Spells i) := by
  apply takes_read
  intro bound self agree
  have more : bound + 1 ≤ bound + 2 := Nat.le_succ _
  cases i with
  | newVariable name => cases notDeclaration
  | storeVariable target value append =>
    cases target with
    | loadVariable name index => exact takes_store append isStatement.2.1.2 isStatement.2.2
    | _ => cases isStatement.1
  | call name args => exact takes_callStatement isStatement.2
  | returnValue value => exact takes_return isStatement
  | halt value => exact takes_halt isStatement
  | breakLoop => exact takes_break
  | continueLoop => exact takes_continue
  | print args => exact takes_print isStatement
  | ifElse condition body elifs otherwise =>
    have first := takes_statements body isStatement.2.1 bound
    have further := takes_elifs elifs isStatement.2.2.1 bound
    have last := takes_statements otherwise isStatement.2.2.2 bound
    exact (takes_ifElse isStatement.1 (first.agree agree)
      (fun entry member => ⟨(further entry member).1, (further entry member).2.agree agree⟩)
      (last.agree agree)).lower more
  | whileLoop condition body =>
    have takes := takes_statements body isStatement.2 bound
    exact (takes_while isStatement.1 (takes.agree agree)).lower more
  | foreach iterable body =>
    have takes := takes_statements body isStatement.2 bound
    exact (takes_foreach isStatement.1 (takes.agree agree)).lower more
  | switch head cases default =>
    have each := takes_cases cases isStatement.2.2.1 bound
    have last := takes_statements default isStatement.2.2.2 bound
    exact (takes_switch isStatement.1 isStatement.2.1
      (fun entry member => ⟨(each entry member).1, (each entry member).2.agree agree⟩)
      (last.agree agree)).lower more
  | define name params body =>
    have takes := takes_statements body isStatement.2.2 bound
    exact (takes_define (takes.agree agree)).lower more
  | defineExternal name params module function => exact takes_defineExternal
  | select fields source filter distinct merge target =>
    obtain ⟨named, isExpression, filtered, shaped, targetIsExpression⟩ := isStatement
    exact takes_select distinct merge named isExpression filtered shaped targetIsExpression
  | _ => cases isStatement

theorem takes_statements (list : List Instruction) (areStatements : Instruction.AllStatements list)
    (bound : Nat) : TakesBody bound read list := by
  cases list with
  | nil =>
    constructor <;>
      · intro i member
        cases member
  | cons first rest =>
    have others := takes_statements rest areStatements.2 bound
    cases declares : first.isDeclaration with
    | true =>
      have same : written (first :: rest) = written rest := by
        unfold Instruction.written
        rw [List.filter_cons, declares]
        rfl
      exact ⟨by rw [same]; exact others.isStatement, by rw [same]; exact others.each⟩
    | false =>
      have same : written (first :: rest) = first :: written rest := by
        unfold Instruction.written
        rw [List.filter_cons, declares]
        rfl
      have here := takes_statement first areStatements.1 declares bound
      refine ⟨?_, ?_⟩
      · rw [same]
        exact List.forall_mem_cons.2 ⟨areStatements.1, others.isStatement⟩
      · rw [same]
        exact List.forall_mem_cons.2 ⟨here, others.each⟩

theorem takes_elifs (elifs : List (Instruction × List Instruction))
    (areStatements : Instruction.ElifStatements elifs) (bound : Nat) :
    ∀ entry ∈ elifs, entry.1.IsExpression ∧ TakesBody bound read entry.2 := by
  match elifs with
  | [] =>
    intro entry member
    cases member
  | (condition, body) :: rest =>
    exact List.forall_mem_cons.2 ⟨⟨areStatements.1, takes_statements body areStatements.2.1 bound⟩,
      takes_elifs rest areStatements.2.2 bound⟩

theorem takes_cases (cases : List (Value × List Instruction))
    (areStatements : Instruction.CaseStatements cases) (bound : Nat) :
    ∀ entry ∈ cases, entry.1.IsLiteral ∧ TakesBody bound read entry.2 := by
  match cases with
  | [] =>
    intro entry member
    cases member
  | (label, body) :: rest =>
    exact List.forall_mem_cons.2 ⟨⟨areStatements.1, takes_statements body areStatements.2.1 bound⟩,
      takes_cases rest areStatements.2.2 bound⟩

end

theorem readAll_of_words {list : List Instruction}
    (isStatement : ∀ i ∈ list, i.IsStatement ∧ i.isDeclaration = false)
    (each : ∀ i ∈ list, ∀ bound, Takes bound read i.statementWords Ends (Spells i))
    {tokens : List Token}
    (same : tokens.map Token.word = list.flatMap statementWords) :
    ∃ statements, readAll tokens = .ok (statements, []) ∧ List.Forall₂ Spells list statements := by
  have heads : ∀ kind ∈ Instruction.statementHeads, Ends kind := by decide
  have starts : ∀ i ∈ list,
      Word.StartsIn Instruction.statementHeads i.statementWords := fun i member =>
    Instruction.startsIn_statementWords (isStatement i member).1 (isStatement i member).2
  induction list generalizing tokens with
  | nil =>
    rw [List.flatMap_nil, List.map_eq_nil_iff] at same
    subst same
    exact ⟨[], many_of_none rfl, .nil⟩
  | cons i list ih =>
    have follow : Ends (headKind (list.flatMap statementWords)) := by
      cases list with
      | nil => decide
      | cons j list =>
        obtain ⟨word, words, shape, fits⟩ :=
          starts j (List.mem_cons_of_mem _ (List.mem_cons_self ..))
        rw [List.flatMap_cons, shape]
        exact heads _ fits
    rw [List.flatMap_cons] at same
    obtain ⟨s, rest, found, left, spells⟩ :=
      each i (List.mem_cons_self ..) _ tokens _ (Nat.lt_succ_self _) same follow
    obtain ⟨statements, others, all⟩ :=
      ih (fun j member => isStatement j (List.mem_cons_of_mem _ member))
      (fun j member => each j (List.mem_cons_of_mem _ member)) left
      (fun j member => starts j (List.mem_cons_of_mem _ member))
    obtain ⟨word, words, shape, _⟩ := starts i (List.mem_cons_self ..)
    have length := length_of_words same left
    rw [shape, List.length_cons] at length
    refine ⟨s :: statements, ?_, .cons spells all⟩
    unfold readAll at others ⊢
    refine (@many_of_some _ _ tokens rest s ?_ (by omega)).trans ?_
    · cases tokens with
      | nil =>
        rw [List.length_nil] at length
        omega
      | cons token tokens =>
        refine (bind_apply read (fun s => Pure.pure (some s)) (token :: tokens)).trans ?_
        rw [found]
        rfl
    · rw [others]

end Statement

open Instruction in
/-- A text that reads as the words of instructions is a program of statements that they are written
as. -/
theorem Program.ofSource_reads {text : String} {list : List Instruction}
    (areStatements : AllStatements list)
    (reads : Lexer.Reads text.toList (bodyWords list)) (file : String) :
    ∃ statements, Program.ofSource text file = .ok ⟨file, statements⟩ ∧
      AllSpell list statements := by
  obtain ⟨tokens, found, same⟩ := reads .start
  rw [bodyWords_eq] at same
  have takes := fun bound => Statement.takes_statements list areStatements bound
  have isStatement : ∀ i ∈ written list, i.IsStatement ∧ i.isDeclaration = false := by
    intro i member
    have notDeclaration := (List.mem_filter.1 member).2
    exact ⟨(takes 0).isStatement i member, by simpa using notDeclaration⟩
  obtain ⟨statements, read, all⟩ := Statement.readAll_of_words isStatement
    (fun i member bound => (takes bound).each i member) same
  refine ⟨statements, ?_, allSpell_of_forall₂ all⟩
  have tokenized : tokenize text file = .ok tokens := by
    unfold tokenize
    rw [found]
  have spelled : (TokenList.ofTokens tokens).read file Statement.readAll = .ok statements := by
    unfold TokenList.read
    rw [read]
  unfold Program.ofSource Program.ofTokens
  rw [tokenized]
  dsimp only
  rw [spelled]

end Treecode
