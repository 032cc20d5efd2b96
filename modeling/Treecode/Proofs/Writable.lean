import Treecode.Proofs.Derivation
import Treecode.Proofs.Spelled

set_option autoImplicit false

namespace Treecode

/-- The sign that a script writes an operation with between operands. -/
def Opcode.between? (opcode : Opcode) : Option Kind :=
  Expression.levels.flatten.find? fun kind => Compile.binary? kind == some opcode

/-- The sign that a script writes an operation with before an operand. -/
def Opcode.before? (opcode : Opcode) : Option Kind :=
  Expression.signs.find? fun kind => Compile.unary? kind == some opcode

namespace Instruction

mutual

def IsExpression : Instruction → Prop
  | .binary opcode left right => opcode.between?.isSome ∧ left.IsExpression ∧ right.IsExpression
  | .unary opcode operand => opcode.before?.isSome ∧ operand.IsExpression
  | .loadConstant value => value.IsLiteral
  | .loadVariable name index => IsName name ∧ AllExpressions index
  | .call name args => IsName name ∧ AllExpressions args
  | .isType operand kind => kind.testWord?.isSome ∧ operand.IsExpression
  | .typeOf operand => operand.IsExpression
  | _ => False

def AllExpressions : List Instruction → Prop
  | [] => True
  | first :: rest => first.IsExpression ∧ AllExpressions rest

end

/-- Whether an instruction that may be missing can be written as an expression. -/
def OptionalExpression : Option Instruction → Prop
  | none => True
  | some instruction => instruction.IsExpression

def isVariable : Instruction → Bool
  | .loadVariable _ _ => true
  | _ => false

/-- Whether an instruction is a variable or a call, as the head of a switch is. -/
def isCallOrVariable : Instruction → Bool
  | .loadVariable _ _ | .call _ _ => true
  | _ => false

/-- Whether the fields of a select can be written: one star, or names that may have new names. -/
def FieldsNamed (fields : List (String × Option String)) : Prop :=
  fields = [("*", none)] ∨
    (fields ≠ [] ∧ ∀ field ∈ fields, IsName field.1 ∧ ∀ newName ∈ field.2, IsName newName)

mutual

def IsStatement : Instruction → Prop
  | .newVariable name => IsName name
  | .storeVariable target value _ => target.isVariable ∧ target.IsExpression ∧ value.IsExpression
  | .call name args => IsName name ∧ AllExpressions args
  | .returnValue value | .halt value => OptionalExpression value
  | .breakLoop | .continueLoop => True
  | .print args => AllExpressions args
  | .ifElse condition body elifs otherwise =>
    condition.IsExpression ∧ AllStatements body ∧ ElifStatements elifs ∧ AllStatements otherwise
  | .whileLoop condition body => condition.IsExpression ∧ AllStatements body
  | .foreach iterable body => iterable.IsExpression ∧ AllStatements body
  | .switch head cases default =>
    head.isCallOrVariable ∧ head.IsExpression ∧ CaseStatements cases ∧ AllStatements default
  | .define name params body => IsName name ∧ (∀ param ∈ params, IsName param) ∧ AllStatements body
  | .defineExternal name params _ _ => IsName name ∧ ∀ param ∈ params, IsName param
  | .select fields source filter _ _ target =>
    FieldsNamed fields ∧ source.IsExpression ∧ OptionalExpression filter ∧ target.isVariable ∧
      target.IsExpression
  | _ => False

def AllStatements : List Instruction → Prop
  | [] => True
  | first :: rest => first.IsStatement ∧ AllStatements rest

def ElifStatements : List (Instruction × List Instruction) → Prop
  | [] => True
  | (condition, body) :: rest => condition.IsExpression ∧ AllStatements body ∧ ElifStatements rest

def CaseStatements : List (Value × List Instruction) → Prop
  | [] => True
  | (label, body) :: rest => label.IsLiteral ∧ AllStatements body ∧ CaseStatements rest

end

theorem allStatements_append {first second : List Instruction} :
    AllStatements (first ++ second) ↔ AllStatements first ∧ AllStatements second := by
  induction first with
  | nil => simp [AllStatements]
  | cons i rest ih => simp [AllStatements, ih, and_assoc]

theorem allStatements_single {i : Instruction} : AllStatements [i] ↔ i.IsStatement := by
  simp [AllStatements]

end Instruction

open Compile

theorem Opcode.between?_isSome {kind : Kind} {opcode : Opcode}
    (level : kind ∈ Expression.levels.flatten)
    (operation : binary? kind = some opcode) : opcode.between?.isSome := by
  unfold Opcode.between?
  rw [List.find?_isSome]
  exact ⟨kind, level, by simp [operation]⟩

theorem Opcode.before?_isSome {kind : Kind} {opcode : Opcode} (sign : kind ∈ Expression.signs)
    (operation : unary? kind = some opcode) : opcode.before?.isSome := by
  unfold Opcode.before?
  rw [List.find?_isSome]
  exact ⟨kind, sign, by simp [operation]⟩

/-- The operations that an assignment applies have a sign. -/
theorem Opcode.between?_of_arithmetic {kind : Kind} {opcode : Opcode}
    (operation : arithmetic? kind = some opcode) : opcode.between?.isSome := by
  unfold arithmetic? at operation
  split at operation
  all_goals
    cases operation
    try decide

mutual

/-- The instruction of an expression of a program can be written as an expression. -/
theorem Expression.isExpression_code (e : Expression) {code : Instruction}
    (regular : e.Regular .lexed) (translated : e.code? = some code) : code.IsExpression := by
  cases e with
  | plain name =>
    cases translated
    exact ⟨Spelling.Name.isName regular, trivial⟩
  | indexed name index =>
    simp only [Expression.code?, Option.bind_eq_bind, Option.bind_eq_some_iff, Option.pure_def,
      Option.some.injEq] at translated
    obtain ⟨indexCode, inner, rfl⟩ := translated
    exact ⟨Spelling.Name.isName regular.1, Expression.allExpressions_codes index regular.2.2 inner⟩
  | call name args =>
    simp only [Expression.code?, Option.bind_eq_bind, Option.bind_eq_some_iff, Option.pure_def,
      Option.some.injEq] at translated
    obtain ⟨argCode, inner, rfl⟩ := translated
    exact ⟨Spelling.Name.isName regular.1, Expression.allExpressions_codes args regular.2 inner⟩
  | indexedCall name index args => cases translated
  | literal token value =>
    cases translated
    exact regular
  | unary operator operand =>
    simp only [Expression.code?, Option.bind_eq_bind, Option.bind_eq_some_iff, Option.pure_def,
      Option.some.injEq] at translated
    obtain ⟨opcode, operation, operandCode, inner, rfl⟩ := translated
    exact ⟨Opcode.before?_isSome regular.1 operation,
      Expression.isExpression_code operand regular.2 inner⟩
  | binary operator left right =>
    simp only [Expression.code?, Option.bind_eq_bind, Option.bind_eq_some_iff, Option.pure_def,
      Option.some.injEq] at translated
    obtain ⟨opcode, operation, leftCode, front, rightCode, back, rfl⟩ := translated
    exact ⟨Opcode.between?_isSome regular.1 operation,
      Expression.isExpression_code left regular.2.1 front,
      Expression.isExpression_code right regular.2.2 back⟩
  | isType word operand target =>
    simp only [Expression.code?, Option.bind_eq_bind, Option.bind_eq_some_iff, Option.pure_def,
      Option.some.injEq] at translated
    obtain ⟨operandCode, inner, rfl⟩ := translated
    exact ⟨regular.1, Expression.isExpression_code operand regular.2 inner⟩
  | typeOf word operand =>
    simp only [Expression.code?, Option.bind_eq_bind, Option.bind_eq_some_iff, Option.pure_def,
      Option.some.injEq] at translated
    obtain ⟨operandCode, inner, rfl⟩ := translated
    have written := Expression.isExpression_code operand regular inner
    exact written

theorem Expression.allExpressions_codes (list : List Expression) {code : List Instruction}
    (regular : Expression.AllRegular .lexed list)
    (translated : Expression.codes? list = some code) :
    Instruction.AllExpressions code := by
  cases list with
  | nil =>
    cases translated
    trivial
  | cons first rest =>
    simp only [Expression.codes?, Option.bind_eq_bind, Option.bind_eq_some_iff, Option.pure_def,
      Option.some.injEq] at translated
    obtain ⟨firstCode, head, restCode, tail, rfl⟩ := translated
    exact ⟨Expression.isExpression_code first regular.1 head,
      Expression.allExpressions_codes rest regular.2 tail⟩

end

theorem Expression.optionalExpression_code {e : Option Expression} {code : Option Instruction}
    (regular : Expression.OptionRegular .lexed e)
    (translated : Expression.optionalCode? e = some code) :
    Instruction.OptionalExpression code := by
  cases e with
  | none =>
    cases translated
    trivial
  | some e =>
    obtain ⟨inner, found, rfl⟩ := Option.map_eq_some_iff.1 translated
    exact e.isExpression_code regular found

/-- The fields of a select of a program can be written. -/
theorem fieldsNamed_fieldNames {fields : List Field} (regular : Field.ListRegular .lexed fields) :
    Instruction.FieldsNamed (fieldNames fields) := by
  rcases regular with ⟨star, rfl, kind, lexed⟩ | ⟨nonempty, named⟩
  · left
    unfold fieldNames
    rw [List.map_singleton, Option.map_none, lexed.star kind]
  · right
    refine ⟨?_, ?_⟩
    · unfold fieldNames
      simpa using nonempty
    · intro field member
      obtain ⟨source, listed, rfl⟩ := List.mem_map.1 member
      refine ⟨(named source listed).1.isName, ?_⟩
      intro newName given
      obtain ⟨token, written, rfl⟩ := Option.map_eq_some_iff.1 given
      exact ((named source listed).2 token written).isName

namespace Compile

def Job.Regular : Job → Prop
  | .statement source _ => source.Regular .lexed
  | .statements source _ | .branch _ _ source _ _ => Statement.AllRegular .lexed source
  | .libraries _ _ | .library _ _ => True
  | .elifs _ _ source _ _ | .cases _ _ _ source _ _ => Clause.AllRegular .lexed source
  | .last _ _ source _ _ => LastClause.OptionRegular .lexed source

/-- The code of a piece of source can be written as a script. -/
def Job.Writable : Job → Prop
  | .statement _ code | .statements _ code | .libraries _ code | .library _ code
  | .branch _ _ _ code _ | .last _ _ _ code _ => Instruction.AllStatements code
  | .elifs _ _ _ code _ => Instruction.ElifStatements code
  | .cases _ _ _ _ code _ => Instruction.CaseStatements code

variable {setting : Setting} {depth scope : Nat}

theorem isStatement_simple {source : Statement} {code : Instruction}
    (regular : source.Regular .lexed)
    (translated : simpleCode? source = some code) : code.IsStatement := by
  cases source with
  | breakLoop word | continueLoop word =>
    cases translated
    trivial
  | returnValue word value | halt word value =>
    obtain ⟨inner, found, rfl⟩ := Option.map_eq_some_iff.1 translated
    exact Expression.optionalExpression_code regular found
  | print word args =>
    obtain ⟨inner, found, rfl⟩ := Option.map_eq_some_iff.1 translated
    exact Expression.allExpressions_codes args regular found
  | call name args =>
    obtain ⟨inner, found, rfl⟩ := Option.map_eq_some_iff.1 translated
    exact ⟨Spelling.Name.isName regular.1, Expression.allExpressions_codes args regular.2 found⟩
  | _ => cases translated

theorem allStatements_assignment {start : Session} {target value : Expression} {operator : Token}
    {append constant : Bool} {operation : Option Opcode} {targetCode valueCode : Instruction}
    (shaped : target.isVariable) (regular : target.Regular .lexed)
    (valueRegular : value.Regular .lexed)
    (assigns : Assigns start scope target operator value append constant operation
      targetCode valueCode)
    (isNew : Bool) :
    Instruction.AllStatements
      (assignmentCode isNew target.token.text operation targetCode valueCode append) := by
  have targetWritten := Expression.isExpression_code target regular assigns.spelled
  have valueWritten := Expression.isExpression_code value valueRegular assigns.valued
  obtain ⟨index, rfl⟩ := Expression.code?_target shaped assigns.spelled
  have storedWritten :
      (storedValue operation (.loadVariable target.token.text index) valueCode).IsExpression := by
    cases operation with
    | none => exact valueWritten
    | some opcode =>
      have sign := assigns.sign
      unfold operationOf? at sign
      split at sign
      · cases sign
      · obtain ⟨other, arithmetic, same⟩ := Option.map_eq_some_iff.1 sign
        cases same
        exact ⟨Opcode.between?_of_arithmetic arithmetic, targetWritten, valueWritten⟩
  unfold assignmentCode
  rw [Instruction.allStatements_append, Instruction.allStatements_single]
  refine ⟨?_, rfl, targetWritten, storedWritten⟩
  cases isNew with
  | false => trivial
  | true => exact ⟨targetWritten.1, trivial⟩

theorem names_params {params : List Parameter}
    (regular : ∀ param ∈ params, Spelling.lexed.Name param.name) :
    ∀ param ∈ params.map (·.name.text), IsName param := by
  intro param member
  obtain ⟨source, listed, rfl⟩ := List.mem_map.1 member
  exact (regular source listed).isName

theorem isCallOrVariable_code {e : Expression} {code : Instruction} (shaped : e.isCallOrVariable)
    (translated : e.code? = some code) : code.isCallOrVariable := by
  cases e with
  | plain name =>
    cases translated
    rfl
  | indexed name index | call name index =>
    simp only [Expression.code?, Option.bind_eq_bind, Option.bind_eq_some_iff, Option.pure_def,
      Option.some.injEq] at translated
    obtain ⟨inner, _, rfl⟩ := translated
    rfl
  | indexedCall name index args => cases translated
  | _ => cases shaped

/-- The code of every program can be written as a script. -/
theorem Compiles.writable {job : Job} {start after : Session}
    (compiles : Compiles setting depth scope job start after) (regular : job.Regular) :
    job.Writable := by
  induction compiles with
  | assign _ shaped assigns =>
    exact allStatements_assignment shaped regular.2.1 regular.2.2.2 assigns _
  | select _ shaped _ _ selects =>
    obtain ⟨fields, source, filter, _, target⟩ := regular
    have targetWritten := Expression.isExpression_code _ target selects.target
    obtain ⟨index, rfl⟩ := Expression.code?_target shaped selects.target
    exact Instruction.allStatements_single.2 ⟨fieldsNamed_fieldNames fields,
      Expression.isExpression_code _ source selects.source,
      Expression.optionalExpression_code filter selects.filter, rfl, targetWritten⟩
  | simple _ translated _ =>
    exact Instruction.allStatements_single.2 (isStatement_simple regular translated)
  | define _ _ ih =>
    exact Instruction.allStatements_single.2
      ⟨regular.1.isName, names_params regular.2.1, ih regular.2.2⟩
  | defineExternal _ =>
    exact Instruction.allStatements_single.2 ⟨regular.1.isName, names_params regular.2.1⟩
  | ifElse _ evaluates _ _ _ first further final =>
    obtain ⟨condition, body, elifs, otherwise⟩ := regular
    exact Instruction.allStatements_single.2
      ⟨Expression.isExpression_code _ condition evaluates.translated, first body, further elifs,
        final otherwise⟩
  | whileLoop _ evaluates _ ih | foreach _ evaluates _ ih =>
    exact Instruction.allStatements_single.2
      ⟨Expression.isExpression_code _ regular.1 evaluates.translated, ih regular.2⟩
  | switch _ evaluates _ _ first final =>
    obtain ⟨shaped, head, clauses, defaultBlock⟩ := regular
    exact Instruction.allStatements_single.2 ⟨isCallOrVariable_code shaped evaluates.translated,
      Expression.isExpression_code _ head evaluates.translated, first clauses, final defaultBlock⟩
  | includes _ _ ih => exact ih trivial
  | block _ _ ih => exact ih regular
  | noStatement | noLibrary | knownLibrary | noElif | noCase | noLast => trivial
  | moreStatements _ _ _ head tail =>
    exact Instruction.allStatements_append.2 ⟨head regular.1, tail regular.2⟩
  | moreLibraries _ _ _ head tail =>
    exact Instruction.allStatements_append.2 ⟨head trivial, tail trivial⟩
  | newLibrary _ _ _ _ _ read _ ih => exact ih (Program.lexed_ofSource read)
  | branch _ _ _ ih => exact ih regular
  | moreElifs _ _ evaluates _ _ head tail =>
    exact ⟨Expression.isExpression_code _ regular.1.1 evaluates.translated, head regular.1.2,
      tail regular.2⟩
  | moreCases _ _ _ _ _ head tail => exact ⟨regular.1.1, head regular.1.2, tail regular.2⟩
  | someLast _ _ _ ih => exact ih regular

end Compile

end Treecode
