import Treecode.Error
import Treecode.Instruction

set_option autoImplicit false

namespace Treecode.Instruction

def operatorText (opcode : Opcode) : Except Error String :=
  match opcode.operatorText? with
  | some text => .ok text
  | none => .error (.unknownOpcode opcode.name)

/-- The text of an operand, in parentheses where the operand applies an operator. -/
def operandText (operand : Instruction) (text : String) : String :=
  if operand.isOperator then "(" ++ text ++ ")" else text

def commaList (texts : List String) : String := ", ".intercalate texts

mutual

/-- An instruction as an expression. -/
def expression : Instruction → Except Error String
  | .binary opcode left right => do
    let leftText ← left.expression
    let operator ← operatorText opcode
    let rightText ← right.expression
    return operandText left leftText ++ " " ++ operator ++ " " ++ operandText right rightText
  | .unary opcode operand => do
    let operator ← operatorText opcode
    let text ← operand.expression
    let gap := if opcode = .not then " " else ""
    return operator ++ gap ++ operandText operand text
  | .loadConstant value => .ok value.text
  | .loadVariable name index => do
    return name ++ String.join ((← expressions index).map fun text => "[" ++ text ++ "]")
  | .call name args => do return name ++ "(" ++ commaList (← expressions args) ++ ")"
  | .isType operand kind =>
    match kind.testWord? with
    | none => .error (.unknownOpcode (Opcode.isType.name ++ " " ++ kind.name))
    | some word => do return word ++ "(" ++ (← operand.expression) ++ ")"
  | .typeOf operand => do return "Type(" ++ (← operand.expression) ++ ")"
  | other => .error (.unknownOpcode other.opcode.name)

def expressions : List Instruction → Except Error (List String)
  | [] => .ok []
  | instruction :: rest => do
    let text ← instruction.expression
    return text :: (← expressions rest)

end

/-- A line of a script, four spaces deeper for each level. -/
def line (level : Nat) (text : String) : String :=
  String.ofList (List.replicate (4 * level) ' ') ++ text

/-- The statement that hands over a value, if there is one. -/
def wordStatement (word : String) : Option Instruction → Except Error String
  | none => .ok (word ++ ";")
  | some value => do return word ++ " " ++ (← value.expression) ++ ";"

def fieldList (fields : List (String × Option String)) : String :=
  commaList (fields.map fun (name, newName) =>
    match newName with
    | some newName => name ++ " as " ++ newName
    | none => name)

def selectStatement (fields : List (String × Option String)) (source : Instruction)
    (filter : Option Instruction) (distinct merge : Bool) (target : Instruction) :
    Except Error String := do
  let sourceText ← source.expression
  let filterText ← match filter with
    | some condition => do pure (" where " ++ (← condition.expression))
    | none => pure ""
  let targetText ← target.expression
  return "select " ++ (if distinct then "distinct " else "") ++ fieldList fields ++
    " from " ++ sourceText
    ++ filterText ++ (if merge then " merge" else "") ++ " into " ++ targetText ++ ";"

/-- A block: its head with a brace, the lines between, and a brace. -/
def blockLines (level : Nat) (head : String) (body : List String) : List String :=
  line level (head ++ " \x7b") :: body ++ [line level "\x7d"]

mutual

def statementLines (level : Nat) : Instruction → Except Error (List String)
  | .newVariable name => .ok [line level ("// new variable " ++ name)]
  | .storeVariable target value append => do
    let targetText ← target.expression
    let valueText ← value.expression
    return [line level (targetText ++ (if append then "[]" else "") ++ " = " ++ valueText ++ ";")]
  | .returnValue value => do return [line level (← wordStatement "return" value)]
  | .halt value => do return [line level (← wordStatement "halt" value)]
  | .breakLoop => .ok [line level "break;"]
  | .continueLoop => .ok [line level "continue;"]
  | .print args => do return [line level ("print(" ++ commaList (← expressions args) ++ ");")]
  | .ifElse condition body elifs otherwise => do
    let conditionText ← condition.expression
    let bodyPart ← bodyLines (level + 1) body
    let elifPart ← elifLines level elifs
    let lastPart ← bodyLines (level + 1) otherwise
    return blockLines level ("if " ++ conditionText) bodyPart ++ elifPart
      ++ (if otherwise.isEmpty then [] else blockLines level "else" lastPart)
  | .whileLoop condition body => do
    let conditionText ← condition.expression
    return blockLines level ("while " ++ conditionText) (← bodyLines (level + 1) body)
  | .foreach iterable body => do
    let iterableText ← iterable.expression
    return blockLines level ("foreach " ++ iterableText) (← bodyLines (level + 1) body)
  | .switch head cases default => do
    let headText ← head.expression
    let casePart ← caseLines (level + 1) cases
    let lastPart ← bodyLines (level + 2) default
    return blockLines level ("switch " ++ headText)
      (casePart ++ if default.isEmpty then [] else blockLines (level + 1) "default:" lastPart)
  | .define name params body => do
    return blockLines level (name ++ " => (" ++ commaList params ++ ")")
      (← bodyLines (level + 1) body)
  | .defineExternal name params module function =>
    .ok [line level (name ++ " => (" ++ commaList params ++ ") external " ++ Value.stringText module
      ++ ", " ++ Value.stringText function ++ ";")]
  | .select fields source filter distinct merge target => do
    return [line level (← selectStatement fields source filter distinct merge target)]
  | other => do return [line level ((← other.expression) ++ ";")]

def bodyLines (level : Nat) : List Instruction → Except Error (List String)
  | [] => .ok []
  | instruction :: rest => do
    let first ← statementLines level instruction
    return first ++ (← bodyLines level rest)

def elifLines (level : Nat) : List (Instruction × List Instruction) → Except Error (List String)
  | [] => .ok []
  | (condition, body) :: rest => do
    let conditionText ← condition.expression
    let first := blockLines level ("elif " ++ conditionText) (← bodyLines (level + 1) body)
    return first ++ (← elifLines level rest)

def caseLines (level : Nat) : List (Value × List Instruction) → Except Error (List String)
  | [] => .ok []
  | (label, body) :: rest => do
    let first := blockLines level ("case " ++ label.text ++ ":") (← bodyLines (level + 1) body)
    return first ++ (← caseLines level rest)

end

/-- Instructions as the statements of a script, at a given depth of nesting. -/
def script (instructions : List Instruction) (level : Nat) : Except Error String := do
  return String.join ((← bodyLines level instructions).map (· ++ "\n"))

/-- A program as a script. The halt that ends every program is not written. -/
def programScript (instructions : List Instruction) : Except Error String :=
  script (withoutFinalHalt instructions) 0

end Treecode.Instruction
