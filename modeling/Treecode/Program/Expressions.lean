import Treecode.Program
import Treecode.Reader

set_option autoImplicit false

namespace Treecode.Expression

open Reader

/-- The binary operators by level, loosest first. A sign before an operand binds tighter than all of
them, so that `-a ^ b` is `(-a) ^ b`. -/
def levels : List (List Kind) :=
  [[.orStatement, .xorStatement],
   [.andStatement],
   [.comparatorEqual, .comparatorNotEqual],
   [.comparatorLessThan, .comparatorLessThanEqual, .comparatorGreaterThan,
     .comparatorGreaterThanEqual],
   [.operatorAddition, .operatorSubtraction],
   [.operatorMultiplication, .operatorDivision, .operatorModulus],
   [.operatorPower]]

def signs : List Kind := [.operatorSubtraction, .operatorAddition, .notStatement, .bitwiseNot]

/-- A chain of operators and operands, grouped to the left. -/
def chain (left : Expression) (others : List (Token × Expression)) : Expression :=
  others.foldl (fun left (operator, right) => .binary operator left right) left

def level (operators : List Kind) (operand : Reader Expression) : Reader Expression := do
  let first ← operand
  let others ← many do
    match ← takeAny operators with
    | some operator => return some (operator, ← operand)
    | none => return none
  return chain first others

def signed (operand : Reader Expression) : Reader Expression
  | [] => operand []
  | token :: rest =>
    if token.kind ∈ signs then
      match signed operand rest with
      | .ok (inner, rest) => .ok (.unary token inner, rest)
      | .error unexpected => .error unexpected
    else operand (token :: rest)

def literalOf (token : Token) : Reader Expression :=
  match token.value with
  | .ok value => pure (.literal token value)
  | .error fault => failAt (some token) token.kind (.validLiteral fault)

def arguments (self : Reader Expression) : Reader (List Expression) := do
  let args ← listUpTo .rightParen self
  let _ ← expectMark .rightParen ")"
  return args

/-- The one expression in parentheses that a type test or a type query takes. -/
def argument (self : Reader Expression) : Reader Expression := do
  let _ ← expectMark .leftParen "("
  let operand ← self
  let _ ← expectMark .rightParen ")"
  return operand

def indexChain (self : Reader Expression) : Reader (List Expression) :=
  many do
    if ← eat .leftBracket then
      let index ← self
      let _ ← expectMark .rightBracket "]"
      return some index
    else return none

def named (self : Reader Expression) (name : Token) : Reader Expression := do
  let index ← indexChain self
  if ← eat .leftParen then
    let args ← arguments self
    return if index.isEmpty then .call name args else .indexedCall name index args
  else
    return if index.isEmpty then .plain name else .indexed name index

def pieces : List Kind :=
  [.stringInterpolationStart, .stringInterpolationStringPart, .stringInterpolationEnd]

/-- The rest of an interpolated string: its pieces and the expressions between them, added up. A
string whose only interpolation is empty is a plain literal. -/
def interpolated (self : Reader Expression) (start : Token) : Reader Expression := do
  let plus : Token := ⟨.operatorAddition, some "+", start.position⟩
  match ← take .stringInterpolationEnd with
  | some stop =>
    match start.value, stop.value with
    | .ok (.string front), .ok (.string back) => return .literal start (.string (front ++ back))
    | _, _ => failAt (some start) start.kind .string
  | none =>
    let first ← literalOf start
    let middle ← many do
      match ← peekKind with
      | .stringInterpolationEnd => return none
      | .stringInterpolationStringPart =>
        let part ← expect .stringInterpolationStringPart .expression
        return some (plus, ← literalOf part)
      | _ => return some (plus, ← self)
    let stop ← expect .stringInterpolationEnd .expression
    let last ← literalOf stop
    return chain first (middle ++ [(plus, last)])

/-- A part of an array or a record, which has to be a literal; an interpolated string is none. -/
def element (self : Reader Expression) (expected : Expectation) : Reader Value := do
  match ← self with
  | .literal token value =>
    if token.kind ∈ pieces then failAt (some token) .literalExpression expected else return value
  | other => failAt (some other.token) other.kind expected

def arrayLiteral (self : Reader Expression) (bracket : Token) : Reader Expression := do
  let items ← listUpTo .rightBracket (element self .arrayElement)
  let _ ← expectMark .rightBracket "]"
  return .literal bracket (.array items)

def entry (self : Reader Expression) : Reader (Value × Value) := do
  let keyToken ← peek
  let key ← element self .recordKey
  if !key.isScalar then failAt keyToken key.type .scalarRecordKey
  else
    let _ ← expectMark .colon ":"
    return (key, ← element self .recordValue)

/-- The rest of a record, after its brace. A later value of a key replaces an earlier one. -/
def recordLiteral (self : Reader Expression) (brace : Token) : Reader Expression := do
  let entries ← listUpTo .rightBrace (entry self)
  let _ ← expectMark .rightBrace "\x7d"
  return .literal brace
    (.record (entries.foldl (fun known (key, value) => Value.insertEntry key value known) []))

/-- An operand: a literal, a name with what follows it, a type test or an expression in
parentheses. -/
def operand (self : Reader Expression) : Reader Expression
  | [] => fail .expression []
  | token :: rest =>
    match token.kind with
    | .leftParen => (do
        let inner ← self
        let _ ← expectMark .rightParen ")"
        return inner : Reader Expression) rest
    | .identifier => named self token rest
    | .integer | .float | .string | .boolean | .nil => literalOf token rest
    | .stringInterpolationStart => interpolated self token rest
    | .newArray => .ok (.literal token (.array []), rest)
    | .newRecord => .ok (.literal token (.record []), rest)
    | .typeName =>
      if token.text = "array" then .ok (.literal token (.array []), rest)
      else if token.text = "record" then .ok (.literal token (.record []), rest)
      else fail .expression (token :: rest)
    | .leftBracket => arrayLiteral self token rest
    | .leftBrace => recordLiteral self token rest
    | .typeStatement => (do return .typeOf token (← argument self) : Reader Expression) rest
    | kind =>
      match kind.testedType? with
      | some target => (do return .isType token (← argument self) target : Reader Expression) rest
      | none => fail .expression (token :: rest)

/-- An expression whose parts are read by a given reader. -/
def fromParts (self : Reader Expression) : Reader Expression :=
  levels.foldr level (signed (operand self))

/-- Reads an expression. -/
def read (tokens : List Token) : Except Unexpected (Expression × List Token) :=
  fromParts (shorterThan tokens (fun rest _ => read rest) .expression) tokens
  termination_by tokens.length

end Treecode.Expression
