import Treecode.Program.Expressions

set_option autoImplicit false

namespace Treecode.Statement

open Reader

def expression : Reader Expression := Expression.read

/-- The end of a simple statement. -/
def semicolon : Reader Token := expectMark .semicolon ";"

/-- An expression, unless the statement ends here. -/
def expressionOrEnd : Reader (Option Expression) := do
  if (← peekKind) = .semicolon then return none else return some (← expression)

def blockOf (self : Reader Statement) : Reader Block
  | [] => fail (.mark "\x7b") []
  | token :: rest =>
    match token.kind with
    | .newRecord => .ok (.mk token [], rest)
    | .leftBrace => (do
        let statements ← many do
          match ← peek with
          | none => fail (.mark "\x7d")
          | some next => if next.kind = .rightBrace then return none else return some (← self)
        let _ ← expectMark .rightBrace "\x7d"
        return .mk token statements : Reader Block) rest
    | _ => fail (.mark "\x7b") (token :: rest)

def clause (self : Reader Statement) (word : Token) : Reader Clause := do
  let condition ← expression
  return .mk word condition (← blockOf self)

def ifRest (self : Reader Statement) (word : Token) : Reader Statement := do
  let condition ← expression
  let body ← blockOf self
  let elifs ← many do
    match ← take .elifStatement with
    | some elifWord => return some (← clause self elifWord)
    | none => return none
  match ← take .elseStatement with
  | some elseWord => return .ifElse word condition body elifs (some (.mk elseWord (← blockOf self)))
  | none => return .ifElse word condition body elifs none

def caseRest (self : Reader Statement) (word : Token) : Reader Clause := do
  match ← expression with
  | .literal token value =>
    let _ ← expectMark .colon ":"
    return .mk word (.literal token value) (← blockOf self)
  | other => failAt (some other.token) other.kind .caseValue

/-- The rest of a `switch`: its head, which names or calls something, and its cases. -/
def switchRest (self : Reader Statement) (word : Token) : Reader Statement := do
  let head ← expression
  if !head.isCallOrVariable then failAt (some head.token) head.kind .switchHead
  else if ← eat .newRecord then return .switch word head [] none
  else
    let _ ← expectMark .leftBrace "\x7b"
    let cases ← many do
      match ← take .caseStatement with
      | some caseWord => return some (← caseRest self caseWord)
      | none => return none
    let default ← do
      match ← take .defaultStatement with
      | some defaultWord =>
        let _ ← expectMark .colon ":"
        pure (some (.mk defaultWord (← blockOf self)))
      | none => pure none
    let _ ← expect .rightBrace .caseOrEnd
    return .switch word head cases default

/-- A field of a select, perhaps with a new name. -/
def field : Reader Field := do
  let name ← expect .identifier .selectField
  if ← eat .asStatement then return ⟨name, some (← expect .identifier .fieldAlias)⟩
  else return ⟨name, none⟩

def selectRest (word : Token) : Reader Statement := do
  let distinct ← eat .distinctStatement
  let fields ← do
    match ← take .operatorMultiplication with
    | some star => pure [⟨star, none⟩]
    | none => separated field
  let _ ← expectMark .fromStatement "from"
  let source ← expression
  let filter ← do
    if ← eat .whereStatement then pure (some (← expression)) else pure none
  let merge ← eat .mergeStatement
  let _ ← expectMark .intoStatement "into"
  let target ← expression
  if !target.isVariable then failAt (some target.token) target.kind .intoTarget
  else
    let _ ← semicolon
    return .select word distinct fields source filter merge target

def includeRest (word : Token) : Reader Statement := do
  let libraries ← separated (expect .identifier .libraryName)
  let _ ← semicolon
  return .includes word libraries

def printRest (word : Token) : Reader Statement := do
  let _ ← expectMark .leftParen "("
  let args ← Expression.arguments expression
  let _ ← semicolon
  return .print word args

/-- Whether a list of tokens that starts inside parentheses closes them and goes on with an arrow.
The number tells how many more are open. A statement ends at a semicolon. -/
def arrowAfterClose : Nat → List Token → Bool
  | _, [] => false
  | depth, token :: rest =>
    match token.kind, depth with
    | .leftParen, depth => arrowAfterClose (depth + 1) rest
    | .rightParen, 0 => rest.head?.any (·.kind == .operatorArrow)
    | .rightParen, depth + 1 => arrowAfterClose depth rest
    | .semicolon, _ => false
    | _, depth => arrowAfterClose depth rest

/-- Whether parameters and an arrow come next, as after the sign of a definition. -/
def arrowAfterParameters : List Token → Bool
  | [] => false
  | token :: rest => token.kind == .leftParen && arrowAfterClose 0 rest

def typeTag : Reader Kind
  | [] => fail .typeName []
  | token :: rest =>
    match Kind.ofTypeName? token.text with
    | some named => .ok (named, rest)
    | none => fail .typeName (token :: rest)

def typeTagOr (otherwise : Kind) : Reader Kind := do
  if (← peekKind) = .typeName then typeTag else return otherwise

def parameter : Reader Parameter := do
  let declared ← typeTagOr .any
  return ⟨← expect .identifier .parameterName, declared⟩

/-- Parameters in parentheses. A comma may follow the last one. -/
def parameters : Reader (List Parameter) := do
  let _ ← expectMark .leftParen "("
  if ← eat .rightParen then return []
  else
    let first ← parameter
    let others ← many do
      if ← eat .comma then
        if (← peekKind) = .rightParen then return none else return some (← parameter)
      else return none
    let _ ← expectMark .rightParen ")"
    return first :: others

/-- A string that names something outside. -/
def stringLiteral (expected : Expectation) : Reader String := do
  let token ← expect .string expected
  match token.value with
  | .ok (.string text) => return text
  | _ => failAt (some token) token.kind expected

/-- What a function does: a block, after which a semicolon may stand, or a module and a function. -/
def functionBody (self : Reader Statement) : Reader FunctionBody := do
  if ← eat .externalStatement then
    let module ← stringLiteral .moduleName
    let _ ← expectMark .comma ","
    let function ← stringLiteral .functionName
    let _ ← semicolon
    return .external module function
  else
    let body ← blockOf self
    let _ ← eat .semicolon
    return .block body

/-- The rest of a definition, after its first sign. The arrow stands there or after the
parameters. -/
def definitionRest (self : Reader Statement) (name : Token) (arrowLater : Bool) :
    Reader Statement := do
  let params ← parameters
  if arrowLater then
    let _ ← expectMark .operatorArrow "=>"
  let result ← typeTagOr .nil
  return .define name params result (← functionBody self)

def assignmentRest (name : Token) (index : List Expression) (operator : Token)
    (append constant : Bool) : Reader Statement := do
  let value ← expression
  let _ ← semicolon
  let target := if index.isEmpty then .plain name else .indexed name index
  return .assign target operator value append constant

/-- What follows the target of an assignment or the name of a function: a sign and the rest. Only a
plain name can name a function. -/
def signRest (self : Reader Statement) (name : Token) (index : List Expression)
    (append constant : Bool) : Reader Statement
  | [] => fail .assignmentOperator []
  | sign :: rest =>
    if !sign.kind.isAssignment then fail .assignmentOperator (sign :: rest)
    else if sign.kind = .operatorArrow ∨ sign.kind = .operatorAssignment ∧
      arrowAfterParameters rest then
      if append || !index.isEmpty then
        failAt (some name) .indexedVariableExpression .functionName rest
      else definitionRest self name (sign.kind = .operatorAssignment) rest
    else assignmentRest name index sign append constant rest

/-- A statement that starts with a name, or with the word that makes the name a constant. -/
def nameStatement (self : Reader Statement) (constant : Bool) : Reader Statement := do
  let name ← expect .identifier .identifier
  let index ← Expression.indexChain expression
  if (← peekKind) = .leftParen then
    if constant then fail .assignmentAfterConst
    else
      let _ ← expectMark .leftParen "("
      let args ← Expression.arguments expression
      let _ ← semicolon
      return if index.isEmpty then .call name args else .indexedCall name index args
  else
    let append ← eat .newArray
    signRest self name index append constant

/-- A statement whose blocks hold the statements of a given reader. -/
def fromParts (self : Reader Statement) : Reader Statement
  | [] => fail .statement []
  | token :: rest =>
    match token.kind with
    | .ifStatement => ifRest self token rest
    | .whileStatement => (do
        let condition ← expression
        return .whileLoop token condition (← blockOf self) : Reader Statement) rest
    | .foreachStatement => (do
        let iterable ← expression
        return .foreach token iterable (← blockOf self) : Reader Statement) rest
    | .selectStatement => selectRest token rest
    | .breakStatement => (do let _ ← semicolon; return .breakLoop token : Reader Statement) rest
    | .continueStatement =>
      (do let _ ← semicolon; return .continueLoop token : Reader Statement) rest
    | .returnStatement => (do
        let value ← expressionOrEnd
        let _ ← semicolon
        return .returnValue token value : Reader Statement) rest
    | .haltStatement => (do
        let value ← expressionOrEnd
        let _ ← semicolon
        return .halt token value : Reader Statement) rest
    | .printStatement => printRest token rest
    | .includeStatement => includeRest token rest
    | .switchStatement => switchRest self token rest
    | .constStatement => nameStatement self true rest
    | .identifier => nameStatement self false (token :: rest)
    | .leftBrace | .newRecord =>
      (do return .block (← blockOf self) : Reader Statement) (token :: rest)
    | _ => fail .statement (token :: rest)

/-- Reads a statement. -/
def read (tokens : List Token) : Except Unexpected (Statement × List Token) :=
  fromParts (shorterThan tokens (fun rest _ => read rest) .statement) tokens
  termination_by tokens.length

def readAll : Reader (List Statement) :=
  many do
    match ← peek with
    | none => return none
    | some _ => return some (← read)

end Treecode.Statement
