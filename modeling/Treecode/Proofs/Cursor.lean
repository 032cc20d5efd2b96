import Mathlib
import Treecode.Program.Reading

set_option autoImplicit false

namespace Treecode.Cursor

/-- What a parser must not do. -/
inductive Fault where
  /-- A token was asked for outside the list. -/
  | index
  /-- A count went below zero. -/
  | underflow
  /-- A piece was asked for whose bounds are none of the list or the text. -/
  | slice
  deriving DecidableEq, Repr

/-- What ends a parser early: a token that does not fit, with what it was taken for and what was
expected, or a fault. -/
inductive Stop where
  | misfit (token : Token) (found : Kind) (expected : Expectation)
  | fault (fault : Fault)

/-- What a parser does with its tokens from a position on. It has no outcome if it does not end. -/
abbrev Walk := ReaderT (List Token) (StateT Nat (ExceptT Stop Option))

/-- The outcome, with the position that the cursor is left at. -/
def Walk.runFrom {α : Type} (walk : Walk α) (tokens : List Token) (position : Nat) :
    Option (Except Stop (α × Nat)) :=
  ((walk.run tokens).run position).run

def current : Walk Token := do
  match (← read)[← get]? with
  | some token => return token
  | none => throw (.fault .index)

/-- The kind of a token ahead; behind the last token there are marks of the end. -/
def peekKind (distance : Nat) : Walk Kind :=
  return (((← read)[(← get) + distance]?).map (·.kind)).getD .eof

/-- Whether the token under the cursor is of a kind. -/
def check (kind : Kind) : Walk Bool := return (← current).kind = kind

/-- The token under the cursor, which moves on unless that is the last one. -/
def advance : Walk Token := do
  let token ← current
  if (← get) + 1 < (← read).length then
    modify (· + 1)
  return token

def behind : Walk (List Token) := do
  let tokens ← read
  let position ← get
  if tokens.length < position + 1 then throw (.fault .slice)
  else return tokens.drop (position + 1)

/-- Takes the token under the cursor if it is of one of the given kinds. -/
def takeAny (kinds : List Kind) : Walk (Option Token) := do
  if (← current).kind ∈ kinds then return some (← advance) else return none

/-- Takes the token under the cursor if it is of the given kind. -/
def take (kind : Kind) : Walk (Option Token) := takeAny [kind]

/-- Takes the token under the cursor if it is of the given kind, and tells whether it did. -/
def eat (kind : Kind) : Walk Bool := return (← take kind).isSome

def misfitAt {α : Type} (token : Token) (found : Kind) (expected : Expectation) : Walk α :=
  throw (.misfit token found expected)

/-- The token under the cursor does not fit. -/
def misfit {α : Type} (expected : Expectation) : Walk α := do
  let token ← current
  misfitAt token token.kind expected

/-- Takes the token under the cursor, which has to be of the given kind. -/
def expect (kind : Kind) (expected : Expectation) : Walk Token := do
  if ← check kind then advance else misfit expected

/-- Takes a punctuation mark or a word that has to stand under the cursor. -/
def expectMark (kind : Kind) (spelling : String) : Walk Token := expect kind (.mark spelling)

def byteLength (text : List Char) : Nat := (text.map Char.utf8Size).sum

/-- The text behind a number of bytes, if that many are whole characters of it. -/
def dropBytes? : Nat → List Char → Option (List Char)
  | 0, text => some text
  | _ + 1, [] => none
  | bytes + 1, c :: rest =>
    if c.utf8Size ≤ bytes + 1 then dropBytes? (bytes + 1 - c.utf8Size) rest else none

/-- The text in front of a number of bytes, if that many are whole characters of it. -/
def takeBytes? : Nat → List Char → Option (List Char)
  | 0, _ => some []
  | _ + 1, [] => none
  | bytes + 1, c :: rest =>
    if c.utf8Size ≤ bytes + 1 then (takeBytes? (bytes + 1 - c.utf8Size) rest).map (c :: ·) else none

/-- The text between two bounds in bytes, if these are in order and bounds of characters. -/
def slice? (text : List Char) (first last : Nat) : Option (List Char) :=
  if first ≤ last then (dropBytes? first text).bind (takeBytes? (last - first)) else none

/-- Whether a text of two bytes or more starts and ends with a quote. -/
def hasQuotes (text : List Char) (quote : Char) : Bool :=
  2 ≤ byteLength text ∧ text.head? = some quote ∧ text.getLast? = some quote

/-- The text without one pair of matching quotes around it, if it has one. -/
def stripQuotes (text : List Char) : Except Fault (List Char) :=
  if ['"', '\''].any (hasQuotes text) then
    match slice? text 1 (byteLength text - 1) with
    | some inner => .ok inner
    | none => .error .slice
  else .ok text

/-- The value that a token spells. -/
def value (token : Token) : Walk (Except LiteralFault Value) :=
  match token.kind with
  | .string =>
    match stripQuotes token.text.toList with
    | .ok inner => return .ok (.string (String.ofList (Literal.unescape inner)))
    | .error fault => throw (.fault fault)
  | _ => return token.value

/-- The literal that a token spells. -/
def literal (token : Token) : Walk Expression := do
  match ← value token with
  | .ok value => return .literal token value
  | .error fault => misfitAt token token.kind (.validLiteral fault)

/-- The operators of a language: those of each level between operands, from the loosest one on, and
the signs before an operand. -/
structure Grammar where
  levels : List (List Kind)
  signs : List Kind

/-- The value of a part of an array or a record, which has to be a literal; an interpolated string
is none. -/
def valueOf (item : Expression) (expected : Expectation) : Walk Value :=
  match item with
  | .literal token value =>
    if token.kind ∈ Expression.pieces then misfitAt token .literalExpression expected
      else return value
  | other => misfitAt other.token other.kind expected

namespace Grammar

-- The parts of an expression are read by the same grammar, which each call hands on.
mutual

def expression (grammar : Grammar) : Walk Expression := grammar |>.level grammar.levels
partial_fixpoint

def level (grammar : Grammar) : List (List Kind) → Walk Expression
  | [] => grammar |>.signed
  | operators :: tighter => do
    let first ← grammar |>.level tighter
    grammar |>.levelLoop operators tighter first
partial_fixpoint

def levelTurn (grammar : Grammar) (operators : List Kind) (tighter : List (List Kind)) :
    Walk (Option (Token × Expression)) := do
  match ← takeAny operators with
  | some operator => return some (operator, ← grammar |>.level tighter)
  | none => return none
partial_fixpoint

def levelLoop (grammar : Grammar) (operators : List Kind) (tighter : List (List Kind))
    (left : Expression) : Walk Expression := do
  match ← grammar |>.levelTurn operators tighter with
  | some (operator, right) => grammar |>.levelLoop operators tighter (.binary operator left right)
  | none => return left
partial_fixpoint

def signed (grammar : Grammar) : Walk Expression := do
  match ← takeAny grammar.signs with
  | some sign => return .unary sign (← grammar |>.signed)
  | none => grammar |>.operand (← current)
partial_fixpoint

def operand (grammar : Grammar) (token : Token) : Walk Expression :=
  match token.kind with
  | .leftParen => do
    let _ ← advance
    let inner ← grammar |>.expression
    let _ ← expectMark .rightParen ")"
    return inner
  | .identifier => do
    let _ ← advance
    let index ← grammar |>.indexLoop []
    if ← eat .leftParen then
      let args ← grammar |>.arguments
      return if index.isEmpty then .call token args else .indexedCall token index args
    else
      return if index.isEmpty then .plain token else .indexed token index
  | .integer | .float | .string | .boolean | .nil => do
    let _ ← advance
    literal token
  | .stringInterpolationStart => do
    let _ ← advance
    grammar |>.interpolated token
  | .newArray => do
    let _ ← advance
    return .literal token (.array [])
  | .newRecord => do
    let _ ← advance
    return .literal token (.record [])
  | .typeName =>
    if token.text = "array" then do
      let _ ← advance
      return .literal token (.array [])
    else if token.text = "record" then do
      let _ ← advance
      return .literal token (.record [])
    else misfit .expression
  | .leftBracket => do
    let _ ← advance
    let items ← grammar |>.items
    let _ ← expectMark .rightBracket "]"
    return .literal token (.array items)
  | .leftBrace => do
    let _ ← advance
    let entries ← grammar |>.entries
    let _ ← expectMark .rightBrace "\x7d"
    return .literal token (.record entries)
  | .typeStatement => do
    let _ ← advance
    return .typeOf token (← grammar |>.argument)
  | kind =>
    match kind.testedType? with
    | some target => do
      let _ ← advance
      return .isType token (← grammar |>.argument) target
    | none => misfit .expression
partial_fixpoint

def arguments (grammar : Grammar) : Walk (List Expression) := do
  let args ← grammar |>.expressions .rightParen
  let _ ← expectMark .rightParen ")"
  return args
partial_fixpoint

def argument (grammar : Grammar) : Walk Expression := do
  let _ ← expectMark .leftParen "("
  let operand ← grammar |>.expression
  let _ ← expectMark .rightParen ")"
  return operand
partial_fixpoint

/-- Expressions with commas between them, up to a closing mark that stays. -/
def expressions (grammar : Grammar) (close : Kind) : Walk (List Expression) := do
  if ← check close then return [] else grammar |>.expressionLoop []
partial_fixpoint

def expressionLoop (grammar : Grammar) (items : List Expression) : Walk (List Expression) := do
  let item ← grammar |>.expression
  if ← eat .comma then grammar |>.expressionLoop (items ++ [item]) else return items ++ [item]
partial_fixpoint

def indexTurn (grammar : Grammar) : Walk (Option Expression) := do
  if ← eat .leftBracket then
    let index ← grammar |>.expression
    let _ ← expectMark .rightBracket "]"
    return some index
  else return none
partial_fixpoint

def indexLoop (grammar : Grammar) (index : List Expression) : Walk (List Expression) := do
  match ← grammar |>.indexTurn with
  | some item => grammar |>.indexLoop (index ++ [item])
  | none => return index
partial_fixpoint

/-- The rest of an interpolated string. The sign between its parts stands where the string does. -/
def interpolated (grammar : Grammar) (start : Token) : Walk Expression := do
  let plus : Token := ⟨.operatorAddition, some "+", start.position⟩
  match ← take .stringInterpolationEnd with
  | some stop =>
    match ← value start, ← value stop with
    | .ok (.string front), .ok (.string back) => return .literal start (.string (front ++ back))
    | _, _ => misfitAt start start.kind .string
  | none =>
    let first ← literal start
    grammar |>.pieceLoop plus first
partial_fixpoint

def pieceTurn (grammar : Grammar) (plus : Token) : Walk (Option (Token × Expression)) := do
  match (← current).kind with
  | .stringInterpolationEnd => return none
  | .stringInterpolationStringPart =>
    let part ← advance
    return some (plus, ← literal part)
  | _ => return some (plus, ← grammar |>.expression)
partial_fixpoint

def pieceLoop (grammar : Grammar) (plus : Token) (left : Expression) : Walk Expression := do
  match ← grammar |>.pieceTurn plus with
  | some (operator, right) => grammar |>.pieceLoop plus (.binary operator left right)
  | none =>
    let stop ← advance
    return .binary plus left (← literal stop)
partial_fixpoint

def items (grammar : Grammar) : Walk (List Value) := do
  if ← check .rightBracket then return [] else grammar |>.itemLoop []
partial_fixpoint

def element (grammar : Grammar) (expected : Expectation) : Walk Value := do
  valueOf (← grammar |>.expression) expected
partial_fixpoint

def itemLoop (grammar : Grammar) (items : List Value) : Walk (List Value) := do
  let next ← grammar |>.element .arrayElement
  if ← eat .comma then grammar |>.itemLoop (items ++ [next]) else return items ++ [next]
partial_fixpoint

def entry (grammar : Grammar) : Walk (Value × Value) := do
  let keyToken ← current
  let key ← grammar |>.element .recordKey
  if !key.isScalar then misfitAt keyToken key.type .scalarRecordKey
  else
    let _ ← expectMark .colon ":"
    return (key, ← grammar |>.element .recordValue)
partial_fixpoint

/-- The entries of a record, up to its closing mark. A later value of a key replaces an earlier
one. -/
def entries (grammar : Grammar) : Walk (List (Value × Value)) := do
  if ← check .rightBrace then return [] else grammar |>.entryLoop []
partial_fixpoint

def entryLoop (grammar : Grammar) (entries : List (Value × Value)) :
    Walk (List (Value × Value)) := do
  let (key, value) ← grammar |>.entry
  let entries := Value.insertEntry key value entries
  if ← eat .comma then grammar |>.entryLoop entries else return entries
partial_fixpoint

end

end Grammar

/-- The place of the parenthesis that closes those in front of it, unless the statement ends before.
The first number tells how many are open, the second one how many tokens are behind. -/
def closing? : Nat → Nat → List Token → Except Fault (Option Nat)
  | _, _, [] => .ok none
  | depth, offset, token :: rest =>
    match token.kind with
    | .leftParen => closing? (depth + 1) (offset + 1) rest
    | .rightParen =>
      match depth with
      | 0 => .error .underflow
      | 1 => .ok (some offset)
      | depth + 2 => closing? (depth + 1) (offset + 1) rest
    | .eof | .semicolon => .ok none
    | _ => closing? depth (offset + 1) rest

/-- Whether the parentheses after the sign under the cursor are followed by an arrow. -/
def arrowFollowsParameters : Walk Bool := do
  if (← peekKind 1) ≠ .leftParen then return false
  else
    match closing? 0 0 (← behind) with
    | .error fault => throw (.fault fault)
    | .ok none => return false
    | .ok (some offset) => return (← peekKind (offset + 2)) = .operatorArrow

/-- Whether a definition comes after the sign under the cursor. -/
def defines (sign : Kind) : Walk Bool :=
  if sign = .operatorArrow then return true
  else if sign = .operatorAssignment then arrowFollowsParameters
  else return false

def typeTag : Walk Kind := do
  match Kind.ofTypeName? (← current).text with
  | some named =>
    let _ ← advance
    return named
  | none => misfit .typeName

/-- The name of a type if there is one under the cursor, and another type otherwise. -/
def typeTagOr (otherwise : Kind) : Walk Kind := do
  if ← check .typeName then typeTag else return otherwise

def parameter : Walk Parameter := do
  let declared ← typeTagOr .any
  return ⟨← expect .identifier .parameterName, declared⟩

/-- Items with commas between them up to a closing mark that stays, after those that were read
before. A comma may follow the last one. -/
def Walk.separatedUpTo {α : Type} (item : Walk α) (close : Kind) (items : List α) :
    Walk (List α) := do
  if ← check close then return items
  else
    let next ← item
    if ← eat .comma then item |>.separatedUpTo close (items ++ [next]) else return items ++ [next]
partial_fixpoint

/-- Parameters in parentheses. A comma may follow the last one. -/
def parameters : Walk (List Parameter) := do
  let _ ← expectMark .leftParen "("
  let params ← parameter.separatedUpTo .rightParen []
  let _ ← expectMark .rightParen ")"
  return params

def stringLiteral (expected : Expectation) : Walk String := do
  let token ← expect .string expected
  match ← value token with
  | .ok (.string text) => return text
  | _ => misfitAt token token.kind expected

/-- The end of a simple statement. -/
def semicolon : Walk Token := expectMark .semicolon ";"

/-- An expression, unless the statement ends here. -/
def Grammar.expressionOrEnd (grammar : Grammar) : Walk (Option Expression) := do
  if ← check .semicolon then return none else return some (← grammar.expression)

def Grammar.assignment (grammar : Grammar) (name : Token) (index : List Expression) (sign : Token)
    (append constant : Bool) : Walk Statement := do
  let value ← grammar.expression
  let _ ← semicolon
  let target := if index.isEmpty then .plain name else .indexed name index
  return .assign target sign value append constant

/-- Items with commas between them, after those that were read before. -/
def Walk.separated {α : Type} (item : Walk α) (items : List α) : Walk (List α) := do
  let next ← item
  if ← eat .comma then item |>.separated (items ++ [next]) else return items ++ [next]
partial_fixpoint

def field : Walk Field := do
  let name ← expect .identifier .selectField
  if ← eat .asStatement then return ⟨name, some (← expect .identifier .fieldAlias)⟩
  else return ⟨name, none⟩

def Grammar.select (grammar : Grammar) (word : Token) : Walk Statement := do
  let distinct ← eat .distinctStatement
  let fields ← do
    match ← take .operatorMultiplication with
    | some star => pure [⟨star, none⟩]
    | none => field.separated []
  let _ ← expectMark .fromStatement "from"
  let source ← grammar.expression
  let filter ← do
    if ← eat .whereStatement then pure (some (← grammar.expression)) else pure none
  let merge ← eat .mergeStatement
  let _ ← expectMark .intoStatement "into"
  let target ← grammar.expression
  if !target.isVariable then misfitAt target.token target.kind .intoTarget
  else
    let _ ← semicolon
    return .select word distinct fields source filter merge target

def includes (word : Token) : Walk Statement := do
  let libraries ← (expect .identifier .libraryName).separated []
  let _ ← semicolon
  return .includes word libraries

def Grammar.print (grammar : Grammar) (word : Token) : Walk Statement := do
  let _ ← expectMark .leftParen "("
  let args ← grammar.arguments
  let _ ← semicolon
  return .print word args

namespace Grammar

mutual

/-- A statement that starts with the token under the cursor. -/
def statement (grammar : Grammar) : Walk Statement := do
  let token ← current
  match token.kind with
  | .ifStatement => do
    let _ ← advance
    grammar |>.ifElse token
  | .whileStatement => do
    let _ ← advance
    let condition ← grammar.expression
    return .whileLoop token condition (← grammar |>.block)
  | .foreachStatement => do
    let _ ← advance
    let iterable ← grammar.expression
    return .foreach token iterable (← grammar |>.block)
  | .selectStatement => do
    let _ ← advance
    grammar.select token
  | .breakStatement => do
    let _ ← advance
    let _ ← semicolon
    return .breakLoop token
  | .continueStatement => do
    let _ ← advance
    let _ ← semicolon
    return .continueLoop token
  | .returnStatement => do
    let _ ← advance
    let value ← grammar.expressionOrEnd
    let _ ← semicolon
    return .returnValue token value
  | .haltStatement => do
    let _ ← advance
    let value ← grammar.expressionOrEnd
    let _ ← semicolon
    return .halt token value
  | .printStatement => do
    let _ ← advance
    grammar.print token
  | .includeStatement => do
    let _ ← advance
    includes token
  | .switchStatement => do
    let _ ← advance
    grammar |>.switch token
  | .constStatement => do
    let _ ← advance
    grammar |>.nameStatement true
  | .identifier => grammar |>.nameStatement false
  | .leftBrace | .newRecord => return .block (← grammar |>.block)
  | _ => misfit .statement
partial_fixpoint

def block (grammar : Grammar) : Walk Block := do
  match ← take .newRecord with
  | some brace => return .mk brace []
  | none =>
    let brace ← expectMark .leftBrace "\x7b"
    grammar |>.blockLoop brace []
partial_fixpoint

def blockTurn (grammar : Grammar) : Walk (Option Statement) := do
  if ← check .rightBrace then return none
  else if ← check .eof then misfit (.mark "\x7d")
  else return some (← grammar |>.statement)
partial_fixpoint

def blockLoop (grammar : Grammar) (brace : Token) (statements : List Statement) : Walk Block := do
  match ← grammar |>.blockTurn with
  | some next => grammar |>.blockLoop brace (statements ++ [next])
  | none =>
    let _ ← advance
    return .mk brace statements
partial_fixpoint

def clause (grammar : Grammar) (word : Token) : Walk Clause := do
  let condition ← grammar.expression
  return .mk word condition (← grammar |>.block)
partial_fixpoint

def ifElse (grammar : Grammar) (word : Token) : Walk Statement := do
  let condition ← grammar.expression
  let body ← grammar |>.block
  let elifs ← grammar |>.elifLoop []
  match ← take .elseStatement with
  | some elseWord =>
    return .ifElse word condition body elifs (some (.mk elseWord (← grammar |>.block)))
  | none => return .ifElse word condition body elifs none
partial_fixpoint

def elifTurn (grammar : Grammar) : Walk (Option Clause) := do
  match ← take .elifStatement with
  | some elifWord => return some (← grammar |>.clause elifWord)
  | none => return none
partial_fixpoint

def elifLoop (grammar : Grammar) (elifs : List Clause) : Walk (List Clause) := do
  match ← grammar |>.elifTurn with
  | some next => grammar |>.elifLoop (elifs ++ [next])
  | none => return elifs
partial_fixpoint

def switch (grammar : Grammar) (word : Token) : Walk Statement := do
  let head ← grammar.expression
  if !head.isCallOrVariable then misfitAt head.token head.kind .switchHead
  else if ← eat .newRecord then return .switch word head [] none
  else
    let _ ← expectMark .leftBrace "\x7b"
    let cases ← grammar |>.caseLoop []
    let default ← do
      match ← take .defaultStatement with
      | some defaultWord =>
        let _ ← expectMark .colon ":"
        pure (some (.mk defaultWord (← grammar |>.block)))
      | none => pure none
    let _ ← expect .rightBrace .caseOrEnd
    return .switch word head cases default
partial_fixpoint

def caseClause (grammar : Grammar) (word : Token) : Walk Clause := do
  match ← grammar.expression with
  | .literal token value =>
    let _ ← expectMark .colon ":"
    return .mk word (.literal token value) (← grammar |>.block)
  | other => misfitAt other.token other.kind .caseValue
partial_fixpoint

def caseTurn (grammar : Grammar) : Walk (Option Clause) := do
  match ← take .caseStatement with
  | some caseWord => return some (← grammar |>.caseClause caseWord)
  | none => return none
partial_fixpoint

def caseLoop (grammar : Grammar) (cases : List Clause) : Walk (List Clause) := do
  match ← grammar |>.caseTurn with
  | some next => grammar |>.caseLoop (cases ++ [next])
  | none => return cases
partial_fixpoint

def nameStatement (grammar : Grammar) (constant : Bool) : Walk Statement := do
  let name ← expect .identifier .identifier
  let index ← grammar.indexLoop []
  if ← check .leftParen then
    if constant then misfit .assignmentAfterConst
    else
      let _ ← advance
      let args ← grammar.arguments
      let _ ← semicolon
      return if index.isEmpty then .call name args else .indexedCall name index args
  else
    let append ← eat .newArray
    grammar |>.signRest name index append constant
partial_fixpoint

def signRest (grammar : Grammar) (name : Token) (index : List Expression) (append constant : Bool) :
    Walk Statement := do
  let sign ← current
  if !sign.kind.isAssignment then misfit .assignmentOperator
  else if ← defines sign.kind then
    if append || !index.isEmpty then misfitAt name .indexedVariableExpression .functionName
    else
      let _ ← advance
      grammar |>.definition name (sign.kind = .operatorAssignment)
  else
    let _ ← advance
    grammar.assignment name index sign append constant
partial_fixpoint

/-- The rest of a definition, after its first sign. The arrow stands there or after the
parameters. -/
def definition (grammar : Grammar) (name : Token) (arrowLater : Bool) : Walk Statement := do
  let params ← parameters
  if arrowLater then
    let _ ← expectMark .operatorArrow "=>"
  let result ← typeTagOr .nil
  return .define name params result (← grammar |>.functionBody)
partial_fixpoint

def functionBody (grammar : Grammar) : Walk FunctionBody := do
  if ← eat .externalStatement then
    let module ← stringLiteral .moduleName
    let _ ← expectMark .comma ","
    let function ← stringLiteral .functionName
    let _ ← semicolon
    return .external module function
  else
    let body ← grammar |>.block
    let _ ← eat .semicolon
    return .block body
partial_fixpoint

end

end Grammar

/-- Statements up to the first mark of the end. -/
def Grammar.statements (grammar : Grammar) (before : List Statement) : Walk (List Statement) := do
  if ← check .eof then return before
  else
    let next ← grammar.statement
    grammar |>.statements (before ++ [next])
partial_fixpoint

def language : Grammar := ⟨Expression.levels, Expression.signs⟩

/-- An expression of a script. -/
abbrev expression : Walk Expression := language.expression

/-- The tokens of a parser: those that carry meaning, with a mark of the end behind them unless the
last one is. -/
def tokensOf (tokens : List Token) : List Token :=
  let meaningful := tokens.filter (!·.kind.isTrivia)
  if meaningful.getLast?.any (·.kind = .eof) then meaningful
    else meaningful ++ [TokenList.stopAfter meaningful]

/-- What parsing a list of tokens comes to: a program, with the position that the cursor is left at,
or what ended it early. -/
def parse (tokens : List Token) (file : String) : Option (Except Stop (Program × Nat)) :=
  (do return ⟨file, ← language.statements []⟩ : Walk Program).runFrom (tokensOf tokens) 0

end Treecode.Cursor
