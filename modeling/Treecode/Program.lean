import Treecode.Token
import Treecode.Value

set_option autoImplicit false

namespace Treecode

/-- An expression. An operator, a call or a type test keeps its own token, everything else the token
of its name or of its first sign. -/
inductive Expression where
  | plain (name : Token)
  | indexed (name : Token) (index : List Expression)
  | call (name : Token) (args : List Expression)
  | indexedCall (name : Token) (index args : List Expression)
  | literal (token : Token) (value : Value)
  | unary (operator : Token) (operand : Expression)
  | binary (operator : Token) (left right : Expression)
  | isType (word : Token) (operand : Expression) (target : Kind)
  | typeOf (word : Token) (operand : Expression)
  deriving Inhabited

namespace Expression

/-- The token that reports point at. -/
def token : Expression → Token
  | .plain name | .indexed name _ | .call name _ | .indexedCall name _ _ => name
  | .literal token _ => token
  | .unary operator _ | .binary operator _ _ => operator
  | .isType word _ _ | .typeOf word _ => word

/-- What an expression is called in reports. -/
def kind : Expression → Kind
  | .plain _ => .variableExpression
  | .indexed _ _ => .indexedVariableExpression
  | .call _ _ => .functionCallExpression
  | .indexedCall _ _ _ => .variableFunctionCallExpression
  | .literal _ _ => .literalExpression
  | .unary _ _ => .unaryExpression
  | .binary _ _ _ => .binaryExpression
  | .isType _ _ _ => .isTypeStatement
  | .typeOf _ _ => .typeStatement

/-- Whether a value can be stored at the expression. -/
def isVariable : Expression → Bool
  | .plain _ | .indexed _ _ => true
  | _ => false

/-- Whether the expression calls something or names a variable, as the head of a switch does. -/
def isCallOrVariable : Expression → Bool
  | .plain _ | .indexed _ _ | .call _ _ | .indexedCall _ _ _ => true
  | _ => false

end Expression

/-- A parameter of a function, with its declared type. -/
structure Parameter where
  name : Token
  type : Kind
  deriving Inhabited

/-- A field that a select statement takes, with the name it gives it. -/
structure Field where
  name : Token
  newName : Option Token
  deriving Inhabited

def Field.finalName (field : Field) : String := (field.newName.getD field.name).text

mutual

/-- A statement. -/
inductive Statement where
  | assign (target : Expression) (operator : Token) (value : Expression) (append constant : Bool)
  | define (name : Token) (params : List Parameter) (result : Kind) (body : FunctionBody)
  | ifElse (word : Token) (condition : Expression) (block : Block) (elifs : List Clause)
      (otherwise : Option LastClause)
  | whileLoop (word : Token) (condition : Expression) (block : Block)
  | foreach (word : Token) (iterable : Expression) (block : Block)
  | switch (word : Token) (head : Expression) (cases : List Clause) (default : Option LastClause)
  | breakLoop (word : Token)
  | continueLoop (word : Token)
  | returnValue (word : Token) (value : Option Expression)
  | halt (word : Token) (value : Option Expression)
  | print (word : Token) (args : List Expression)
  | includes (word : Token) (libraries : List Token)
  | select (word : Token) (distinct : Bool) (fields : List Field) (source : Expression)
      (filter : Option Expression) (merge : Bool) (target : Expression)
  | call (name : Token) (args : List Expression)
  | indexedCall (name : Token) (index args : List Expression)
  | block (block : Block)

/-- Statements between braces, with the token of the opening one. -/
inductive Block where
  | mk (brace : Token) (statements : List Statement)

/-- A further condition of an `if` or a case of a `switch`: its word, what it compares and its
block. -/
inductive Clause where
  | mk (word : Token) (guard : Expression) (block : Block)

/-- The `else` of an `if` or the `default` of a `switch`. -/
inductive LastClause where
  | mk (word : Token) (block : Block)

inductive FunctionBody where
  | block (block : Block)
  | external (module function : String)

end

instance : Inhabited Statement := ⟨.breakLoop default⟩

namespace Block

def brace : Block → Token
  | .mk brace _ => brace

def statements : Block → List Statement
  | .mk _ statements => statements

end Block

/-- Whether the function lies outside. -/
def FunctionBody.isExternal : FunctionBody → Bool
  | .external _ _ => true
  | .block _ => false

namespace Statement

/-- The token that reports point at. -/
def token : Statement → Token
  | .assign target _ _ _ _ => target.token
  | .define name _ _ _ => name
  | .ifElse word _ _ _ _ | .whileLoop word _ _ | .foreach word _ _ | .switch word _ _ _ => word
  | .breakLoop word | .continueLoop word | .returnValue word _ | .halt word _ => word
  | .print word _ | .includes word _ | .select word _ _ _ _ _ _ => word
  | .call name _ | .indexedCall name _ _ => name
  | .block body => body.brace

/-- What a statement is called in reports. -/
def kind : Statement → Kind
  | .assign _ _ _ _ _ => .assignmentStatement
  | .define _ _ _ _ => .functionDefinition
  | .ifElse _ _ _ _ _ => .ifStatement
  | .whileLoop _ _ _ => .whileStatement
  | .foreach _ _ _ => .foreachStatement
  | .switch _ _ _ _ => .switchStatement
  | .breakLoop _ => .breakStatement
  | .continueLoop _ => .continueStatement
  | .returnValue _ _ => .returnStatement
  | .halt _ _ => .haltStatement
  | .print _ _ => .printStatement
  | .includes _ _ => .includeStatement
  | .select _ _ _ _ _ _ _ => .selectStatement
  | .call _ _ => .functionCall
  | .indexedCall _ _ _ => .variableFunctionCallExpression
  | .block _ => .block

end Statement

/-- A script: the file it is from, and its statements. -/
structure Program where
  file : String
  statements : List Statement
  deriving Inhabited

end Treecode
