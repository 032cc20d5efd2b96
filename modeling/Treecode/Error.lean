import Treecode.Files
import Treecode.Value.Text
import Treecode.Value.Literal

set_option autoImplicit false

namespace Treecode

/-- A place in a named file. -/
structure Location where
  file : String
  line : Nat
  column : Nat
  deriving DecidableEq, Repr

/-- The wording of a place. -/
def Location.text (place : Location) : String :=
  place.file ++ " at " ++ toString place.line ++ ":" ++ toString place.column

/-- Why a text has no tokens. -/
inductive LexicalFault where
  | invalidCharacter (c : Char)
  | unterminatedComment
  | unterminatedString
  | unterminatedInterpolation
  deriving DecidableEq, Repr

def LexicalFault.message : LexicalFault → String
  | .invalidCharacter c => "invalid character `" ++ String.singleton c ++ "`"
  | .unterminatedComment => "unterminated block comment"
  | .unterminatedString => "unterminated string literal"
  | .unterminatedInterpolation => "unterminated string interpolation"

/-- What a script has to continue with. -/
inductive Expectation where
  | mark (spelling : String)
  | statement
  | expression
  | identifier
  | selectField
  | fieldAlias
  | intoTarget
  | libraryName
  | switchHead
  | caseValue
  | caseOrEnd
  | assignmentAfterConst
  | assignmentOperator
  | moduleName
  | functionName
  | parameterName
  | typeName
  | validLiteral (fault : LiteralFault)
  | arrayElement
  | recordKey
  | scalarRecordKey
  | recordValue
  | string
  deriving DecidableEq, Repr

def Expectation.message : Expectation → String
  | .mark spelling => "`" ++ spelling ++ "`"
  | .statement => "statement"
  | .expression => "expression"
  | .identifier => "identifier"
  | .selectField => "select field or `*`"
  | .fieldAlias => "field alias"
  | .intoTarget => "variable as `into` target"
  | .libraryName => "library name"
  | .switchHead => "variable or function call as switch head"
  | .caseValue => "literal case value"
  | .caseOrEnd => "`case`, `default` or `\x7d`"
  | .assignmentAfterConst => "assignment after `const`"
  | .assignmentOperator => "assignment operator"
  | .moduleName => "module name"
  | .functionName => "function name"
  | .parameterName => "parameter name"
  | .typeName => "type name"
  | .validLiteral fault => "a valid literal (" ++ fault.message ++ ")"
  | .arrayElement => "literal array element"
  | .recordKey => "literal record key"
  | .scalarRecordKey => "scalar record key"
  | .recordValue => "literal record value"
  | .string => "string"

/-- Why a well-formed script has no bytecode. -/
inductive Objection where
  | assignsConstant (name : String)
  | constantDeclared (name : String)
  | unknownAssignment (operator : String)
  | appendsWith (operator : String)
  | newVariableWith (operator name : String)
  | duplicateCase (label : Value)
  | caseNotConstant
  | variableCall
  | circularInclude (name : String)
  | unknownFunction (name : String)
  | unknownVariable (name : String)
  | unknownUnary (operator : String)
  | unknownBinary (operator : String)

def Objection.message : Objection → String
  | .assignsConstant name => "cannot assign to constant " ++ name
  | .constantDeclared name => "constant " ++ name ++ " is already declared"
  | .unknownAssignment operator => "unknown assignment operator " ++ operator
  | .appendsWith operator =>
    "operator " ++ operator ++ " is not supported when appending to an array"
  | .newVariableWith operator name =>
    "operator " ++ operator ++ " is not supported on new variable " ++ name
  | .duplicateCase label => "Duplicate case statement " ++ label.text
  | .caseNotConstant => "case expression must be a constant"
  | .variableCall => "variable function calls are not supported"
  | .circularInclude name => "circular include of library " ++ name
  | .unknownFunction name => "Unknown function " ++ name
  | .unknownVariable name => "Unknown variable " ++ name
  | .unknownUnary operator => "Unknown unary operator " ++ operator
  | .unknownBinary operator => "Unknown binary operator " ++ operator

/-- Why something could not be done. -/
inductive Error where
  | unreadable (path : String) (fault : FileFault)
  | libraryNotFound (name : String) (place : Location)
  | lexical (place : Location) (fault : LexicalFault) (snippet : String)
  | unexpected (place : Location) (found : Kind) (text : String) (expected : Expectation)
  | rejected (place : Location) (objection : Objection)
  | unknownOpcode (name : String)

namespace Error

def message : Error → String
  | .unreadable path fault => "failed to read " ++ path ++ ": " ++ fault.message
  | .libraryNotFound name place => "library " ++ name ++ " not found in " ++ place.text
  | .lexical place fault snippet =>
    "lexer error in " ++ place.text ++ ": " ++ fault.message ++ " near `" ++ snippet ++ "`"
  | .unexpected place found text expected =>
    "parser error in " ++ place.text ++ ": expected " ++ expected.message ++ ", got " ++ found.name
      ++ " `" ++ text ++ "`"
  | .rejected place objection => "compiler error in " ++ place.text ++ ": " ++ objection.message
  | .unknownOpcode name => "unknown opcode " ++ name

/-- The place that an error points at, if it points into a text. -/
def location? : Error → Option Location
  | .libraryNotFound _ place | .lexical place _ _ | .unexpected place _ _ _ | .rejected place _ =>
    some place
  | .unreadable _ _ | .unknownOpcode _ => none

end Error

end Treecode
