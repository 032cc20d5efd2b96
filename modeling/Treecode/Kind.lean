set_option autoImplicit false

namespace Treecode

/-- What a token or a syntax node is. A keyword and the statement that it introduces share one kind,
so that a report names either in the same words. -/
inductive Kind where
  -- Runtime types
  | integer | float | string | boolean | array | record | nil | function | label | type
  | variableType | any | params | typeName
  -- String interpolation
  | stringInterpolationStart | stringInterpolationStringPart | stringInterpolationEnd
  -- Arithmetic
  | operatorAddition | operatorSubtraction | operatorMultiplication | operatorDivision
  | operatorModulus | operatorPower | operatorIncrement | operatorDecrement
  -- Assignment family
  | operatorAssignment | operatorAssignmentInc | operatorAssignmentDec | operatorAssignmentMul
  | operatorAssignmentDiv | operatorAssignmentMod | operatorAssignmentPow | operatorArrow
  -- Comparators
  | comparatorEqual | comparatorNotEqual | comparatorLessThan | comparatorLessThanEqual
  | comparatorGreaterThan | comparatorGreaterThanEqual
  -- Boolean and bitwise operators
  | andStatement | orStatement | xorStatement | notStatement | bitwiseAnd | bitwiseOr
  | bitwiseNot
  -- Punctuation
  | leftParen | rightParen | leftBracket | rightBracket | leftBrace | rightBrace | comma
  | semicolon | colon | dot
  -- Statement keywords
  | ifStatement | elifStatement | elseStatement | foreachStatement | whileStatement
  | switchStatement | caseStatement | defaultStatement | breakStatement | continueStatement
  | returnStatement | selectStatement | fromStatement | whereStatement | intoStatement
  | asStatement | mergeStatement | distinctStatement | orderStatement | includeStatement
  | externalStatement | printStatement | constStatement | haltStatement | typeStatement
  | isTypeStatement | isIntStatement | isFloatStatement | isStringStatement | isBoolStatement
  | isArrayStatement | isRecordStatement | isFunctionStatement | isNilStatement
  -- Statement nodes without a keyword of their own
  | assignmentStatement | functionDefinition | functionParameter | functionCall | selectField
  -- Expression nodes
  | variableExpression | indexedVariableExpression | functionCallExpression
  | variableFunctionCallExpression | libraryExpression | literalExpression | unaryExpression
  | binaryExpression | ternaryExpression | register
  -- Misc
  | program | block | endBlock | newArray | newRecord | index | eof | identifier | whitespace
  | comment
  deriving DecidableEq, Repr, Inhabited

namespace Kind

def all : List Kind :=
  [.integer, .float, .string, .boolean, .array, .record, .nil, .function, .label, .type,
   .variableType, .any, .params, .typeName, .stringInterpolationStart,
   .stringInterpolationStringPart, .stringInterpolationEnd, .operatorAddition,
   .operatorSubtraction, .operatorMultiplication, .operatorDivision, .operatorModulus,
   .operatorPower, .operatorIncrement, .operatorDecrement, .operatorAssignment,
   .operatorAssignmentInc, .operatorAssignmentDec, .operatorAssignmentMul,
   .operatorAssignmentDiv, .operatorAssignmentMod, .operatorAssignmentPow, .operatorArrow,
   .comparatorEqual, .comparatorNotEqual, .comparatorLessThan, .comparatorLessThanEqual,
   .comparatorGreaterThan, .comparatorGreaterThanEqual, .andStatement, .orStatement,
   .xorStatement, .notStatement, .bitwiseAnd, .bitwiseOr, .bitwiseNot, .leftParen, .rightParen,
   .leftBracket, .rightBracket, .leftBrace, .rightBrace, .comma, .semicolon, .colon, .dot,
   .ifStatement, .elifStatement, .elseStatement, .foreachStatement, .whileStatement,
   .switchStatement, .caseStatement, .defaultStatement, .breakStatement, .continueStatement,
   .returnStatement, .selectStatement, .fromStatement, .whereStatement, .intoStatement,
   .asStatement, .mergeStatement, .distinctStatement, .orderStatement, .includeStatement,
   .externalStatement, .printStatement, .constStatement, .haltStatement, .typeStatement,
   .isTypeStatement, .isIntStatement, .isFloatStatement, .isStringStatement, .isBoolStatement,
   .isArrayStatement, .isRecordStatement, .isFunctionStatement, .isNilStatement,
   .assignmentStatement, .functionDefinition, .functionParameter, .functionCall, .selectField,
   .variableExpression, .indexedVariableExpression, .functionCallExpression,
   .variableFunctionCallExpression, .libraryExpression, .literalExpression, .unaryExpression,
   .binaryExpression, .ternaryExpression, .register, .program, .block, .endBlock, .newArray,
   .newRecord, .index, .eof, .identifier, .whitespace, .comment]

/-- The place of a kind in the fixed order, counted from zero. -/
def number (kind : Kind) : Nat := all.idxOf kind

/-- The name that reports and dumps print. -/
def name : Kind → String
  | .integer => "INTEGER"
  | .float => "FLOAT"
  | .string => "STRING"
  | .boolean => "BOOLEAN"
  | .array => "ARRAY"
  | .record => "RECORD"
  | .nil => "NIL"
  | .function => "FUNCTION"
  | .label => "LABEL"
  | .type => "TYPE"
  | .variableType => "VARIABLE"
  | .any => "ANY"
  | .params => "PARAMS"
  | .typeName => "TYPE_NAME"
  | .stringInterpolationStart => "STRING_INTERPOLATION_START"
  | .stringInterpolationStringPart => "STRING_INTERPOLATION_STRING_PART"
  | .stringInterpolationEnd => "STRING_INTERPOLATION_END"
  | .operatorAddition => "OPERATOR_ADDITION"
  | .operatorSubtraction => "OPERATOR_SUBTRACTION"
  | .operatorMultiplication => "OPERATOR_MULTIPLICATION"
  | .operatorDivision => "OPERATOR_DIVISION"
  | .operatorModulus => "OPERATOR_MODULUS"
  | .operatorPower => "OPERATOR_POWER"
  | .operatorIncrement => "OPERATOR_INCREMENT"
  | .operatorDecrement => "OPERATOR_DECREMENT"
  | .operatorAssignment => "OPERATOR_ASSIGNMENT"
  | .operatorAssignmentInc => "OPERATOR_ASSIGNMENT_INC"
  | .operatorAssignmentDec => "OPERATOR_ASSIGNMENT_DEC"
  | .operatorAssignmentMul => "OPERATOR_ASSIGNMENT_MUL"
  | .operatorAssignmentDiv => "OPERATOR_ASSIGNMENT_DIV"
  | .operatorAssignmentMod => "OPERATOR_ASSIGNMENT_MOD"
  | .operatorAssignmentPow => "OPERATOR_ASSIGNMENT_POW"
  | .operatorArrow => "OPERATOR_ARROW"
  | .comparatorEqual => "COMPARATOR_EQUAL"
  | .comparatorNotEqual => "COMPARATOR_NOT_EQUAL"
  | .comparatorLessThan => "COMPARATOR_LESS_THAN"
  | .comparatorLessThanEqual => "COMPARATOR_LESS_THAN_EQUAL"
  | .comparatorGreaterThan => "COMPARATOR_GREATER_THAN"
  | .comparatorGreaterThanEqual => "COMPARATOR_GREATER_THAN_EQUAL"
  | .andStatement => "AND_STATEMENT"
  | .orStatement => "OR_STATEMENT"
  | .xorStatement => "XOR_STATEMENT"
  | .notStatement => "NOT_STATEMENT"
  | .bitwiseAnd => "BITWISE_AND"
  | .bitwiseOr => "BITWISE_OR"
  | .bitwiseNot => "BITWISE_NOT"
  | .leftParen => "LEFT_PAREN"
  | .rightParen => "RIGHT_PAREN"
  | .leftBracket => "LEFT_BRACKET"
  | .rightBracket => "RIGHT_BRACKET"
  | .leftBrace => "LEFT_BRACE"
  | .rightBrace => "RIGHT_BRACE"
  | .comma => "COMMA"
  | .semicolon => "SEMICOLON"
  | .colon => "COLON"
  | .dot => "DOT"
  | .ifStatement => "IF_STATEMENT"
  | .elifStatement => "ELIF_STATEMENT"
  | .elseStatement => "ELSE_STATEMENT"
  | .foreachStatement => "FOREACH_STATEMENT"
  | .whileStatement => "WHILE_STATEMENT"
  | .switchStatement => "SWITCH_STATEMENT"
  | .caseStatement => "CASE_STATEMENT"
  | .defaultStatement => "DEFAULT_STATEMENT"
  | .breakStatement => "BREAK_STATEMENT"
  | .continueStatement => "CONTINUE_STATEMENT"
  | .returnStatement => "RETURN_STATEMENT"
  | .selectStatement => "SELECT_STATEMENT"
  | .fromStatement => "FROM_STATEMENT"
  | .whereStatement => "WHERE_STATEMENT"
  | .intoStatement => "INTO_STATEMENT"
  | .asStatement => "AS_STATEMENT"
  | .mergeStatement => "MERGE_STATEMENT"
  | .distinctStatement => "DISTINCT_STATEMENT"
  | .orderStatement => "ORDER_STATEMENT"
  | .includeStatement => "INCLUDE_STATEMENT"
  | .externalStatement => "EXTERNAL_STATEMENT"
  | .printStatement => "PRINT_STATEMENT"
  | .constStatement => "CONST_STATEMENT"
  | .haltStatement => "HALT_STATEMENT"
  | .typeStatement => "TYPE_STATEMENT"
  | .isTypeStatement => "IS_TYPE_STATEMENT"
  | .isIntStatement => "IS_INT_STATEMENT"
  | .isFloatStatement => "IS_FLOAT_STATEMENT"
  | .isStringStatement => "IS_STRING_STATEMENT"
  | .isBoolStatement => "IS_BOOL_STATEMENT"
  | .isArrayStatement => "IS_ARRAY_STATEMENT"
  | .isRecordStatement => "IS_RECORD_STATEMENT"
  | .isFunctionStatement => "IS_FUNCTION_STATEMENT"
  | .isNilStatement => "IS_NIL_STATEMENT"
  | .assignmentStatement => "ASSIGNMENT_STATEMENT"
  | .functionDefinition => "FUNCTION_DEFINITION"
  | .functionParameter => "FUNCTION_PARAMETER"
  | .functionCall => "FUNCTION_CALL"
  | .selectField => "SELECT_FIELD"
  | .variableExpression => "VARIABLE_EXPRESSION"
  | .indexedVariableExpression => "INDEXED_VARIABLE_EXPRESSION"
  | .functionCallExpression => "FUNCTION_CALL_EXPRESSION"
  | .variableFunctionCallExpression => "VARIABLE_FUNCTION_CALL_EXPRESSION"
  | .libraryExpression => "LIBRARY_EXPRESSION"
  | .literalExpression => "LITERAL_EXPRESSION"
  | .unaryExpression => "UNARY_EXPRESSION"
  | .binaryExpression => "BINARY_EXPRESSION"
  | .ternaryExpression => "TERNARY_EXPRESSION"
  | .register => "REGISTER"
  | .program => "PROGRAM"
  | .block => "BLOCK"
  | .endBlock => "END_BLOCK"
  | .newArray => "NEW_ARRAY"
  | .newRecord => "NEW_RECORD"
  | .index => "INDEX"
  | .eof => "EOF"
  | .identifier => "IDENTIFIER"
  | .whitespace => "WHITESPACE"
  | .comment => "COMMENT"

def ofName? (text : String) : Option Kind := all.find? (·.name == text)

theorem mem_all (kind : Kind) : kind ∈ all := by cases kind <;> decide

/-- The kind of a reserved word; any other word is a plain identifier. -/
def ofWord? : String → Option Kind
  | "if" => some .ifStatement
  | "elif" => some .elifStatement
  | "else" => some .elseStatement
  | "foreach" => some .foreachStatement
  | "while" => some .whileStatement
  | "switch" => some .switchStatement
  | "case" => some .caseStatement
  | "default" => some .defaultStatement
  | "break" => some .breakStatement
  | "continue" => some .continueStatement
  | "return" => some .returnStatement
  | "select" => some .selectStatement
  | "from" => some .fromStatement
  | "where" => some .whereStatement
  | "into" => some .intoStatement
  | "as" => some .asStatement
  | "merge" => some .mergeStatement
  | "distinct" => some .distinctStatement
  | "order" => some .orderStatement
  | "include" => some .includeStatement
  | "external" => some .externalStatement
  | "print" => some .printStatement
  | "const" => some .constStatement
  | "halt" => some .haltStatement
  | "and" => some .andStatement
  | "or" => some .orStatement
  | "xor" => some .xorStatement
  | "not" => some .notStatement
  | "true" => some .boolean
  | "false" => some .boolean
  | "nil" => some .nil
  | "integer" => some .typeName
  | "float" => some .typeName
  | "string" => some .typeName
  | "bool" => some .typeName
  | "array" => some .typeName
  | "record" => some .typeName
  | "function" => some .typeName
  | "params" => some .typeName
  | "variable" => some .typeName
  | "Type" => some .typeStatement
  | "IsInt" => some .isIntStatement
  | "IsFloat" => some .isFloatStatement
  | "IsString" => some .isStringStatement
  | "IsBool" => some .isBoolStatement
  | "IsArray" => some .isArrayStatement
  | "IsRecord" => some .isRecordStatement
  | "IsFunction" => some .isFunctionStatement
  | "IsNil" => some .isNilStatement
  | _ => none

def ofTypeName? : String → Option Kind
  | "integer" => some .integer
  | "float" => some .float
  | "string" => some .string
  | "bool" => some .boolean
  | "array" => some .array
  | "record" => some .record
  | "function" => some .function
  | "params" => some .params
  | "variable" => some .variableType
  | _ => none

/-- How a script spells a type. -/
def typeName? : Kind → Option String
  | .integer => some "integer"
  | .float => some "float"
  | .string => some "string"
  | .boolean => some "bool"
  | .array => some "array"
  | .record => some "record"
  | .function => some "function"
  | .params => some "params"
  | .variableType => some "variable"
  | _ => none

def testedType? : Kind → Option Kind
  | .isIntStatement => some .integer
  | .isFloatStatement => some .float
  | .isStringStatement => some .string
  | .isBoolStatement => some .boolean
  | .isArrayStatement => some .array
  | .isRecordStatement => some .record
  | .isFunctionStatement => some .function
  | .isNilStatement => some .nil
  | _ => none

def testWord? : Kind → Option String
  | .integer => some "IsInt"
  | .float => some "IsFloat"
  | .string => some "IsString"
  | .boolean => some "IsBool"
  | .array => some "IsArray"
  | .record => some "IsRecord"
  | .function => some "IsFunction"
  | .nil => some "IsNil"
  | _ => none

/-- White space and comments carry no meaning. -/
def isTrivia : Kind → Bool
  | .whitespace | .comment => true
  | _ => false

/-- The operators that may follow the target of an assignment, the arrow of a definition
included. -/
def isAssignment : Kind → Bool
  | .operatorAssignment | .operatorAssignmentInc | .operatorAssignmentDec | .operatorAssignmentMul
  | .operatorAssignmentDiv | .operatorAssignmentMod | .operatorAssignmentPow | .operatorArrow =>
    true
  | _ => false

end Kind

end Treecode
