set_option autoImplicit false

namespace Treecode

/-- The head of an instruction. -/
inductive Opcode where
  | add | sub | mul | div | mod | pow | gt | lt | gte | lte | eq | neq | and | or | xor | not
  | bitwiseAnd | bitwiseOr | bitwiseNot | loadVariable | storeVariable | loadConstant
  | newVariable | newScope | leaveScope | loadLibrary | call | returnValue | ifElse | elif
  | otherwise | whileLoop | foreach | breakLoop | continueLoop | switch | switchCase
  | defaultCase | print | define | defineExternal | select | halt | index | isType | typeOf
  deriving DecidableEq, Repr, Inhabited

namespace Opcode

/-- Every operation code, by number. -/
def all : List Opcode :=
  [.add, .sub, .mul, .div, .mod, .pow, .gt, .lt, .gte, .lte, .eq, .neq, .and, .or, .xor, .not,
   .bitwiseAnd, .bitwiseOr, .bitwiseNot, .loadVariable, .storeVariable, .loadConstant,
   .newVariable, .newScope, .leaveScope, .loadLibrary, .call, .returnValue, .ifElse, .elif,
   .otherwise, .whileLoop, .foreach, .breakLoop, .continueLoop, .switch, .switchCase,
   .defaultCase, .print, .define, .defineExternal, .select, .halt, .index, .isType, .typeOf]

def code : Opcode → Nat
  | .add => 1
  | .sub => 2
  | .mul => 3
  | .div => 4
  | .mod => 5
  | .pow => 6
  | .gt => 7
  | .lt => 8
  | .gte => 9
  | .lte => 10
  | .eq => 11
  | .neq => 12
  | .and => 13
  | .or => 14
  | .xor => 15
  | .not => 16
  | .bitwiseAnd => 17
  | .bitwiseOr => 18
  | .bitwiseNot => 19
  | .loadVariable => 20
  | .storeVariable => 21
  | .loadConstant => 22
  | .newVariable => 23
  | .newScope => 24
  | .leaveScope => 25
  | .loadLibrary => 26
  | .call => 30
  | .returnValue => 31
  | .ifElse => 32
  | .elif => 33
  | .otherwise => 34
  | .whileLoop => 35
  | .foreach => 36
  | .breakLoop => 37
  | .continueLoop => 38
  | .switch => 39
  | .switchCase => 40
  | .defaultCase => 41
  | .print => 42
  | .define => 43
  | .defineExternal => 44
  | .select => 45
  | .halt => 46
  | .index => 47
  | .isType => 48
  | .typeOf => 49

/-- The name that a dump prints. -/
def name : Opcode → String
  | .add => "ADD"
  | .sub => "SUB"
  | .mul => "MUL"
  | .div => "DIV"
  | .mod => "MOD"
  | .pow => "POW"
  | .gt => "GT"
  | .lt => "LT"
  | .gte => "GTE"
  | .lte => "LTE"
  | .eq => "EQ"
  | .neq => "NEQ"
  | .and => "AND"
  | .or => "OR"
  | .xor => "XOR"
  | .not => "NOT"
  | .bitwiseAnd => "BITWISE_AND"
  | .bitwiseOr => "BITWISE_OR"
  | .bitwiseNot => "BITWISE_NOT"
  | .loadVariable => "LOAD_VARIABLE"
  | .storeVariable => "STORE_VARIABLE"
  | .loadConstant => "LOAD_CONSTANT"
  | .newVariable => "NEW_VARIABLE"
  | .newScope => "NEW_SCOPE"
  | .leaveScope => "LEAVE_SCOPE"
  | .loadLibrary => "LOAD_LIBRARY"
  | .call => "CALL"
  | .returnValue => "RET"
  | .ifElse => "IF"
  | .elif => "ELIF"
  | .otherwise => "ELSE"
  | .whileLoop => "WHILE"
  | .foreach => "FOREACH"
  | .breakLoop => "BREAK"
  | .continueLoop => "CONTINUE"
  | .switch => "SWITCH"
  | .switchCase => "CASE"
  | .defaultCase => "DEFAULT"
  | .print => "PRINT"
  | .define => "FUNCTION_DEFINITION"
  | .defineExternal => "EXTERN_FUNCTION_DEFINITION"
  | .select => "SELECT"
  | .halt => "HALT"
  | .index => "INDEX"
  | .isType => "IS_TYPE"
  | .typeOf => "TYPE_STATEMENT"

/-- How a script writes an operator. -/
def operatorText? : Opcode → Option String
  | .add => some "+"
  | .sub => some "-"
  | .mul => some "*"
  | .div => some "/"
  | .mod => some "%"
  | .pow => some "^"
  | .gt => some ">"
  | .lt => some "<"
  | .gte => some ">="
  | .lte => some "<="
  | .eq => some "=="
  | .neq => some "!="
  | .and => some "and"
  | .or => some "or"
  | .xor => some "xor"
  | .not => some "not"
  | .bitwiseAnd => some "&"
  | .bitwiseOr => some "|"
  | .bitwiseNot => some "~"
  | _ => none

def ofCode? (n : Nat) : Option Opcode := all.find? (·.code == n)

def ofName? (text : String) : Option Opcode := all.find? (·.name == text)

end Opcode

end Treecode
