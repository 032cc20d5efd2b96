import Treecode.Compile.Session
import Treecode.Program

set_option autoImplicit false

namespace Treecode.Compile

open Step

def arithmetic? : Kind → Option Opcode
  | .operatorAddition | .operatorAssignmentInc => some .add
  | .operatorSubtraction | .operatorAssignmentDec => some .sub
  | .operatorMultiplication | .operatorAssignmentMul => some .mul
  | .operatorDivision | .operatorAssignmentDiv => some .div
  | .operatorModulus | .operatorAssignmentMod => some .mod
  | .operatorPower | .operatorAssignmentPow => some .pow
  | _ => none

def binary? : Kind → Option Opcode
  | .comparatorGreaterThanEqual => some .gte
  | .comparatorLessThanEqual => some .lte
  | .comparatorEqual => some .eq
  | .comparatorNotEqual => some .neq
  | .comparatorGreaterThan => some .gt
  | .comparatorLessThan => some .lt
  | .andStatement => some .and
  | .orStatement => some .or
  | .xorStatement => some .xor
  | .notStatement => some .not
  | .bitwiseAnd => some .bitwiseAnd
  | .bitwiseOr => some .bitwiseOr
  | other => arithmetic? other

def unary? : Kind → Option Opcode
  | .operatorSubtraction => some .sub
  | .operatorAddition => some .add
  | .notStatement => some .not
  | .bitwiseNot => some .bitwiseNot
  | _ => none

/-- Whether a name is declared where a scope can see it. -/
def isDeclared (scope : Nat) (name : String) : Step Bool := do
  return ((← tree).findVariable scope name).isSome

def requireVariable (scope : Nat) (name : Token) : Step Unit := do
  if ← isDeclared scope name.text then return ()
  else object name (.unknownVariable name.text)

def requireFunction (scope : Nat) (name : Token) : Step Unit := do
  if ((← tree).findFunction scope name.text).isSome then return ()
  else object name (.unknownFunction name.text)

/-- Declares a name in a scope that cannot see it yet. -/
def declareIfNew (scope : Nat) (name : String) : Step Unit := do
  if ← isDeclared scope name then return ()
  else changeTree (·.declare (.fresh name scope))

mutual

/-- The instruction for an expression. The flag tells whether a plain variable may be new. -/
def expression (scope : Nat) (mayDeclare : Bool) : Expression → Step Instruction
  | .plain name => do
    if mayDeclare then declareIfNew scope name.text else requireVariable scope name
    return .loadVariable name.text []
  | .indexed name index => do
    requireVariable scope name
    return .loadVariable name.text (← expressions scope index)
  | .call name args => do
    requireFunction scope name
    return .call name.text (← expressions scope args)
  | .indexedCall name _ _ => object name .variableCall
  | .literal _ value => return .loadConstant value
  | .unary operator operand =>
    match unary? operator.kind with
    | none => object operator (.unknownUnary operator.text)
    | some opcode => do return .unary opcode (← expression scope false operand)
  | .binary operator left right =>
    match binary? operator.kind with
    | none => object operator (.unknownBinary operator.text)
    | some opcode => do
      let leftCode ← expression scope mayDeclare left
      let rightCode ← expression scope mayDeclare right
      return .binary opcode leftCode rightCode
  | .isType _ operand target => do return .isType (← expression scope false operand) target
  | .typeOf _ operand => do return .typeOf (← expression scope false operand)

def expressions (scope : Nat) : List Expression → Step (List Instruction)
  | [] => return []
  | first :: rest => do
    let code ← expression scope false first
    return code :: (← expressions scope rest)

end

def optionalExpression (scope : Nat) (mayDeclare : Bool) :
    Option Expression → Step (Option Instruction)
  | none => return none
  | some e => do return some (← expression scope mayDeclare e)

end Treecode.Compile
