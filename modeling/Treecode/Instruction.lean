import Treecode.Opcode
import Treecode.Value

set_option autoImplicit false

namespace Treecode

/-- An instruction. A field of a select is its name and the new name, if any. -/
inductive Instruction where
  | binary (opcode : Opcode) (left right : Instruction)
  | unary (opcode : Opcode) (operand : Instruction)
  | loadConstant (value : Value)
  | loadVariable (name : String) (index : List Instruction)
  | storeVariable (target value : Instruction) (append : Bool)
  | newVariable (name : String)
  | call (name : String) (args : List Instruction)
  | returnValue (value : Option Instruction)
  | halt (value : Option Instruction)
  | breakLoop
  | continueLoop
  | ifElse (condition : Instruction) (body : List Instruction)
      (elifs : List (Instruction × List Instruction)) (otherwise : List Instruction)
  | whileLoop (condition : Instruction) (body : List Instruction)
  | foreach (iterable : Instruction) (body : List Instruction)
  | switch (head : Instruction) (cases : List (Value × List Instruction))
      (default : List Instruction)
  | print (args : List Instruction)
  | define (name : String) (params : List String) (body : List Instruction)
  | defineExternal (name : String) (params : List String) (module function : String)
  | select (fields : List (String × Option String)) (source : Instruction)
      (filter : Option Instruction) (distinct merge : Bool) (target : Instruction)
  | isType (operand : Instruction) (kind : Kind)
  | typeOf (operand : Instruction)
  deriving Inhabited

namespace Instruction

def opcode : Instruction → Opcode
  | .binary opcode _ _ | .unary opcode _ => opcode
  | .loadConstant _ => .loadConstant
  | .loadVariable _ _ => .loadVariable
  | .storeVariable _ _ _ => .storeVariable
  | .newVariable _ => .newVariable
  | .call _ _ => .call
  | .returnValue _ => .returnValue
  | .halt _ => .halt
  | .breakLoop => .breakLoop
  | .continueLoop => .continueLoop
  | .ifElse _ _ _ _ => .ifElse
  | .whileLoop _ _ => .whileLoop
  | .foreach _ _ => .foreach
  | .switch _ _ _ => .switch
  | .print _ => .print
  | .define _ _ _ => .define
  | .defineExternal _ _ _ _ => .defineExternal
  | .select _ _ _ _ _ _ => .select
  | .isType _ _ => .isType
  | .typeOf _ => .typeOf

def isOperator : Instruction → Bool
  | .binary _ _ _ | .unary _ _ => true
  | _ => false

/-- The instruction that ends every program. -/
def finalHalt : Instruction := .halt (some (.loadConstant (.integer 0)))

/-- A list of instructions without the halt that ends every program, if that is its last one. -/
def withoutFinalHalt (instructions : List Instruction) : List Instruction :=
  match instructions.getLast? with
  | some (.halt (some (.loadConstant (.integer 0)))) => instructions.dropLast
  | _ => instructions

mutual

/-- Equality of instructions, with the equality of values for their constants. -/
def equals (instruction other : Instruction) : Bool :=
  match instruction with
  | .binary f a b => match other with
    | .binary g c d => f == g && a.equals c && b.equals d
    | _ => false
  | .unary f a => match other with
    | .unary g b => f == g && a.equals b
    | _ => false
  | .loadConstant v => match other with
    | .loadConstant w => v.equals w
    | _ => false
  | .loadVariable x is => match other with
    | .loadVariable y js => x == y && allEqual is js
    | _ => false
  | .storeVariable a b p => match other with
    | .storeVariable c d q => a.equals c && b.equals d && p == q
    | _ => false
  | .newVariable x => match other with
    | .newVariable y => x == y
    | _ => false
  | .call x is => match other with
    | .call y js => x == y && allEqual is js
    | _ => false
  | .returnValue a => match other with
    | .returnValue b => bothEqual a b
    | _ => false
  | .halt a => match other with
    | .halt b => bothEqual a b
    | _ => false
  | .breakLoop => match other with
    | .breakLoop => true
    | _ => false
  | .continueLoop => match other with
    | .continueLoop => true
    | _ => false
  | .ifElse a is es os => match other with
    | .ifElse b js fs ps => a.equals b && allEqual is js && elifsEqual es fs && allEqual os ps
    | _ => false
  | .whileLoop a is => match other with
    | .whileLoop b js => a.equals b && allEqual is js
    | _ => false
  | .foreach a is => match other with
    | .foreach b js => a.equals b && allEqual is js
    | _ => false
  | .switch a cs is => match other with
    | .switch b ds js => a.equals b && casesEqual cs ds && allEqual is js
    | _ => false
  | .print is => match other with
    | .print js => allEqual is js
    | _ => false
  | .define x ps is => match other with
    | .define y qs js => x == y && ps == qs && allEqual is js
    | _ => false
  | .defineExternal x ps m f => match other with
    | .defineExternal y qs n g => x == y && ps == qs && m == n && f == g
    | _ => false
  | .select fs a c p q b => match other with
    | .select gs d f r s e =>
      fs == gs && a.equals d && bothEqual c f && p == r && q == s && b.equals e
    | _ => false
  | .isType a k => match other with
    | .isType b l => a.equals b && k == l
    | _ => false
  | .typeOf a => match other with
    | .typeOf b => a.equals b
    | _ => false

def bothEqual : Option Instruction → Option Instruction → Bool
  | none, none => true
  | some a, some b => a.equals b
  | _, _ => false

def allEqual : List Instruction → List Instruction → Bool
  | [], [] => true
  | a :: is, b :: js => a.equals b && allEqual is js
  | _, _ => false

def elifsEqual :
    List (Instruction × List Instruction) → List (Instruction × List Instruction) → Bool
  | [], [] => true
  | (a, is) :: es, (b, js) :: fs => a.equals b && allEqual is js && elifsEqual es fs
  | _, _ => false

def casesEqual : List (Value × List Instruction) → List (Value × List Instruction) → Bool
  | [], [] => true
  | (v, is) :: cs, (w, js) :: ds => v.equals w && allEqual is js && casesEqual cs ds
  | _, _ => false

end

end Instruction

end Treecode
