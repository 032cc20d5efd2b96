import Treecode.Instruction
import Treecode.Text.Quoted
import Treecode.Value.Text

set_option autoImplicit false

namespace Treecode.Instruction

open Treecode.Text (quoted)

def tuple (parts : List String) : String := "(" ++ ", ".intercalate parts ++ ")"

def bracketed (parts : List String) : String := "[" ++ ", ".intercalate parts ++ "]"

def flagText (b : Bool) : String := if b then "true" else "false"

def paramsText (params : List String) : String :=
  bracketed (params.map fun param => tuple [Opcode.newVariable.name, quoted param])

def fieldsText (fields : List (String × Option String)) : String :=
  bracketed (fields.map fun (name, newName) => tuple (quoted name :: newName.toList.map quoted))

mutual

/-- The dump of one instruction. -/
def text (instruction : Instruction) : String :=
  tuple (instruction.opcode.name ::
    match instruction with
    | .binary _ left right => [bracketed [left.text], bracketed [right.text]]
    | .unary _ operand => [bracketed [operand.text]]
    | .loadConstant value => [value.text]
    | .loadVariable name index =>
      quoted name :: if index.isEmpty then [] else [bracketed (texts index)]
    | .storeVariable target value append =>
      [bracketed [target.text], bracketed [value.text], flagText append]
    | .newVariable name => [quoted name]
    | .call name args => [quoted name, toString args.length, bracketed (texts args)]
    | .returnValue value => [bracketed (optionTexts value)]
    | .halt value => [bracketed (optionTexts value)]
    | .breakLoop => []
    | .continueLoop => []
    | .ifElse condition body elifs otherwise =>
      [bracketed [condition.text], bracketed (texts body), bracketed (elifTexts elifs),
        tuple [Opcode.otherwise.name, bracketed (texts otherwise)]]
    | .whileLoop condition body => [bracketed [condition.text], bracketed (texts body)]
    | .foreach iterable body => [bracketed [iterable.text], bracketed (texts body)]
    | .switch head cases default =>
      [bracketed [head.text], "\x7b" ++ ", ".intercalate (caseTexts cases) ++ "\x7d",
        bracketed (texts default)]
    | .print args => [toString args.length, bracketed (texts args)]
    | .define name params body => [quoted name, paramsText params, bracketed (texts body)]
    | .defineExternal name params module function =>
      [quoted name, paramsText params, quoted module, quoted function]
    | .select fields source filter distinct merge target =>
      [fieldsText fields, bracketed [source.text], bracketed (optionTexts filter),
        flagText distinct, flagText merge, bracketed [target.text]]
    | .isType operand kind => [bracketed [operand.text], kind.name]
    | .typeOf operand => [bracketed [operand.text]])

def texts : List Instruction → List String
  | [] => []
  | instruction :: rest => instruction.text :: texts rest

def optionTexts : Option Instruction → List String
  | none => []
  | some instruction => [instruction.text]

def elifTexts : List (Instruction × List Instruction) → List String
  | [] => []
  | (condition, body) :: rest =>
    tuple [Opcode.elif.name, bracketed [condition.text], bracketed (texts body)] :: elifTexts rest

def caseTexts : List (Value × List Instruction) → List String
  | [] => []
  | (label, body) :: rest => (label.text ++ ": " ++ bracketed (texts body)) :: caseTexts rest

end

/-- The dump of a program: one line for each instruction. -/
def dump (instructions : List Instruction) : String :=
  String.join ((texts instructions).map (· ++ "\n"))

end Treecode.Instruction
