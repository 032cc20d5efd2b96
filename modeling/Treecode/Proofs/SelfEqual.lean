import Treecode.Instruction

set_option autoImplicit false

namespace Treecode

namespace Value

mutual

/-- Whether every float in a value is a number. -/
def HasNumbers : Value → Prop
  | .float x => x.isNaN = false
  | .array items => AllNumbers items
  | .record entries => EntriesNumbers entries
  | _ => True

def AllNumbers : List Value → Prop
  | [] => True
  | item :: items => item.HasNumbers ∧ AllNumbers items

def EntriesNumbers : List (Value × Value) → Prop
  | [] => True
  | (key, value) :: entries => key.HasNumbers ∧ value.HasNumbers ∧ EntriesNumbers entries

end

mutual

theorem equals_of_hasNumbers (v : Value) (numbers : v.HasNumbers) : v.equals v = true := by
  cases v with
  | nil => rfl
  | integer n => exact beq_self_eq_true n
  | float x =>
    have number : x.isNaN = false := numbers
    simp [equals, Double.equals, number]
  | boolean b => exact beq_self_eq_true b
  | string text => exact beq_self_eq_true text
  | array items => exact itemsEqual_of_allNumbers items numbers
  | record entries => exact entriesEqual_of_entriesNumbers entries numbers

theorem itemsEqual_of_allNumbers (items : List Value) (numbers : AllNumbers items) :
    itemsEqual items items = true := by
  cases items with
  | nil => rfl
  | cons item items =>
    rw [itemsEqual, equals_of_hasNumbers item numbers.1, itemsEqual_of_allNumbers items numbers.2]
    rfl

theorem entriesEqual_of_entriesNumbers (entries : List (Value × Value))
    (numbers : EntriesNumbers entries) : entriesEqual entries entries = true := by
  match entries with
  | [] => rfl
  | (key, value) :: entries =>
    rw [entriesEqual, equals_of_hasNumbers key numbers.1, equals_of_hasNumbers value numbers.2.1,
      entriesEqual_of_entriesNumbers entries numbers.2.2]
    rfl

end

end Value

namespace Instruction

mutual

/-- Whether the operations that an instruction applies have texts of their own and every float in
its constants is a number. -/
def Proper : Instruction → Prop
  | .binary opcode left right => opcode.operatorText?.isSome ∧ left.Proper ∧ right.Proper
  | .unary opcode operand => opcode.operatorText?.isSome ∧ operand.Proper
  | .loadConstant value => value.HasNumbers
  | .loadVariable _ index => AllProper index
  | .storeVariable target value _ => target.Proper ∧ value.Proper
  | .newVariable _ => True
  | .call _ args => AllProper args
  | .returnValue value | .halt value => OptionProper value
  | .breakLoop | .continueLoop => True
  | .ifElse condition body elifs otherwise =>
    condition.Proper ∧ AllProper body ∧ ElifsProper elifs ∧ AllProper otherwise
  | .whileLoop condition body => condition.Proper ∧ AllProper body
  | .foreach iterable body => iterable.Proper ∧ AllProper body
  | .switch head cases default => head.Proper ∧ CasesProper cases ∧ AllProper default
  | .print args => AllProper args
  | .define _ _ body => AllProper body
  | .defineExternal _ _ _ _ => True
  | .select _ source filter _ _ target => source.Proper ∧ OptionProper filter ∧ target.Proper
  | .isType operand _ => operand.Proper
  | .typeOf operand => operand.Proper

def OptionProper : Option Instruction → Prop
  | none => True
  | some instruction => instruction.Proper

def AllProper : List Instruction → Prop
  | [] => True
  | instruction :: rest => instruction.Proper ∧ AllProper rest

def ElifsProper : List (Instruction × List Instruction) → Prop
  | [] => True
  | (condition, body) :: rest => condition.Proper ∧ AllProper body ∧ ElifsProper rest

def CasesProper : List (Value × List Instruction) → Prop
  | [] => True
  | (label, body) :: rest => label.HasNumbers ∧ AllProper body ∧ CasesProper rest

end

mutual

theorem equals_of_proper (i : Instruction) (proper : i.Proper) : i.equals i = true := by
  cases i with
  | binary opcode left right =>
    simp [equals, equals_of_proper left proper.2.1, equals_of_proper right proper.2.2]
  | unary opcode operand => simp [equals, equals_of_proper operand proper.2]
  | loadConstant value => rw [equals, value.equals_of_hasNumbers proper]
  | loadVariable name index => simp [equals, allEqual_of_allProper index proper]
  | storeVariable target value append =>
    simp [equals, equals_of_proper target proper.1, equals_of_proper value proper.2]
  | newVariable name => rw [equals, beq_self_eq_true]
  | call name args => simp [equals, allEqual_of_allProper args proper]
  | returnValue value => rw [equals, bothEqual_of_optionProper value proper]
  | halt value => rw [equals, bothEqual_of_optionProper value proper]
  | breakLoop => rw [equals]
  | continueLoop => rw [equals]
  | ifElse condition body elifs otherwise =>
    simp [equals, equals_of_proper condition proper.1, allEqual_of_allProper body proper.2.1,
      elifsEqual_of_elifsProper elifs proper.2.2.1, allEqual_of_allProper otherwise proper.2.2.2]
  | whileLoop condition body =>
    simp [equals, equals_of_proper condition proper.1, allEqual_of_allProper body proper.2]
  | foreach iterable body =>
    simp [equals, equals_of_proper iterable proper.1, allEqual_of_allProper body proper.2]
  | switch head cases default =>
    simp [equals, equals_of_proper head proper.1, casesEqual_of_casesProper cases proper.2.1,
      allEqual_of_allProper default proper.2.2]
  | print args => rw [equals, allEqual_of_allProper args proper]
  | define name params body => simp [equals, allEqual_of_allProper body proper]
  | defineExternal name params module function => simp [equals]
  | select fields source filter distinct merge target =>
    simp [equals, equals_of_proper source proper.1, bothEqual_of_optionProper filter proper.2.1,
      equals_of_proper target proper.2.2]
  | isType operand kind => simp [equals, equals_of_proper operand proper]
  | typeOf operand => rw [equals, equals_of_proper operand proper]

theorem bothEqual_of_optionProper (i : Option Instruction) (proper : OptionProper i) :
    bothEqual i i = true := by
  cases i with
  | none => rw [bothEqual]
  | some i => rw [bothEqual, equals_of_proper i proper]

theorem allEqual_of_allProper (is : List Instruction) (proper : AllProper is) :
    allEqual is is = true := by
  cases is with
  | nil => rw [allEqual]
  | cons i is =>
    rw [allEqual, equals_of_proper i proper.1, allEqual_of_allProper is proper.2]
    rfl

theorem elifsEqual_of_elifsProper (es : List (Instruction × List Instruction))
    (proper : ElifsProper es) : elifsEqual es es = true := by
  match es with
  | [] => rw [elifsEqual]
  | (condition, body) :: es =>
    rw [elifsEqual, equals_of_proper condition proper.1, allEqual_of_allProper body proper.2.1,
      elifsEqual_of_elifsProper es proper.2.2]
    rfl

theorem casesEqual_of_casesProper (cs : List (Value × List Instruction)) (proper : CasesProper cs) :
    casesEqual cs cs = true := by
  match cs with
  | [] => rw [casesEqual]
  | (label, body) :: cs =>
    rw [casesEqual, label.equals_of_hasNumbers proper.1, allEqual_of_allProper body proper.2.1,
      casesEqual_of_casesProper cs proper.2.2]
    rfl

end

end Instruction

end Treecode
