import Mathlib
import Treecode.Proofs.DistinctTexts

set_option autoImplicit false

namespace Treecode

open Dump

namespace Dump

@[simps text]
def Atom.ofOpcode (opcode : Opcode) : Atom where
  text := opcode.name
  nonempty := by cases opcode <;> decide
  plain := List.all_eq_true.1 (by cases opcode <;> rfl)

theorem kind_name_isAtom (kind : Kind) : kind.name ≠ "" ∧ ∀ c ∈ kind.name.toList, inAtom c := by
  have all : Kind.all.all fun kind => kind.name != "" && kind.name.toList.all inAtom := by
    decide +kernel
  have both := List.all_eq_true.1 all kind kind.mem_all
  rw [Bool.and_eq_true, List.all_eq_true] at both
  exact ⟨bne_iff_ne.1 both.1, both.2⟩

@[simps text]
def Atom.ofKind (kind : Kind) : Atom where
  text := kind.name
  nonempty := (kind_name_isAtom kind).1
  plain := (kind_name_isAtom kind).2

@[simps text]
def Atom.ofFlag (b : Bool) : Atom where
  text := Instruction.flagText b
  nonempty := by cases b <;> decide
  plain := List.all_eq_true.1 (by cases b <;> rfl)

@[simps text]
def Atom.ofCount (n : ℕ) : Atom where
  text := toString n
  nonempty := Nat.repr_ne_empty
  plain := by
    intro c member
    rw [Nat.toString_eq_ofList_toDigits, String.toList_ofList] at member
    exact Value.inAtom_digit (Decimal.isDigit_of_mem_digits n c member)

def Atom.ofInteger (n : Int64) : Atom where
  text := Value.integerText n
  nonempty := Value.integerText_ne_empty n
  plain := by
    intro c member
    obtain digit | rfl := Value.integerText_chars n c member
    · exact Value.inAtom_digit digit
    · rfl

def Atom.ofFloat (x : Double) : Atom where
  text := Value.floatText x
  nonempty := by
    intro empty
    have point := (Value.floatText_chars x).2
    rw [empty] at point
    cases point
  plain := (Value.floatText_chars x).1

def Atom.nil : Atom where
  text := "nil"
  nonempty := by decide
  plain := List.all_eq_true.1 rfl

def Quotation.ofName (name : String) : Quotation where
  text := name.toList.flatMap Text.quotedCharacter
  escaped := .flatMap Text.escaped_quotedCharacter _

def Quotation.ofString (text : String) : Quotation where
  text := text.toList.flatMap Value.stringCharacter
  escaped := .flatMap Value.escaped_stringCharacter _

end Dump

namespace Value

mutual

/-- The nested text of a value. -/
def tree : Value → Tree
  | .nil => .atom .nil
  | .integer n => .atom (.ofInteger n)
  | .float x => .atom (.ofFloat x)
  | .boolean b => .atom (.ofFlag b)
  | .string text => .quotation (.ofString text)
  | .array items => .bracketed (itemTrees items)
  | .record entries => .braced (entryTrees entries)

def itemTrees : List Value → List Tree
  | [] => []
  | item :: items => item.tree :: itemTrees items

def entryTrees : List (Value × Value) → List (Tree × Tree)
  | [] => []
  | (key, value) :: entries => (key.tree, value.tree) :: entryTrees entries

end

mutual

theorem text_tree (v : Value) : v.tree.text = v.text := by
  cases v with
  | nil => rfl
  | integer n => rfl
  | float x => rfl
  | boolean b => rfl
  | string text => rfl
  | array items =>
    rw [tree, Tree.text, texts_itemTrees items]
    rfl
  | record entries =>
    rw [tree, Tree.text, entryTexts_entryTrees entries]
    rfl

theorem texts_itemTrees (items : List Value) : Tree.texts (itemTrees items) = itemTexts items := by
  cases items with
  | nil => rfl
  | cons item items => rw [itemTrees, Tree.texts, text_tree item, texts_itemTrees items, itemTexts]

theorem entryTexts_entryTrees (entries : List (Value × Value)) :
    Tree.entryTexts (entryTrees entries) = entryTexts entries := by
  match entries with
  | [] => rfl
  | (key, value) :: entries =>
    rw [entryTrees, Tree.entryTexts, text_tree key, text_tree value, entryTexts_entryTrees entries,
      entryTexts]

end

end Value

namespace Instruction

open Text (quoted)

def nameTree (name : String) : Tree := .quotation (.ofName name)

/-- The nested text of the parameters of a function. -/
def paramTrees (params : List String) : List Tree :=
  params.map fun param => .tuple [.atom (.ofOpcode .newVariable), nameTree param]

/-- The nested text of the fields of a select. -/
def fieldTrees (fields : List (String × Option String)) : List Tree :=
  fields.map fun (name, newName) => .tuple (nameTree name :: newName.toList.map nameTree)

mutual

/-- The nested text of an instruction. -/
def tree (instruction : Instruction) : Tree :=
  .tuple (.atom (.ofOpcode instruction.opcode) ::
    match instruction with
    | .binary _ left right => [.bracketed [left.tree], .bracketed [right.tree]]
    | .unary _ operand => [.bracketed [operand.tree]]
    | .loadConstant value => [value.tree]
    | .loadVariable name index =>
      nameTree name :: if index.isEmpty then [] else [.bracketed (trees index)]
    | .storeVariable target value append =>
      [.bracketed [target.tree], .bracketed [value.tree], .atom (.ofFlag append)]
    | .newVariable name => [nameTree name]
    | .call name args => [nameTree name, .atom (.ofCount args.length), .bracketed (trees args)]
    | .returnValue value => [.bracketed (optionTrees value)]
    | .halt value => [.bracketed (optionTrees value)]
    | .breakLoop => []
    | .continueLoop => []
    | .ifElse condition body elifs otherwise =>
      [.bracketed [condition.tree], .bracketed (trees body), .bracketed (elifTrees elifs),
        .tuple [.atom (.ofOpcode .otherwise), .bracketed (trees otherwise)]]
    | .whileLoop condition body => [.bracketed [condition.tree], .bracketed (trees body)]
    | .foreach iterable body => [.bracketed [iterable.tree], .bracketed (trees body)]
    | .switch head cases default =>
      [.bracketed [head.tree], .braced (caseTrees cases), .bracketed (trees default)]
    | .print args => [.atom (.ofCount args.length), .bracketed (trees args)]
    | .define name params body =>
      [nameTree name, .bracketed (paramTrees params), .bracketed (trees body)]
    | .defineExternal name params module function =>
      [nameTree name, .bracketed (paramTrees params), nameTree module, nameTree function]
    | .select fields source filter distinct merge target =>
      [.bracketed (fieldTrees fields), .bracketed [source.tree], .bracketed (optionTrees filter),
        .atom (.ofFlag distinct), .atom (.ofFlag merge), .bracketed [target.tree]]
    | .isType operand kind => [.bracketed [operand.tree], .atom (.ofKind kind)]
    | .typeOf operand => [.bracketed [operand.tree]])

def trees : List Instruction → List Tree
  | [] => []
  | instruction :: rest => instruction.tree :: trees rest

def optionTrees : Option Instruction → List Tree
  | none => []
  | some instruction => [instruction.tree]

def elifTrees : List (Instruction × List Instruction) → List Tree
  | [] => []
  | (condition, body) :: rest =>
    .tuple [.atom (.ofOpcode .elif), .bracketed [condition.tree], .bracketed (trees body)] ::
      elifTrees rest

def caseTrees : List (Value × List Instruction) → List (Tree × Tree)
  | [] => []
  | (label, body) :: rest => (label.tree, .bracketed (trees body)) :: caseTrees rest

end

@[simp] theorem text_nameTree (name : String) : (nameTree name).text = quoted name := rfl

@[simp] theorem texts_paramTrees (params : List String) :
    bracketed (Tree.texts (paramTrees params)) = paramsText params := by
  rw [Tree.texts_eq, paramTrees, List.map_map]
  rfl

@[simp] theorem texts_fieldTrees (fields : List (String × Option String)) :
    bracketed (Tree.texts (fieldTrees fields)) = fieldsText fields := by
  have field (entry : String × Option String) :
      (Tree.tuple (nameTree entry.1 :: entry.2.toList.map nameTree)).text =
        tuple (quoted entry.1 :: entry.2.toList.map quoted) := by
    obtain ⟨name, newName⟩ := entry
    cases newName <;> rfl
  rw [Tree.texts_eq, fieldTrees, List.map_map]
  exact congrArg bracketed (List.map_congr_left fun entry _ => field entry)

mutual

/-- An instruction is printed as its nested text. -/
theorem text_tree (i : Instruction) : i.tree.text = i.text := by
  cases i with
  | binary opcode left right => simp [tree, text, text_tree left, text_tree right]
  | unary opcode operand => simp [tree, text, text_tree operand]
  | loadConstant value => simp [tree, text, value.text_tree]
  | loadVariable name index =>
    cases index with
    | nil => simp [tree, text]
    | cons first index => simp [tree, text, trees, texts, text_tree first, texts_trees index]
  | storeVariable target value append => simp [tree, text, text_tree target, text_tree value]
  | newVariable name => simp [tree, text]
  | call name args => simp [tree, text, texts_trees args]
  | returnValue value => simp [tree, text, texts_optionTrees value]
  | halt value => simp [tree, text, texts_optionTrees value]
  | breakLoop => simp [tree, text]
  | continueLoop => simp [tree, text]
  | ifElse condition body elifs otherwise =>
    simp [tree, text, text_tree condition, texts_trees body, texts_elifTrees elifs,
      texts_trees otherwise]
  | whileLoop condition body => simp [tree, text, text_tree condition, texts_trees body]
  | foreach iterable body => simp [tree, text, text_tree iterable, texts_trees body]
  | switch head cases default =>
    simp [tree, text, text_tree head, entryTexts_caseTrees cases, texts_trees default]
  | print args => simp [tree, text, texts_trees args]
  | define name params body => simp [tree, text, texts_trees body]
  | defineExternal name params module function => simp [tree, text]
  | select fields source filter distinct merge target =>
    simp [tree, text, text_tree source, texts_optionTrees filter, text_tree target]
  | isType operand kind => simp [tree, text, text_tree operand]
  | typeOf operand => simp [tree, text, text_tree operand]

theorem texts_trees (is : List Instruction) : Tree.texts (trees is) = texts is := by
  cases is with
  | nil => rw [trees, texts, Tree.texts]
  | cons i is => rw [trees, texts, Tree.texts, text_tree i, texts_trees is]

theorem texts_optionTrees (i : Option Instruction) :
    Tree.texts (optionTrees i) = optionTexts i := by
  cases i with
  | none => rw [optionTrees, optionTexts, Tree.texts]
  | some i => rw [optionTrees, optionTexts, Tree.texts, Tree.texts, text_tree i]

theorem texts_elifTrees (es : List (Instruction × List Instruction)) :
    Tree.texts (elifTrees es) = elifTexts es := by
  match es with
  | [] => rw [elifTrees, elifTexts, Tree.texts]
  | (condition, body) :: es =>
    simp [elifTrees, elifTexts, text_tree condition, texts_trees body, texts_elifTrees es]

theorem entryTexts_caseTrees (cs : List (Value × List Instruction)) :
    Tree.entryTexts (caseTrees cs) = caseTexts cs := by
  match cs with
  | [] => rw [caseTrees, caseTexts, Tree.entryTexts]
  | (label, body) :: cs =>
    rw [caseTrees, caseTexts, Tree.entryTexts, label.text_tree, Tree.text, texts_trees body,
      entryTexts_caseTrees cs]

end

end Instruction

end Treecode
