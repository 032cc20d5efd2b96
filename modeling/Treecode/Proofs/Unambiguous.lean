import Treecode.Proofs.Nested
import Treecode.Proofs.SelfEqual

set_option autoImplicit false

namespace Treecode

open Dump

theorem Opcode.name_injective : Function.Injective name := by
  have distinct : (all.map name).Nodup := by decide +kernel
  have listed (opcode : Opcode) : opcode ∈ all := by cases opcode <;> decide
  intro opcode other same
  exact List.inj_on_of_nodup_map distinct (listed opcode) (listed other) same

theorem Kind.name_injective : Function.Injective name := by
  have distinct : (all.map name).Nodup := by decide +kernel
  intro kind other same
  exact List.inj_on_of_nodup_map distinct (mem_all kind) (mem_all other) same

theorem Instruction.flagText_injective : Function.Injective flagText := by
  have apart : flagText true ≠ flagText false := by decide
  intro b b' same
  cases b <;> cases b'
  · rfl
  · exact absurd same.symm apart
  · exact absurd same apart
  · rfl

namespace Value

def isAtom : Value → Bool
  | .nil | .integer _ | .float _ | .boolean _ => true
  | _ => false

/-- The type of a constant that is printed as a given atom. -/
def typeOfAtom (atom : String) : Kind :=
  if '.' ∈ atom.toList then .float
  else if ∀ c ∈ atom.toList, c.isDigit ∨ c = '-' then .integer
  else if atom = "nil" then .nil
  else .boolean

theorem typeOfAtom_text {v : Value} (atom : v.isAtom) : typeOfAtom v.text = v.type := by
  have letters (text : String) (point : '.' ∉ text.toList) (letter : ∃ c ∈ text.toList,
    ¬ (c.isDigit ∨ c = '-')) : typeOfAtom text = if text = "nil" then .nil else .boolean := by
    obtain ⟨c, member, other⟩ := letter
    unfold typeOfAtom
    rw [if_neg point, if_neg (fun all => other (all c member))]
  cases v with
  | nil => exact letters "nil" (by simp) ⟨'n', by simp, by decide⟩
  | integer n =>
    have chars := integerText_chars n
    have noPoint : '.' ∉ (integerText n).toList := by
      intro point
      obtain digit | minus := chars '.' point
      · cases digit
      · cases minus
    rw [text, typeOfAtom, if_neg noPoint, if_pos chars]
    rfl
  | float x =>
    rw [text, typeOfAtom, if_pos (floatText_chars x).2]
    rfl
  | boolean b =>
    cases b with
    | true => exact letters "true" (by simp) ⟨'t', by simp, by decide⟩
    | false => exact letters "false" (by simp) ⟨'f', by simp, by decide⟩
  | string _ | array _ | record _ => cases atom

/-- An atom tells the constant that it is printed of. -/
theorem atom_injective {v w : Value} (atom : v.isAtom) (numbers : v.HasNumbers)
    (numbers' : w.HasNumbers) (same : v.tree = w.tree) : v = w := by
  have texts : v.text = w.text := by rw [← text_tree v, same, text_tree w]
  have atom' : w.isAtom := by
    cases w with
    | string _ | array _ | record _ => cases v <;> cases atom <;> cases same
    | nil | integer _ | float _ | boolean _ => rfl
  have types : v.type = w.type := by rw [← typeOfAtom_text atom, texts, typeOfAtom_text atom']
  cases v with
  | nil => cases w <;> cases types; rfl
  | integer n =>
    cases w <;> cases types
    exact congrArg integer (integerText_injective texts)
  | float x =>
    cases w <;> cases types
    exact congrArg float (floatText_injective numbers numbers' texts)
  | boolean b =>
    cases w <;> cases types
    exact congrArg boolean (Instruction.flagText_injective texts)
  | string _ | array _ | record _ => cases atom

mutual

/-- The nested text of a value tells the value. -/
theorem tree_injective (v : Value) {w : Value} (numbers : v.HasNumbers) (numbers' : w.HasNumbers)
    (same : v.tree = w.tree) : v = w := by
  cases v with
  | nil | integer _ | float _ | boolean _ => exact atom_injective rfl numbers numbers' same
  | string text =>
    cases w with
    | string other =>
      have texts : (string text).text = (string other).text := by rw [← text_tree, same, text_tree]
      exact congrArg string (stringText_injective texts)
    | _ => cases same
  | array items =>
    cases w with
    | array others =>
      exact congrArg array (itemTrees_injective items numbers numbers' (Tree.bracketed.inj same))
    | _ => cases same
  | record entries =>
    cases w with
    | record others =>
      exact congrArg record (entryTrees_injective entries numbers numbers' (Tree.braced.inj same))
    | _ => cases same

theorem itemTrees_injective (items : List Value) {others : List Value} (numbers : AllNumbers items)
    (numbers' : AllNumbers others) (same : itemTrees items = itemTrees others) :
    items = others := by
  cases items with
  | nil =>
    cases others with
    | nil => rfl
    | cons other others => cases same
  | cons item items =>
    cases others with
    | nil => cases same
    | cons other others =>
      obtain ⟨first, rest⟩ := List.cons.inj same
      rw [tree_injective item numbers.1 numbers'.1 first,
        itemTrees_injective items numbers.2 numbers'.2 rest]

theorem entryTrees_injective (entries : List (Value × Value)) {others : List (Value × Value)}
    (numbers : EntriesNumbers entries) (numbers' : EntriesNumbers others)
    (same : entryTrees entries = entryTrees others) : entries = others := by
  match entries with
  | [] =>
    cases others with
    | nil => rfl
    | cons other others => cases same
  | (key, value) :: entries =>
    match others with
    | [] => cases same
    | (key', value') :: others =>
      obtain ⟨first, rest⟩ := List.cons.inj same
      obtain ⟨keys, values⟩ := Prod.mk.inj first
      rw [tree_injective key numbers.1 numbers'.1 keys,
        tree_injective value numbers.2.1 numbers'.2.1 values,
        entryTrees_injective entries numbers.2.2 numbers'.2.2 rest]

end

end Value

namespace Instruction

open Text (quoted)

theorem nameTree_injective : Function.Injective nameTree := by
  intro name other same
  have texts : quoted name = quoted other := by rw [← text_nameTree, same, text_nameTree]
  exact Text.quoted_injective texts

theorem nameTree_inj {name other : String} : nameTree name = nameTree other ↔ name = other :=
  nameTree_injective.eq_iff

theorem ofFlag_inj {b b' : Bool} : Atom.ofFlag b = Atom.ofFlag b' ↔ b = b' :=
  ⟨fun same => flagText_injective (congrArg Atom.text same), congrArg Atom.ofFlag⟩

theorem ofKind_inj {kind other : Kind} : Atom.ofKind kind = Atom.ofKind other ↔ kind = other :=
  ⟨fun same => Kind.name_injective (congrArg Atom.text same), congrArg Atom.ofKind⟩

theorem paramTrees_inj {params others : List String} :
    paramTrees params = paramTrees others ↔ params = others := by
  apply Function.Injective.eq_iff
  apply Function.Injective.list_map
  intro param other same
  exact nameTree_injective (List.cons.inj (List.cons.inj (Tree.tuple.inj same)).2).1

theorem fieldTrees_inj {fields others : List (String × Option String)} :
    fieldTrees fields = fieldTrees others ↔ fields = others := by
  apply Function.Injective.eq_iff
  apply Function.Injective.list_map
  rintro ⟨name, newName⟩ ⟨name', newName'⟩ same
  obtain ⟨names, newNames⟩ := List.cons.inj (Tree.tuple.inj same)
  rw [nameTree_injective names]
  cases newName with
  | none =>
    cases newName' with
    | none => rfl
    | some newName' => cases newNames
  | some newName =>
    cases newName' with
    | none => cases newNames
    | some newName' => rw [nameTree_injective (List.cons.inj newNames).1]

/-- Instructions with the same nested text have the same operation code. -/
theorem opcode_of_tree {i j : Instruction} (same : i.tree = j.tree) : i.opcode = j.opcode := by
  rw [tree.eq_def, tree.eq_def] at same
  have atoms := Tree.atom.inj (List.cons.inj (Tree.tuple.inj same)).1
  exact Opcode.name_injective (congrArg Atom.text atoms)

/-- How two instructions with the same nested text are made: in the same way, with the same names,
flags and types, and of parts with the same nested texts. -/
inductive Alike : Instruction → Instruction → Prop
  | binary {opcode left right left' right'} (lefts : left.tree = left'.tree)
      (rights : right.tree = right'.tree) :
      Alike (.binary opcode left right) (.binary opcode left' right')
  | unary {opcode operand operand'} (operands : operand.tree = operand'.tree) :
      Alike (.unary opcode operand) (.unary opcode operand')
  | loadConstant {value value'} (values : value.tree = value'.tree) :
      Alike (.loadConstant value) (.loadConstant value')
  | loadVariable {name index index'} (indices : trees index = trees index') :
      Alike (.loadVariable name index) (.loadVariable name index')
  | storeVariable {target value target' value' append} (targets : target.tree = target'.tree)
      (values : value.tree = value'.tree) :
      Alike (.storeVariable target value append) (.storeVariable target' value' append)
  | newVariable {name} : Alike (.newVariable name) (.newVariable name)
  | call {name args args'} (lists : trees args = trees args') :
      Alike (.call name args) (.call name args')
  | returnValue {value value'} (values : optionTrees value = optionTrees value') :
      Alike (.returnValue value) (.returnValue value')
  | halt {value value'} (values : optionTrees value = optionTrees value') :
      Alike (.halt value) (.halt value')
  | breakLoop : Alike .breakLoop .breakLoop
  | continueLoop : Alike .continueLoop .continueLoop
  | ifElse {condition body elifs otherwise condition' body' elifs' otherwise'}
      (conditions : condition.tree = condition'.tree) (bodies : trees body = trees body')
      (branches : elifTrees elifs = elifTrees elifs')
      (others : trees otherwise = trees otherwise') :
      Alike (.ifElse condition body elifs otherwise) (.ifElse condition' body' elifs' otherwise')
  | whileLoop {condition body condition' body'} (conditions : condition.tree = condition'.tree)
      (bodies : trees body = trees body') :
      Alike (.whileLoop condition body) (.whileLoop condition' body')
  | foreach {iterable body iterable' body'} (iterables : iterable.tree = iterable'.tree)
      (bodies : trees body = trees body') :
      Alike (.foreach iterable body) (.foreach iterable' body')
  | switch {head cases default head' cases' default'} (heads : head.tree = head'.tree)
      (branches : caseTrees cases = caseTrees cases') (defaults : trees default = trees default') :
      Alike (.switch head cases default) (.switch head' cases' default')
  | print {args args'} (lists : trees args = trees args') : Alike (.print args) (.print args')
  | define {name params body body'} (bodies : trees body = trees body') :
      Alike (.define name params body) (.define name params body')
  | defineExternal {name params module function} :
      Alike (.defineExternal name params module function)
        (.defineExternal name params module function)
  | select {fields source filter distinct merge target source' filter' target'}
      (sources : source.tree = source'.tree) (filters : optionTrees filter = optionTrees filter')
      (targets : target.tree = target'.tree) :
      Alike (.select fields source filter distinct merge target)
        (.select fields source' filter' distinct merge target')
  | isType {operand operand' kind} (operands : operand.tree = operand'.tree) :
      Alike (.isType operand kind) (.isType operand' kind)
  | typeOf {operand operand'} (operands : operand.tree = operand'.tree) :
      Alike (.typeOf operand) (.typeOf operand')

/-- Instructions with the same nested text are made in the same way. -/
theorem alike_of_tree {i j : Instruction} (proper : i.Proper) (proper' : j.Proper)
    (same : i.tree = j.tree) : Alike i j := by
  have codes := opcode_of_tree same
  -- operators share no code with other instructions, and the number of operands tells them apart
  cases i with
  | binary opcode left right =>
    cases j with
    | binary opcode' left' right' =>
      cases codes
      simp only [tree, Tree.tuple.injEq, Tree.bracketed.injEq, List.cons.injEq, and_true] at same
      exact .binary same.2.1 same.2.2
    | unary opcode' operand' =>
      cases codes
      simp [tree] at same
    | _ =>
      cases codes
      cases proper.1
  | unary opcode operand =>
    cases j with
    | unary opcode' operand' =>
      cases codes
      simp only [tree, Tree.tuple.injEq, Tree.bracketed.injEq, List.cons.injEq, and_true] at same
      exact .unary same.2
    | binary opcode' left' right' =>
      cases codes
      simp [tree] at same
    | _ =>
      cases codes
      cases proper.1
  | loadConstant value =>
    cases j with
    | loadConstant value' =>
      simp only [tree, Tree.tuple.injEq, List.cons.injEq, and_true] at same
      exact .loadConstant same.2
    | _ => cases codes <;> cases proper'.1
  | loadVariable name index =>
    cases j with
    | loadVariable name' index' =>
      simp only [tree, Tree.tuple.injEq, List.cons.injEq, nameTree_inj] at same
      obtain ⟨_, rfl, parts⟩ := same
      apply Alike.loadVariable
      cases index <;> cases index'
      · rfl
      · cases parts
      · cases parts
      · exact Tree.bracketed.inj (List.cons.inj parts).1
    | _ => cases codes <;> cases proper'.1
  | storeVariable target value append =>
    cases j with
    | storeVariable target' value' append' =>
      simp only [tree, Tree.tuple.injEq, Tree.bracketed.injEq, Tree.atom.injEq, List.cons.injEq,
        ofFlag_inj, and_true] at same
      obtain ⟨_, targets, values, rfl⟩ := same
      exact .storeVariable targets values
    | _ => cases codes <;> cases proper'.1
  | newVariable name =>
    cases j with
    | newVariable name' =>
      simp only [tree, Tree.tuple.injEq, List.cons.injEq, nameTree_inj, and_true] at same
      obtain ⟨_, rfl⟩ := same
      exact .newVariable
    | _ => cases codes <;> cases proper'.1
  | call name args =>
    cases j with
    | call name' args' =>
      simp only [tree, Tree.tuple.injEq, Tree.bracketed.injEq, List.cons.injEq, nameTree_inj,
        and_true] at same
      obtain ⟨_, rfl, _, lists⟩ := same
      exact .call lists
    | _ => cases codes <;> cases proper'.1
  | returnValue value =>
    cases j with
    | returnValue value' =>
      simp only [tree, Tree.tuple.injEq, Tree.bracketed.injEq, List.cons.injEq, and_true] at same
      exact .returnValue same.2
    | _ => cases codes <;> cases proper'.1
  | halt value =>
    cases j with
    | halt value' =>
      simp only [tree, Tree.tuple.injEq, Tree.bracketed.injEq, List.cons.injEq, and_true] at same
      exact .halt same.2
    | _ => cases codes <;> cases proper'.1
  | breakLoop =>
    cases j with
    | breakLoop => exact .breakLoop
    | _ => cases codes <;> cases proper'.1
  | continueLoop =>
    cases j with
    | continueLoop => exact .continueLoop
    | _ => cases codes <;> cases proper'.1
  | ifElse condition body elifs otherwise =>
    cases j with
    | ifElse condition' body' elifs' otherwise' =>
      simp only [tree, Tree.tuple.injEq, Tree.bracketed.injEq, List.cons.injEq, and_true,
        true_and] at same
      obtain ⟨_, conditions, bodies, branches, others⟩ := same
      exact .ifElse conditions bodies branches others
    | _ => cases codes <;> cases proper'.1
  | whileLoop condition body =>
    cases j with
    | whileLoop condition' body' =>
      simp only [tree, Tree.tuple.injEq, Tree.bracketed.injEq, List.cons.injEq, and_true] at same
      exact .whileLoop same.2.1 same.2.2
    | _ => cases codes <;> cases proper'.1
  | foreach iterable body =>
    cases j with
    | foreach iterable' body' =>
      simp only [tree, Tree.tuple.injEq, Tree.bracketed.injEq, List.cons.injEq, and_true] at same
      exact .foreach same.2.1 same.2.2
    | _ => cases codes <;> cases proper'.1
  | switch head branches default =>
    cases j with
    | switch head' branches' default' =>
      simp only [tree, Tree.tuple.injEq, Tree.bracketed.injEq, Tree.braced.injEq, List.cons.injEq,
        and_true] at same
      exact .switch same.2.1 same.2.2.1 same.2.2.2
    | _ => cases codes <;> cases proper'.1
  | print args =>
    cases j with
    | print args' =>
      simp only [tree, Tree.tuple.injEq, Tree.bracketed.injEq, List.cons.injEq, and_true] at same
      exact .print same.2.2
    | _ => cases codes <;> cases proper'.1
  | define name params body =>
    cases j with
    | define name' params' body' =>
      simp only [tree, Tree.tuple.injEq, Tree.bracketed.injEq, List.cons.injEq, nameTree_inj,
        paramTrees_inj, and_true] at same
      obtain ⟨_, rfl, rfl, bodies⟩ := same
      exact .define bodies
    | _ => cases codes <;> cases proper'.1
  | defineExternal name params module function =>
    cases j with
    | defineExternal name' params' module' function' =>
      simp only [tree, Tree.tuple.injEq, Tree.bracketed.injEq, List.cons.injEq, nameTree_inj,
        paramTrees_inj, and_true] at same
      obtain ⟨_, rfl, rfl, rfl, rfl⟩ := same
      exact .defineExternal
    | _ => cases codes <;> cases proper'.1
  | select fields source filter distinct merge target =>
    cases j with
    | select fields' source' filter' distinct' merge' target' =>
      simp only [tree, Tree.tuple.injEq, Tree.bracketed.injEq, Tree.atom.injEq, List.cons.injEq,
        ofFlag_inj, fieldTrees_inj, and_true] at same
      obtain ⟨_, rfl, sources, filters, rfl, rfl, targets⟩ := same
      exact .select sources filters targets
    | _ => cases codes <;> cases proper'.1
  | isType operand kind =>
    cases j with
    | isType operand' kind' =>
      simp only [tree, Tree.tuple.injEq, Tree.bracketed.injEq, Tree.atom.injEq, List.cons.injEq,
        ofKind_inj, and_true] at same
      obtain ⟨_, operands, rfl⟩ := same
      exact .isType operands
    | _ => cases codes <;> cases proper'.1
  | typeOf operand =>
    cases j with
    | typeOf operand' =>
      simp only [tree, Tree.tuple.injEq, Tree.bracketed.injEq, List.cons.injEq, and_true] at same
      exact .typeOf same.2
    | _ => cases codes <;> cases proper'.1

mutual

/-- The nested text of an instruction tells the instruction. -/
theorem tree_injective (i : Instruction) {j : Instruction} (proper : i.Proper) (proper' : j.Proper)
    (same : i.tree = j.tree) : i = j := by
  have alike := alike_of_tree proper proper' same
  cases i with
  | binary opcode left right =>
    cases alike with
    | binary lefts rights =>
      rw [left.tree_injective proper.2.1 proper'.2.1 lefts,
        right.tree_injective proper.2.2 proper'.2.2 rights]
  | unary opcode operand =>
    cases alike with
    | unary operands => rw [operand.tree_injective proper.2 proper'.2 operands]
  | loadConstant value =>
    cases alike with
    | loadConstant values => rw [value.tree_injective proper proper' values]
  | loadVariable name index =>
    cases alike with
    | loadVariable indices => rw [trees_injective index proper proper' indices]
  | storeVariable target value append =>
    cases alike with
    | storeVariable targets values =>
      rw [target.tree_injective proper.1 proper'.1 targets,
        value.tree_injective proper.2 proper'.2 values]
  | newVariable name =>
    cases alike with
    | newVariable => rfl
  | call name args =>
    cases alike with
    | call lists => rw [trees_injective args proper proper' lists]
  | returnValue value =>
    cases alike with
    | returnValue values => rw [optionTrees_injective value proper proper' values]
  | halt value =>
    cases alike with
    | halt values => rw [optionTrees_injective value proper proper' values]
  | breakLoop =>
    cases alike with
    | breakLoop => rfl
  | continueLoop =>
    cases alike with
    | continueLoop => rfl
  | ifElse condition body elifs otherwise =>
    cases alike with
    | ifElse conditions bodies branches others =>
      rw [condition.tree_injective proper.1 proper'.1 conditions,
        trees_injective body proper.2.1 proper'.2.1 bodies,
        elifTrees_injective elifs proper.2.2.1 proper'.2.2.1 branches,
        trees_injective otherwise proper.2.2.2 proper'.2.2.2 others]
  | whileLoop condition body =>
    cases alike with
    | whileLoop conditions bodies =>
      rw [condition.tree_injective proper.1 proper'.1 conditions,
        trees_injective body proper.2 proper'.2 bodies]
  | foreach iterable body =>
    cases alike with
    | foreach iterables bodies =>
      rw [iterable.tree_injective proper.1 proper'.1 iterables,
        trees_injective body proper.2 proper'.2 bodies]
  | switch head branches default =>
    cases alike with
    | switch heads labels defaults =>
      rw [head.tree_injective proper.1 proper'.1 heads,
        caseTrees_injective branches proper.2.1 proper'.2.1 labels,
        trees_injective default proper.2.2 proper'.2.2 defaults]
  | print args =>
    cases alike with
    | print lists => rw [trees_injective args proper proper' lists]
  | define name params body =>
    cases alike with
    | define bodies => rw [trees_injective body proper proper' bodies]
  | defineExternal name params module function =>
    cases alike with
    | defineExternal => rfl
  | select fields source filter distinct merge target =>
    cases alike with
    | select sources filters targets =>
      rw [source.tree_injective proper.1 proper'.1 sources,
        optionTrees_injective filter proper.2.1 proper'.2.1 filters,
        target.tree_injective proper.2.2 proper'.2.2 targets]
  | isType operand kind =>
    cases alike with
    | @isType _ operand' _ operands =>
      rw [operand.tree_injective (j := operand') proper proper' operands]
  | typeOf operand =>
    cases alike with
    | @typeOf _ operand' operands =>
      rw [operand.tree_injective (j := operand') proper proper' operands]
termination_by structural i

theorem trees_injective (is : List Instruction) {js : List Instruction} (proper : AllProper is)
    (proper' : AllProper js) (same : trees is = trees js) : is = js := by
  cases is with
  | nil =>
    cases js with
    | nil => rfl
    | cons j js => cases same
  | cons i is =>
    cases js with
    | nil => cases same
    | cons j js =>
      obtain ⟨first, rest⟩ := List.cons.inj same
      rw [i.tree_injective proper.1 proper'.1 first, trees_injective is proper.2 proper'.2 rest]
termination_by structural is

theorem optionTrees_injective (i : Option Instruction) {j : Option Instruction}
    (proper : OptionProper i)
    (proper' : OptionProper j) (same : optionTrees i = optionTrees j) : i = j := by
  cases i with
  | none =>
    cases j with
    | none => rfl
    | some j => cases same
  | some i =>
    cases j with
    | none => cases same
    | some j => rw [i.tree_injective proper proper' (List.cons.inj same).1]
termination_by structural i

theorem elifTrees_injective (es : List (Instruction × List Instruction))
    {fs : List (Instruction × List Instruction)} (proper : ElifsProper es)
    (proper' : ElifsProper fs)
    (same : elifTrees es = elifTrees fs) : es = fs := by
  match es with
  | [] =>
    cases fs with
    | nil => rfl
    | cons f fs => cases same
  | (condition, body) :: es =>
    match fs with
    | [] => cases same
    | (condition', body') :: fs =>
      simp only [elifTrees, List.cons.injEq, Tree.tuple.injEq, Tree.bracketed.injEq, and_true,
        true_and] at same
      obtain ⟨⟨conditions, bodies⟩, rest⟩ := same
      rw [condition.tree_injective proper.1 proper'.1 conditions,
        trees_injective body proper.2.1 proper'.2.1 bodies,
          elifTrees_injective es proper.2.2 proper'.2.2 rest]
termination_by structural es

theorem caseTrees_injective (cs : List (Value × List Instruction))
    {ds : List (Value × List Instruction)}
    (proper : CasesProper cs) (proper' : CasesProper ds) (same : caseTrees cs = caseTrees ds) :
    cs = ds := by
  match cs with
  | [] =>
    cases ds with
    | nil => rfl
    | cons d ds => cases same
  | (label, body) :: cs =>
    match ds with
    | [] => cases same
    | (label', body') :: ds =>
      simp only [caseTrees, List.cons.injEq, Prod.mk.injEq, Tree.bracketed.injEq] at same
      obtain ⟨⟨labels, bodies⟩, rest⟩ := same
      rw [label.tree_injective proper.1 proper'.1 labels,
        trees_injective body proper.2.1 proper'.2.1 bodies,
        caseTrees_injective cs proper.2.2 proper'.2.2 rest]
termination_by structural cs

end

theorem dump_cons (i : Instruction) (is : List Instruction) :
    (dump (i :: is)).toList = i.tree.text.toList ++ '\n' :: (dump is).toList := by
  have line : "\n".toList = ['\n'] := rfl
  unfold dump
  rw [texts, List.map_cons, String.join_cons, String.toList_append, String.toList_append,
    line, text_tree, List.append_assoc]
  rfl

/-- The end of a line ends what is printed of an instruction. -/
theorem dump_injective {is js : List Instruction} (proper : AllProper is) (proper' : AllProper js)
    (same : dump is = dump js) : is = js := by
  induction is generalizing js with
  | nil =>
    cases js with
    | nil => rfl
    | cons j js =>
      have nothing := dump_cons j js
      rw [← same] at nothing
      exact absurd nothing.symm (List.append_ne_nil_of_right_ne_nil _ (List.cons_ne_nil _ _))
  | cons i is ih =>
    cases js with
    | nil =>
      have nothing := dump_cons i is
      rw [same] at nothing
      exact absurd nothing.symm (List.append_ne_nil_of_right_ne_nil _ (List.cons_ne_nil _ _))
    | cons j js =>
      have lines := congrArg String.toList same
      rw [dump_cons, dump_cons] at lines
      obtain ⟨trees, rests⟩ := i.tree.shown j.tree _ _ (ends_cons _ rfl) (ends_cons _ rfl) lines
      rw [i.tree_injective proper.1 proper'.1 trees,
        ih proper.2 proper'.2 (String.toList_injective (List.cons.inj rests).2)]

/-- Two proper instructions with the same text are the same instruction, and equal; and so are two
lists of proper instructions with the same dump. -/
theorem dump_unambiguous :
    (∀ i j : Instruction, i.Proper → j.Proper → i.text = j.text → i = j ∧ i.equals j = true) ∧
      ∀ is js : List Instruction, AllProper is → AllProper js → dump is = dump js →
        is = js ∧ allEqual is js = true := by
  constructor
  · intro i j proper proper' same
    rw [← text_tree i, ← text_tree j] at same
    have trees := Tree.text_injective same
    obtain rfl := i.tree_injective proper proper' trees
    exact ⟨rfl, equals_of_proper i proper⟩
  · intro is js proper proper' same
    obtain rfl := dump_injective proper proper' same
    exact ⟨rfl, allEqual_of_allProper is proper⟩

/-- A switch on a variable whose name holds a quote, with a record as the label of its case: the key
of the record is a brace, and its value holds an infinite number. -/
theorem dump_unambiguous_switch :
    ∃ i : Instruction, i = .switch (.loadVariable "x\"" [])
        [(.record [(.string "\x7b", .array [.integer (-1), .float ⟨0x7FF0000000000000⟩])],
          [.print [.unary .sub (.loadConstant .nil)]])] [.breakLoop] ∧
      i.Proper ∧ (i = i ∧ i.equals i = true) ∧
        ([i, i] = [i, i] ∧ allEqual [i, i] [i, i] = true) := by
  have proper : (Instruction.switch (.loadVariable "x\"" [])
      [(.record [(.string "\x7b", .array [.integer (-1), .float ⟨0x7FF0000000000000⟩])],
        [.print [.unary .sub (.loadConstant .nil)]])] [.breakLoop]).Proper := by
    have number : (Value.float ⟨0x7FF0000000000000⟩).HasNumbers :=
      (by decide : Double.isNaN _ = false)
    have label : (Value.record [(.string "\x7b", .array [.integer (-1),
        .float ⟨0x7FF0000000000000⟩])]).HasNumbers := ⟨trivial, ⟨trivial, number, trivial⟩, trivial⟩
    have negation : (Instruction.unary .sub (.loadConstant .nil)).Proper := ⟨rfl, trivial⟩
    exact ⟨trivial, ⟨label, ⟨⟨negation, trivial⟩, trivial⟩, trivial⟩, trivial, trivial⟩
  exact ⟨_, rfl, proper, dump_unambiguous.1 _ _ proper proper rfl,
    dump_unambiguous.2 _ _ ⟨proper, proper, trivial⟩ ⟨proper, proper, trivial⟩ rfl⟩

end Instruction

end Treecode
