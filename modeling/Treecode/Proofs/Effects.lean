import Treecode.Proofs.Enclosed
import Treecode.Proofs.Translation

set_option autoImplicit false

namespace Treecode

open Compile

namespace ScopeTree

def assigned (tree : ScopeTree) (scope : Nat) (name : String) (constant : Bool)
    (value : Expression) : ScopeTree :=
  if tree.sees scope name then tree else tree.declare (newVariable scope name constant value)

def keysRecorded (tree : ScopeTree) (scope : Nat) (target : Expression) (append : Bool) :
    ScopeTree :=
  match tree.updateVariable scope target.token.text (storeKeys target append) with
  | some (_, updated) => updated
  | none => tree

end ScopeTree

namespace Compile

open Step

theorem withoutKeys_addKey (v : Variable) (key : Value) :
    (v.addKey key).withoutKeys = v.withoutKeys := by
  unfold Variable.addKey
  split <;> rfl

/-- A store changes nothing of a variable but its known keys. -/
theorem withoutKeys_storeKeys (target : Expression) (append : Bool) (v : Variable) :
    (storeKeys target append v).withoutKeys = v.withoutKeys := by
  unfold storeKeys
  split
  · rename_i index
    induction index generalizing v with
    | nil => rfl
    | cons key keys ih =>
      rw [List.foldl_cons, ih]
      split
      · exact withoutKeys_addKey v _
      · rfl
  · split <;> rfl
  · rfl

theorem keysRecorded_kept (tree : ScopeTree) (scope : Nat) (target : Expression) (append : Bool) :
    (tree.keysRecorded scope target append).size = tree.size ∧
      ∀ id, Scope.Kept (tree.get id) ((tree.keysRecorded scope target append).get id) := by
  unfold ScopeTree.keysRecorded ScopeTree.updateVariable
  cases found : tree.findVariable scope target.token.text with
  | none => exact ⟨rfl, fun _ => Scope.Kept.refl _⟩
  | some v =>
    cases known : (tree.get v.scope).named? target.token.text with
    | none =>
      simp only [Option.bind_eq_bind, Option.bind_some, known, Option.bind_none]
      exact ⟨trivial, fun _ => Scope.Kept.refl _⟩
    | some old =>
      simp only [Option.bind_eq_bind, Option.bind_some, known, Option.pure_def]
      refine ⟨ScopeTree.size_modify _ _ _, fun id => ?_⟩
      refine ScopeTree.get_modify_induct (motive := Scope.Kept) tree v.scope _ id
        (Scope.Kept.refl _) fun same => ?_
      rw [same]
      exact Scope.kept_replaceVariable known (withoutKeys_storeKeys target append old)

variable {scope : Nat}

theorem assignedName_apply (name : Token) (constant : Bool) (start : Session) :
    assignedName scope name constant start =
      match start.tree.findVariable scope name.text with
      | none => (.ok true, start)
      | some known =>
        if known.constant then
          (.error (.rejected (start.place name) (.assignsConstant name.text)), start)
        else if constant then
          (.error (.rejected (start.place name) (.constantDeclared name.text)), start)
        else (.ok false, start) := by
  unfold assignedName
  rw [bind_apply]
  show (match start.tree.findVariable scope name.text with
    | none => (pure true : Step Bool)
    | some known =>
      if known.constant then object name (.assignsConstant name.text)
      else if constant then object name (.constantDeclared name.text)
      else pure false) start = _
  cases start.tree.findVariable scope name.text with
  | none => rfl
  | some known =>
    dsimp only
    split
    · rfl
    · split <;> rfl

/-- Whether a name may be assigned to: it is new, or neither it nor the assignment is constant. -/
def Assignable (tree : ScopeTree) (scope : Nat) (name : String) (constant : Bool) : Prop :=
  ∀ known, tree.findVariable scope name = some known → known.constant = false ∧ constant = false

theorem assignedName_ok {name : Token} {constant isNew : Bool} {start after : Session} :
    assignedName scope name constant start = (.ok isNew, after) ↔
      after = start ∧ isNew = (!start.tree.sees scope name.text) ∧
        Assignable start.tree scope name.text constant := by
  rw [assignedName_apply]
  unfold Assignable ScopeTree.sees
  cases start.tree.findVariable scope name.text with
  | none =>
    simp only [Prod.mk.injEq, Except.ok.injEq, Option.isSome_none, Bool.not_false, reduceCtorEq,
      false_implies, implies_true, and_true]
    exact ⟨fun both => ⟨both.2.symm, both.1.symm⟩, fun both => ⟨both.2.symm, both.1.symm⟩⟩
  | some known =>
    simp only [Option.isSome_some, Bool.not_true, Option.some.injEq, forall_eq']
    cases known.constant <;> cases constant <;>
      simp [eq_comm, and_comm]

def operationOf? (operator : Token) : Option (Option Opcode) :=
  if operator.kind = .operatorAssignment then some none
  else (arithmetic? operator.kind).map some

theorem assignedOperation_ok {operator : Token} {operation : Option Opcode}
    {start after : Session} :
    assignedOperation operator start = (.ok operation, after) ↔
      after = start ∧ operationOf? operator = some operation := by
  unfold assignedOperation operationOf?
  split
  · rw [pure_ok, Option.some.injEq]
    exact ⟨fun both => ⟨both.2, both.1.symm⟩, fun both => ⟨both.2.symm, both.1⟩⟩
  · cases arithmetic? operator.kind with
    | none => simp only [object_ne_ok, Option.map_none, reduceCtorEq, and_false]
    | some opcode =>
      simp only [pure_ok, Option.map_some, Option.some.injEq]
      exact ⟨fun both => ⟨both.2, both.1.symm⟩, fun both => ⟨both.2.symm, both.1⟩⟩

theorem checkOperation_ok {operation : Option Opcode} {operator : Token} {append isNew : Bool}
    {name : String} {start after : Session} {u : Unit} :
    checkOperation operation operator append isNew name start = (.ok u, after) ↔
      after = start ∧ (operation.isSome → append = false ∧ isNew = false) := by
  unfold checkOperation
  cases operation with
  | none =>
    simp only [Option.isSome_none, Bool.false_eq_true, ↓reduceIte, pure_ok, true_and,
      false_implies, and_true]
  | some opcode =>
    cases append <;> cases isNew <;>
      simp [object_ne_ok, @eq_comm _ start]

def storedValue (operation : Option Opcode) (target value : Instruction) : Instruction :=
  match operation with
  | some opcode => .binary opcode target value
  | none => value

def assignmentCode (isNew : Bool) (name : String) (operation : Option Opcode)
    (target value : Instruction) (append : Bool) : List Instruction :=
  (if isNew then [.newVariable name] else []) ++
    [.storeVariable target (storedValue operation target value) append]

/-- What it takes for an assignment to compile: its name may be assigned to, its sign has a value to
start from, and its target and its value compile when the target is declared. -/
structure Assigns (start : Session) (scope : Nat) (target : Expression) (operator : Token)
    (value : Expression) (append constant : Bool) (operation : Option Opcode)
    (targetCode valueCode : Instruction) : Prop where
  assignable : Assignable start.tree scope target.token.text constant
  sign : operationOf? operator = some operation
  operand : operation.isSome → append = false ∧ start.tree.sees scope target.token.text = true
  spelled : target.code? = some targetCode
  valued : value.code? = some valueCode
  targetReads : targetCode.reads
    ((start.tree.assigned scope target.token.text constant value).sees scope)
    ((start.tree.assigned scope target.token.text constant value).calls scope)
  valueReads : valueCode.reads
    ((start.tree.assigned scope target.token.text constant value).sees scope)
    ((start.tree.assigned scope target.token.text constant value).calls scope)

def Session.afterAssignment (start : Session) (scope : Nat) (target value : Expression)
    (append constant : Bool) : Session :=
  start.withTree ((start.tree.assigned scope target.token.text constant value).keysRecorded scope
    target append)

theorem recordKeys_ok {target : Expression} {append : Bool} {start after : Session} {u : Unit} :
    recordKeys scope target append start = (.ok u, after) ↔
      after = start.withTree (start.tree.keysRecorded scope target append) :=
  changeTree_ok

/-- What an assignment does once its target is there: it evaluates and stores. -/
def storing (scope : Nat) (target value : Expression) (append isNew : Bool)
    (operation : Option Opcode) : Step (List Instruction) := do
  let targetCode ← expression scope false target
  let valueCode ← expression scope false value
  recordKeys scope target append
  return assignmentCode isNew target.token.text operation targetCode valueCode append

theorem storing_ok {target value : Expression} {append isNew : Bool} {operation : Option Opcode}
    {ready after : Session} {code : List Instruction} :
    storing scope target value append isNew operation ready = (.ok code, after) ↔
      ∃ targetCode valueCode, target.code? = some targetCode ∧ value.code? = some valueCode ∧
        targetCode.reads (ready.tree.sees scope) (ready.tree.calls scope) ∧
        valueCode.reads (ready.tree.sees scope) (ready.tree.calls scope) ∧
        after = ready.withTree (ready.tree.keysRecorded scope target append) ∧
        code = assignmentCode isNew target.token.text operation targetCode valueCode append := by
  simp only [storing, bind_ok, expression_ok, recordKeys_ok, pure_ok]
  constructor
  · intro success
    obtain ⟨targetCode, _, ⟨rfl, spelled, targetReads⟩, valueCode, _, ⟨rfl, valued, valueReads⟩, _,
      _, rfl, rfl, rfl⟩ := success
    exact ⟨targetCode, valueCode, spelled, valued, targetReads, valueReads, rfl, rfl⟩
  · intro success
    obtain ⟨targetCode, valueCode, spelled, valued, targetReads, valueReads, rfl, rfl⟩ := success
    exact ⟨targetCode, _, ⟨rfl, spelled, targetReads⟩, valueCode, _, ⟨rfl, valued, valueReads⟩, (),
      _, rfl, rfl, rfl⟩

/-- An assignment compiles exactly when it has what it takes. -/
theorem assignment_ok {target value : Expression} {operator : Token} {append constant : Bool}
    {start after : Session} {code : List Instruction} :
    assignment scope target operator value append constant start = (.ok code, after) ↔
      ∃ operation targetCode valueCode,
        Assigns start scope target operator value append constant operation targetCode valueCode ∧
        after = start.afterAssignment scope target value append constant ∧
        code = assignmentCode (!start.tree.sees scope target.token.text) target.token.text operation
          targetCode valueCode append := by
  have unfolded : assignment scope target operator value append constant =
      (assignedName scope target.token constant >>= fun isNew =>
        assignedOperation operator >>= fun operation =>
        checkOperation operation operator append isNew target.token.text >>= fun _ =>
        if isNew then
          changeTree (·.declare (newVariable scope target.token.text constant value)) >>= fun _ =>
            storing scope target value append isNew operation
        else storing scope target value append isNew operation) := rfl
  have declared : (if (!start.tree.sees scope target.token.text) = true then
      start.withTree (start.tree.declare (newVariable scope target.token.text constant value))
      else start) = start.withTree
          (start.tree.assigned scope target.token.text constant value) := by
    unfold ScopeTree.assigned
    cases start.tree.sees scope target.token.text <;> rfl
  have step : ∀ (isNew : Bool) (rest : Step (List Instruction)) (session : Session),
      (if isNew then changeTree (·.declare (newVariable scope target.token.text constant value)) >>=
        fun _ => rest else rest) session =
      rest (if isNew then
        session.withTree (session.tree.declare (newVariable scope target.token.text constant value))
        else session) := by
    intro isNew rest session
    cases isNew <;> rfl
  rw [unfolded]
  simp only [bind_ok, assignedName_ok, assignedOperation_ok, checkOperation_ok, step]
  constructor
  · intro success
    obtain ⟨isNew, _, ⟨rfl, rfl, assignable⟩, operation, _, ⟨rfl, sign⟩, _, _,
        ⟨rfl, operand⟩, stored⟩ :=
      success
    rw [declared, storing_ok] at stored
    obtain ⟨targetCode, valueCode, spelled, valued, targetReads, valueReads, rfl, rfl⟩ := stored
    refine ⟨operation, targetCode, valueCode, ⟨assignable, sign, ?_, spelled, valued, targetReads,
      valueReads⟩, rfl, rfl⟩
    intro signed
    exact ⟨(operand signed).1, by simpa using (operand signed).2⟩
  · intro success
    obtain ⟨operation, targetCode, valueCode, assigns, rfl, rfl⟩ := success
    refine ⟨_, start, ⟨rfl, rfl, assigns.assignable⟩, operation, start, ⟨rfl, assigns.sign⟩, (),
      start, ⟨rfl, ?_⟩, ?_⟩
    · intro signed
      exact ⟨(assigns.operand signed).1, by rw [(assigns.operand signed).2, Bool.not_true]⟩
    · rw [declared, storing_ok]
      exact ⟨targetCode, valueCode, assigns.spelled, assigns.valued, assigns.targetReads,
        assigns.valueReads, rfl, rfl⟩

/-- What it takes for a select to compile: its source reads what is there, and its condition and its
target open what they open. -/
structure Selects (start : Session) (scope : Nat) (source : Expression) (filter : Option Expression)
    (target : Expression) (sourceCode : Instruction) (filterCode : Option Instruction)
    (targetCode : Instruction) (opened : List String) : Prop where
  source : source.code? = some sourceCode
  filter : Expression.optionalCode? filter = some filterCode
  target : target.code? = some targetCode
  sourceReads : sourceCode.reads (start.tree.sees scope) (start.tree.calls scope)
  opens : Instruction.opensInSelect (start.tree.sees scope) (start.tree.calls scope) filterCode
    targetCode = some opened

def fieldNames (fields : List Field) : List (String × Option String) :=
  fields.map fun field => (field.name.text, field.newName.map Token.text)

/-- A select compiles exactly when it has what it takes. -/
theorem selection_ok {distinct merge : Bool} {fields : List Field} {source target : Expression}
    {filter : Option Expression} {start after : Session} {code : Instruction}
    (properFilter : Expression.optionalIndexesAreProper filter)
    (properTarget : target.indexesAreProper) (inside : scope < start.tree.size) :
    selection scope distinct fields source filter merge target start = (.ok code, after) ↔
      ∃ sourceCode filterCode targetCode opened,
        Selects start scope source filter target sourceCode filterCode targetCode opened ∧
        after = start.opening scope opened ∧
        code = .select (fieldNames fields) sourceCode filterCode distinct merge targetCode := by
  have inside' : ∀ added, scope < (start.opening scope added).tree.size := by
    intro added
    rw [Session.opening_tree_size]
    exact inside
  simp only [selection, bind_ok, expression_ok, pure_ok]
  constructor
  · intro success
    obtain ⟨sourceCode, _, ⟨rfl, read, ready⟩, filterCode, _, filtered, targetCode, _,
      targeted, rfl, rfl⟩ := success
    obtain ⟨filtering, first, firstOpened, rfl⟩ :=
      (optionalOpening_ok properFilter inside).1 filtered
    obtain ⟨targeting, second, secondOpened, rfl⟩ :=
      (opening_ok target properTarget (inside' first)).1 targeted
    rw [Session.opening_sees _ inside, Session.opening_calls] at secondOpened
    refine ⟨sourceCode, filterCode, targetCode, first ++ second,
      ⟨read, filtering, targeting, ready, ?_⟩, Session.opening_opening _ scope first second, rfl⟩
    unfold Instruction.opensInSelect
    simp only [firstOpened, secondOpened, Option.bind_eq_bind, Option.bind_some, Option.pure_def]
  · intro success
    obtain ⟨sourceCode, filterCode, targetCode, opened, selects, rfl, rfl⟩ := success
    have opens := selects.opens
    unfold Instruction.opensInSelect at opens
    simp only [Option.bind_eq_bind, Option.bind_eq_some_iff, Option.pure_def,
      Option.some.injEq] at opens
    obtain ⟨first, firstOpened, second, secondOpened, rfl⟩ := opens
    refine ⟨sourceCode, start, ⟨rfl, selects.source, selects.sourceReads⟩, filterCode,
      start.opening scope first, ?_, targetCode, (start.opening scope first).opening scope second,
        ?_,
      rfl, (Session.opening_opening _ scope first second).symm⟩
    · exact (optionalOpening_ok properFilter inside).2 ⟨selects.filter, first, firstOpened, rfl⟩
    · refine (opening_ok target properTarget (inside' first)).2 ⟨selects.target, second, ?_, rfl⟩
      rw [Session.opening_sees start inside, Session.opening_calls]
      exact secondOpened

def parameterVariables (scope : Nat) (params : List Parameter) : List Variable :=
  params.map fun param =>
    { Variable.fresh param.name.text scope with type := param.type, isParameter := true }

theorem names_parameterVariables (scope : Nat) (params : List Parameter) :
    (parameterVariables scope params).map (·.name) = params.map (·.name.text) := by
  unfold parameterVariables
  rw [List.map_map]
  rfl

theorem foldl_declare (tree : ScopeTree) (scope : Nat) (more : List Variable)
    (at_scope : ∀ v ∈ more, v.scope = scope) :
    more.foldl ScopeTree.declare tree = tree.addVariables scope more := by
  induction more generalizing tree with
  | nil => rw [List.foldl_nil, ScopeTree.addVariables_nil]
  | cons v rest ih =>
    rw [List.foldl_cons, ih _ fun other member => at_scope other (List.mem_cons_of_mem _ member),
      ScopeTree.declare_eq, at_scope v (List.mem_cons_self ..), ScopeTree.addVariables_addVariables]
    rfl

theorem functionScope_apply (scope : Nat) (name : Token) (params : List Parameter)
    (start : Session) : functionScope scope name params start =
      (.ok start.tree.size, start.withTree (start.tree.withFunction scope name.text
        (parameterVariables start.tree.size params))) := by
  have listed : ∀ tree : ScopeTree,
      params.foldl (fun tree param => tree.declare
        { Variable.fresh param.name.text start.tree.size with
          type := param.type, isParameter := true }) tree =
      tree.addVariables start.tree.size (parameterVariables start.tree.size params) := by
    intro tree
    rw [← foldl_declare tree _ _ (by
      intro v member
      obtain ⟨param, _, rfl⟩ := List.mem_map.1 member
      rfl)]
    unfold parameterVariables
    rw [List.foldl_map]
  unfold ScopeTree.withFunction
  rw [← listed]
  rfl

theorem libraryScope_apply (scope : Nat) (name : String) (start : Session) :
    libraryScope scope name start =
      (.ok start.tree.size, start.withTree (start.tree.withLibrary scope name)) := by
  have size : (start.tree.addLibrary scope name).size = start.tree.size :=
    ScopeTree.size_modify _ _ _
  unfold ScopeTree.withLibrary
  rw [← size]
  rfl

end Compile

end Treecode
