import Treecode.Compile.Expressions

set_option autoImplicit false

namespace Treecode.Compile

open Step

/-- Whether a name may be assigned to, and whether it is new. -/
def assignedName (scope : Nat) (name : Token) (constant : Bool) : Step Bool := do
  match (← tree).findVariable scope name.text with
  | none => return true
  | some known =>
    if known.constant then object name (.assignsConstant name.text)
    else if constant then object name (.constantDeclared name.text)
    else return false

/-- The operation that an assignment applies before it stores; a plain one has none. -/
def assignedOperation (operator : Token) : Step (Option Opcode) :=
  if operator.kind = .operatorAssignment then return none
  else
    match arithmetic? operator.kind with
    | some opcode => return some opcode
    | none => object operator (.unknownAssignment operator.text)

/-- An operation needs a value to start from. -/
def checkOperation (operation : Option Opcode) (operator : Token) (append isNew : Bool)
    (name : String) : Step Unit := do
  if operation.isSome then
    if append then object operator (.appendsWith operator.text)
    else if isNew then object operator (.newVariableWith operator.text name)

/-- The variable that a first assignment declares. Its type is that of a literal stored in it, and a
constant keeps the literal. -/
def newVariable (scope : Nat) (name : String) (constant : Bool) (value : Expression) : Variable :=
  let fresh := { Variable.fresh name scope with constant }
  match value with
  | .literal _ v => { fresh with type := v.type, value := if constant then some v else none }
  | _ => fresh

/-- What a store does to the known keys of a variable: literal keys are added, and a store of the
whole value forgets them. -/
def storeKeys (target : Expression) (append : Bool) (known : Variable) : Variable :=
  match target with
  | .indexed _ index =>
    index.foldl (fun v key => match key with
      | .literal _ value => v.addKey value
      | _ => v) known
  | .plain _ => if !append && known.isIndexed then { known with index := [] } else known
  | _ => known

/-- Keeps the known keys of the stored variable in step. -/
def recordKeys (scope : Nat) (target : Expression) (append : Bool) : Step Unit :=
  changeTree fun tree =>
    match tree.updateVariable scope target.token.text (storeKeys target append) with
    | some (_, updated) => updated
    | none => tree

/-- The instructions for an assignment. -/
def assignment (scope : Nat) (target : Expression) (operator : Token) (value : Expression)
    (append constant : Bool) : Step (List Instruction) := do
  let name := target.token.text
  let isNew ← assignedName scope target.token constant
  let operation ← assignedOperation operator
  checkOperation operation operator append isNew name
  if isNew then changeTree (·.declare (newVariable scope name constant value))
  let targetCode ← expression scope false target
  let valueCode ← expression scope false value
  let stored := match operation with
    | some opcode => .binary opcode targetCode valueCode
    | none => valueCode
  recordKeys scope target append
  return (if isNew then [.newVariable name] else []) ++ [.storeVariable targetCode stored append]

def selection (scope : Nat) (distinct : Bool) (fields : List Field) (source : Expression)
    (filter : Option Expression) (merge : Bool) (target : Expression) : Step Instruction := do
  let sourceCode ← expression scope false source
  let filterCode ← optionalExpression scope true filter
  let targetCode ← expression scope true target
  let fieldNames := fields.map fun field => (field.name.text, field.newName.map Token.text)
  return .select fieldNames sourceCode filterCode distinct merge targetCode

def functionScope (scope : Nat) (name : Token) (params : List Parameter) : Step Nat := do
  let child ← newScope scope name.text
  changeTree fun tree =>
    let listed := (tree.modify child fun s => { s with isFunction := true }).addFunction scope child
    params.foldl (fun tree param => tree.declare
      { Variable.fresh param.name.text child with type := param.type, isParameter := true }) listed
  return child

/-- Keeps the definition of a function in its scope. -/
def recordDefinition (child : Nat) (definition : Instruction) : Step Unit :=
  changeTree (·.modify child fun s => { s with definition := some definition })

/-- The variables that the blocks of one statement have declared so far, each name once. -/
def gather (declared taken : List Variable) : List Variable :=
  taken.foldl (fun known v => if known.any (·.name == v.name) then known else known ++ [v]) declared

/-- Acts for one of several blocks: the variables that it declares are taken from the scope and
added to those of the blocks before. -/
def branch {α : Type} (scope mark : Nat) (declared : List Variable) (step : Step α) :
    Step (α × List Variable) := do
  let result ← step
  let taken := (← tree).variablesSince scope mark
  changeTree (·.dropVariablesSince scope mark)
  return (result, gather declared taken)

/-- How a library that a script names is included in a scope. -/
abbrev Including := Token → Nat → Step (List Instruction)

def inclusion (includeOne : Including) (scope : Nat) : List Token → Step (List Instruction)
  | [] => return []
  | library :: rest => do
    let code ← includeOne library scope
    return code ++ (← inclusion includeOne scope rest)

mutual

/-- The instructions for a statement. -/
def statement (includeOne : Including) (scope : Nat) : Statement → Step (List Instruction)
  | .assign target operator value append constant =>
    assignment scope target operator value append constant
  | .define name params _ body => do
    let child ← functionScope scope name params
    let definition ← functionBody includeOne child name.text (params.map (·.name.text)) body
    recordDefinition child definition
    return [definition]
  | .ifElse _ condition body elifs otherwise => do
    let conditionCode ← expression scope false condition
    let mark := (← tree).variableCount scope
    let (bodyCode, declared) ← branch scope mark [] (block includeOne scope body)
    let (elifCode, declared) ← elifClauses includeOne scope mark declared elifs
    let (lastCode, declared) ← lastClause includeOne scope mark declared otherwise
    changeTree (·.addVariables scope declared)
    return [.ifElse conditionCode bodyCode elifCode lastCode]
  | .whileLoop _ condition body => do
    let conditionCode ← expression scope false condition
    return [.whileLoop conditionCode (← block includeOne scope body)]
  | .foreach _ iterable body => do
    let iterableCode ← expression scope false iterable
    let bodyCode ← inScope scope "foreach" fun child => do
      changeTree (·.declare { Variable.fresh "it" child with type := .any })
      block includeOne child body
    return [.foreach iterableCode bodyCode]
  | .switch _ head cases default => do
    let headCode ← expression scope false head
    let mark := (← tree).variableCount scope
    let (caseCode, declared) ← caseClauses includeOne scope mark [] [] cases
    let (lastCode, declared) ← lastClause includeOne scope mark declared default
    changeTree (·.addVariables scope declared)
    return [.switch headCode caseCode lastCode]
  | .breakLoop _ => return [.breakLoop]
  | .continueLoop _ => return [.continueLoop]
  | .returnValue _ value => do return [.returnValue (← optionalExpression scope false value)]
  | .halt _ value => do return [.halt (← optionalExpression scope false value)]
  | .print _ args => do return [.print (← expressions scope args)]
  | .includes _ libraries => inclusion includeOne scope libraries
  | .select _ distinct fields source filter merge target => do
    return [← selection scope distinct fields source filter merge target]
  | .call name args => do
    requireFunction scope name
    return [.call name.text (← expressions scope args)]
  | .indexedCall name _ _ => object name .variableCall
  | .block body => block includeOne scope body

def block (includeOne : Including) (scope : Nat) : Block → Step (List Instruction)
  | .mk _ body => statements includeOne scope body

def statements (includeOne : Including) (scope : Nat) : List Statement → Step (List Instruction)
  | [] => return []
  | first :: rest => do
    let code ← statement includeOne scope first
    return code ++ (← statements includeOne scope rest)

def elifClauses (includeOne : Including) (scope mark : Nat) (declared : List Variable) :
    List Clause → Step (List (Instruction × List Instruction) × List Variable)
  | [] => return ([], declared)
  | .mk _ condition body :: rest => do
    let conditionCode ← expression scope false condition
    let (bodyCode, declared) ← branch scope mark declared (block includeOne scope body)
    let (others, declared) ← elifClauses includeOne scope mark declared rest
    return ((conditionCode, bodyCode) :: others, declared)

def caseClauses (includeOne : Including) (scope mark : Nat) (declared : List Variable)
    (labels : List Value) : List Clause → Step (List (Value × List Instruction) × List Variable)
  | [] => return ([], declared)
  | .mk word guard body :: rest =>
    match guard with
    | .literal _ label =>
      if labels.any (·.sameLabel label) then object word (.duplicateCase label)
      else do
        let (bodyCode, declared) ← branch scope mark declared (block includeOne scope body)
        let (others, declared) ← caseClauses includeOne scope mark declared (labels ++ [label]) rest
        return ((label, bodyCode) :: others, declared)
    | other => object other.token .caseNotConstant

def lastClause (includeOne : Including) (scope mark : Nat) (declared : List Variable) :
    Option LastClause → Step (List Instruction × List Variable)
  | none => return ([], declared)
  | some (.mk _ body) => branch scope mark declared (block includeOne scope body)

def functionBody (includeOne : Including) (scope : Nat) (name : String) (params : List String) :
    FunctionBody → Step Instruction
  | .block body => do return .define name params (← block includeOne scope body)
  | .external module function => do
    changeTree (·.modify scope fun s => { s with isExternal := true })
    return .defineExternal name params module function

end

end Treecode.Compile
