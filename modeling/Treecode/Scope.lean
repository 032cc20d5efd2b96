import Treecode.Instruction

set_option autoImplicit false

namespace Treecode

/-- A variable: what is known of it, and the scope that it was declared in. -/
structure Variable where
  name : String
  type : Kind
  value : Option Value
  index : List Value
  scope : Nat
  constant : Bool
  isParameter : Bool
  deriving Inhabited

namespace Variable

def fresh (name : String) (scope : Nat) : Variable := ⟨name, .nil, none, [], scope, false, false⟩

/-- Whether some key of the variable is known. -/
def isIndexed (v : Variable) : Bool := !v.index.isEmpty

def addKey (v : Variable) (key : Value) : Variable :=
  if v.index.any (·.equals key) then v else { v with index := v.index ++ [key] }

end Variable

/-- A scope: the names declared in it and, by number, the scope around it and the scopes in it. -/
structure Scope where
  name : String
  parent : Option Nat
  children : List Nat
  declared : List Variable
  functions : List Nat
  libraries : List String
  isLibrary : Bool
  isFunction : Bool
  isExternal : Bool
  definition : Option Instruction

namespace Scope

def fresh (name : String) (parent : Option Nat) : Scope :=
  ⟨name, parent, [], [], [], [], false, false, false, none⟩

instance : Inhabited Scope := ⟨fresh "" none⟩

def named? (scope : Scope) (name : String) : Option Variable :=
  scope.declared.find? (·.name == name)

def replaceNamed (name : String) (updated : Variable) : List Variable → List Variable
  | [] => []
  | v :: rest => if v.name == name then updated :: rest else v :: replaceNamed name updated rest

def replaceVariable (scope : Scope) (name : String) (updated : Variable) : Scope :=
  { scope with declared := replaceNamed name updated scope.declared }

end Scope

/-- A tree of scopes, listed by number. A scope is numbered before the scopes in it, and lookups
follow only links that respect this order, so that they end. -/
structure ScopeTree where
  scopes : Array Scope

namespace ScopeTree

/-- The outermost scope. -/
def root : Nat := 0

/-- A tree with the outermost scope alone. -/
def initial : ScopeTree := ⟨⟨[Scope.fresh "root" none]⟩⟩

/-- The number of scopes ever made. -/
def size (tree : ScopeTree) : Nat := tree.scopes.size

/-- The scope of a number. -/
def get (tree : ScopeTree) (id : Nat) : Scope := tree.scopes.getD id default

def modify (tree : ScopeTree) (id : Nat) (change : Scope → Scope) : ScopeTree :=
  ⟨tree.scopes.modify id change⟩

@[simp] theorem size_modify (tree : ScopeTree) (id : Nat) (change : Scope → Scope) :
    (tree.modify id change).size = tree.size := by
  simp [modify, size]

theorem get_modify_self {tree : ScopeTree} {id : Nat} (change : Scope → Scope)
    (inside : id < tree.size) : (tree.modify id change).get id = change (tree.get id) := by
  have inside : id < tree.scopes.size := inside
  simp [modify, get, Array.getD, inside, Array.getElem_modify_self]

theorem get_modify_of_ne {id other : Nat} (tree : ScopeTree) (change : Scope → Scope)
    (different : id ≠ other) : (tree.modify id change).get other = tree.get other := by
  simp [modify, get, Array.getD_eq_getD_getElem?, Array.getElem?_modify, different]

/-- Makes a scope inside another. Its number is the size of the tree before. -/
def newChild (tree : ScopeTree) (parent : Nat) (name : String) : ScopeTree :=
  (⟨tree.scopes.push (.fresh name (some parent))⟩ : ScopeTree).modify parent fun scope =>
    { scope with children := scope.children ++ [tree.size] }

@[simp] theorem size_newChild (tree : ScopeTree) (parent : Nat) (name : String) :
    (tree.newChild parent name).size = tree.size + 1 := by
  simp [newChild, size, modify]

/-- A new scope is empty and knows the scope around it. -/
theorem get_newChild_size {tree : ScopeTree} {parent : Nat} (name : String)
    (inside : parent < tree.size) :
    (tree.newChild parent name).get tree.size = Scope.fresh name (some parent) := by
  rw [newChild, get_modify_of_ne _ _ (by omega)]
  simp [get, size, Array.getD_eq_getD_getElem?]

/-- Takes a scope out of another. It keeps its number but is no longer inside anything. -/
def discardChild (tree : ScopeTree) (parent child : Nat) : ScopeTree :=
  (tree.modify parent fun scope =>
    { scope with
      children := scope.children.filter (· != child)
      functions := scope.functions.filter (· != child) }).modify child fun scope =>
    { scope with parent := none }

def declare (tree : ScopeTree) (v : Variable) : ScopeTree :=
  tree.modify v.scope fun scope => { scope with declared := scope.declared ++ [v] }

/-- The number of variables that a scope lists. -/
def variableCount (tree : ScopeTree) (id : Nat) : Nat := (tree.get id).declared.length

/-- The variables that a scope lists after a number of others. -/
def variablesSince (tree : ScopeTree) (id : Nat) (mark : Nat) : List Variable :=
  (tree.get id).declared.drop mark

/-- Removes the variables that a scope lists after a number of others. -/
def dropVariablesSince (tree : ScopeTree) (id : Nat) (mark : Nat) : ScopeTree :=
  tree.modify id fun scope => { scope with declared := scope.declared.take mark }

def addVariables (tree : ScopeTree) (id : Nat) (more : List Variable) : ScopeTree :=
  tree.modify id fun scope => { scope with declared := scope.declared ++ more }

def addFunction (tree : ScopeTree) (id function : Nat) : ScopeTree :=
  tree.modify id fun scope => { scope with functions := scope.functions ++ [function] }

def addLibrary (tree : ScopeTree) (id : Nat) (name : String) : ScopeTree :=
  tree.modify id fun scope => { scope with libraries := scope.libraries ++ [name] }

def setLibrary (tree : ScopeTree) (id : Nat) (isLibrary : Bool) : ScopeTree :=
  tree.modify id fun scope => { scope with isLibrary }

/-- A scope and the scopes around it, outward. -/
def chain (tree : ScopeTree) (id : Nat) : List Nat :=
  id ::
    match (tree.get id).parent with
    | some parent => if _outward : parent < id then tree.chain parent else []
    | none => []
  termination_by id

/-- The names of a scope and the scopes around it, inward. -/
def path (tree : ScopeTree) (id : Nat) : String :=
  "/".intercalate ((tree.chain id).reverse.map fun scope => (tree.get scope).name)

/-- The first thing that a probe finds in a scope or in the libraries included there. -/
def visibleAt {α : Type} (tree : ScopeTree) (probe : Scope → Option α) (id : Nat) : Option α :=
  (probe (tree.get id)).or <|
    (tree.get id).children.findSome? fun child =>
      if _inward : id < child ∧ child < tree.size then
        if (tree.get child).isLibrary then tree.visibleAt probe child else none
      else none
  termination_by tree.size - id

/-- The first thing that a probe finds from a scope outward. -/
def visible {α : Type} (tree : ScopeTree) (probe : Scope → Option α) (id : Nat) : Option α :=
  (tree.chain id).findSome? (tree.visibleAt probe)

/-- The variable that a name means in a scope. -/
def findVariable (tree : ScopeTree) (id : Nat) (name : String) : Option Variable :=
  tree.visible (·.named? name) id

def findFunction (tree : ScopeTree) (id : Nat) (name : String) : Option Nat :=
  tree.visible (fun scope => scope.functions.find? fun function =>
    (tree.get function).name == name) id

/-- Whether a scope itself includes a library. -/
def hasLibrary (tree : ScopeTree) (id : Nat) (name : String) : Bool :=
  (tree.get id).libraries.contains name

/-- Changes the variable that a name means in a scope, where the variable's own scope lists it. -/
def updateVariable (tree : ScopeTree) (id : Nat) (name : String) (change : Variable → Variable) :
    Option (Variable × ScopeTree) := do
  let owner := (← tree.findVariable id name).scope
  let updated := change (← (tree.get owner).named? name)
  return (updated, tree.modify owner (·.replaceVariable name updated))

end ScopeTree

end Treecode
