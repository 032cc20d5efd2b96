import Treecode.Proofs.Growth

set_option autoImplicit false

namespace Treecode.ScopeTree

open Relation

variable {tree before after : ScopeTree} {scope id other : Nat} {name : String}

theorem get_modify (tree : ScopeTree) (id : Nat) (change : Scope → Scope) (other : Nat) :
    (tree.modify id change).get other =
      if id = other ∧ other < tree.size then change (tree.get other) else tree.get other := by
  by_cases same : id = other
  · subst same
    by_cases inside : id < tree.size
    · simp only [inside, and_self, ↓reduceIte, get_modify_self change inside]
    · have outside : tree.size ≤ id := Nat.le_of_not_lt inside
      simp only [inside, and_false, ↓reduceIte]
      rw [get_of_size_le outside, get_of_size_le (by rw [size_modify]; exact outside)]
  · simp only [same, false_and, ↓reduceIte, get_modify_of_ne tree change same]

/-- A property that the change keeps holds of every scope after it. -/
theorem get_modify_induct {motive : Scope → Scope → Prop} (tree : ScopeTree) (id : Nat)
    (change : Scope → Scope) (other : Nat) (same : motive (tree.get other) (tree.get other))
    (changed : other = id → motive (tree.get other) (change (tree.get other))) :
    motive (tree.get other) ((tree.modify id change).get other) := by
  rw [get_modify]
  split
  · rename_i here
    exact changed here.1.symm
  · exact same

/-- A change that keeps what a scope is linked to keeps the order of the links. -/
theorem Ordered.modify (ordered : tree.Ordered) (id : Nat) (change : Scope → Scope)
    (parent : ∀ s, (change s).parent = s.parent) (children : ∀ s, (change s).children = s.children)
    (functions : ∀ s, (change s).functions = s.functions) : (tree.modify id change).Ordered := by
  have parent : ∀ other, ((tree.modify id change).get other).parent = (tree.get other).parent :=
    fun other => get_modify_induct (motive := fun old new => new.parent = old.parent) tree id change
      other rfl fun _ => parent _
  have children : ∀ other, ((tree.modify id change).get other).children =
      (tree.get other).children :=
    fun other => get_modify_induct (motive := fun old new => new.children = old.children) tree id
      change other rfl fun _ => children _
  have functions :
      ∀ other, ((tree.modify id change).get other).functions = (tree.get other).functions :=
    fun other => get_modify_induct (motive := fun old new => new.functions = old.functions) tree id
      change other rfl fun _ => functions _
  constructor
  · intro here child member
    rw [children] at member
    rw [size_modify]
    exact ordered.child here child member
  · intro here outer linked
    rw [parent] at linked
    exact ordered.parent here outer linked
  · intro here function member
    rw [functions] at member
    rw [size_modify]
    exact ordered.function here function member

theorem SameLinks.modify (tree : ScopeTree) (id : Nat) (change : Scope → Scope)
    (parent : ∀ s, (change s).parent = s.parent) (children : ∀ s, (change s).children = s.children)
    (isLibrary : ∀ s, (change s).isLibrary = s.isLibrary) :
    SameLinks tree (tree.modify id change) :=
  .of_get (size_modify tree id change)
    (fun other => get_modify_induct (motive := fun old new => new.parent = old.parent)
      tree id change other rfl fun _ => parent _)
    (fun other => get_modify_induct (motive := fun old new => new.children = old.children) tree id
      change other rfl fun _ => children _)
    (fun other => get_modify_induct (motive := fun old new => new.isLibrary = old.isLibrary) tree id
      change other rfl fun _ => isLibrary _)

theorem Grows.modify (tree : ScopeTree) (scope : Nat) (change : Scope → Scope)
    (extended : ∀ s, Scope.Extended s (change s))
    (children : ∀ s, (change s).children = s.children) :
    Grows scope tree (tree.modify scope change) := by
  refine ⟨Nat.le_of_eq (size_modify tree scope change).symm, ?_, ?_, ?_⟩
  · intro id _ apart
    rw [get_modify_of_ne tree change (Ne.symm apart)]
    exact Scope.Kept.refl _
  · exact get_modify_induct (motive := Scope.Extended) tree scope change scope
      (Scope.Kept.refl _).extended fun _ => extended _
  · intro child member _
    have same : ((tree.modify scope change).get scope).children = (tree.get scope).children :=
      get_modify_induct (motive := fun old new => new.children = old.children) tree scope change
        scope rfl fun _ => children _
    exact same ▸ member

theorem sameLinks_addVariables (tree : ScopeTree) (scope : Nat) (more : List Variable) :
    SameLinks tree (tree.addVariables scope more) :=
  .modify tree scope (fun s => { s with declared := s.declared ++ more }) (fun _ => rfl)
    (fun _ => rfl) fun _ => rfl

theorem sameLinks_dropVariablesSince (tree : ScopeTree) (scope mark : Nat) :
    SameLinks tree (tree.dropVariablesSince scope mark) :=
  .modify tree scope (fun s => { s with declared := s.declared.take mark }) (fun _ => rfl)
    (fun _ => rfl) fun _ => rfl

theorem names_addVariables (inside : scope < tree.size) (more : List Variable) (other : Nat) :
    (tree.addVariables scope more).names other =
      tree.names other ++ if other = scope then more.map (·.name) else [] := by
  rw [names, names, addVariables, get_modify]
  by_cases same : scope = other
  · subst same
    simp only [inside, and_self, ↓reduceIte, List.map_append]
  · simp only [same, false_and, ↓reduceIte, Ne.symm same, List.append_nil]

theorem Grows.addVariables (tree : ScopeTree) (scope : Nat) (more : List Variable) :
    Grows scope tree (tree.addVariables scope more) := by
  refine Grows.modify tree scope _ (fun s => ?_) fun _ => rfl
  refine ⟨rfl, rfl, rfl, rfl, rfl, ?_, List.prefix_rfl, List.prefix_rfl, List.prefix_rfl⟩
  rw [List.map_append]
  exact List.prefix_append _ _

theorem Ordered.addVariables (ordered : tree.Ordered) (scope : Nat) (more : List Variable) :
    (tree.addVariables scope more).Ordered :=
  ordered.modify scope _ (fun _ => rfl) (fun _ => rfl) fun _ => rfl

@[simp] theorem size_addVariables (tree : ScopeTree) (scope : Nat) (more : List Variable) :
    (tree.addVariables scope more).size = tree.size := size_modify _ _ _

theorem ext_get (size : after.size = before.size) (same : ∀ id, after.get id = before.get id) :
    after = before := by
  cases after with
  | mk new =>
    cases before with
    | mk old =>
      congr
      apply Array.ext size
      intro index inside old_inside
      have equal := same index
      simp only [get, Array.getD_eq_getD_getElem?] at equal
      rw [Array.getElem?_eq_getElem inside, Array.getElem?_eq_getElem old_inside] at equal
      exact equal

@[simp] theorem addVariables_nil (tree : ScopeTree) (scope : Nat) :
    tree.addVariables scope [] = tree := by
  apply ext_get (size_addVariables tree scope [])
  intro id
  rw [addVariables, get_modify]
  simp only [List.append_nil, ite_self]

theorem addVariables_addVariables (tree : ScopeTree) (scope : Nat) (first second : List Variable) :
    (tree.addVariables scope first).addVariables scope second =
      tree.addVariables scope (first ++ second) := by
  apply ext_get (by simp only [size_addVariables])
  intro id
  simp only [addVariables, get_modify, size_modify]
  split <;> simp only [List.append_assoc]

theorem declare_eq (tree : ScopeTree) (v : Variable) :
    tree.declare v = tree.addVariables v.scope [v] := rfl

/-- Names listed in a scope are seen from where that scope is searched. -/
theorem sees_addVariables (inside : scope < tree.size) (more : List Variable) (id : Nat)
    (name : String) :
    (tree.addVariables scope more).Sees id name ↔
      tree.Sees id name ∨ tree.Searches id scope ∧ name ∈ more.map (·.name) := by
  simp only [sees_iff, (sameLinks_addVariables tree scope more).searches, names_addVariables inside,
    List.mem_append]
  constructor
  · rintro ⟨other, searched, listed | added⟩
    · exact .inl ⟨other, searched, listed⟩
    · split at added
      · rename_i same
        exact .inr ⟨same ▸ searched, added⟩
      · cases added
  · rintro (⟨other, searched, listed⟩ | ⟨searched, added⟩)
    · exact ⟨other, searched, .inl listed⟩
    · exact ⟨scope, searched, .inr (by simpa only [↓reduceIte] using added)⟩

/-- A change that keeps links, names and listed functions keeps the functions that are seen. -/
theorem calls_congr (links : SameLinks before after)
    (functionNames : ∀ other, after.functionNames other = before.functionNames other) :
    after.Calls id name ↔ before.Calls id name := by
  simp only [calls_iff, links.searches, functionNames]

theorem sees_congr (links : SameLinks before after)
    (names : ∀ other, after.names other = before.names other) :
    after.Sees id name ↔ before.Sees id name := by
  simp only [sees_iff, links.searches, names]

theorem functionNames_modify (tree : ScopeTree) (id : Nat) (change : Scope → Scope)
    (functions : ∀ s, (change s).functions = s.functions) (titles : ∀ s, (change s).name = s.name)
    (other : Nat) : (tree.modify id change).functionNames other = tree.functionNames other := by
  have functions : ((tree.modify id change).get other).functions = (tree.get other).functions :=
    get_modify_induct (motive := fun old new => new.functions = old.functions) tree id change
      other rfl fun _ => functions _
  rw [functionNames, functionNames, functions]
  apply List.map_congr_left
  intro function _
  exact get_modify_induct (motive := fun old new => new.name = old.name) tree id change
    function rfl fun _ => titles _

/-- A change to what a scope lists as variables does not touch functions. -/
theorem calls_modify_declared (tree : ScopeTree) (scope : Nat)
    (change : List Variable → List Variable) (id : Nat) (name : String) :
    (tree.modify scope fun s => { s with declared := change s.declared }).Calls id name ↔
      tree.Calls id name :=
  calls_congr (.modify tree scope _ (fun _ => rfl) (fun _ => rfl) fun _ => rfl)
    (functionNames_modify tree scope _ (fun _ => rfl) fun _ => rfl)

theorem calls_addVariables (tree : ScopeTree) (scope : Nat) (more : List Variable) (id : Nat)
    (name : String) : (tree.addVariables scope more).Calls id name ↔ tree.Calls id name :=
  calls_modify_declared tree scope (· ++ more) id name

/-- Trees whose scopes differ in known keys and definitions alone see the same. -/
theorem sees_of_kept (size : after.size = before.size)
    (kept : ∀ id, Scope.Kept (before.get id) (after.get id)) :
    after.Sees id name ↔ before.Sees id name :=
  sees_congr (.of_get size (fun other => (kept other).parent) (fun other => (kept other).children)
    fun other => (kept other).isLibrary) fun other => (kept other).names

theorem calls_of_kept (size : after.size = before.size)
    (kept : ∀ id, Scope.Kept (before.get id) (after.get id)) :
    after.Calls id name ↔ before.Calls id name := by
  refine calls_congr (.of_get size (fun other => (kept other).parent)
    (fun other => (kept other).children) fun other => (kept other).isLibrary) fun other => ?_
  simp only [functionNames, (kept other).functions, (kept _).name]

theorem Ordered.of_kept (ordered : before.Ordered) (size : after.size = before.size)
    (kept : ∀ id, Scope.Kept (before.get id) (after.get id)) : after.Ordered := by
  constructor
  · intro here child member
    rw [(kept here).children] at member
    exact size ▸ ordered.child here child member
  · intro here outer linked
    rw [(kept here).parent] at linked
    exact ordered.parent here outer linked
  · intro here function member
    rw [(kept here).functions] at member
    exact size ▸ ordered.function here function member

/-- Hiding variables makes nothing seen. -/
theorem sees_of_dropVariablesSince {mark : Nat}
    (seen : (tree.dropVariablesSince scope mark).Sees id name) : tree.Sees id name := by
  have fewer : ∀ other, (tree.dropVariablesSince scope mark).names other ⊆ tree.names other := by
    intro other
    refine get_modify_induct (motive := fun old new =>
      new.declared.map (·.name) ⊆ old.declared.map (·.name))
      tree scope (fun s => { s with declared := s.declared.take mark }) other
        (List.Subset.refl _) ?_
    intro _ x member
    rw [List.map_take] at member
    exact List.mem_of_mem_take member
  obtain ⟨other, searched, listed⟩ := sees_iff.1 seen
  rw [(sameLinks_dropVariablesSince tree scope mark).searches] at searched
  exact sees_iff.2 ⟨other, searched, fewer other listed⟩

/-- Hiding the names that a scope listed since growth began leaves growth without new names. -/
theorem Grows.dropVariablesSince (growth : Grows scope before after) {mark : Nat}
    (since : mark = before.variableCount scope) (inside : scope < before.size) :
    Grows scope before (after.dropVariablesSince scope mark) ∧
      (after.dropVariablesSince scope mark).names scope = before.names scope := by
  have bound : scope < after.size := Nat.lt_of_lt_of_le inside growth.size
  have same : ((after.get scope).declared.take mark).map Variable.withoutKeys =
      (before.get scope).declared.map Variable.withoutKeys := by
    have listed := List.prefix_iff_eq_take.1 growth.own.declared
    rw [List.length_map] at listed
    rw [List.map_take, since, variableCount]
    exact listed.symm
  have own := growth.own
  refine ⟨⟨?_, ?_, ?_, ?_⟩, ?_⟩
  · rw [ScopeTree.dropVariablesSince, size_modify]
    exact growth.size
  · intro id inside apart
    rw [ScopeTree.dropVariablesSince, get_modify_of_ne _ _ (Ne.symm apart)]
    exact growth.others id inside apart
  · rw [ScopeTree.dropVariablesSince, get_modify_self _ bound]
    exact ⟨own.name, own.parent, own.isLibrary, own.isFunction, own.isExternal,
      same.symm ▸ List.prefix_rfl, own.children, own.functions, own.libraries⟩
  · intro child member old
    rw [ScopeTree.dropVariablesSince, get_modify_self _ bound] at member
    exact growth.children child member old
  · rw [names, names, ScopeTree.dropVariablesSince, get_modify_self _ bound,
      ← Scope.map_name_withoutKeys, same, Scope.map_name_withoutKeys]

end Treecode.ScopeTree
