import Treecode.Proofs.Child

set_option autoImplicit false

namespace Treecode.ScopeTree

open Relation

variable {tree before after : ScopeTree} {scope child id other : Nat} {name title : String}

theorem get_discardChild (apart : scope ≠ child) (inside : scope < tree.size)
    (room : child < tree.size) (id : Nat) :
    (tree.discardChild scope child).get id =
      if id = child then { tree.get child with parent := none }
      else if id = scope then
        { tree.get scope with
          children := (tree.get scope).children.filter (· != child)
          functions := (tree.get scope).functions.filter (· != child) }
      else tree.get id := by
  rw [discardChild, get_modify, get_modify, size_modify]
  by_cases at_child : id = child
  · subst at_child
    simp only [room, apart, and_self, false_and, ↓reduceIte]
  · by_cases at_scope : id = scope
    · subst at_scope
      simp only [inside, at_child, Ne.symm at_child, and_self, false_and, ↓reduceIte]
    · simp only [at_child, at_scope, Ne.symm at_child, Ne.symm at_scope, false_and, ↓reduceIte]

@[simp] theorem size_discardChild (tree : ScopeTree) (scope child : Nat) :
    (tree.discardChild scope child).size = tree.size := by
  rw [discardChild, size_modify, size_modify]

theorem Ordered.discardChild (ordered : tree.Ordered) (apart : scope ≠ child)
    (inside : scope < tree.size) (room : child < tree.size) :
    (tree.discardChild scope child).Ordered := by
  constructor
  · intro id inner member
    rw [size_discardChild]
    rw [get_discardChild apart inside room] at member
    split at member
    · rename_i same
      exact same ▸ ordered.child child inner member
    · split at member
      · rename_i same
        exact same ▸ ordered.child scope inner (List.mem_filter.1 member).1
      · exact ordered.child id inner member
  · intro id outer linked
    rw [get_discardChild apart inside room] at linked
    split at linked
    · cases linked
    · split at linked
      · rename_i same
        exact same ▸ ordered.parent scope outer linked
      · exact ordered.parent id outer linked
  · intro id function member
    rw [size_discardChild]
    rw [get_discardChild apart inside room] at member
    split at member
    · rename_i same
      exact same ▸ ordered.function child function member
    · split at member
      · rename_i same
        exact same ▸ ordered.function scope function (List.mem_filter.1 member).1
      · exact ordered.function id function member

/-- Discarding a scope that is no library keeps all libraries where they are. -/
theorem includes_discardChild (apart : scope ≠ child) (inside : scope < tree.size)
    (room : child < tree.size) (plain : (tree.get child).isLibrary = false) :
    (tree.discardChild scope child).Includes = tree.Includes := by
  funext here library
  rw [eq_iff_iff, Includes, Includes, size_discardChild]
  by_cases discarded : library = child
  · subst discarded
    simp [get_discardChild apart inside room, plain]
  · have flag : ((tree.discardChild scope child).get library).isLibrary =
        (tree.get library).isLibrary := by
      rw [get_discardChild apart inside room]
      simp only [discarded, ↓reduceIte]
      split
      · rename_i same
        rw [same]
      · rfl
    have member : library ∈ ((tree.discardChild scope child).get here).children ↔
        library ∈ (tree.get here).children := by
      rw [get_discardChild apart inside room]
      split
      · rename_i same
        rw [same]
      · split
        · rename_i same
          rw [same, List.mem_filter]
          exact and_iff_left (bne_iff_ne.2 discarded)
        · exact Iff.rfl
    rw [flag, member]

/-- Discarding a scope that is no library hides nothing from the scopes outside it. -/
theorem searches_discardChild (apart : scope ≠ child) (inside : scope < tree.size)
    (room : child < tree.size) (plain : (tree.get child).isLibrary = false) (outside : id < child) :
    (tree.discardChild scope child).Searches id other ↔ tree.Searches id other := by
  refine searches_congr ?_ ?_
  · intro here le outer
    have apart_here : here ≠ child := by omega
    rw [Inside, Inside, get_discardChild apart inside room]
    simp only [apart_here, ↓reduceIte]
    split
    · rename_i same
      rw [same]
    · exact Iff.rfl
  · intro here _
    rw [Exports, Exports, includes_discardChild apart inside room plain]

theorem names_discardChild (apart : scope ≠ child) (inside : scope < tree.size)
    (room : child < tree.size) (id : Nat) :
    (tree.discardChild scope child).names id = tree.names id := by
  rw [names, names, get_discardChild apart inside room]
  split
  · rename_i same
    rw [same]
  · split
    · rename_i same
      rw [same]
    · rfl

theorem functionNames_discardChild (apart : scope ≠ child) (inside : scope < tree.size)
    (room : child < tree.size) (unlisted : child ∉ (tree.get scope).functions) (id : Nat) :
    (tree.discardChild scope child).functionNames id = tree.functionNames id := by
  have listed : ((tree.discardChild scope child).get id).functions = (tree.get id).functions := by
    rw [get_discardChild apart inside room]
    split
    · rename_i same
      rw [same]
    · split
      · rename_i same
        rw [same]
        apply List.filter_eq_self.2
        intro function member
        exact bne_iff_ne.2 fun equal => unlisted (equal ▸ member)
      · rfl
  rw [functionNames, functionNames, listed]
  apply List.map_congr_left
  intro function _
  rw [get_discardChild apart inside room]
  split
  · rename_i same
    rw [same]
  · split
    · rename_i same
      rw [same]
    · rfl

section Growing

variable {declared : List Variable}

/-- A new scope that lists variables is there, is no library, and the tree is in order. -/
theorem within_ready (title : String) (declared : List Variable) (ordered : before.Ordered)
    (inside : scope < before.size) :
    (before.within scope title declared).Ordered ∧
      before.size < (before.within scope title declared).size ∧
      ((before.within scope title declared).get before.size).isLibrary = false := by
  refine ⟨ordered.within inside, ?_, ?_⟩
  · rw [size_within]
    exact Nat.lt_succ_self _
  · rw [get_within inside]
    rfl

/-- What grows in a new scope that lists variables is not seen from the scope around it. -/
theorem within_hidden (ordered : before.Ordered) (inside : scope < before.size)
    (growth : Grows before.size (before.within scope title declared) after) :
    (∀ name, after.Sees scope name ↔ before.Sees scope name) ∧
      ∀ name, after.Calls scope name ↔ before.Calls scope name := by
  obtain ⟨order, made, plain⟩ := within_ready title declared ordered inside
  constructor
  · intro name
    exact (growth.sees_outside order plain made inside name).trans (sees_within_old inside inside)
  · intro name
    exact (growth.calls_outside order plain made inside name).trans
      (calls_within_old ordered inside inside)

/-- When the work in the scope of a loop is done and the scope discarded, nothing of it is left. -/
theorem loop_after (ordered : before.Ordered) (inside : scope < before.size)
    (growth : Grows before.size (before.within scope title declared) after)
    (grown : after.Ordered) :
    Grows scope before (after.discardChild scope before.size) ∧
      (after.discardChild scope before.size).Ordered ∧
      (∀ name, (after.discardChild scope before.size).Sees scope name ↔ before.Sees scope name) ∧
      ∀ name, (after.discardChild scope before.size).Calls scope name ↔
        before.Calls scope name := by
  obtain ⟨_, made, plain⟩ := within_ready title declared ordered inside
  have apart : scope ≠ before.size := Nat.ne_of_lt inside
  have room : before.size < after.size := Nat.lt_of_lt_of_le made growth.size
  have bound : scope < after.size := Nat.lt_trans inside room
  have outer := growth.others scope (Nat.lt_trans inside made) apart
  have made_within : Grows scope before (before.within scope title declared) := .within inside
  have whole := made_within.through inside (Nat.le_refl _) growth
  have shape : (before.within scope title declared).get scope =
      { before.get scope with children := (before.get scope).children ++ [before.size] } := by
    rw [within, ScopeTree.addVariables, get_modify_of_ne _ _ (Ne.symm apart), get_newChild inside]
    simp only [apart, ↓reduceIte]
  have functions : (after.get scope).functions = (before.get scope).functions := by
    rw [outer.functions, shape]
  have unlisted : before.size ∉ (after.get scope).functions := by
    intro member
    rw [functions] at member
    exact absurd (ordered.function scope _ member).2 (Nat.lt_irrefl _)
  have old_children : (before.get scope).children.filter (· != before.size) =
      (before.get scope).children := by
    apply List.filter_eq_self.2
    intro inner member
    exact bne_iff_ne.2 (Nat.ne_of_lt (ordered.child scope inner member).2)
  have children : (after.get scope).children.filter (· != before.size) =
      (before.get scope).children := by
    rw [outer.children, shape, List.filter_append, old_children]
    simp
  have kept_functions : (after.get scope).functions.filter (· != before.size) =
      (before.get scope).functions := by
    rw [← functions]
    apply List.filter_eq_self.2
    intro function member
    exact bne_iff_ne.2 fun equal => unlisted (equal ▸ member)
  have still_plain : (after.get before.size).isLibrary = false :=
    (growth.extended made).isLibrary.trans plain
  have searches : ∀ other, (after.discardChild scope before.size).Searches scope other ↔
      after.Searches scope other := fun _ =>
    searches_discardChild apart bound room still_plain inside
  obtain ⟨sees, calls⟩ := within_hidden ordered inside growth
  refine ⟨⟨?_, ?_, ?_, ?_⟩, grown.discardChild apart bound room, ?_, ?_⟩
  · rw [size_discardChild]
    exact whole.size
  · intro id old other
    rw [get_discardChild apart bound room]
    simp only [Nat.ne_of_lt old, other, ↓reduceIte]
    exact whole.others id old other
  · rw [get_discardChild apart bound room]
    simp only [apart, ↓reduceIte]
    have own := whole.own
    exact ⟨own.name, own.parent, own.isLibrary, own.isFunction, own.isExternal, own.declared,
      children ▸ List.prefix_rfl, kept_functions ▸ List.prefix_rfl, own.libraries⟩
  · intro child member _
    rw [get_discardChild apart bound room] at member
    simp only [apart, ↓reduceIte, children] at member
    exact member
  · intro name
    rw [← sees name]
    simp only [sees_iff, searches, names_discardChild apart bound room]
  · intro name
    rw [← calls name]
    simp only [calls_iff, searches, functionNames_discardChild apart bound room unlisted]

/-- A scope with a function made in it: the function's scope lists its parameters, and the scope
around lists the function. -/
def withFunction (tree : ScopeTree) (scope : Nat) (title : String) (declared : List Variable) :
    ScopeTree :=
  (((tree.newChild scope title).modify tree.size fun s => { s with isFunction := true }).addFunction
    scope tree.size).addVariables tree.size declared

@[simp] theorem size_withFunction (tree : ScopeTree) (scope : Nat) (title : String)
    (declared : List Variable) : (tree.withFunction scope title declared).size = tree.size + 1 := by
  rw [withFunction, ScopeTree.addVariables, addFunction, size_modify, size_modify, size_modify,
    size_newChild]

/-- Apart from the flag and the listing, a function's scope is made like any other. -/
theorem get_withFunction (inside : scope < tree.size) (id : Nat) :
    (tree.withFunction scope title declared).get id =
      if id = tree.size then
        { (tree.within scope title declared).get id with isFunction := true }
      else if id = scope then
        { (tree.within scope title declared).get id with
          functions := (tree.get scope).functions ++ [tree.size] }
      else (tree.within scope title declared).get id := by
  have room : tree.size < tree.size + 1 := Nat.lt_succ_self _
  have wide : scope < tree.size + 1 := Nat.lt_succ_of_lt inside
  have apart : scope ≠ tree.size := Nat.ne_of_lt inside
  rw [withFunction, within, ScopeTree.addVariables, ScopeTree.addVariables, addFunction]
  simp only [get_modify, size_modify, size_newChild, get_newChild inside]
  by_cases new : id = tree.size
  · subst new
    simp only [room, apart, and_self, false_and, ↓reduceIte]
  · by_cases same : id = scope
    · subst same
      simp only [wide, new, Ne.symm new, and_self, false_and, ↓reduceIte]
    · simp only [new, same, Ne.symm new, Ne.symm same, false_and, ↓reduceIte]

theorem sameLinks_withFunction (inside : scope < tree.size) :
    SameLinks (tree.within scope title declared) (tree.withFunction scope title declared) := by
  refine .of_get (by rw [size_withFunction, size_within]) ?_ ?_ ?_ <;> intro id <;>
    rw [get_withFunction inside] <;> split <;> try rfl
  all_goals split <;> rfl

theorem names_withFunction (inside : scope < tree.size) (id : Nat) :
    (tree.withFunction scope title declared).names id =
    (tree.within scope title declared).names id := by
  rw [names, names, get_withFunction inside]
  split
  · rfl
  · split <;> rfl

theorem functionNames_withFunction (inside : scope < tree.size) (id : Nat) :
    (tree.withFunction scope title declared).functionNames id =
      (tree.within scope title declared).functionNames id ++ if id = scope
      then [title] else [] := by
  have titles : ∀ other, ((tree.withFunction scope title declared).get other).name =
      ((tree.within scope title declared).get other).name := by
    intro other
    rw [get_withFunction inside]
    split
    · rfl
    · split <;> rfl
  have own : ((tree.within scope title declared).get tree.size).name = title := by
    rw [get_within inside]
    rfl
  have unlisted : ((tree.within scope title declared).get scope).functions =
      (tree.get scope).functions := by
    rw [within, ScopeTree.addVariables, get_modify_of_ne _ _ (Nat.ne_of_gt inside),
      get_newChild inside]
    simp only [Nat.ne_of_lt inside, ↓reduceIte]
  simp only [functionNames, titles]
  rw [get_withFunction inside]
  by_cases new : id = tree.size
  · simp only [new, Nat.ne_of_gt inside, ↓reduceIte, List.append_nil]
  · by_cases same : id = scope
    · simp only [same, Nat.ne_of_lt inside, ↓reduceIte, List.map_append, List.map_cons,
        List.map_nil, own, unlisted]
    · simp only [new, same, ↓reduceIte, List.append_nil]

theorem Grows.withFunction (inside : scope < tree.size) :
    Grows scope tree (tree.withFunction scope title declared) := by
  have plain : Grows scope tree (tree.within scope title declared) := .within inside
  refine ⟨?_, ?_, ?_, ?_⟩
  · rw [size_withFunction]
    exact Nat.le_succ _
  · intro id bound apart
    rw [get_withFunction inside]
    simp only [Nat.ne_of_lt bound, apart, ↓reduceIte]
    exact plain.others id bound apart
  · rw [get_withFunction inside]
    simp only [Nat.ne_of_lt inside, ↓reduceIte]
    have own := plain.own
    exact ⟨own.name, own.parent, own.isLibrary, own.isFunction, own.isExternal, own.declared,
      own.children, List.prefix_append _ _, own.libraries⟩
  · intro child member old
    rw [get_withFunction inside] at member
    simp only [Nat.ne_of_lt inside, ↓reduceIte] at member
    exact plain.children child member old

theorem Ordered.withFunction (ordered : tree.Ordered) (inside : scope < tree.size) :
    (tree.withFunction scope title declared).Ordered := by
  have plain : (tree.within scope title declared).Ordered := ordered.within inside
  constructor
  · intro id child member
    rw [size_withFunction]
    rw [get_withFunction inside] at member
    have old : child ∈ ((tree.within scope title declared).get id).children := by
      split at member
      · exact member
      · split at member <;> exact member
    exact size_within tree scope title declared ▸ plain.child id child old
  · intro id outer linked
    rw [get_withFunction inside] at linked
    have old : ((tree.within scope title declared).get id).parent = some outer := by
      split at linked
      · exact linked
      · split at linked <;> exact linked
    exact plain.parent id outer old
  · intro id function member
    rw [size_withFunction]
    rw [get_withFunction inside] at member
    split at member
    · exact size_within tree scope title declared ▸ plain.function id function member
    · split at member
      · rename_i same
        subst same
        rcases List.mem_append.1 member with old | new
        · have := ordered.function id function old
          omega
        · have := List.mem_singleton.1 new
          omega
      · exact size_within tree scope title declared ▸ plain.function id function member

theorem sees_withFunction (inside : scope < tree.size) (id : Nat) :
    (tree.withFunction scope title declared).Sees id name ↔
      (tree.within scope title declared).Sees id name :=
  sees_congr (sameLinks_withFunction inside) (names_withFunction inside)

/-- A function can be called from where the scope that lists it is searched. -/
theorem calls_withFunction (inside : scope < tree.size) (id : Nat) :
    (tree.withFunction scope title declared).Calls id name ↔
      (tree.within scope title declared).Calls id name ∨
        (tree.within scope title declared).Searches id scope ∧ name = title := by
  simp only [calls_iff, (sameLinks_withFunction inside).searches, functionNames_withFunction inside,
    List.mem_append]
  constructor
  · rintro ⟨other, searched, listed | added⟩
    · exact .inl ⟨other, searched, listed⟩
    · split at added
      · rename_i same
        exact .inr ⟨same ▸ searched, List.mem_singleton.1 added⟩
      · cases added
  · rintro (⟨other, searched, listed⟩ | ⟨searched, rfl⟩)
    · exact ⟨other, searched, .inl listed⟩
    · exact ⟨scope, searched, .inr (by simp only [↓reduceIte, List.mem_singleton])⟩

/-- Inside a function its parameters are seen, and it can call itself. -/
theorem function_inside (ordered : tree.Ordered) (inside : scope < tree.size) :
    (∀ name, (tree.withFunction scope title declared).Sees tree.size name ↔
      tree.Sees scope name ∨ name ∈ declared.map (·.name)) ∧
    ∀ name, (tree.withFunction scope title declared).Calls tree.size name ↔
      tree.Calls scope name ∨ name = title := by
  constructor
  · intro name
    rw [sees_withFunction inside, sees_within ordered inside]
  · intro name
    have searched : (tree.within scope title declared).Searches tree.size scope := by
      have links : SameLinks (tree.newChild scope title) (tree.within scope title declared) :=
        .modify _ _ _ (fun _ => rfl) (fun _ => rfl) fun _ => rfl
      rw [links.searches, searches_newChild ordered inside]
      exact .inr (Searches.self tree scope)
    rw [calls_withFunction inside, calls_within ordered inside]
    simp only [searched, true_and]

/-- When the work in a function is done, the scope around it sees the same names and can call it. -/
theorem function_after (ordered : before.Ordered) (inside : scope < before.size)
    (growth : Grows before.size (before.withFunction scope title declared) after) :
    Grows scope before after ∧
      (∀ name, after.Sees scope name ↔ before.Sees scope name) ∧
      ∀ name, after.Calls scope name ↔ before.Calls scope name ∨ name = title := by
  have order : (before.withFunction scope title declared).Ordered := ordered.withFunction inside
  have made : before.size < (before.withFunction scope title declared).size := by
    rw [size_withFunction]
    exact Nat.lt_succ_self _
  have plain : ((before.withFunction scope title declared).get before.size).isLibrary = false := by
    rw [get_withFunction inside, get_within inside]
    simp only [↓reduceIte]
    rfl
  refine ⟨(Grows.withFunction inside).through inside (Nat.le_refl _) growth, ?_, ?_⟩
  · intro name
    rw [growth.sees_outside order plain made inside, sees_withFunction inside,
      sees_within_old inside inside]
  · intro name
    rw [growth.calls_outside order plain made inside, calls_withFunction inside,
      calls_within_old ordered inside inside]
    simp only [Searches.self, true_and]

end Growing

/-- A scope with a library's scope made in it, and the library listed. -/
def withLibrary (tree : ScopeTree) (scope : Nat) (title : String) : ScopeTree :=
  ((tree.addLibrary scope title).newChild scope title).setLibrary tree.size true

@[simp] theorem size_withLibrary (tree : ScopeTree) (scope : Nat) (title : String) :
    (tree.withLibrary scope title).size = tree.size + 1 := by
  rw [withLibrary, setLibrary, size_modify, size_newChild, addLibrary, size_modify]

theorem get_withLibrary (inside : scope < tree.size) (id : Nat) :
    (tree.withLibrary scope title).get id =
      if id = tree.size then { Scope.fresh title (some scope) with isLibrary := true }
      else if id = scope then
        { tree.get scope with
          children := (tree.get scope).children ++ [tree.size]
          libraries := (tree.get scope).libraries ++ [title] }
      else tree.get id := by
  have listed : scope < (tree.addLibrary scope title).size := by
    rw [addLibrary, size_modify]
    exact inside
  have size : (tree.addLibrary scope title).size = tree.size := size_modify _ _ _
  rw [withLibrary, setLibrary, get_modify, size_newChild, get_newChild listed, size]
  by_cases new : id = tree.size
  · subst new
    simp only [Nat.lt_succ_self, and_self, ↓reduceIte]
  · by_cases same : id = scope
    · subst same
      rw [addLibrary, get_modify_self _ inside]
      simp only [new, Ne.symm new, false_and, ↓reduceIte]
    · rw [addLibrary, get_modify_of_ne _ _ (Ne.symm same)]
      simp only [new, same, Ne.symm new, false_and, ↓reduceIte]

theorem Grows.withLibrary (inside : scope < tree.size) :
    Grows scope tree (tree.withLibrary scope title) := by
  refine ⟨?_, ?_, ?_, ?_⟩
  · rw [size_withLibrary]
    exact Nat.le_succ _
  · intro id bound apart
    rw [get_withLibrary inside]
    simp only [Nat.ne_of_lt bound, apart, ↓reduceIte]
    exact Scope.Kept.refl _
  · rw [get_withLibrary inside]
    simp only [Nat.ne_of_lt inside, ↓reduceIte]
    exact ⟨rfl, rfl, rfl, rfl, rfl, List.prefix_rfl, List.prefix_append _ _, List.prefix_rfl,
      List.prefix_append _ _⟩
  · intro child member old
    rw [get_withLibrary inside] at member
    simp only [Nat.ne_of_lt inside, ↓reduceIte] at member
    rcases List.mem_append.1 member with known | new
    · exact known
    · exact absurd (List.mem_singleton.1 new) (Nat.ne_of_lt old)

theorem Ordered.withLibrary (ordered : tree.Ordered) (inside : scope < tree.size) :
    (tree.withLibrary scope title).Ordered := by
  have listed : (tree.addLibrary scope title).Ordered :=
    ordered.modify scope _ (fun _ => rfl) (fun _ => rfl) fun _ => rfl
  have bound : scope < (tree.addLibrary scope title).size := by
    rw [addLibrary, size_modify]
    exact inside
  exact (listed.newChild bound title).modify _ _ (fun _ => rfl) (fun _ => rfl) fun _ => rfl

/-- A library's new scope is all that is searched besides what was searched before. -/
theorem searches_withLibrary (inside : scope < tree.size)
    (bound : id < tree.size) (searched : (tree.withLibrary scope title).Searches id other) :
    tree.Searches id other ∨ other = tree.size := by
  have growth : Grows scope tree (tree.withLibrary scope title) := .withLibrary inside
  have step : ∀ {here library : Nat}, here < tree.size →
      (tree.withLibrary scope title).Includes here library →
      tree.Includes here library ∨ library = tree.size := by
    intro here library room included
    by_cases new : library = tree.size
    · exact .inr new
    · obtain ⟨member, order, wide, flag⟩ := included
      rw [size_withLibrary] at wide
      have narrow : library < tree.size := by omega
      refine .inl ⟨?_, order, narrow, (growth.extended narrow).isLibrary.symm.trans flag⟩
      rw [get_withLibrary inside] at member
      simp only [Nat.ne_of_lt room, ↓reduceIte] at member
      split at member
      · rename_i same
        rw [same]
        rcases List.mem_append.1 member with old | added
        · exact old
        · exact absurd (List.mem_singleton.1 added) new
      · exact member
  have childless : ∀ library, ¬ (tree.withLibrary scope title).Includes tree.size library := by
    intro library included
    have member := included.1
    rw [get_withLibrary inside] at member
    simp only [↓reduceIte] at member
    cases member
  obtain ⟨last, way, exported⟩ := searched
  have way : ReflTransGen tree.Inside id last := by
    clear exported
    induction way with
    | refl => exact .refl
    | tail front link ih =>
      exact .tail ih ((growth.inside_iff (Nat.lt_of_le_of_lt (outer_le ih) bound)).1 link)
  have start := Nat.lt_of_le_of_lt (outer_le way) bound
  have handed : (tree.Exports last other ∧ other < tree.size) ∨ other = tree.size := by
    induction exported with
    | refl => exact .inl ⟨Exports.self tree last, start⟩
    | @tail here library _ included ih =>
      rcases ih with ⟨exported, room⟩ | rfl
      · rcases step room included with old | new
        · exact .inl ⟨ReflTransGen.tail exported old, old.2.2.1⟩
        · exact .inr new
      · exact absurd included (childless library)
  rcases handed with ⟨exported, _⟩ | new
  · exact .inl ⟨last, way, exported⟩
  · exact .inr new

/-- Making a library's scope changes nothing of what is seen. -/
theorem sees_withLibrary (inside : scope < tree.size)
    (bound : id < tree.size) :
    (tree.withLibrary scope title).Sees id name ↔ tree.Sees id name := by
  refine ⟨fun seen => ?_, (Grows.withLibrary inside).sees bound⟩
  obtain ⟨other, searched, listed⟩ := sees_iff.1 seen
  have room : other ≠ tree.size := by
    rintro rfl
    rw [names, get_withLibrary inside] at listed
    simp only [↓reduceIte] at listed
    cases listed
  have searched : tree.Searches id other :=
    (searches_withLibrary inside bound searched).resolve_right room
  refine sees_iff.2 ⟨other, searched, ?_⟩
  rw [names, get_withLibrary inside] at listed
  simp only [room, ↓reduceIte] at listed
  split at listed
  · rename_i same
    rw [same]
    exact listed
  · exact listed

theorem calls_withLibrary (ordered : tree.Ordered) (inside : scope < tree.size)
    (bound : id < tree.size) :
    (tree.withLibrary scope title).Calls id name ↔ tree.Calls id name := by
  have growth : Grows scope tree (tree.withLibrary scope title) := .withLibrary inside
  refine ⟨fun called => ?_, growth.calls ordered bound⟩
  obtain ⟨other, searched, listed⟩ := calls_iff.1 called
  obtain ⟨function, member, title⟩ := List.mem_map.1 listed
  have room : other ≠ tree.size := by
    rintro rfl
    rw [get_withLibrary inside] at member
    simp only [↓reduceIte] at member
    cases member
  have searched : tree.Searches id other :=
    (searches_withLibrary inside bound searched).resolve_right room
  have member : function ∈ (tree.get other).functions := by
    rw [get_withLibrary inside] at member
    simp only [room, ↓reduceIte] at member
    split at member
    · rename_i same
      rw [same]
      exact member
    · exact member
  refine calls_iff.2 ⟨other, searched, List.mem_map.2 ⟨function, member, ?_⟩⟩
  exact (growth.extended (ordered.function other function member).2).name.symm.trans title

/-- The scope of a library: it stands in the scope that includes the library. -/
structure LibraryIn (tree : ScopeTree) (scope library : Nat) : Prop where
  includes : tree.Includes scope library
  inside : tree.Inside library scope

theorem LibraryIn.withLibrary (inside : scope < tree.size) :
    (tree.withLibrary scope title).LibraryIn scope tree.size := by
  refine ⟨⟨?_, inside, ?_, ?_⟩, ?_, inside⟩
  · rw [get_withLibrary inside]
    simp only [Nat.ne_of_lt inside, ↓reduceIte]
    exact List.mem_append_right _ (List.mem_singleton.2 rfl)
  · rw [size_withLibrary]
    exact Nat.lt_succ_self _
  · rw [get_withLibrary inside]
    simp only [↓reduceIte]
  · rw [get_withLibrary inside]
    simp only [↓reduceIte]
    rfl

theorem LibraryIn.grows {library growing : Nat} (position : before.LibraryIn scope library)
    (growth : Grows growing before after) : after.LibraryIn scope library := by
  obtain ⟨⟨member, order, room, flag⟩, linked, _⟩ := position
  have outer := growth.extended (Nat.lt_trans order room)
  have inner := growth.extended room
  exact ⟨⟨outer.children.mem member, order, Nat.lt_of_lt_of_le room growth.size,
    inner.isLibrary.trans flag⟩, inner.parent.trans linked, order⟩

theorem LibraryIn.searches {library : Nat} (position : tree.LibraryIn scope library) :
    tree.Searches library other ↔ tree.Searches scope other := by
  rw [searches_iff]
  constructor
  · rintro (exported | ⟨outer, inside, searched⟩)
    · exact ⟨scope, .refl, ReflTransGen.head position.includes exported⟩
    · have same : outer = scope := by
        have := position.inside.1.symm.trans inside.1
        exact (Option.some.inj this).symm
      exact same ▸ searched
  · intro searched
    exact .inr ⟨scope, position.inside, searched⟩

theorem LibraryIn.sees {library : Nat} (position : tree.LibraryIn scope library) (name : String) :
    tree.Sees library name ↔ tree.Sees scope name := by
  simp only [sees_iff, position.searches]

theorem LibraryIn.calls {library : Nat} (position : tree.LibraryIn scope library) (name : String) :
    tree.Calls library name ↔ tree.Calls scope name := by
  simp only [calls_iff, position.searches]

end Treecode.ScopeTree
