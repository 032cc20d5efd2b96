import Treecode.Proofs.Change

set_option autoImplicit false

namespace Treecode.ScopeTree

open Relation

variable {tree before after : ScopeTree} {scope id other : Nat} {name title : String}

theorem get_newChild (inside : scope < tree.size) (title : String) (id : Nat) :
    (tree.newChild scope title).get id =
      if id = tree.size then Scope.fresh title (some scope)
      else if id = scope then
        { tree.get scope with children := (tree.get scope).children ++ [tree.size] }
      else tree.get id := by
  by_cases new : id = tree.size
  · subst new
    simp only [↓reduceIte, get_newChild_size title inside]
  · have pushed : ∀ other, other ≠ tree.size →
        (⟨tree.scopes.push (.fresh title (some scope))⟩ : ScopeTree).get other =
            tree.get other := by
      intro other apart
      have apart : other ≠ tree.scopes.size := apart
      simp only [get, Array.getD_eq_getD_getElem?, Array.getElem?_push, apart, ↓reduceIte]
    rw [newChild, get_modify, pushed id new]
    have room : scope < (⟨tree.scopes.push (.fresh title (some scope))⟩ : ScopeTree).size := by
      simp only [size, Array.size_push]
      exact Nat.lt_succ_of_lt inside
    by_cases same : id = scope
    · subst same
      simp only [room, new, and_self, ↓reduceIte]
    · simp only [new, same, Ne.symm same, false_and, ↓reduceIte]

theorem Grows.newChild (inside : scope < tree.size) (title : String) :
    Grows scope tree (tree.newChild scope title) := by
  refine ⟨by rw [size_newChild]; exact Nat.le_succ _, ?_, ?_, ?_⟩
  · intro id bound apart
    simp only [get_newChild inside, Nat.ne_of_lt bound, apart, ↓reduceIte]
    exact Scope.Kept.refl _
  · simp only [get_newChild inside, Nat.ne_of_lt inside, ↓reduceIte]
    exact ⟨rfl, rfl, rfl, rfl, rfl, List.prefix_rfl, List.prefix_append _ _, List.prefix_rfl,
      List.prefix_rfl⟩
  · intro child member old
    simp only [get_newChild inside, Nat.ne_of_lt inside, ↓reduceIte] at member
    rcases List.mem_append.1 member with known | new
    · exact known
    · exact absurd (List.mem_singleton.1 new) (Nat.ne_of_lt old)

theorem Ordered.newChild (ordered : tree.Ordered) (inside : scope < tree.size) (title : String) :
    (tree.newChild scope title).Ordered := by
  constructor
  · intro id child member
    rw [size_newChild]
    rw [get_newChild inside] at member
    split at member
    · cases member
    · split at member
      · rename_i same
        rcases List.mem_append.1 member with old | new
        · have := ordered.child scope child old
          omega
        · have := List.mem_singleton.1 new
          omega
      · have := ordered.child id child member
        omega
  · intro id outer linked
    rw [get_newChild inside] at linked
    split at linked
    · rename_i new
      cases linked
      omega
    · split at linked
      · rename_i same
        subst same
        exact ordered.parent id outer linked
      · exact ordered.parent id outer linked
  · intro id function member
    rw [size_newChild]
    rw [get_newChild inside] at member
    split at member
    · cases member
    · split at member
      · rename_i same
        subst same
        have := ordered.function id function member
        omega
      · have := ordered.function id function member
        omega

/-- A new scope is not included: its flag is not set. -/
theorem includes_newChild (inside : scope < tree.size) (title : String) :
    (tree.newChild scope title).Includes = tree.Includes := by
  funext id library
  rw [eq_iff_iff, Includes, Includes, size_newChild]
  by_cases new : library = tree.size
  · subst new
    simp [get_newChild_size title inside, Scope.fresh]
  · have flag : ((tree.newChild scope title).get library).isLibrary =
        (tree.get library).isLibrary := by
      rw [get_newChild inside]
      split
      · contradiction
      · split
        · rename_i same
          rw [same]
        · rfl
    have member : library ∈ ((tree.newChild scope title).get id).children ↔
        library ∈ (tree.get id).children := by
      rw [get_newChild inside]
      split
      · rename_i outside
        subst outside
        rw [get_of_size_le (Nat.le_refl _)]
        exact Iff.rfl
      · split
        · rename_i same
          subst same
          simp only [List.mem_append, List.mem_singleton, new, or_false]
        · exact Iff.rfl
    rw [flag, member]
    refine and_congr_right fun _ => and_congr_right fun _ => and_congr_left fun _ => ?_
    omega

theorem inside_newChild_old (inside : scope < tree.size) (title : String) (bound : id < tree.size) :
    (tree.newChild scope title).Inside id other ↔ tree.Inside id other := by
  rw [Inside, Inside, get_newChild inside]
  simp only [Nat.ne_of_lt bound, ↓reduceIte]
  split
  · rename_i same
    rw [same]
  · exact Iff.rfl

/-- Old scopes search what they searched before a new scope was made. -/
theorem searches_newChild_old (inside : scope < tree.size) (title : String)
    (bound : id < tree.size) :
    (tree.newChild scope title).Searches id other ↔ tree.Searches id other := by
  refine searches_congr ?_ ?_
  · intro here le outer
    exact inside_newChild_old inside title (Nat.lt_of_le_of_lt le bound)
  · intro here _
    rw [Exports, Exports, includes_newChild inside]

/-- A new scope searches itself and what the scope around it searches. -/
theorem searches_newChild (ordered : tree.Ordered) (inside : scope < tree.size) (title : String) :
    (tree.newChild scope title).Searches tree.size other ↔
      other = tree.size ∨ tree.Searches scope other := by
  rw [searches_iff]
  have alone : (tree.newChild scope title).Exports tree.size other ↔ other = tree.size := by
    rw [exports_iff, includes_newChild inside]
    constructor
    · rintro (same | ⟨library, included, _⟩)
      · exact same.symm
      · have := (ordered.child tree.size library included.1).1
        have := included.2.2.1
        omega
    · intro same
      exact .inl same.symm
  have around : ∀ outer, (tree.newChild scope title).Inside tree.size outer ↔ outer = scope := by
    intro outer
    rw [Inside, get_newChild_size title inside]
    constructor
    · rintro ⟨linked, _⟩
      cases linked
      rfl
    · rintro rfl
      exact ⟨rfl, inside⟩
  rw [alone]
  refine or_congr_right ?_
  simp only [around, exists_eq_left]
  exact searches_newChild_old inside title inside

theorem names_newChild (inside : scope < tree.size) (title : String) (id : Nat) :
    (tree.newChild scope title).names id = tree.names id := by
  rw [names, names, get_newChild inside]
  split
  · rename_i new
    rw [new, get_of_size_le (Nat.le_refl _)]
    rfl
  · split
    · rename_i same
      rw [same]
    · rfl

theorem functionNames_newChild (ordered : tree.Ordered) (inside : scope < tree.size)
    (title : String)
    (id : Nat) : (tree.newChild scope title).functionNames id = tree.functionNames id := by
  have listed : ((tree.newChild scope title).get id).functions = (tree.get id).functions := by
    rw [get_newChild inside]
    split
    · rename_i new
      rw [new, get_of_size_le (Nat.le_refl _)]
      rfl
    · split
      · rename_i same
        rw [same]
      · rfl
  rw [functionNames, functionNames, listed]
  apply List.map_congr_left
  intro function member
  have bound := (ordered.function id function member).2
  rw [get_newChild inside]
  simp only [Nat.ne_of_lt bound, ↓reduceIte]
  split
  · rename_i same
    rw [same]
  · rfl

def within (tree : ScopeTree) (scope : Nat) (title : String) (declared : List Variable) :
    ScopeTree :=
  (tree.newChild scope title).addVariables tree.size declared

variable {declared : List Variable}

@[simp] theorem size_within (tree : ScopeTree) (scope : Nat) (title : String)
    (declared : List Variable) : (tree.within scope title declared).size = tree.size + 1 := by
  rw [within, ScopeTree.addVariables, size_modify, size_newChild]

theorem get_within (inside : scope < tree.size) :
    (tree.within scope title declared).get tree.size =
      { Scope.fresh title (some scope) with declared := declared } := by
  rw [within, ScopeTree.addVariables,
    get_modify_self _ (by rw [size_newChild]; exact Nat.lt_succ_self _),
    get_newChild_size title inside]
  rfl

theorem Grows.within (inside : scope < tree.size) :
    Grows scope tree (tree.within scope title declared) :=
  (Grows.newChild inside title).through inside (Nat.le_refl _) (.addVariables _ _ _)

theorem Ordered.within (ordered : tree.Ordered) (inside : scope < tree.size) :
    (tree.within scope title declared).Ordered :=
  (ordered.newChild inside title).addVariables _ _

/-- A new scope sees what the scope around it sees, and its own names. -/
theorem sees_within (ordered : tree.Ordered) (inside : scope < tree.size) :
    (tree.within scope title declared).Sees tree.size name ↔
      tree.Sees scope name ∨ name ∈ declared.map (·.name) := by
  have made : tree.size < (tree.newChild scope title).size := by
    rw [size_newChild]
    exact Nat.lt_succ_self _
  have fresh : ∀ other, other = tree.size → name ∉ tree.names other := by
    rintro other rfl member
    rw [names, get_of_size_le (Nat.le_refl _)] at member
    cases member
  rw [within, sees_addVariables made, sees_iff, sees_iff]
  simp only [searches_newChild ordered inside, names_newChild inside, true_or, true_and]
  refine or_congr_left ?_
  constructor
  · rintro ⟨other, rfl | searched, listed⟩
    · exact absurd listed (fresh _ rfl)
    · exact ⟨other, searched, listed⟩
  · rintro ⟨other, searched, listed⟩
    exact ⟨other, .inr searched, listed⟩

theorem calls_within (ordered : tree.Ordered) (inside : scope < tree.size) :
    (tree.within scope title declared).Calls tree.size name ↔ tree.Calls scope name := by
  have fresh : ∀ other, other = tree.size → name ∉ tree.functionNames other := by
    rintro other rfl member
    rw [functionNames, get_of_size_le (Nat.le_refl _)] at member
    cases member
  rw [within, calls_addVariables, calls_iff, calls_iff]
  simp only [searches_newChild ordered inside, functionNames_newChild ordered inside]
  constructor
  · rintro ⟨other, rfl | searched, listed⟩
    · exact absurd listed (fresh _ rfl)
    · exact ⟨other, searched, listed⟩
  · rintro ⟨other, searched, listed⟩
    exact ⟨other, .inr searched, listed⟩

/-- A new scope changes nothing for the scopes that were there. -/
theorem sees_within_old (inside : scope < tree.size) (bound : id < tree.size) :
    (tree.within scope title declared).Sees id name ↔ tree.Sees id name := by
  have made : tree.size < (tree.newChild scope title).size := by
    rw [size_newChild]
    exact Nat.lt_succ_self _
  have unsearched : ¬ tree.Searches id tree.size := by
    rintro ⟨last, way, exported⟩
    have last_le := outer_le way
    rcases ReflTransGen.cases_tail_iff _ _ _ |>.1 exported with same | ⟨_, _, included⟩
    · omega
    · exact absurd included.2.2.1 (Nat.lt_irrefl _)
  rw [within, sees_addVariables made, searches_newChild_old inside title bound]
  simp only [unsearched, false_and, or_false, sees_iff, searches_newChild_old inside title bound,
    names_newChild inside]

theorem calls_within_old (ordered : tree.Ordered) (inside : scope < tree.size)
    (bound : id < tree.size) :
    (tree.within scope title declared).Calls id name ↔ tree.Calls id name := by
  rw [within, calls_addVariables]
  simp only [calls_iff, searches_newChild_old inside title bound,
    functionNames_newChild ordered inside]

end Treecode.ScopeTree
