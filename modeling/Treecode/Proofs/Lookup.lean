import Mathlib.Logic.Relation
import Treecode.Scope

set_option autoImplicit false

namespace Treecode.ScopeTree

open Relation

/-- The scope of a library stands in the scope that includes the library. -/
def Includes (tree : ScopeTree) (id library : Nat) : Prop :=
  library ∈ (tree.get id).children ∧ id < library ∧ library < tree.size ∧
    (tree.get library).isLibrary = true

def Inside (tree : ScopeTree) (id outer : Nat) : Prop :=
  (tree.get id).parent = some outer ∧ outer < id

/-- The scopes that a scope hands on: itself, and those of the libraries included in it. -/
def Exports (tree : ScopeTree) : Nat → Nat → Prop := ReflTransGen tree.Includes

/-- The scopes that a lookup searches: what each scope hands on, from the first one outward. -/
def Searches (tree : ScopeTree) (id other : Nat) : Prop :=
  ∃ outer, ReflTransGen tree.Inside id outer ∧ tree.Exports outer other

/-- The names that a scope lists. -/
def names (tree : ScopeTree) (id : Nat) : List String := (tree.get id).declared.map (·.name)

def functionNames (tree : ScopeTree) (id : Nat) : List String :=
  (tree.get id).functions.map fun function => (tree.get function).name

/-- Whether a name means a variable in a scope. -/
def sees (tree : ScopeTree) (id : Nat) (name : String) : Bool := (tree.findVariable id name).isSome

def calls (tree : ScopeTree) (id : Nat) (name : String) : Bool := (tree.findFunction id name).isSome

/-- A name means a variable in a scope. -/
def Sees (tree : ScopeTree) (id : Nat) (name : String) : Prop := tree.sees id name = true

/-- A name means a function in a scope. -/
def Calls (tree : ScopeTree) (id : Nat) (name : String) : Prop := tree.calls id name = true

theorem get_of_size_le {tree : ScopeTree} {id : Nat} (outside : tree.size ≤ id) :
    tree.get id = default := by
  simp only [get, Array.getD_eq_getD_getElem?]
  rw [Array.getElem?_eq_none outside]
  rfl

theorem Exports.self (tree : ScopeTree) (id : Nat) : tree.Exports id id := ReflTransGen.refl

theorem exports_iff {tree : ScopeTree} {id other : Nat} :
    tree.Exports id other ↔ id = other ∨ ∃ library, tree.Includes id library ∧
      tree.Exports library other := by
  constructor
  · intro exported
    exact (ReflTransGen.cases_head_iff.1 exported)
  · rintro (rfl | ⟨library, included, exported⟩)
    · exact Exports.self tree id
    · exact ReflTransGen.head included exported

theorem searches_iff {tree : ScopeTree} {id other : Nat} :
    tree.Searches id other ↔ tree.Exports id other ∨ ∃ outer, tree.Inside id outer ∧
      tree.Searches outer other := by
  constructor
  · rintro ⟨last, way, exported⟩
    rcases ReflTransGen.cases_head_iff.1 way with rfl | ⟨outer, inside, way⟩
    · exact .inl exported
    · exact .inr ⟨outer, inside, last, way, exported⟩
  · rintro (exported | ⟨outer, inside, last, way, exported⟩)
    · exact ⟨id, ReflTransGen.refl, exported⟩
    · exact ⟨last, .head inside way, exported⟩

theorem Searches.self (tree : ScopeTree) (id : Nat) : tree.Searches id id :=
  ⟨id, ReflTransGen.refl, Exports.self tree id⟩

/-- What a scope hands on has a number no smaller than its own. -/
theorem Exports.le {tree : ScopeTree} {id other : Nat} (exported : tree.Exports id other) :
    id ≤ other := by
  induction exported with
  | refl => exact Nat.le_refl id
  | tail _ included ih => exact Nat.le_trans ih (Nat.le_of_lt included.2.1)

/-- The scopes around a scope have numbers no larger than its own. -/
theorem outer_le {tree : ScopeTree} {id outer : Nat} (way : ReflTransGen tree.Inside id outer) :
    outer ≤ id := by
  induction way with
  | refl => exact Nat.le_refl id
  | tail _ inside ih => exact Nat.le_trans (Nat.le_of_lt inside.2) ih

/-- A probe finds something at a scope if it finds something in a scope that is handed on. -/
theorem isSome_visibleAt {α : Type} (tree : ScopeTree) (probe : Scope → Option α) (id : Nat) :
    (tree.visibleAt probe id).isSome ↔
      ∃ other, tree.Exports id other ∧ (probe (tree.get other)).isSome := by
  -- Numbers grow inward, so the induction is on how many scopes have a larger number.
  induction above : tree.size - id using Nat.strongRecOn generalizing id with
  | ind count ih =>
    have step : (tree.visibleAt probe id).isSome ↔ (probe (tree.get id)).isSome ∨
        ∃ library, tree.Includes id library ∧ (tree.visibleAt probe library).isSome := by
      rw [visibleAt, Option.isSome_or, Bool.or_eq_true, List.findSome?_isSome_iff]
      refine or_congr_right ⟨?_, ?_⟩
      · rintro ⟨child, member, found⟩
        split at found
        · rename_i order
          split at found
          · rename_i flag
            exact ⟨child, ⟨member, order.1, order.2, flag⟩, found⟩
          · cases found
        · cases found
      · rintro ⟨library, ⟨member, outer, inner, flag⟩, found⟩
        refine ⟨library, member, ?_⟩
        simpa only [outer, inner, flag, and_self, ↓reduceDIte, ↓reduceIte] using found
    rw [step]
    constructor
    · rintro (found | ⟨library, included, found⟩)
      · exact ⟨id, Exports.self tree id, found⟩
      · have fewer : tree.size - library < count := by
          have := included.2.1
          have := included.2.2.1
          omega
        obtain ⟨other, exported, found⟩ := (ih _ fewer library rfl).1 found
        exact ⟨other, exports_iff.2 (.inr ⟨library, included, exported⟩), found⟩
    · rintro ⟨other, exported, found⟩
      rcases exports_iff.1 exported with rfl | ⟨library, included, exported⟩
      · exact .inl found
      · have fewer : tree.size - library < count := by
          have := included.2.1
          have := included.2.2.1
          omega
        exact .inr ⟨library, included, (ih _ fewer library rfl).2 ⟨other, exported, found⟩⟩

theorem mem_chain (tree : ScopeTree) (id outer : Nat) :
    outer ∈ tree.chain id ↔ ReflTransGen tree.Inside id outer := by
  induction id using Nat.strongRecOn with
  | ind id ih =>
    rw [chain, List.mem_cons, ReflTransGen.cases_head_iff, eq_comm]
    refine or_congr_right ?_
    constructor
    · intro member
      split at member
      · rename_i parent linked
        split at member
        · rename_i outward
          exact ⟨parent, ⟨linked, outward⟩, (ih parent outward).1 member⟩
        · cases member
      · cases member
    · rintro ⟨parent, ⟨linked, outward⟩, way⟩
      rw [linked]
      simp only [outward, ↓reduceDIte]
      exact (ih parent outward).2 way

/-- A probe finds something from a scope outward if it finds something in a scope searched. -/
theorem isSome_visible {α : Type} (tree : ScopeTree) (probe : Scope → Option α) (id : Nat) :
    (tree.visible probe id).isSome ↔
      ∃ other, tree.Searches id other ∧ (probe (tree.get other)).isSome := by
  simp only [visible, List.findSome?_isSome_iff, mem_chain, isSome_visibleAt]
  constructor
  · rintro ⟨outer, way, other, exported, found⟩
    exact ⟨other, ⟨outer, way, exported⟩, found⟩
  · rintro ⟨other, ⟨outer, way, exported⟩, found⟩
    exact ⟨outer, way, other, exported, found⟩

theorem sees_iff {tree : ScopeTree} {id : Nat} {name : String} :
    tree.Sees id name ↔ ∃ other, tree.Searches id other ∧ name ∈ tree.names other := by
  simp [Sees, sees, findVariable, isSome_visible, Scope.named?, names]

theorem calls_iff {tree : ScopeTree} {id : Nat} {name : String} :
    tree.Calls id name ↔ ∃ other, tree.Searches id other ∧ name ∈ tree.functionNames other := by
  simp [Calls, calls, findFunction, isSome_visible, functionNames]

/-- Two trees that see the same from a scope give the same answers. -/
theorem sees_eq {before after : ScopeTree} {scope id : Nat}
    (same : ∀ name, after.Sees id name ↔ before.Sees scope name) :
    after.sees id = before.sees scope :=
  funext fun name => Bool.eq_iff_iff.2 (same name)

theorem calls_eq {before after : ScopeTree} {scope id : Nat}
    (same : ∀ name, after.Calls id name ↔ before.Calls scope name) :
    after.calls id = before.calls scope :=
  funext fun name => Bool.eq_iff_iff.2 (same name)

/-- What is searched hangs on the scopes around and on what each of them hands on. -/
theorem searches_congr {before after : ScopeTree} {id other : Nat}
    (inside : ∀ here ≤ id, ∀ outer, after.Inside here outer ↔ before.Inside here outer)
    (exports : ∀ here ≤ id, (after.Exports here other ↔ before.Exports here other)) :
    after.Searches id other ↔ before.Searches id other := by
  have way_iff : ∀ {last : Nat}, ReflTransGen after.Inside id last ↔
      ReflTransGen before.Inside id last := by
    intro last
    constructor <;> intro way
    · induction way with
      | refl => exact .refl
      | tail front step ih => exact .tail ih ((inside _ (outer_le front) _).1 step)
    · induction way with
      | refl => exact .refl
      | tail front step ih => exact .tail ih ((inside _ (outer_le front) _).2 step)
  constructor
  · rintro ⟨last, way, exported⟩
    exact ⟨last, way_iff.1 way, (exports last (outer_le way)).1 exported⟩
  · rintro ⟨last, way, exported⟩
    exact ⟨last, way_iff.2 way, (exports last (outer_le way)).2 exported⟩

/-- Two trees have the same links when scopes are inside and include the same scopes in both. -/
structure SameLinks (before after : ScopeTree) : Prop where
  inside : after.Inside = before.Inside
  includes : after.Includes = before.Includes

theorem SameLinks.searches {before after : ScopeTree} (same : SameLinks before after)
    {id other : Nat} : after.Searches id other ↔ before.Searches id other := by
  rw [Searches, Searches, Exports, Exports, same.inside, same.includes]

/-- Links are kept where no scope gets another parent, other children or another flag. -/
theorem SameLinks.of_get {before after : ScopeTree} (size : after.size = before.size)
    (parent : ∀ id, (after.get id).parent = (before.get id).parent)
    (children : ∀ id, (after.get id).children = (before.get id).children)
    (isLibrary : ∀ id, (after.get id).isLibrary = (before.get id).isLibrary) :
    SameLinks before after := by
  constructor
  · funext id outer
    rw [Inside, Inside, parent]
  · funext id library
    rw [Includes, Includes, children, isLibrary, size]

end Treecode.ScopeTree
