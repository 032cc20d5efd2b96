import Treecode.Proofs.Lookup

set_option autoImplicit false

namespace Treecode

/-- A variable without what is known of its keys. -/
def Variable.withoutKeys (v : Variable) : Variable := { v with index := [] }

namespace Scope

/-- A scope stays as it is, but for the known keys of its variables and a recorded definition. -/
structure Kept (before after : Scope) : Prop where
  name : after.name = before.name
  parent : after.parent = before.parent
  isLibrary : after.isLibrary = before.isLibrary
  isFunction : after.isFunction = before.isFunction
  isExternal : after.isExternal = before.isExternal
  declared : after.declared.map Variable.withoutKeys = before.declared.map Variable.withoutKeys
  children : after.children = before.children
  functions : after.functions = before.functions
  libraries : after.libraries = before.libraries

/-- A scope is added to: its lists grow at their ends. -/
structure Extended (before after : Scope) : Prop where
  name : after.name = before.name
  parent : after.parent = before.parent
  isLibrary : after.isLibrary = before.isLibrary
  isFunction : after.isFunction = before.isFunction
  isExternal : after.isExternal = before.isExternal
  declared : before.declared.map Variable.withoutKeys <+: after.declared.map Variable.withoutKeys
  children : before.children <+: after.children
  functions : before.functions <+: after.functions
  libraries : before.libraries <+: after.libraries

theorem Kept.refl (scope : Scope) : Kept scope scope :=
  ⟨rfl, rfl, rfl, rfl, rfl, rfl, rfl, rfl, rfl⟩

theorem Kept.trans {before middle after : Scope} (first : Kept before middle)
    (last : Kept middle after) : Kept before after :=
  ⟨last.name.trans first.name, last.parent.trans first.parent,
    last.isLibrary.trans first.isLibrary, last.isFunction.trans first.isFunction,
    last.isExternal.trans first.isExternal, last.declared.trans first.declared,
    last.children.trans first.children, last.functions.trans first.functions,
    last.libraries.trans first.libraries⟩

theorem Kept.extended {before after : Scope} (kept : Kept before after) : Extended before after :=
  ⟨kept.name, kept.parent, kept.isLibrary, kept.isFunction, kept.isExternal,
    kept.declared ▸ List.prefix_rfl, kept.children ▸ List.prefix_rfl,
    kept.functions ▸ List.prefix_rfl, kept.libraries ▸ List.prefix_rfl⟩

theorem Extended.trans {before middle after : Scope} (first : Extended before middle)
    (last : Extended middle after) : Extended before after :=
  ⟨last.name.trans first.name, last.parent.trans first.parent,
    last.isLibrary.trans first.isLibrary, last.isFunction.trans first.isFunction,
    last.isExternal.trans first.isExternal, first.declared.trans last.declared,
    first.children.trans last.children, first.functions.trans last.functions,
    first.libraries.trans last.libraries⟩

theorem map_name_withoutKeys (declared : List Variable) :
    (declared.map Variable.withoutKeys).map (·.name) = declared.map (·.name) := by
  rw [List.map_map]
  rfl

theorem Kept.names {before after : Scope} (kept : Kept before after) :
    after.declared.map (·.name) = before.declared.map (·.name) := by
  rw [← map_name_withoutKeys, kept.declared, map_name_withoutKeys]

theorem Extended.names {before after : Scope} (extended : Extended before after) :
    before.declared.map (·.name) <+: after.declared.map (·.name) := by
  rw [← map_name_withoutKeys, ← map_name_withoutKeys after.declared]
  exact extended.declared.map _

theorem map_withoutKeys_replaceNamed {name : String} {known updated : Variable}
    {declared : List Variable} (found : declared.find? (·.name == name) = some known)
    (same : updated.withoutKeys = known.withoutKeys) :
    (replaceNamed name updated declared).map Variable.withoutKeys =
      declared.map Variable.withoutKeys := by
  induction declared with
  | nil => rfl
  | cons v rest ih =>
    by_cases named : v.name == name
    · simp only [List.find?_cons, named, Option.some.injEq] at found
      subst found
      simp only [replaceNamed, named, ↓reduceIte, List.map_cons, same]
    · simp only [List.find?_cons, named] at found
      simp only [replaceNamed, named, Bool.false_eq_true, ↓reduceIte, List.map_cons, ih found]

/-- Replacing a variable by one that differs in its keys keeps the scope. -/
theorem kept_replaceVariable {scope : Scope} {name : String} {known updated : Variable}
    (found : scope.named? name = some known) (same : updated.withoutKeys = known.withoutKeys) :
    Kept scope (scope.replaceVariable name updated) :=
  ⟨rfl, rfl, rfl, rfl, rfl, map_withoutKeys_replaceNamed found same, rfl, rfl, rfl⟩

end Scope

namespace ScopeTree

open Relation

/-- The links of a tree respect the numbers of its scopes. -/
structure Ordered (tree : ScopeTree) : Prop where
  child : ∀ id child, child ∈ (tree.get id).children → id < child ∧ child < tree.size
  parent : ∀ id parent, (tree.get id).parent = some parent → parent < id
  function : ∀ id function, function ∈ (tree.get id).functions → id < function ∧
    function < tree.size

/-- Work in a scope adds to that scope alone. -/
structure Grows (scope : Nat) (before after : ScopeTree) : Prop where
  size : before.size ≤ after.size
  others : ∀ id < before.size, id ≠ scope → Scope.Kept (before.get id) (after.get id)
  own : Scope.Extended (before.get scope) (after.get scope)
  children : ∀ child ∈ (after.get scope).children, child < before.size →
    child ∈ (before.get scope).children

variable {before middle after : ScopeTree} {scope child : Nat}

theorem Grows.refl (scope : Nat) (tree : ScopeTree) : Grows scope tree tree :=
  ⟨Nat.le_refl _, fun _ _ _ => Scope.Kept.refl _, (Scope.Kept.refl _).extended, fun _ member _ =>
    member⟩

theorem Grows.trans (first : Grows scope before middle) (last : Grows scope middle after) :
    Grows scope before after := by
  refine ⟨Nat.le_trans first.size last.size, ?_, first.own.trans last.own, ?_⟩
  · intro id inside other
    exact (first.others id inside other).trans
      (last.others id (Nat.lt_of_lt_of_le inside first.size) other)
  · intro child member old
    exact first.children child
      (last.children child member (Nat.lt_of_lt_of_le old first.size)) old

/-- Whatever grows in a scope that was made meanwhile is growth of the scope around it. -/
theorem Grows.through (inside : scope < before.size) (first : Grows scope before middle)
    (new : before.size ≤ child) (last : Grows child middle after) : Grows scope before after := by
  have kept : ∀ id < before.size, Scope.Kept (middle.get id) (after.get id) := fun id bound =>
    last.others id (Nat.lt_of_lt_of_le bound first.size) (by omega)
  refine ⟨Nat.le_trans first.size last.size, ?_, first.own.trans (kept scope inside).extended, ?_⟩
  · intro id bound other
    exact (first.others id bound other).trans (kept id bound)
  · intro child member old
    rw [(kept scope inside).children] at member
    exact first.children child member old

theorem Grows.of_kept (size : after.size = before.size)
    (kept : ∀ id, Scope.Kept (before.get id) (after.get id)) : Grows scope before after :=
  ⟨Nat.le_of_eq size.symm, fun id _ _ => kept id, (kept scope).extended,
    fun _ member _ => (kept scope).children ▸ member⟩

theorem Grows.extended (growth : Grows scope before after) {id : Nat} (bound : id < before.size) :
    Scope.Extended (before.get id) (after.get id) := by
  by_cases same : id = scope
  · exact same ▸ growth.own
  · exact (growth.others id bound same).extended

theorem Grows.names_other (growth : Grows scope before after) {id : Nat} (bound : id < before.size)
    (other : id ≠ scope) : after.names id = before.names id :=
  (growth.others id bound other).names

theorem Grows.functionNames_other (growth : Grows scope before after) (ordered : before.Ordered)
    {id : Nat} (bound : id < before.size) (other : id ≠ scope) :
    after.functionNames id = before.functionNames id := by
  rw [functionNames, functionNames, (growth.others id bound other).functions]
  apply List.map_congr_left
  intro function member
  exact (growth.extended (ordered.function id function member).2).name

theorem Grows.includes_other (growth : Grows scope before after) (ordered : before.Ordered)
    {id library : Nat} (bound : id < before.size) (other : id ≠ scope) :
    after.Includes id library ↔ before.Includes id library := by
  rw [Includes, Includes, (growth.others id bound other).children]
  refine and_congr_right fun member => and_congr_right fun _ => ?_
  have inside := (ordered.child id library member).2
  rw [(growth.extended inside).isLibrary]
  exact and_congr_left fun _ =>
    ⟨fun _ => inside, fun _ => Nat.lt_of_lt_of_le inside growth.size⟩

theorem Grows.inside_iff (growth : Grows scope before after) {id outer : Nat}
    (bound : id < before.size) : after.Inside id outer ↔ before.Inside id outer := by
  rw [Inside, Inside, (growth.extended bound).parent]

theorem Grows.searches (growth : Grows scope before after) {id other : Nat}
    (bound : id < before.size) (searched : before.Searches id other) : after.Searches id other := by
  obtain ⟨last, way, exported⟩ := searched
  refine ⟨last, ?_, ?_⟩
  · clear exported
    induction way with
    | refl => exact .refl
    | tail front step ih =>
      exact .tail ih ((growth.inside_iff (Nat.lt_of_le_of_lt (outer_le front) bound)).2 step)
  · have start := Nat.lt_of_le_of_lt (outer_le way) bound
    induction exported with
    | refl => exact .refl
    | @tail here library front step ih =>
      obtain ⟨member, order, room, flag⟩ := step
      refine .tail ih ⟨?_, order, Nat.lt_of_lt_of_le room growth.size, ?_⟩
      · exact (growth.extended (Nat.lt_trans order room)).children.mem member
      · exact (growth.extended room).isLibrary.trans flag

/-- What is seen stays visible while a tree grows. -/
theorem Grows.sees (growth : Grows scope before after) {id : Nat} {name : String}
    (bound : id < before.size) (seen : before.Sees id name) : after.Sees id name := by
  obtain ⟨other, searched, listed⟩ := sees_iff.1 seen
  have room : other < before.size := by
    refine Nat.lt_of_not_le fun outside => ?_
    rw [names, get_of_size_le outside] at listed
    cases listed
  exact sees_iff.2 ⟨other, growth.searches bound searched, (growth.extended room).names.mem listed⟩

theorem Grows.calls (growth : Grows scope before after) (ordered : before.Ordered) {id : Nat}
    {name : String} (bound : id < before.size) (called : before.Calls id name) :
    after.Calls id name := by
  obtain ⟨other, searched, listed⟩ := calls_iff.1 called
  obtain ⟨function, member, title⟩ := List.mem_map.1 listed
  have room : other < before.size := by
    refine Nat.lt_of_not_le fun outside => ?_
    rw [get_of_size_le outside] at member
    cases member
  refine calls_iff.2 ⟨other, growth.searches bound searched, List.mem_map.2 ⟨function, ?_, ?_⟩⟩
  · exact (growth.extended room).functions.mem member
  · exact (growth.extended (ordered.function other function member).2).name.trans title

/-- What a scope hands on does not change while another scope grows that it does not hand on. -/
theorem Grows.exports_outside (growth : Grows child before after) (ordered : before.Ordered)
    (plain : (before.get child).isLibrary = false) {id other : Nat} (bound : id < before.size)
    (apart : id ≠ child) :
    (after.Exports id other ↔ before.Exports id other) ∧
      (before.Exports id other → other < before.size ∧ other ≠ child) := by
  have step : ∀ {place library : Nat}, place < before.size → before.Includes place library →
      library < before.size ∧ library ≠ child := by
    intro place library _ included
    refine ⟨included.2.2.1, ?_⟩
    rintro rfl
    simp [included.2.2.2] at plain
  have stays : ∀ {last : Nat}, before.Exports id last → last < before.size ∧ last ≠ child := by
    intro last exported
    induction exported with
    | refl => exact ⟨bound, apart⟩
    | tail _ included ih => exact step ih.1 included
  refine ⟨⟨?_, ?_⟩, stays⟩
  · intro exported
    induction exported with
    | refl => exact .refl
    | tail _ included ih =>
      have here := stays ih
      exact .tail ih ((growth.includes_other ordered here.1 here.2).1 included)
  · intro exported
    induction exported with
    | refl => exact .refl
    | tail front included ih =>
      have here := stays front
      exact .tail ih ((growth.includes_other ordered here.1 here.2).2 included)

/-- A scope around a growing one that is no library searches the same scopes, and none that
grows. -/
theorem Grows.searches_outside (growth : Grows child before after) (ordered : before.Ordered)
    (plain : (before.get child).isLibrary = false) (made : child < before.size) {id : Nat}
    (outside : id < child) (other : Nat) :
    (after.Searches id other ↔ before.Searches id other) ∧
      (before.Searches id other → other < before.size ∧ other ≠ child) := by
  have below : ∀ here ≤ id, here < child := fun here le => Nat.lt_of_le_of_lt le outside
  have exported : ∀ here ≤ id, (after.Exports here other ↔ before.Exports here other) ∧
      (before.Exports here other → other < before.size ∧ other ≠ child) := fun here le =>
    growth.exports_outside ordered plain (Nat.lt_trans (below here le) made)
      (Nat.ne_of_lt (below here le))
  refine ⟨searches_congr ?_ fun here le => (exported here le).1, ?_⟩
  · intro here le outer
    exact growth.inside_iff (Nat.lt_trans (below here le) made)
  · rintro ⟨last, way, handed⟩
    exact (exported last (outer_le way)).2 handed

/-- What grows in a scope that is no library is not seen around it. -/
theorem Grows.sees_outside (growth : Grows child before after) (ordered : before.Ordered)
    (plain : (before.get child).isLibrary = false) (made : child < before.size) {id : Nat}
    (outside : id < child) (name : String) : after.Sees id name ↔ before.Sees id name := by
  rw [sees_iff, sees_iff]
  refine exists_congr fun other => ?_
  obtain ⟨same, stays⟩ := growth.searches_outside ordered plain made outside other
  rw [same]
  refine and_congr_right fun searched => ?_
  rw [growth.names_other (stays searched).1 (stays searched).2]

theorem Grows.calls_outside (growth : Grows child before after) (ordered : before.Ordered)
    (plain : (before.get child).isLibrary = false) (made : child < before.size) {id : Nat}
    (outside : id < child) (name : String) : after.Calls id name ↔ before.Calls id name := by
  rw [calls_iff, calls_iff]
  refine exists_congr fun other => ?_
  obtain ⟨same, stays⟩ := growth.searches_outside ordered plain made outside other
  rw [same]
  refine and_congr_right fun searched => ?_
  rw [growth.functionNames_other ordered (stays searched).1 (stays searched).2]

end ScopeTree

end Treecode
