import Treecode.Proofs.Declared

set_option autoImplicit false

namespace Treecode

/-- A scope without what it lists as variables and without the notes on a function. -/
def Scope.outline (s : Scope) : Scope :=
  { s with declared := [], isExternal := false, definition := none }

namespace ScopeTree

open Compile

/-- How work in a scope changes the scopes, with the functions that are made all of a given sort.
Between the blocks of an `if` or a `switch` the variables gathered so far come with it. -/
inductive Changes (sort : List Parameter → Prop) :
    Nat → Option (List Variable) → ScopeTree → ScopeTree → Prop
  | refl {scope tree} : Changes sort scope none tree tree
  | trans {scope before middle after} (first : Changes sort scope none before middle)
      (last : Changes sort scope none middle after) : Changes sort scope none before after
  | declare {scope tree v} (owned : v.scope = scope) (unseen : tree.sees scope v.name = false)
      (keyless : v.index = []) : Changes sort scope none tree (tree.declare v)
  | store {scope tree target append} :
      Changes sort scope none tree (tree.keysRecorded scope target append)
  | function {scope before after name params} (fit : sort params)
      (inner : Changes sort before.size none
        (before.withFunction scope name (parameterVariables before.size params)) after) :
      Changes sort scope none before after
  | noted {scope before after child note} (changes : Changes sort scope none before after)
      (new : before.size ≤ child) (outline : ∀ s : Scope, (note s).outline = s.outline)
      (declared : ∀ s : Scope, (note s).declared = s.declared) :
      Changes sort scope none before (after.modify child note)
  | loop {scope before after}
      (inner : Changes sort before.size none
        (before.within scope "foreach" [{ Variable.fresh "it" before.size with type := .any }])
          after) :
      Changes sort scope none before (after.discardChild scope before.size)
  | library {scope before after name} (fresh : before.hasLibrary scope name = false)
      (inner : Changes sort before.size none (before.withLibrary scope name) after) :
      Changes sort scope none before after
  | opening {scope tree} : Changes sort scope (some []) tree tree
  | block {scope before middle after declared}
      (front : Changes sort scope (some declared) before middle)
      (inner : Changes sort scope none middle after) :
      Changes sort scope
        (some (gather declared (after.variablesSince scope (before.variableCount scope)))) before
        (after.dropVariablesSince scope (before.variableCount scope))
  | broken {scope before middle after declared}
      (blocks : Changes sort scope (some declared) before middle)
      (inner : Changes sort scope none middle after) : Changes sort scope none before after
  | joined {scope before after declared}
      (blocks : Changes sort scope (some declared) before after) :
      Changes sort scope none before (after.addVariables scope declared)

variable {sort : List Parameter → Prop} {scope : Nat} {mode : Option (List Variable)}
  {before middle after : ScopeTree}

/-- Notes on a function move no links. -/
theorem Ordered.noted (ordered : after.Ordered) (child : Nat) {note : Scope → Scope}
    (outline : ∀ s, (note s).outline = s.outline) : (after.modify child note).Ordered :=
  ordered.modify child note (fun s => (congrArg Scope.parent (outline s) :))
    (fun s => (congrArg Scope.children (outline s) :)) fun s =>
      (congrArg Scope.functions (outline s) :)

/-- What changes keep: changes in a scope add to that scope alone, and the links stay in order.
Between two blocks the scope lists what it listed before the first one. -/
structure Contained (scope : Nat) (mode : Option (List Variable)) (before after : ScopeTree) :
    Prop where
  growth : Grows scope before after
  ordered : after.Ordered
  between : mode.isSome → after.names scope = before.names scope

theorem Contained.inside (contained : Contained scope mode before after)
    (inside : scope < before.size) : scope < after.size :=
  Nat.lt_of_lt_of_le inside contained.growth.size

/-- Where work in a new scope was contained, so it was in the scope around. -/
theorem Contained.through (made : Grows scope before middle) (inside : scope < before.size)
    (inner : Contained before.size none middle after) : Contained scope none before after :=
  ⟨made.through inside (Nat.le_refl _) inner.growth, inner.ordered, nofun⟩

theorem Contained.block {declared gathered : List Variable}
    (front : Contained scope (some declared) before middle)
    (inner : Contained scope none middle after)
    (inside : scope < before.size) :
    Contained scope (some gathered) before
      (after.dropVariablesSince scope (before.variableCount scope)) := by
  obtain ⟨growth, names⟩ := (front.growth.trans inner.growth).dropVariablesSince rfl inside
  exact ⟨growth, inner.ordered.modify _ _ (fun _ => rfl) (fun _ => rfl) fun _ => rfl,
    fun _ => names⟩

theorem Changes.contained (changes : Changes sort scope mode before after)
    (inside : scope < before.size)
    (ordered : before.Ordered) : Contained scope mode before after := by
  induction changes with
  | refl | opening => exact ⟨.refl _ _, ordered, fun _ => rfl⟩
  | trans first last front back =>
    have one := front inside ordered
    have two := back (one.inside inside) one.ordered
    exact ⟨one.growth.trans two.growth, two.ordered, nofun⟩
  | @declare scope tree v owned =>
    subst owned
    exact ⟨.addVariables _ _ _, ordered.addVariables _ _, nofun⟩
  | @store scope tree target append =>
    obtain ⟨size, kept⟩ := keysRecorded_kept tree scope target append
    exact ⟨.of_kept size kept, ordered.of_kept size kept, nofun⟩
  | function fit inner ih =>
    refine .through (.withFunction inside) inside (ih ?_ (ordered.withFunction inside))
    rw [size_withFunction]
    exact Nat.lt_succ_self _
  | @noted scope before after child note changes new outline declared ih =>
    have whole := ih inside ordered
    exact ⟨whole.growth.modify_new inside new note, whole.ordered.noted child outline, nofun⟩
  | @loop scope before after inner ih =>
    obtain ⟨order, made, _⟩ := within_ready "foreach"
      [{ Variable.fresh "it" before.size with type := .any }] ordered inside
    have work := ih made order
    obtain ⟨growth, order, _, _⟩ := loop_after ordered inside work.growth work.ordered
    exact ⟨growth, order, nofun⟩
  | library fresh inner ih =>
    refine .through (.withLibrary inside) inside (ih ?_ (ordered.withLibrary inside))
    rw [size_withLibrary]
    exact Nat.lt_succ_self _
  | block blocks inner front back =>
    have one := front inside ordered
    exact one.block (back (one.inside inside) one.ordered) inside
  | broken blocks inner front back =>
    have one := front inside ordered
    have two := back (one.inside inside) one.ordered
    exact ⟨one.growth.trans two.growth, two.ordered, nofun⟩
  | joined blocks ih =>
    have whole := ih inside ordered
    exact ⟨whole.growth.trans (.addVariables _ _ _), whole.ordered.addVariables _ _, nofun⟩

end ScopeTree

end Treecode
