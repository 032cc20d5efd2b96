import Treecode.Proofs.Changes

set_option autoImplicit false

namespace Treecode.ScopeTree

open Compile

/-- The links agree: a child has its parent, a scope lists each child once, its libraries are the
names of its children that are libraries, each once, and its functions are its children that are
functions. -/
structure Linked (tree : ScopeTree) : Prop where
  child : ∀ outer id, id ∈ (tree.get outer).children ↔ (tree.get id).parent = some outer
  childrenOnce : ∀ outer, (tree.get outer).children.Nodup
  libraries : ∀ outer, (tree.get outer).libraries =
    ((tree.get outer).children.filter fun id => (tree.get id).isLibrary).map fun id =>
    (tree.get id).name
  librariesOnce : ∀ outer, (tree.get outer).libraries.Nodup
  functions : ∀ outer,
    (tree.get outer).functions = (tree.get outer).children.filter fun id => (tree.get id).isFunction

/-- Of the scopes made since a size, only those of libraries and functions are inside another
scope. -/
def Settled (size : Nat) (tree : ScopeTree) : Prop :=
  ∀ id, size ≤ id → (tree.get id).parent.isSome →
    (tree.get id).isLibrary = true ∨ (tree.get id).isFunction = true

/-- A scope is made in another one, which lists it; nothing else is linked anew. -/
structure Encloses (scope : Nat) (made : Scope) (before after : ScopeTree) : Prop where
  new : (after.get before.size).outline = made
  around : (after.get scope).outline =
    { (before.get scope).outline with
      children := (before.get scope).children ++ [before.size]
      functions := (before.get scope).functions ++ if made.isFunction then [before.size] else []
      libraries := (before.get scope).libraries ++ if made.isLibrary then [made.name] else [] }
  others : ∀ id, id ≠ before.size → id ≠ scope → (after.get id).outline = (before.get id).outline

section

variable {tree before after : ScopeTree} {scope child : Nat} {made : Scope} {title : String}
  {declared : List Variable}

theorem Linked.of_outline (linked : before.Linked)
    (same : ∀ id, (after.get id).outline = (before.get id).outline) : after.Linked := by
  have name : ∀ id, (after.get id).name = (before.get id).name :=
    fun id => (congrArg Scope.name (same id) :)
  have parent : ∀ id, (after.get id).parent = (before.get id).parent :=
    fun id => (congrArg Scope.parent (same id) :)
  have children : ∀ id, (after.get id).children = (before.get id).children :=
    fun id => (congrArg Scope.children (same id) :)
  have functions : ∀ id, (after.get id).functions = (before.get id).functions :=
    fun id => (congrArg Scope.functions (same id) :)
  have libraries : ∀ id, (after.get id).libraries = (before.get id).libraries :=
    fun id => (congrArg Scope.libraries (same id) :)
  have isLibrary : ∀ id, (after.get id).isLibrary = (before.get id).isLibrary :=
    fun id => (congrArg Scope.isLibrary (same id) :)
  have isFunction : ∀ id, (after.get id).isFunction = (before.get id).isFunction :=
    fun id => (congrArg Scope.isFunction (same id) :)
  constructor
  · simpa only [children, parent] using linked.child
  · simpa only [children] using linked.childrenOnce
  · simpa only [children, libraries, isLibrary, name] using linked.libraries
  · simpa only [libraries] using linked.librariesOnce
  · simpa only [children, functions, isFunction] using linked.functions

theorem Settled.of_outline {size : Nat} (settled : before.Settled size)
    (same : ∀ id, (after.get id).outline = (before.get id).outline) : after.Settled size := by
  intro id new inside
  have parent : (after.get id).parent = (before.get id).parent :=
    (congrArg Scope.parent (same id) :)
  have isLibrary : (after.get id).isLibrary = (before.get id).isLibrary :=
    (congrArg Scope.isLibrary (same id) :)
  have isFunction : (after.get id).isFunction = (before.get id).isFunction :=
    (congrArg Scope.isFunction (same id) :)
  rw [isLibrary, isFunction]
  exact settled id new (parent ▸ inside)

theorem outline_modify (tree : ScopeTree) (id : Nat) (change : Scope → Scope)
    (same : ∀ s, (change s).outline = s.outline) (other : Nat) :
    ((tree.modify id change).get other).outline = (tree.get other).outline :=
  get_modify_induct (motive := fun old new => new.outline = old.outline) tree id change other rfl
    fun _ => same _

theorem outline_addVariables (tree : ScopeTree) (scope : Nat) (more : List Variable) (id : Nat) :
    ((tree.addVariables scope more).get id).outline = (tree.get id).outline :=
  outline_modify tree scope (fun s => { s with declared := s.declared ++ more }) (fun _ => rfl) id

theorem outline_dropVariablesSince (tree : ScopeTree) (scope mark id : Nat) :
    ((tree.dropVariablesSince scope mark).get id).outline = (tree.get id).outline :=
  outline_modify tree scope (fun s => { s with declared := s.declared.take mark }) (fun _ => rfl) id

theorem outline_keysRecorded (tree : ScopeTree) (scope : Nat) (target : Expression) (append : Bool)
    (id : Nat) :
    ((tree.keysRecorded scope target append).get id).outline = (tree.get id).outline := by
  unfold keysRecorded updateVariable
  cases tree.findVariable scope target.token.text with
  | none => rfl
  | some v =>
    cases known : (tree.get v.scope).named? target.token.text with
    | none =>
      simp only [Option.bind_eq_bind, Option.bind_some, known, Option.bind_none]
    | some old =>
      simp only [Option.bind_eq_bind, Option.bind_some, known, Option.pure_def]
      exact outline_modify tree v.scope
        (fun s => s.replaceVariable target.token.text (storeKeys target append old))
          (fun _ => rfl) id

theorem encloses_newChild (inside : scope < tree.size) :
    Encloses scope (Scope.fresh title (some scope)) tree (tree.newChild scope title) := by
  have apart : scope ≠ tree.size := Nat.ne_of_lt inside
  refine ⟨?_, ?_, fun id old other => ?_⟩
  · rw [get_newChild inside]
    simp only [↓reduceIte]
    rfl
  · rw [get_newChild inside]
    simp only [apart, ↓reduceIte, Scope.fresh, Bool.false_eq_true, List.append_nil]
    rfl
  · rw [get_newChild inside]
    simp only [old, other, ↓reduceIte]

/-- What a new scope lists as variables links nothing. -/
theorem Encloses.of_outline {middle : ScopeTree} (encloses : Encloses scope made before middle)
    (same : ∀ id, (after.get id).outline = (middle.get id).outline) :
    Encloses scope made before after :=
  ⟨(same _).trans encloses.new, (same _).trans encloses.around,
    fun id old other => (same id).trans (encloses.others id old other)⟩

theorem encloses_within (inside : scope < tree.size) :
    Encloses scope (Scope.fresh title (some scope)) tree (tree.within scope title declared) :=
  (encloses_newChild inside).of_outline (outline_addVariables _ _ _)

theorem encloses_withFunction (inside : scope < tree.size) :
    Encloses scope { Scope.fresh title (some scope) with isFunction := true } tree
      (tree.withFunction scope title declared) := by
  have plain : Encloses scope (Scope.fresh title (some scope)) tree
      (tree.within scope title declared) :=
    encloses_within inside
  have apart : scope ≠ tree.size := Nat.ne_of_lt inside
  refine ⟨?_, ?_, fun id old other => ?_⟩
  · rw [get_withFunction inside]
    simp only [↓reduceIte]
    rw [get_within inside]
    rfl
  · rw [get_withFunction inside]
    simp only [apart, ↓reduceIte]
    exact congrArg (fun s : Scope =>
      { s with functions := (tree.get scope).functions ++ [tree.size] }) plain.around
  · rw [get_withFunction inside]
    simp only [old, other, ↓reduceIte]
    exact plain.others id old other

theorem encloses_withLibrary (inside : scope < tree.size) :
    Encloses scope { Scope.fresh title (some scope) with isLibrary := true } tree
      (tree.withLibrary scope title) := by
  have apart : scope ≠ tree.size := Nat.ne_of_lt inside
  refine ⟨?_, ?_, fun id old other => ?_⟩
  · rw [get_withLibrary inside]
    simp only [↓reduceIte]
    rfl
  · rw [get_withLibrary inside]
    simp only [apart, ↓reduceIte, Scope.fresh, Bool.false_eq_true, List.append_nil]
    rfl
  · rw [get_withLibrary inside]
    simp only [old, other, ↓reduceIte]

/-- What a scope lists changes in the scope around a new one alone. -/
theorem Encloses.lists (encloses : Encloses scope made before after)
    (bare : made.children = [] ∧ made.functions = [] ∧ made.libraries = []) {id : Nat}
    (other : id ≠ scope) :
    (after.get id).children = (before.get id).children ∧
      (after.get id).functions = (before.get id).functions ∧
      (after.get id).libraries = (before.get id).libraries := by
  have same : (after.get id).outline.children = (before.get id).outline.children ∧
      (after.get id).outline.functions = (before.get id).outline.functions ∧
      (after.get id).outline.libraries = (before.get id).outline.libraries := by
    by_cases new : id = before.size
    · rw [new, encloses.new, get_of_size_le (Nat.le_refl _)]
      exact bare
    · rw [encloses.others id new other]
      exact ⟨rfl, rfl, rfl⟩
  exact same

theorem Encloses.same (encloses : Encloses scope made before after) {id : Nat}
    (old : id ≠ before.size) :
    (after.get id).name = (before.get id).name ∧ (after.get id).parent = (before.get id).parent ∧
      (after.get id).isLibrary = (before.get id).isLibrary ∧
      (after.get id).isFunction = (before.get id).isFunction := by
  have same : (after.get id).outline.name = (before.get id).name ∧
      (after.get id).outline.parent = (before.get id).parent ∧
      (after.get id).outline.isLibrary = (before.get id).isLibrary ∧
      (after.get id).outline.isFunction = (before.get id).isFunction := by
    by_cases around : id = scope
    · rw [around, encloses.around]
      exact ⟨rfl, rfl, rfl, rfl⟩
    · rw [encloses.others id old around]
      exact ⟨rfl, rfl, rfl, rfl⟩
  exact same

/-- A new scope is linked to the one that it is made in, and to nothing else. -/
theorem Linked.enclosed (linked : before.Linked) (ordered : before.Ordered)
    (encloses : Encloses scope made before after) (parent : made.parent = some scope)
    (bare : made.children = [] ∧ made.functions = [] ∧ made.libraries = [])
    (fresh : made.isLibrary = true → made.name ∉ (before.get scope).libraries) : after.Linked := by
  have unlisted : ∀ outer, before.size ∉ (before.get outer).children := fun outer member =>
    Nat.lt_irrefl _ (ordered.child outer _ member).2
  have old : ∀ {outer id}, id ∈ (before.get outer).children → id ≠ before.size :=
    fun member same => unlisted _ (same ▸ member)
  have newParent : (after.get before.size).parent = some scope :=
    (congrArg Scope.parent encloses.new :).trans parent
  have newName : (after.get before.size).name = made.name := (congrArg Scope.name encloses.new :)
  have newLibrary : (after.get before.size).isLibrary = made.isLibrary :=
    (congrArg Scope.isLibrary encloses.new :)
  have newFunction : (after.get before.size).isFunction = made.isFunction :=
    (congrArg Scope.isFunction encloses.new :)
  have children : (after.get scope).children = (before.get scope).children ++ [before.size] :=
    (congrArg Scope.children encloses.around :)
  have functions : (after.get scope).functions =
      (before.get scope).functions ++ if made.isFunction then [before.size] else [] :=
    (congrArg Scope.functions encloses.around :)
  have libraries : (after.get scope).libraries =
      (before.get scope).libraries ++ if made.isLibrary then [made.name] else [] :=
    (congrArg Scope.libraries encloses.around :)
  -- What a scope listed before is called as before and of the same kind.
  have oldLibraries : ∀ outer,
      (((before.get outer).children.filter fun id => (after.get id).isLibrary).map fun id =>
        (after.get id).name) = (before.get outer).libraries := by
    intro outer
    rw [linked.libraries outer, List.filter_congr fun id member =>
      (encloses.same (old member)).2.2.1]
    exact List.map_congr_left fun id member => (encloses.same (old (List.mem_filter.1 member).1)).1
  have oldFunctions : ∀ outer,
      ((before.get outer).children.filter fun id => (after.get id).isFunction) =
        (before.get outer).functions := by
    intro outer
    rw [linked.functions outer]
    exact List.filter_congr fun id member => (encloses.same (old member)).2.2.2
  constructor
  · intro outer id
    by_cases new : id = before.size
    · rw [new, newParent, Option.some.injEq]
      by_cases around : outer = scope
      · rw [around, children]
        simp only [List.mem_append, List.mem_singleton, or_true]
      · rw [(encloses.lists bare around).1]
        simp only [unlisted, Ne.symm around]
    · rw [(encloses.same new).2.1, ← linked.child]
      by_cases around : outer = scope
      · rw [around, children]
        simp only [List.mem_append, List.mem_singleton, new, or_false]
      · rw [(encloses.lists bare around).1]
  · intro outer
    by_cases around : outer = scope
    · rw [around, children]
      refine List.nodup_append.2
        ⟨linked.childrenOnce scope, List.pairwise_singleton _ _, fun id member _ new => ?_⟩
      exact List.mem_singleton.1 new ▸ old member
    · rw [(encloses.lists bare around).1]
      exact linked.childrenOnce outer
  · intro outer
    by_cases around : outer = scope
    · rw [around, children, libraries, List.filter_append, List.map_append, oldLibraries]
      congr 1
      cases kind : made.isLibrary <;>
        simp only [List.filter_cons, List.filter_nil, newLibrary, kind,
          Bool.false_eq_true, ↓reduceIte, List.map_nil, List.map_cons, newName]
    · rw [(encloses.lists bare around).1, (encloses.lists bare around).2.2, oldLibraries]
  · intro outer
    by_cases around : outer = scope
    · rw [around, libraries]
      cases kind : made.isLibrary with
      | false =>
        simp only [Bool.false_eq_true, ↓reduceIte, List.append_nil]
        exact linked.librariesOnce scope
      | true =>
        refine List.nodup_append.2
          ⟨linked.librariesOnce scope, List.pairwise_singleton _ _, fun name member _ new => ?_⟩
        rintro rfl
        exact fresh kind (List.mem_singleton.1 new ▸ member)
    · rw [(encloses.lists bare around).2.2]
      exact linked.librariesOnce outer
  · intro outer
    by_cases around : outer = scope
    · rw [around, children, functions, List.filter_append, oldFunctions]
      congr 1
      cases kind : made.isFunction <;>
        simp only [List.filter_cons, List.filter_nil, newFunction, kind,
          Bool.false_eq_true, ↓reduceIte]
    · rw [(encloses.lists bare around).1, (encloses.lists bare around).2.1, oldFunctions]

/-- A discarded scope is linked to none, and the one around it lists it no more. -/
theorem Linked.discardChild (linked : tree.Linked) (apart : scope ≠ child)
    (inside : scope < tree.size)
    (room : child < tree.size) (parent : (tree.get child).parent = some scope)
    (plain : (tree.get child).isLibrary = false) : (tree.discardChild scope child).Linked := by
  have get := get_discardChild apart inside room
  have same : ∀ id, ((tree.discardChild scope child).get id).name = (tree.get id).name ∧
      ((tree.discardChild scope child).get id).isLibrary = (tree.get id).isLibrary ∧
      ((tree.discardChild scope child).get id).isFunction = (tree.get id).isFunction ∧
      ((tree.discardChild scope child).get id).libraries = (tree.get id).libraries := by
    intro id
    rw [get]
    grind
  -- No other scope lists the child, so that it can be taken out of every list.
  have elsewhere : ∀ outer, outer ≠ scope → ∀ listed :
    List Nat, listed ⊆ (tree.get outer).children → listed = listed.filter (· != child) := by
    intro outer other listed known
    refine (List.filter_eq_self.2 fun id member => bne_iff_ne.2 ?_).symm
    rintro rfl
    have linkedTo := (linked.child outer id).1 (known member)
    rw [parent, Option.some.injEq] at linkedTo
    exact other linkedTo.symm
  have functionChildren : ∀ outer, (tree.get outer).functions ⊆ (tree.get outer).children := by
    intro outer id member
    rw [linked.functions] at member
    exact (List.mem_filter.1 member).1
  have lists : ∀ outer, ((tree.discardChild scope child).get outer).children =
        (tree.get outer).children.filter (· != child) ∧
      ((tree.discardChild scope child).get outer).functions =
        (tree.get outer).functions.filter (· != child) := by
    intro outer
    rw [get]
    by_cases at_child : outer = child
    · simp only [at_child, ↓reduceIte]
      exact ⟨elsewhere child (Ne.symm apart) _ (List.Subset.refl _),
        elsewhere child (Ne.symm apart) _ (functionChildren child)⟩
    · by_cases around : outer = scope
      · simp only [around, apart, ↓reduceIte, and_self]
      · simp only [at_child, around, ↓reduceIte]
        exact ⟨elsewhere outer around _ (List.Subset.refl _),
          elsewhere outer around _ (functionChildren outer)⟩
  constructor
  · intro outer id
    rw [(lists outer).1, List.mem_filter, linked.child, bne_iff_ne, get]
    grind
  · intro outer
    rw [(lists outer).1]
    exact (linked.childrenOnce outer).filter _
  · intro outer
    simp only [(lists outer).1, (same _).1, (same _).2.1, (same outer).2.2.2]
    rw [linked.libraries, List.filter_filter]
    congr 1
    refine List.filter_congr fun id _ => ?_
    by_cases same : id = child
    · simp only [same, plain, bne_self_eq_false, Bool.and_false]
    · simp only [bne_iff_ne.2 same, Bool.and_true]
  · intro outer
    rw [(same outer).2.2.2]
    exact linked.librariesOnce outer
  · intro outer
    simp only [(lists outer).1, (lists outer).2, (same _).2.2.1]
    rw [linked.functions, List.filter_filter, List.filter_filter]
    exact List.filter_congr fun id _ => Bool.and_comm _ _

end

variable {sort : List Parameter → Prop} {scope : Nat} {mode : Option (List Variable)}
  {before after : ScopeTree}

/-- When the work in a new scope is done, that scope stands where it was made, with the kind it
had. -/
theorem Encloses.new_after {made : Scope} {middle : ScopeTree}
    (encloses : Encloses scope made before middle) (growth : Grows before.size middle after) :
    (after.get before.size).parent = made.parent ∧
    (after.get before.size).isLibrary = made.isLibrary ∧
      (after.get before.size).isFunction = made.isFunction :=
  ⟨growth.own.parent.trans (congrArg Scope.parent encloses.new :),
    growth.own.isLibrary.trans (congrArg Scope.isLibrary encloses.new :),
    growth.own.isFunction.trans (congrArg Scope.isFunction encloses.new :)⟩

theorem Encloses.name_after {made : Scope} {middle : ScopeTree}
    (encloses : Encloses scope made before middle)
    (growth : Grows before.size middle after) : (after.get before.size).name = made.name :=
  growth.own.name.trans (congrArg Scope.name encloses.new :)

theorem not_mem_libraries {title : String} (fresh : before.hasLibrary scope title = false) :
    title ∉ (before.get scope).libraries := by
  intro member
  rw [hasLibrary, List.contains_iff_mem.2 member] at fresh
  cases fresh

/-- The links agree after every turn. -/
theorem Changes.linked (changes : Changes sort scope mode before after)
    (inside : scope < before.size)
    (ordered : before.Ordered) (linked : before.Linked) : after.Linked := by
  induction changes with
  | refl | opening => exact linked
  | trans first last front back =>
    have one := first.contained inside ordered
    exact back (one.inside inside) one.ordered (front inside ordered linked)
  | declare => exact linked.of_outline (outline_addVariables _ _ _)
  | store => exact linked.of_outline (outline_keysRecorded _ _ _ _)
  | @function scope before after name params fit inner ih =>
    refine ih ?_ (ordered.withFunction inside) ?_
    · rw [size_withFunction]
      exact Nat.lt_succ_self _
    · exact linked.enclosed ordered (encloses_withFunction inside) rfl ⟨rfl, rfl, rfl⟩ nofun
  | noted changes new outline declared ih =>
    exact (ih inside ordered linked).of_outline (outline_modify _ _ _ outline)
  | @loop scope before after inner ih =>
    obtain ⟨order, made, _⟩ := within_ready "foreach"
      [{ Variable.fresh "it" before.size with type := .any }] ordered inside
    have encloses : Encloses scope (Scope.fresh "foreach" (some scope)) before
        (before.within scope "foreach" [{ Variable.fresh "it" before.size with type := .any }]) :=
      encloses_within inside
    have growth := (inner.contained made order).growth
    obtain ⟨parent, plain, _⟩ := encloses.new_after growth
    have room := Nat.lt_of_lt_of_le made growth.size
    exact (ih made order (linked.enclosed ordered encloses rfl ⟨rfl, rfl, rfl⟩ nofun)).discardChild
      (Nat.ne_of_lt inside) (Nat.lt_trans inside room) room parent plain
  | library fresh inner ih =>
    refine ih ?_ (ordered.withLibrary inside) ?_
    · rw [size_withLibrary]
      exact Nat.lt_succ_self _
    · exact linked.enclosed ordered (encloses_withLibrary inside) rfl ⟨rfl, rfl, rfl⟩
        fun _ => not_mem_libraries fresh
  | block blocks inner front back =>
    have one := blocks.contained inside ordered
    exact (back (one.inside inside) one.ordered (front inside ordered linked)).of_outline
      (outline_dropVariablesSince _ _ _)
  | broken blocks inner front back =>
    have one := blocks.contained inside ordered
    exact back (one.inside inside) one.ordered (front inside ordered linked)
  | joined blocks ih => exact (ih inside ordered linked).of_outline (outline_addVariables _ _ _)

/-- What was settled before changes in another scope is settled after them. -/
theorem Settled.grown {size : Nat} (settled : before.Settled size)
    (growth : Grows scope before after)
    (old : scope < size) (later : after.Settled before.size) : after.Settled size := by
  intro id new stays
  by_cases made : before.size ≤ id
  · exact later id made stays
  · have kept := growth.others id (Nat.lt_of_not_le made) (by omega)
    rw [kept.parent] at stays
    rw [kept.isLibrary, kept.isFunction]
    exact settled id new stays

theorem settled_of_size {size : Nat} (tree : ScopeTree) (all : tree.size ≤ size) :
    tree.Settled size := by
  intro id new stays
  rw [get_of_size_le (Nat.le_trans all new)] at stays
  cases stays

/-- Of the scopes made in a new scope none but libraries and functions stays inside another one, so
this holds from the new scope on where it is one of them. -/
theorem Settled.from_new {size : Nat} {tree : ScopeTree} (settled : tree.Settled (size + 1))
    (kind : (tree.get size).parent.isSome →
      (tree.get size).isLibrary = true ∨ (tree.get size).isFunction = true) :
      tree.Settled size := by
  intro id new stays
  by_cases same : id = size
  · subst same
    exact kind stays
  · exact settled id (by omega) stays

/-- What is made and stays inside another scope is the scope of a library or of a function. -/
theorem Changes.settled (changes : Changes sort scope mode before after)
    (inside : scope < before.size) (ordered : before.Ordered) : after.Settled before.size := by
  induction changes with
  | refl | opening => exact settled_of_size _ (Nat.le_refl _)
  | trans first last front back =>
    have one := first.contained inside ordered
    have two := last.contained (one.inside inside) one.ordered
    exact (front inside ordered).grown two.growth inside (back (one.inside inside) one.ordered)
  | declare => exact settled_of_size _ (Nat.le_of_eq (size_addVariables _ _ _))
  | @store scope tree target append =>
    exact settled_of_size _ (Nat.le_of_eq (keysRecorded_kept tree scope target append).1)
  | @function scope before after name params fit inner ih =>
    have made : before.size <
        (before.withFunction scope name (parameterVariables before.size params)).size := by
      rw [size_withFunction]
      exact Nat.lt_succ_self _
    have order : (before.withFunction scope name (parameterVariables before.size params)).Ordered :=
      ordered.withFunction inside
    have settled := ih made order
    rw [size_withFunction] at settled
    exact settled.from_new fun _ =>
      .inr ((encloses_withFunction inside).new_after (inner.contained made order).growth).2.2
  | noted changes new outline declared ih =>
    exact (ih inside ordered).of_outline (outline_modify _ _ _ outline)
  | @loop scope before after inner ih =>
    obtain ⟨order, made, _⟩ := within_ready "foreach"
      [{ Variable.fresh "it" before.size with type := .any }] ordered inside
    have growth := (inner.contained made order).growth
    have room := Nat.lt_of_lt_of_le made growth.size
    have get := get_discardChild (Nat.ne_of_lt inside) (Nat.lt_trans inside room) room
    have settled := ih made order
    rw [size_within] at settled
    intro id new stays
    rw [get] at stays ⊢
    by_cases discarded : id = before.size
    · simp only [discarded, ↓reduceIte] at stays
      cases stays
    · have apart : id ≠ scope := by omega
      simp only [discarded, apart, ↓reduceIte] at stays ⊢
      exact settled id (by omega) stays
  | @library scope before after name fresh inner ih =>
    have made : before.size < (before.withLibrary scope name).size := by
      rw [size_withLibrary]
      exact Nat.lt_succ_self _
    have order : (before.withLibrary scope name).Ordered := ordered.withLibrary inside
    have settled := ih made order
    rw [size_withLibrary] at settled
    exact settled.from_new fun _ =>
      .inl ((encloses_withLibrary inside).new_after (inner.contained made order).growth).2.1
  | block blocks inner front back =>
    have one := blocks.contained inside ordered
    have two := inner.contained (one.inside inside) one.ordered
    exact ((front inside ordered).grown two.growth inside
      (back (one.inside inside) one.ordered)).of_outline (outline_dropVariablesSince _ _ _)
  | broken blocks inner front back =>
    have one := blocks.contained inside ordered
    have two := inner.contained (one.inside inside) one.ordered
    exact (front inside ordered).grown two.growth inside (back (one.inside inside) one.ordered)
  | joined blocks ih => exact (ih inside ordered).of_outline (outline_addVariables _ _ _)

end Treecode.ScopeTree
