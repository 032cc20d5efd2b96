import Mathlib.Data.List.Basic
import Treecode.Proofs.Enclosed

set_option autoImplicit false

namespace Treecode.ScopeTree

open Relation

/-- An edit of a tree of scopes. -/
inductive Edit where
  | newChild (parent : Nat) (name : String)
  | discardChild (parent child : Nat)
  | declare (v : Variable)
  | takeVariables (scope mark : Nat)
  | setLibrary (scope : Nat) (isLibrary : Bool)
  | addFunction (scope function : Nat)
  | addLibrary (scope : Nat) (name : String)

namespace Edit

def apply (tree : ScopeTree) : Edit → ScopeTree
  | .newChild parent name => tree.newChild parent name
  | .discardChild parent child => tree.discardChild parent child
  | .declare v => tree.declare v
  | .takeVariables scope mark => tree.dropVariablesSince scope mark
  | .setLibrary scope isLibrary => tree.setLibrary scope isLibrary
  | .addFunction scope function => tree.addFunction scope function
  | .addLibrary scope name => tree.addLibrary scope name

/-- The scopes that an edit is about are there, and it takes no more variables than are listed. -/
def Fits (tree : ScopeTree) : Edit → Prop
  | .newChild parent _ => parent < tree.size
  | .discardChild parent child => parent < tree.size ∧ child < tree.size
  | .declare v => v.scope < tree.size
  | .takeVariables scope mark => scope < tree.size ∧ mark ≤ tree.variableCount scope
  | .setLibrary scope _ | .addLibrary scope _ => scope < tree.size
  | .addFunction scope function => scope < tree.size ∧ function < tree.size

instance (tree : ScopeTree) : (edit : Edit) → Decidable (edit.Fits tree)
  | .newChild _ _ | .declare _ | .setLibrary _ _ | .addLibrary _ _ =>
    inferInstanceAs (Decidable (_ < _))
  | .discardChild _ _ | .takeVariables _ _ | .addFunction _ _ => inferInstanceAs (Decidable (_ ∧ _))

def Faithful (tree : ScopeTree) : Edit → Prop
  | .discardChild parent child => (tree.get child).parent = some parent
  | _ => True

end Edit

/-- A tree that edits lead to, in any number and order; if `faithful`, only such as discard scopes
from the scopes that they stand in. -/
inductive Edited (faithful : Bool) : ScopeTree → Prop
  | initial : Edited faithful .initial
  | edit {tree edit} (edited : Edited faithful tree) (fits : Edit.Fits tree edit)
      (faith : faithful → Edit.Faithful tree edit) : Edited faithful (edit.apply tree)

/-- A scope has a larger number than the scope around it and a smaller one than the scopes in it,
which are there. -/
structure Numbered (tree : ScopeTree) : Prop where
  parent : ∀ id parent, (tree.get id).parent = some parent → parent < id
  child : ∀ id child, child ∈ (tree.get id).children → id < child ∧ child < tree.size

/-- A scope lists as its children the scopes that it is the parent of. -/
def Agreed (tree : ScopeTree) : Prop :=
  ∀ outer id, id ∈ (tree.get outer).children ↔ (tree.get id).parent = some outer

/-- What a scope lists as variables belongs to it. -/
def Owned (tree : ScopeTree) : Prop := ∀ id, ∀ v ∈ (tree.get id).declared, v.scope = id

/-- The way outward from a scope, from parent to parent, up to a scope that has none. -/
inductive Ascends (tree : ScopeTree) : Nat → List Nat → Prop
  | outermost {id} (last : (tree.get id).parent = none) : Ascends tree id [id]
  | outward {id parent rest} (inside : (tree.get id).parent = some parent)
      (way : Ascends tree parent rest) : Ascends tree id (id :: rest)

def librariesIn (tree : ScopeTree) (id : Nat) : List Nat :=
  (tree.get id).children.filter fun child => (tree.get child).isLibrary

/-- The scopes that a search inward comes by, in order: each scope before the libraries in it, as
far as these go. -/
inductive Descends (tree : ScopeTree) : List Nat → List Nat → Prop
  | done : Descends tree [] []
  | inward {id rest inner others} (libraries : Descends tree (tree.librariesIn id) inner)
      (further : Descends tree rest others) : Descends tree (id :: rest) (id :: (inner ++ others))

/-- The scopes that a search inward from a scope comes by. -/
def inward (tree : ScopeTree) (id : Nat) : List Nat :=
  id :: (tree.librariesIn id).flatMap fun child =>
    if _inside : id < child ∧ child < tree.size then tree.inward child else []
  termination_by tree.size - id

/-- The scopes that a lookup from a scope comes by. -/
def sought (tree : ScopeTree) (id : Nat) : List Nat := (tree.chain id).flatMap tree.inward

/-- What a scope and the scopes in it list as variables. -/
def ListedWithin (tree : ScopeTree) (child : Nat) (v : Variable) : Prop :=
  ∃ id, child ∈ tree.chain id ∧ v ∈ (tree.get id).declared

variable {tree before after : ScopeTree} {scope parent child id : Nat} {title name : String}

/-- No scope is made or moved. -/
structure SameFamily (before after : ScopeTree) : Prop where
  size : after.size = before.size
  parent : ∀ id, (after.get id).parent = (before.get id).parent
  children : ∀ id, (after.get id).children = (before.get id).children

theorem sameFamily_modify (tree : ScopeTree) (id : Nat) (change : Scope → Scope)
    (parent : ∀ s, (change s).parent = s.parent)
    (children : ∀ s, (change s).children = s.children) :
    SameFamily tree (tree.modify id change) :=
  ⟨size_modify tree id change,
    fun other => get_modify_induct (motive := fun old new => new.parent = old.parent) tree id
      change other rfl fun _ => parent _,
    fun other => get_modify_induct (motive := fun old new => new.children = old.children) tree id
      change other rfl fun _ => children _⟩

theorem Numbered.of_same (numbered : before.Numbered) (same : SameFamily before after) :
    after.Numbered := by
  constructor
  · intro id parent linked
    rw [same.parent] at linked
    exact numbered.parent id parent linked
  · intro id child member
    rw [same.children] at member
    rw [same.size]
    exact numbered.child id child member

theorem Agreed.of_same (agreed : before.Agreed) (same : SameFamily before after) :
    after.Agreed := by
  intro outer id
  rw [same.children, same.parent]
  exact agreed outer id

/-- Edits other than making and discarding a scope move no scope. -/
theorem Edit.sameFamily (tree : ScopeTree) (edit : Edit) :
    (∃ parent name, edit = .newChild parent name) ∨
    (∃ parent child, edit = .discardChild parent child) ∨
      SameFamily tree (edit.apply tree) := by
  cases edit with
  | newChild parent name => exact .inl ⟨parent, name, rfl⟩
  | discardChild parent child => exact .inr (.inl ⟨parent, child, rfl⟩)
  | _ => exact .inr (.inr (sameFamily_modify tree _ _ (fun _ => rfl) fun _ => rfl))

/-- The outermost scope is all that there is at the start. -/
theorem bare_initial (id : Nat) :
    (initial.get id).children = [] ∧ (initial.get id).parent = none ∧
    (initial.get id).declared = [] := by
  cases id <;> exact ⟨rfl, rfl, rfl⟩

theorem parent_discardChild (tree : ScopeTree) (parent child id : Nat) :
    ((tree.discardChild parent child).get id).parent =
      if id = child then none else (tree.get id).parent := by
  rw [discardChild, get_modify, size_modify]
  split
  · rename_i discarded
    rw [if_pos discarded.1.symm]
  · rename_i other
    have same : ((tree.modify parent fun scope => { scope with
        children := scope.children.filter (· != child)
        functions := scope.functions.filter (· != child) }).get id).parent = (tree.get id).parent :=
      get_modify_induct (motive := fun old new => new.parent = old.parent) tree parent _ id rfl
        fun _ => rfl
    rw [same]
    split
    · rename_i discarded
      have outside : tree.size ≤ id := Nat.le_of_not_lt fun inside => other ⟨discarded.symm, inside⟩
      rw [get_of_size_le outside]
      rfl
    · rfl

theorem children_discardChild (tree : ScopeTree) (parent child id : Nat) :
    ((tree.discardChild parent child).get id).children =
      if id = parent then (tree.get id).children.filter (· != child)
        else (tree.get id).children := by
  have same : ∀ inner : ScopeTree,
    ((inner.modify child fun scope => { scope with parent := none }).get id).children =
      (inner.get id).children := fun inner =>
    get_modify_induct (motive := fun old new => new.children = old.children) inner child _ id rfl
      fun _ => rfl
  rw [discardChild, same, get_modify]
  split
  · rename_i around
    rw [if_pos around.1.symm]
  · rename_i other
    split
    · rename_i around
      have outside : tree.size ≤ id := Nat.le_of_not_lt fun inside => other ⟨around.symm, inside⟩
      rw [get_of_size_le outside]
      rfl
    · rfl

theorem get_discardChild_listed (tree : ScopeTree) (parent child id : Nat) :
    ((tree.discardChild parent child).get id).declared = (tree.get id).declared ∧
      ((tree.discardChild parent child).get id).isLibrary = (tree.get id).isLibrary := by
  have outer := get_modify_induct
    (motive := fun old new => new.declared = old.declared ∧ new.isLibrary = old.isLibrary) tree
      parent
    (fun scope => { scope with
      children := scope.children.filter (· != child)
      functions := scope.functions.filter (· != child) }) id ⟨rfl, rfl⟩ fun _ => ⟨rfl, rfl⟩
  have inner := get_modify_induct
    (motive := fun old new => new.declared = old.declared ∧ new.isLibrary = old.isLibrary)
    (tree.modify parent fun scope => { scope with
      children := scope.children.filter (· != child)
      functions := scope.functions.filter (· != child) }) child
    (fun scope => { scope with parent := none }) id ⟨rfl, rfl⟩ fun _ => ⟨rfl, rfl⟩
  exact ⟨inner.1.trans outer.1, inner.2.trans outer.2⟩

theorem numbered_initial : initial.Numbered := by
  constructor
  · intro id parent linked
    rw [(bare_initial id).2.1] at linked
    cases linked
  · intro id child member
    rw [(bare_initial id).1] at member
    cases member

theorem Numbered.newChild (numbered : tree.Numbered) (inside : parent < tree.size)
    (title : String) : (tree.newChild parent title).Numbered := by
  constructor
  · intro id outer linked
    rw [get_newChild inside] at linked
    split at linked
    · rename_i new
      obtain rfl : parent = outer := Option.some.inj linked
      exact new ▸ inside
    · split at linked
      · rename_i around
        exact around ▸ numbered.parent parent outer linked
      · exact numbered.parent id outer linked
  · intro id child member
    rw [get_newChild inside] at member
    rw [size_newChild]
    split at member
    · cases member
    · split at member
      · rename_i around
        rcases List.mem_append.1 member with old | new
        · have order := numbered.child parent child old
          omega
        · have new := List.mem_singleton.1 new
          omega
      · have order := numbered.child id child member
        omega

/-- To discard a scope only takes links away. -/
theorem Numbered.discardChild (numbered : tree.Numbered) (parent child : Nat) :
    (tree.discardChild parent child).Numbered := by
  constructor
  · intro id outer linked
    rw [parent_discardChild] at linked
    split at linked
    · cases linked
    · exact numbered.parent id outer linked
  · intro id inner member
    rw [children_discardChild] at member
    rw [size_discardChild]
    split at member
    · exact numbered.child id inner (List.mem_filter.1 member).1
    · exact numbered.child id inner member

/-- Whatever edits lead to, its links respect the numbers of the scopes. -/
theorem Edited.numbered {faithful : Bool} (edited : Edited faithful tree) : tree.Numbered := by
  induction edited with
  | initial => exact numbered_initial
  | @edit tree edit _ fits _ ih =>
    rcases edit.sameFamily tree with ⟨parent, name, rfl⟩ | ⟨parent, child, rfl⟩ | same
    · exact ih.newChild fits name
    · exact ih.discardChild parent child
    · exact ih.of_same same

theorem Numbered.chain_eq (numbered : tree.Numbered) (id : Nat) :
    tree.chain id = id :: match (tree.get id).parent with
      | some parent => tree.chain parent
      | none => [] := by
  rw [chain]
  cases linked : (tree.get id).parent with
  | none => rfl
  | some parent => simp only [numbered.parent id parent linked, ↓reduceDIte]

/-- The way outward ends, and the chain of a scope is that way. -/
theorem Numbered.ascends (numbered : tree.Numbered) (id : Nat) :
    tree.Ascends id (tree.chain id) := by
  induction id using Nat.strongRecOn with
  | ind id ih =>
    rw [numbered.chain_eq]
    cases linked : (tree.get id).parent with
    | none => exact .outermost linked
    | some parent => exact .outward linked (ih parent (numbered.parent id parent linked))

theorem Numbered.of_librariesIn (numbered : tree.Numbered) (member : child ∈ tree.librariesIn id) :
    id < child ∧ child < tree.size :=
  numbered.child id child (List.mem_filter.1 member).1

theorem Numbered.inward_eq (numbered : tree.Numbered) (id : Nat) :
    tree.inward id = id :: (tree.librariesIn id).flatMap tree.inward := by
  rw [inward]
  refine congrArg (id :: ·) (List.flatMap_congr ?_)
  intro child member
  rw [dif_pos (numbered.of_librariesIn member)]

/-- Numbers grow inward, so what holds of a scope whenever it holds of the libraries in it holds of
every scope. -/
theorem Numbered.induct {motive : Nat → Prop} (numbered : tree.Numbered)
    (step : ∀ id, (∀ child ∈ tree.librariesIn id, motive child) → motive id) (id : Nat) :
    motive id := by
  induction above : tree.size - id using Nat.strongRecOn generalizing id with
  | ind count ih =>
    apply step
    intro child member
    have order := numbered.of_librariesIn member
    exact ih (tree.size - child) (by omega) child rfl

/-- A search inward ends, and comes by the scopes listed for it. -/
theorem Numbered.descends (numbered : tree.Numbered) (id : Nat) :
    tree.Descends [id] (tree.inward id) := by
  have further : ∀ {rest others}, tree.Descends rest others →
      tree.Descends (id :: rest) (tree.inward id ++ others) := by
    refine numbered.induct (motive := fun id => ∀ {rest others}, tree.Descends rest others →
      tree.Descends (id :: rest) (tree.inward id ++ others)) ?_ id
    intro id ih rest others more
    have libraries : ∀ among : List Nat, among ⊆ tree.librariesIn id →
        tree.Descends among (among.flatMap tree.inward) := by
      intro among
      induction among with
      | nil => exact fun _ => .done
      | cons child among each =>
        intro known
        have known := List.cons_subset.1 known
        exact ih child known.1 (each known.2)
    rw [numbered.inward_eq]
    exact .inward (libraries _ (List.Subset.refl _)) more
  have whole := further .done
  rwa [List.append_nil] at whole

theorem Numbered.visibleAt_eq {α : Type} (numbered : tree.Numbered) (probe : Scope → Option α)
    (id : Nat) :
    tree.visibleAt probe id = (tree.inward id).findSome? fun scope => probe (tree.get scope) := by
  refine numbered.induct (motive := fun id =>
    tree.visibleAt probe id = (tree.inward id).findSome? fun scope => probe (tree.get scope)) ?_ id
  intro id ih
  have unguarded : ((tree.get id).children.findSome? fun child =>
      if _inward : id < child ∧ child < tree.size then
        if (tree.get child).isLibrary then tree.visibleAt probe child else none
      else none) = (tree.librariesIn id).findSome? (tree.visibleAt probe) := by
    rw [← List.head?_filterMap, ← List.head?_filterMap, librariesIn, List.filterMap_filter]
    refine congrArg List.head? (List.filterMap_congr ?_)
    intro child member
    rw [dif_pos (numbered.child id child member)]
  have libraries : (tree.librariesIn id).findSome? (tree.visibleAt probe) =
      ((tree.librariesIn id).flatMap tree.inward).findSome? fun scope =>
        probe (tree.get scope) := by
    rw [← List.head?_filterMap, ← List.head?_filterMap, List.filterMap_flatMap, List.head?_flatMap,
      ← List.head?_filterMap]
    refine congrArg List.head? (List.filterMap_congr ?_)
    intro child member
    rw [ih child member, List.head?_filterMap]
  rw [visibleAt, unguarded, libraries, numbered.inward_eq, List.findSome?_cons]
  cases probe (tree.get id) <;> rfl

/-- A lookup finds what the first of the scopes that it comes by has. -/
theorem Numbered.visible_eq {α : Type} (numbered : tree.Numbered) (probe : Scope → Option α)
    (id : Nat) :
    tree.visible probe id = (tree.sought id).findSome? fun scope => probe (tree.get scope) := by
  have each : tree.visibleAt probe =
      fun id => (((tree.inward id).filterMap fun scope => probe (tree.get scope)).head?) := by
    funext id
    rw [numbered.visibleAt_eq, List.head?_filterMap]
  rw [visible, sought, each, ← List.head?_flatMap, ← List.head?_filterMap, List.filterMap_flatMap]

theorem agreed_initial : initial.Agreed := by
  intro outer id
  rw [(bare_initial outer).1, (bare_initial id).2.1]
  exact iff_of_false List.not_mem_nil nofun

/-- A new scope has no children yet, and is one of the scope that it is made in. -/
theorem Agreed.newChild (agreed : tree.Agreed) (numbered : tree.Numbered)
    (inside : parent < tree.size) (title : String) : (tree.newChild parent title).Agreed := by
  intro outer id
  have unlisted : ∀ around, tree.size ∉ (tree.get around).children := fun around member =>
    Nat.lt_irrefl _ (numbered.child around _ member).2
  have unlinked : (tree.get id).parent ≠ some tree.size := by
    intro linked
    have member := (agreed tree.size id).2 linked
    have order := numbered.child tree.size id member
    omega
  have parents : ((tree.newChild parent title).get id).parent =
      if id = tree.size then some parent else (tree.get id).parent := by
    rw [get_newChild inside]
    split
    · rfl
    · split
      · rename_i around
        exact around ▸ rfl
      · rfl
  rw [parents, get_newChild inside]
  by_cases new : outer = tree.size
  · rw [if_pos new]
    refine iff_of_false List.not_mem_nil ?_
    split
    · intro linked
      have linked := Option.some.inj linked
      omega
    · exact new ▸ unlinked
  · rw [if_neg new]
    by_cases around : outer = parent
    · subst around
      rw [if_pos rfl, List.mem_append, List.mem_singleton]
      split
      · rename_i last
        exact iff_of_true (.inr last) rfl
      · rename_i old
        exact (or_iff_left old).trans (agreed outer id)
    · rw [if_neg around]
      split
      · rename_i last
        exact iff_of_false (last ▸ unlisted outer) fun linked =>
          around (Option.some.inj linked).symm
      · exact agreed outer id

/-- Both ways of keeping the link to a scope go when it is discarded from where it stands. -/
theorem Agreed.discardChild (agreed : tree.Agreed)
    (linked : (tree.get child).parent = some parent) : (tree.discardChild parent child).Agreed := by
  intro outer id
  rw [parent_discardChild, children_discardChild]
  by_cases discarded : id = child
  · subst discarded
    rw [if_pos rfl]
    refine iff_of_false ?_ nofun
    split
    · intro member
      exact bne_iff_ne.1 (List.mem_filter.1 member).2 rfl
    · rename_i other
      intro member
      exact other (Option.some.inj (((agreed outer id).1 member).symm.trans linked))
  · rw [if_neg discarded]
    split
    · rw [List.mem_filter, and_iff_left (bne_iff_ne.2 discarded)]
      exact agreed outer id
    · exact agreed outer id

theorem Edited.agreed (edited : Edited true tree) : tree.Agreed := by
  induction edited with
  | initial => exact agreed_initial
  | @edit tree edit edited fits faith ih =>
    rcases edit.sameFamily tree with ⟨parent, name, rfl⟩ | ⟨parent, child, rfl⟩ | same
    · exact ih.newChild edited.numbered fits name
    · exact ih.discardChild (faith rfl)
    · exact ih.of_same same

theorem Owned.modify (owned : tree.Owned) (id : Nat) (change : Scope → Scope)
    (listed : ∀ v ∈ (change (tree.get id)).declared, v ∈ (tree.get id).declared ∨ v.scope = id) :
    (tree.modify id change).Owned := by
  intro other v member
  rw [get_modify] at member
  split at member
  · rename_i here
    obtain rfl := here.1
    exact (listed v member).elim (owned id v) fun its => its
  · exact owned other v member

theorem Owned.edit (owned : tree.Owned) {edit : Edit} (fits : edit.Fits tree) :
    (edit.apply tree).Owned := by
  cases edit with
  | newChild parent name =>
    intro id v member
    rw [Edit.apply, get_newChild fits] at member
    split at member
    · cases member
    · split at member
      · rename_i around
        exact around ▸ owned parent v member
      · exact owned id v member
  | discardChild parent child =>
    intro id v member
    rw [Edit.apply, (get_discardChild_listed tree parent child id).1] at member
    exact owned id v member
  | declare made =>
    refine owned.modify _ _ fun v member => ?_
    exact (List.mem_append.1 member).imp_right fun last =>
      congrArg Variable.scope (List.mem_singleton.1 last)
  | takeVariables scope mark =>
    exact owned.modify _ _ fun v member => .inl (List.mem_of_mem_take member)
  | setLibrary | addFunction | addLibrary => exact owned.modify _ _ fun v member => .inl member

theorem Edited.owned {faithful : Bool} (edited : Edited faithful tree) : tree.Owned := by
  induction edited with
  | initial =>
    intro id v member
    rw [(bare_initial id).2.2] at member
    cases member
  | edit _ fits _ ih => exact ih.edit fits

theorem Numbered.mem_chain_iff (numbered : tree.Numbered) :
    child ∈ tree.chain id ↔ id = child ∨ ∃ parent, (tree.get id).parent = some parent ∧
      child ∈ tree.chain parent := by
  rw [numbered.chain_eq, List.mem_cons, eq_comm]
  cases (tree.get id).parent with
  | none => simp only [List.not_mem_nil, reduceCtorEq, false_and, exists_false]
  | some parent => simp only [Option.some.injEq, exists_eq_left']

/-- A search inward from a scope that stands in another comes by scopes that stand in it only. -/
theorem Numbered.inward_within (numbered : tree.Numbered) (agreed : tree.Agreed) (id : Nat) :
    child ∈ tree.chain id → ∀ other ∈ tree.inward id, child ∈ tree.chain other := by
  refine numbered.induct (motive := fun id =>
    child ∈ tree.chain id → ∀ other ∈ tree.inward id, child ∈ tree.chain other) ?_ id
  intro id ih within other member
  rw [numbered.inward_eq, List.mem_cons, List.mem_flatMap] at member
  rcases member with rfl | ⟨library, listed, member⟩
  · exact within
  · have linked := (agreed id library).1 (List.mem_filter.1 listed).1
    exact ih library listed (numbered.mem_chain_iff.2 (.inr ⟨id, linked, within⟩)) other member

section Discarded

variable (numbered : tree.Numbered) (agreed : tree.Agreed)
    (linked : (tree.get child).parent = some parent)
include numbered

/-- The way outward from a scope outside a discarded one stays as it is. -/
theorem chain_discardChild (id : Nat) (outside : child ∉ tree.chain id) :
    (tree.discardChild parent child).chain id = tree.chain id ∧ ∀ outer ∈ tree.chain id,
    child ∉ tree.chain outer := by
  induction id using Nat.strongRecOn with
  | ind id ih =>
    obtain ⟨apart, around⟩ := not_or.1 (mt numbered.mem_chain_iff.2 outside)
    rw [(numbered.discardChild parent child).chain_eq, parent_discardChild, if_neg apart]
    cases inside : (tree.get id).parent with
    | none =>
      have only : tree.chain id = [id] := by rw [numbered.chain_eq, inside]
      rw [only]
      exact ⟨rfl, fun outer member => List.mem_singleton.1 member ▸ outside⟩
    | some outer =>
      have whole : tree.chain id = id :: tree.chain outer := by rw [numbered.chain_eq, inside]
      have before := ih outer (numbered.parent id outer inside) fun member =>
        around ⟨outer, inside, member⟩
      rw [whole]
      refine ⟨congrArg (id :: ·) before.1, fun other member => ?_⟩
      rcases List.mem_cons.1 member with rfl | further
      · exact outside
      · exact before.2 other further

include agreed linked

omit numbered in
theorem children_discarded (id : Nat) :
    ((tree.discardChild parent child).get id).children = (tree.get id).children.filter
    (· != child) := by
  rw [children_discardChild]
  split
  · rfl
  · rename_i other
    refine (List.filter_eq_self.2 fun inner member => bne_iff_ne.2 ?_).symm
    rintro rfl
    exact other (Option.some.inj (((agreed id inner).1 member).symm.trans linked))

/-- Of the libraries in a scope outside a discarded one, the discarded one alone is gone. -/
theorem librariesIn_discardChild (outside : child ∉ tree.chain id) :
    (tree.discardChild parent child).librariesIn id =
      (tree.librariesIn id).filter fun library => child ∉ tree.chain library := by
  rw [librariesIn, librariesIn, children_discarded agreed linked, List.filter_filter,
    List.filter_filter]
  apply List.filter_congr
  intro library member
  have apart : child ∉ tree.chain library ↔ library ≠ child := by
    rw [numbered.mem_chain_iff, not_or, and_iff_left]
    rintro ⟨outer, inside, within⟩
    exact outside (Option.some.inj (((agreed id library).1 member).symm.trans inside) ▸ within)
  rw [(get_discardChild_listed tree parent child library).2, Bool.and_comm,
    decide_eq_decide.2 apart, bne, beq_eq_decide, decide_not]

/-- A search inward from a scope outside a discarded one passes over the scopes that went with
it. -/
theorem inward_discardChild (id : Nat) : child ∉ tree.chain id →
    (tree.discardChild parent child).inward id = (tree.inward id).filter fun other =>
    child ∉ tree.chain other := by
  refine numbered.induct (motive := fun id => child ∉ tree.chain id →
    (tree.discardChild parent child).inward id = (tree.inward id).filter fun other =>
      child ∉ tree.chain other) ?_ id
  intro id ih outside
  rw [(numbered.discardChild parent child).inward_eq,
    librariesIn_discardChild numbered agreed linked outside,
    numbered.inward_eq, List.filter_cons, if_pos (decide_eq_true outside), List.filter_flatMap]
  refine congrArg (id :: ·) ?_
  -- A library that went takes along all that is found in it; any other is searched as the
  -- hypothesis says.
  generalize tree.librariesIn id = libraries at ih ⊢
  induction libraries with
  | nil => rfl
  | cons library rest each =>
    have rest_same := each fun other member => ih other (List.mem_cons_of_mem _ member)
    rw [List.flatMap_cons]
    by_cases within : child ∈ tree.chain library
    · have nothing : ((tree.inward library).filter fun other => child ∉ tree.chain other) = [] :=
        List.filter_eq_nil_iff.2 fun other member =>
          by simpa using numbered.inward_within agreed library within other member
      rw [List.filter_cons, if_neg (by simpa using within), nothing, List.nil_append, rest_same]
    · rw [List.filter_cons, if_pos (decide_eq_true within), List.flatMap_cons, rest_same,
        ih library List.mem_cons_self within]

/-- A lookup from a scope outside a discarded one passes over the scopes that went with it, and
otherwise comes by the same scopes in the same order. -/
theorem sought_discardChild (outside : child ∉ tree.chain id) :
    (tree.discardChild parent child).sought id = (tree.sought id).filter fun other =>
    child ∉ tree.chain other := by
  obtain ⟨same, around⟩ := chain_discardChild numbered id outside
  rw [sought, sought, same, List.filter_flatMap]
  apply List.flatMap_congr
  intro outer member
  exact inward_discardChild numbered agreed linked outer (around outer member)

end Discarded

theorem Numbered.findVariable_eq (numbered : tree.Numbered) (id : Nat) (name : String) :
    tree.findVariable id name = (tree.sought id).findSome? fun scope =>
      (tree.get scope).named? name :=
  numbered.visible_eq (·.named? name) id

/-- Leaving out what holds no result that is first leaves the first result. -/
theorem findSome?_filter {α β : Type} (keep : α → Bool) (probe : α → Option β) (l : List α)
    (first : ∀ front a back b, l = front ++ a :: back → probe a = some b →
      (∀ x ∈ front, probe x = none) →
      keep a = true) : (l.filter keep).findSome? probe = l.findSome? probe := by
  cases found : l.findSome? probe with
  | none =>
    rw [List.findSome?_eq_none_iff] at found ⊢
    exact fun a member => found a (List.mem_filter.1 member).1
  | some b =>
    obtain ⟨front, a, back, rfl, here, before⟩ := List.findSome?_eq_some_iff.1 found
    rw [List.findSome?_eq_some_iff]
    refine ⟨front.filter keep, a, back.filter keep, ?_, here,
      fun x member => before x (List.mem_filter.1 member).1⟩
    rw [List.filter_append, List.filter_cons_of_pos (first front a back b rfl here before)]

/-- From outside a discarded scope, a lookup finds nothing that is listed in it, and where it found
nothing that is listed in it, it finds what it found. -/
theorem findVariable_discardChild (numbered : tree.Numbered) (agreed : tree.Agreed)
    (owned : tree.Owned)
    (linked : (tree.get child).parent = some parent) (outside : child ∉ tree.chain id)
    (name : String) :
    (∀ v, (tree.discardChild parent child).findVariable id name = some v →
      ¬tree.ListedWithin child v) ∧
      ((∀ v, tree.findVariable id name = some v → ¬tree.ListedWithin child v) →
        (tree.discardChild parent child).findVariable id name = tree.findVariable id name) := by
  have listed : ∀ {scope v}, (tree.get scope).named? name = some v →
      v ∈ (tree.get scope).declared :=
    fun found => List.mem_of_find?_eq_some found
  have after : (tree.discardChild parent child).findVariable id name =
      ((tree.sought id).filter fun other => child ∉ tree.chain other).findSome? fun scope =>
        (tree.get scope).named? name := by
    rw [(numbered.discardChild parent child).findVariable_eq,
      sought_discardChild numbered agreed linked outside]
    refine congrArg (List.findSome? · _) (funext fun scope => ?_)
    rw [Scope.named?, (get_discardChild_listed tree parent child scope).1, Scope.named?]
  rw [after, numbered.findVariable_eq]
  constructor
  · rintro v found ⟨within, inside, member⟩
    obtain ⟨scope, searched, here⟩ := List.exists_of_findSome?_eq_some found
    have one : within = scope := (owned within v member).symm.trans (owned scope v (listed here))
    have kept := (List.mem_filter.1 searched).2
    exact of_decide_eq_true kept (one ▸ inside)
  · intro elsewhere
    apply findSome?_filter
    intro front scope back v whole here before
    have found : (tree.sought id).findSome? (fun scope => (tree.get scope).named? name) = some v :=
      List.findSome?_eq_some_iff.2 ⟨front, scope, back, whole, here, before⟩
    exact decide_eq_true fun inside => elsewhere v found ⟨scope, inside, listed here⟩

/-- Whatever edits lead to: the links respect the numbers and variables stand where they belong. So
the way outward and the search inward end, from every scope, and a lookup finds what the first of
the scopes on its way has. If scopes were discarded from the scopes that they stand in alone, a
scope lists as children those that it is the parent of, and from outside a scope that is discarded
next, lookups find nothing in it and elsewhere what they found. -/
theorem edited_lookups {faithful : Bool} (edited : Edited faithful tree) :
    tree.Numbered ∧ tree.Owned ∧
      (∀ id, tree.Ascends id (tree.chain id) ∧ tree.Descends [id] (tree.inward id) ∧
        ∀ (α : Type) (probe : Scope → Option α),
          tree.visibleAt probe id =
            (tree.inward id).findSome? (fun scope => probe (tree.get scope)) ∧
          tree.visible probe id = (tree.sought id).findSome? fun scope => probe (tree.get scope)) ∧
      (faithful = true → tree.Agreed ∧
        ∀ parent child, (tree.get child).parent = some parent → ∀ id, child ∉ tree.chain id →
          ∀ name,
          (∀ v, (tree.discardChild parent child).findVariable id name = some v →
            ¬tree.ListedWithin child v) ∧
          ((∀ v, tree.findVariable id name = some v → ¬tree.ListedWithin child v) →
            (tree.discardChild parent child).findVariable id name =
              tree.findVariable id name)) := by
  have numbered := edited.numbered
  refine ⟨numbered, edited.owned, fun id => ⟨numbered.ascends id, numbered.descends id,
    fun α probe => ⟨numbered.visibleAt_eq probe id, numbered.visible_eq probe id⟩⟩, ?_⟩
  rintro rfl
  exact ⟨edited.agreed, fun parent child linked id outside name =>
    findVariable_discardChild numbered edited.agreed edited.owned linked outside name⟩

/-- A library that lists a name, in an outermost scope that lists another. -/
def shelf : ScopeTree :=
  (((initial.newChild root "util").setLibrary 1 true).declare (.fresh "pi" 1)).declare
    (.fresh "x" root)

/-- The name in the library is found until the library is discarded, the other one before and
after. -/
theorem edited_lookups_shelf :
    (∃ v, shelf.findVariable root "pi" = some v) ∧ (shelf.get 1).parent = some root ∧
      (∀ v, (shelf.discardChild root 1).findVariable root "pi" = some v → ¬shelf.ListedWithin 1 v) ∧
      (shelf.discardChild root 1).findVariable root "x" = shelf.findVariable root "x" := by
  have made : Edited true (Edit.apply _ (.newChild root "util")) :=
    .edit .initial (by decide) fun _ => trivial
  have marked : Edited true (Edit.apply _ (.setLibrary 1 true)) :=
    .edit made (by decide) fun _ => trivial
  have listed : Edited true (Edit.apply _ (.declare (.fresh "pi" 1))) :=
    .edit marked (by decide) fun _ => trivial
  have edited : Edited true (Edit.apply _ (.declare (.fresh "x" root))) :=
    .edit listed (by decide) fun _ => trivial
  obtain ⟨_, _, _, faithful⟩ := edited_lookups edited
  have only : shelf.chain root = [root] := by rw [chain]; rfl
  have outside : 1 ∉ shelf.chain root := only ▸ by decide
  have discarded := (faithful rfl).2 root 1 rfl root outside
  have pi : shelf.findVariable root "pi" = some (.fresh "pi" 1) := by
    have children : (shelf.get root).children = [1] := rfl
    have inner : shelf.visibleAt (·.named? "pi") 1 = some (.fresh "pi" 1) := by rw [visibleAt]; rfl
    rw [findVariable, visible, only, List.findSome?_singleton, visibleAt, children,
      List.findSome?_singleton,
      dif_pos (by decide), if_pos (show (shelf.get 1).isLibrary = true from rfl), inner]
    rfl
  have x : shelf.findVariable root "x" = some (.fresh "x" root) := by
    rw [findVariable, visible, only, List.findSome?_singleton, visibleAt]
    rfl
  refine ⟨⟨_, pi⟩, rfl, (discarded "pi").1, (discarded "x").2 ?_⟩
  rintro v found ⟨id, inside, listed⟩
  obtain rfl : _ = v := Option.some.inj (x.symm.trans found)
  obtain rfl : root = id := edited.owned id _ listed
  exact outside inside

end Treecode.ScopeTree
