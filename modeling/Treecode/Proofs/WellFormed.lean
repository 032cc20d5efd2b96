import Treecode.Proofs.Outcomes
import Treecode.Proofs.Reserved

set_option autoImplicit false

namespace Treecode

namespace ScopeTree

open Relation

/-- A scope is found by going inward from the outermost one, child by child. -/
def Reachable (tree : ScopeTree) : Nat → Prop :=
  ReflTransGen (fun outer child => child ∈ (tree.get outer).children) root

/-- Scopes that are well formed: their links agree, all that stand inside the outermost one are
libraries and functions, variables are sound, and a change of what a name means reaches the very
variable that a lookup finds. -/
structure WellFormed (tree : ScopeTree) : Prop where
  linked : tree.Linked
  settled : ∀ id, tree.Reachable id → id ≠ root → (tree.get id).isLibrary = true ∨
    (tree.get id).isFunction = true
  sound : tree.Sound
  resolved : ∀ id name change, tree.updateVariable id name change =
    (tree.findVariable id name).map fun v =>
    (change v, tree.modify v.scope (·.replaceVariable name (change v)))

theorem linked_initial : initial.Linked := by
  have bare : ∀ id, (initial.get id).children = [] ∧ (initial.get id).parent = none ∧
      (initial.get id).functions = [] ∧ (initial.get id).libraries = [] := by
    intro id
    rw [Compile.get_initial]
    split <;> exact ⟨rfl, rfl, rfl, rfl⟩
  constructor
  · intro outer id
    simp only [(bare outer).1, (bare id).2.1, List.not_mem_nil, reduceCtorEq]
  · intro outer
    simp only [(bare outer).1, List.nodup_nil]
  · intro outer
    simp only [(bare outer).1, (bare outer).2.2.2, List.filter_nil, List.map_nil]
  · intro outer
    simp only [(bare outer).2.2.2, List.nodup_nil]
  · intro outer
    simp only [(bare outer).1, (bare outer).2.2.1, List.filter_nil]

theorem sound_initial : initial.Sound := by
  intro id v member
  rw [Compile.get_initial] at member
  split at member <;> cases member

/-- What holds of the scopes that a compilation starts with. -/
theorem linked_reservedTree (reserved : List String) : (Compile.reservedTree reserved).Linked := by
  rw [Compile.reservedTree_eq]
  exact linked_initial.of_outline (outline_addVariables _ _ _)

theorem sound_reservedTree (reserved : List String) : (Compile.reservedTree reserved).Sound := by
  rw [Compile.reservedTree_eq]
  refine sound_initial.addVariables fun v member => ?_
  obtain ⟨name, _, rfl⟩ := List.mem_map.1 member
  exact .of_keyless rfl rfl

theorem distinct_reservedTree {reserved : List String}
    (once : (Compile.reservedNames reserved).Nodup) : (Compile.reservedTree reserved).Distinct := by
  have bare : initial.Distinct := fun id => by
    rw [Compile.names_initial]
    exact List.nodup_nil
  rw [Compile.reservedTree_eq]
  refine bare.addVariables Nat.one_pos ?_
  rw [Compile.names_initial, List.map_map]
  simpa [Function.comp_def, Variable.fresh] using once

end ScopeTree

namespace Compile

open Step ScopeTree Relation

variable {setting : Setting} {sort : List Parameter → Prop} {move : Position → Position}

/-- What comes of the statements of a program in fresh scopes. -/
theorem outcome_begin {source : Program}
    (still : Statement.allMoved move source.statements = source.statements)
    (fits : AllFit setting sort source) (reserved : List String) :
    Outcome setting sort move ScopeTree.root (Session.begin reserved source.file) (fun _ => none)
      (statements (library setting setting.depth) ScopeTree.root source.statements
        (Session.begin reserved source.file)) := by
  have proper : Proper setting sort move (library setting setting.depth)
      (Statement.allParameterLists source.statements)
          (Statement.allIncluded source.statements) := by
    refine ⟨fits source .refl, fun name member still scope origin => ?_⟩
    refine turns_library _ move name still (fun program loads used uses => ?_) scope origin
    exact fits used (.head ⟨name, member, loads⟩ uses)
  exact turns_statements source.statements still proper ScopeTree.root _ _ (.refl (ready_begin _ _))

/-- A session that turns in fresh scopes lead to is what a compilation leaves, whatever it
yields. -/
theorem turned_program {source : Program} (fits : AllFit setting sort source)
    (reserved : List String) (session : Session) :
    Changes sort ScopeTree.root none (reservedTree reserved)
      (program setting source reserved session).2.tree ∧
      (program setting source reserved session).2.file = session.file ∧
      (program setting source reserved session).2.including = [] := by
  have still : Statement.allMoved id source.statements = source.statements :=
    Statement.allMoved_id _
  have outcome := outcome_begin still fits reserved
  rw [program_apply_begin]
  cases ran : statements (library setting setting.depth) ScopeTree.root source.statements
      (Session.begin reserved source.file) with
  | mk result after =>
    rw [ran] at outcome
    cases result with
    | ok code => exact ⟨outcome.changes, rfl, outcome.including⟩
    | error error => exact ⟨outcome.1.changes, rfl, outcome.1.including⟩

/-- The scopes after a compilation are well formed, whether it succeeds or fails. If the reserved
names are distinct, and so are the parameters of each function in the program and in the libraries
that it uses, then no scope lists two variables of one name. -/
theorem program_wellFormed (setting : Setting) (source : Program) (reserved : List String)
    (session : Session) :
    (program setting source reserved session).2.tree.WellFormed ∧
      ((reservedNames reserved).Nodup →
        (∀ used, Uses setting source used → ∀ params ∈ Statement.allParameterLists used.statements,
          (params.map (·.name.text)).Nodup) →
        ∀ id, ((program setting source reserved session).2.tree.names id).Nodup) := by
  -- The sort is that of all parameters if there are functions that name one twice.
  let sort : List Parameter → Prop := fun params =>
    (∀ used, Uses setting source used → ∀ params ∈ Statement.allParameterLists used.statements,
      (params.map (·.name.text)).Nodup) → (params.map (·.name.text)).Nodup
  have fits : AllFit setting sort source := fun used uses params member all =>
    all used uses params member
  obtain ⟨changes, _, _⟩ := turned_program fits reserved session
  have inside : ScopeTree.root < (reservedTree reserved).size := by
    rw [size_reservedTree]
    exact Nat.one_pos
  have ordered := ordered_reservedTree reserved
  have linked := changes.linked inside ordered (linked_reservedTree reserved)
  have sound := (changes.sound inside ordered (sound_reservedTree reserved)).1
  refine ⟨⟨linked, ?_, sound, sound.updateVariable⟩, ?_⟩
  · intro id reached other
    have settled := changes.settled inside ordered
    rw [size_reservedTree] at settled
    rcases ReflTransGen.cases_tail reached with same | ⟨outer, _, listed⟩
    · exact absurd same other
    · have parent := (linked.child outer id).1 listed
      exact settled id (Nat.one_le_iff_ne_zero.2 other) (Option.isSome_iff_exists.2 ⟨outer, parent⟩)
  · intro once all
    exact (changes.distinct (fun params fit => fit all) inside ordered
      (distinct_reservedTree once)).1

/-- A function with two parameters in which a loop over items calls what is not there. -/
theorem program_wellFormed_failing :
    ∃ source, (program ⟨.empty, []⟩ source [" x ", "y"] .initial).1 =
        .error (.rejected ⟨"main.mcl", 1, 20⟩ (.unknownFunction "g")) ∧
      (program ⟨.empty, []⟩ source [" x ", "y"] .initial).2.tree.WellFormed ∧
      ∀ id, ((program ⟨.empty, []⟩ source [" x ", "y"] .initial).2.tree.names id).Nodup := by
  -- The script is f=>(a,b){foreach a{g();}}.
  let source : Program := ⟨"main.mcl",
    [.define ⟨.identifier, some "f", ⟨1, 1, 0⟩⟩
      [⟨⟨.identifier, some "a", ⟨1, 5, 4⟩⟩, .any⟩, ⟨⟨.identifier, some "b", ⟨1, 7, 6⟩⟩, .any⟩] .nil
      (.block (.mk ⟨.leftBrace, some "\x7b", ⟨1, 9, 8⟩⟩
        [.foreach ⟨.foreachStatement, some "foreach", ⟨1, 10, 9⟩⟩
          (.plain ⟨.identifier, some "a", ⟨1, 18, 17⟩⟩)
          (.mk ⟨.leftBrace, some "\x7b", ⟨1, 19, 18⟩⟩
            [.call ⟨.identifier, some "g", ⟨1, 20, 19⟩⟩ []])]))]⟩
  obtain ⟨wellFormed, distinct⟩ := program_wellFormed ⟨.empty, []⟩ source [" x ", "y"] .initial
  refine ⟨source, by cbv, wellFormed, distinct (by cbv; decide) fun used uses params member => ?_⟩
  obtain rfl := uses.eq rfl
  obtain rfl : params = _ := List.mem_singleton.1 member
  decide

end Compile

end Treecode
