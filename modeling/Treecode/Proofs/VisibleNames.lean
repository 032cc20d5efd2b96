import Treecode.Proofs.Included

set_option autoImplicit false

namespace Treecode.Compile

open ScopeTree

variable {setting : Setting} {depth scope : Nat} {start after : Session} {x : String}

theorem sees_assigned (tree : ScopeTree) (inside : scope < tree.size) (name : String)
    (constant : Bool) (value : Expression) :
    (tree.assigned scope name constant value).Sees scope x ↔ tree.Sees scope x ∨ x = name := by
  unfold ScopeTree.assigned
  have listed : (newVariable scope name constant value).scope = scope ∧
      (newVariable scope name constant value).name = name := by
    unfold newVariable
    split <;> exact ⟨rfl, rfl⟩
  split
  · rename_i seen
    constructor
    · exact .inl
    · intro either
      rcases either with known | rfl
      · exact known
      · exact seen
  · rw [declare_eq, listed.1, sees_addVariables inside]
    simp only [Searches.self, List.map_cons, List.map_nil, List.mem_singleton, listed.2, true_and]

theorem calls_assigned (tree : ScopeTree) (name : String) (constant : Bool) (value : Expression) :
    (tree.assigned scope name constant value).Calls scope x ↔ tree.Calls scope x := by
  unfold ScopeTree.assigned
  split
  · exact Iff.rfl
  · rw [declare_eq, calls_addVariables]

theorem sees_afterAssignment (ready : Ready scope start) (target value : Expression)
    (append constant : Bool) :
    (start.afterAssignment scope target value append constant).tree.Sees scope x ↔
      start.tree.Sees scope x ∨ x = target.token.text := by
  obtain ⟨size, kept⟩ := keysRecorded_kept
    (start.tree.assigned scope target.token.text constant value) scope target append
  rw [← sees_assigned start.tree ready.inside target.token.text constant value]
  exact sees_of_kept size kept

theorem calls_afterAssignment (target value : Expression) (append constant : Bool) :
    (start.afterAssignment scope target value append constant).tree.Calls scope x ↔
      start.tree.Calls scope x := by
  obtain ⟨size, kept⟩ := keysRecorded_kept
    (start.tree.assigned scope target.token.text constant value) scope target append
  rw [← calls_assigned start.tree target.token.text constant value]
  exact calls_of_kept size kept

theorem sees_function (ready : Ready scope start) (name : Token) (params : List Parameter) :
    (start.function scope name params).tree.Sees start.tree.size x ↔
      start.tree.Sees scope x ∨ x ∈ params.map (·.name.text) := by
  rw [← names_parameterVariables start.tree.size params]
  exact (function_inside ready.ordered ready.inside).1 x

theorem calls_function (ready : Ready scope start) (name : Token) (params : List Parameter) :
    (start.function scope name params).tree.Calls start.tree.size x ↔
      start.tree.Calls scope x ∨ x = name.text :=
  (function_inside ready.ordered ready.inside).2 x

theorem sees_defined (session : Session) (child : Nat) (definition : Instruction) :
    (session.defined child definition).tree.Sees scope x ↔ session.tree.Sees scope x :=
  sees_of_kept (size_modify _ _ _) (kept_defined session.tree child definition)

theorem calls_defined (session : Session) (child : Nat) (definition : Instruction) :
    (session.defined child definition).tree.Calls scope x ↔ session.tree.Calls scope x :=
  calls_of_kept (size_modify _ _ _) (kept_defined session.tree child definition)

/-- No name of a function's scope is seen around it. -/
theorem sees_define {name : Token} {params : List Parameter} (ready : Ready scope start)
    (inner : Frame start.tree.size (start.function scope name params) after)
    (definition : Instruction) :
    (after.defined start.tree.size definition).tree.Sees scope x ↔ start.tree.Sees scope x := by
  rw [sees_defined]
  exact (function_after ready.ordered ready.inside inner.growth).2.1 x

theorem calls_define {name : Token} {params : List Parameter} (ready : Ready scope start)
    (inner : Frame start.tree.size (start.function scope name params) after)
    (definition : Instruction) :
    (after.defined start.tree.size definition).tree.Calls scope x ↔
      start.tree.Calls scope x ∨ x = name.text := by
  rw [calls_defined]
  exact (function_after ready.ordered ready.inside inner.growth).2.2 x

theorem names_external (session : Session) (child other : Nat) :
    (session.external child).tree.names other = session.tree.names other :=
  congrArg (List.map Variable.name) (get_modify_induct
    (motive := fun old new => new.declared = old.declared) session.tree child
    (fun s => { s with isExternal := true }) other rfl fun _ => rfl)

theorem sees_external {name : Token} {params : List Parameter} (ready : Ready scope start)
    (definition : Instruction) :
    (((start.function scope name params).external start.tree.size).defined start.tree.size
      definition).tree.Sees scope x ↔ start.tree.Sees scope x := by
  have made : Frame start.tree.size (start.function scope name params)
      (start.function scope name params) := .refl _ (ready.function name params).ordered
  rw [sees_defined, ← (function_after ready.ordered ready.inside made.growth).2.1 x]
  exact sees_congr (sameLinks_external _ _) (names_external _ _)

theorem calls_external {name : Token} {params : List Parameter} (ready : Ready scope start)
    (definition : Instruction) :
    (((start.function scope name params).external start.tree.size).defined start.tree.size
      definition).tree.Calls scope x ↔ start.tree.Calls scope x ∨ x = name.text := by
  have made : Frame start.tree.size (start.function scope name params)
      (start.function scope name params) := .refl _ (ready.function name params).ordered
  rw [calls_defined, ← (function_after ready.ordered ready.inside made.growth).2.2 x]
  exact calls_congr (sameLinks_external _ _)
    (functionNames_modify _ start.tree.size (fun s => { s with isExternal := true }) (fun _ => rfl)
      fun _ => rfl)

/-- In a loop the current item is seen too. -/
theorem sees_loop (ready : Ready scope start) :
    (start.loop scope).tree.Sees start.tree.size x ↔ start.tree.Sees scope x ∨ x = "it" := by
  have inside : (start.loop scope).tree.Sees start.tree.size x ↔ start.tree.Sees scope x ∨
      x ∈ [{ Variable.fresh "it" start.tree.size with type := .any }].map (·.name) :=
    sees_within ready.ordered ready.inside
  rw [inside]
  simp only [List.map_cons, List.map_nil, List.mem_singleton]
  exact Iff.rfl

theorem calls_loop (ready : Ready scope start) :
    (start.loop scope).tree.Calls start.tree.size x ↔ start.tree.Calls scope x :=
  calls_within ready.ordered ready.inside

theorem sees_afterLoop (ready : Ready scope start)
    (inner : Frame start.tree.size (start.loop scope) after) :
    (after.withTree (after.tree.discardChild scope start.tree.size)).tree.Sees scope x ↔
      start.tree.Sees scope x := by
  have grown : Grows start.tree.size (start.tree.within scope "foreach"
      [{ Variable.fresh "it" start.tree.size with type := .any }]) after.tree := inner.growth
  exact (loop_after ready.ordered ready.inside grown inner.ordered).2.2.1 x

theorem calls_afterLoop (ready : Ready scope start)
    (inner : Frame start.tree.size (start.loop scope) after) :
    (after.withTree (after.tree.discardChild scope start.tree.size)).tree.Calls scope x ↔
      start.tree.Calls scope x := by
  have grown : Grows start.tree.size (start.tree.within scope "foreach"
      [{ Variable.fresh "it" start.tree.size with type := .any }]) after.tree := inner.growth
  exact (loop_after ready.ordered ready.inside grown inner.ordered).2.2.2 x

theorem sees_inLibrary (ready : Ready scope start) (name : Token) (path file : String) :
    (start.inLibrary scope name path file).tree.Sees start.tree.size x ↔
    start.tree.Sees scope x := by
  have position : (start.inLibrary scope name path file).tree.LibraryIn scope start.tree.size :=
    .withLibrary ready.inside
  rw [position.sees]
  exact sees_withLibrary ready.inside ready.inside

theorem calls_inLibrary (ready : Ready scope start) (name : Token) (path file : String) :
    (start.inLibrary scope name path file).tree.Calls start.tree.size x ↔
      start.tree.Calls scope x := by
  have position : (start.inLibrary scope name path file).tree.LibraryIn scope start.tree.size :=
    .withLibrary ready.inside
  rw [position.calls]
  exact calls_withLibrary ready.ordered ready.inside ready.inside

/-- What a library sees at its end is seen where it is included. -/
theorem sees_library {name : Token} {path file : String} (ready : Ready scope start)
    (inner : Frame start.tree.size (start.inLibrary scope name path file) after) :
    after.tree.Sees scope x ↔ after.tree.Sees start.tree.size x := by
  have position : (start.inLibrary scope name path file).tree.LibraryIn scope start.tree.size :=
    .withLibrary ready.inside
  exact ((position.grows inner.growth).sees x).symm

theorem calls_library {name : Token} {path file : String} (ready : Ready scope start)
    (inner : Frame start.tree.size (start.inLibrary scope name path file) after) :
    after.tree.Calls scope x ↔ after.tree.Calls start.tree.size x := by
  have position : (start.inLibrary scope name path file).tree.LibraryIn scope start.tree.size :=
    .withLibrary ready.inside
  exact ((position.grows inner.growth).calls x).symm

/-- Functions outlive the block that they are defined in. -/
theorem calls_branch (mark : Nat) :
    (after.withTree (after.tree.dropVariablesSince scope mark)).tree.Calls scope x ↔
      after.tree.Calls scope x :=
  calls_modify_declared after.tree scope (·.take mark) scope x

/-- After a block of an `if` or a `switch` what was seen before is seen, and what the libraries hand
on that were included in it. -/
theorem Compiles.sees_branch {job : Job} (compiles : Compiles setting depth scope job start after)
    (branch : job.isBranch) :
    after.tree.Sees scope x ↔ start.tree.Sees scope x ∨
      ∃ library, start.tree.size ≤ library ∧ after.tree.Includes scope library ∧
        after.tree.HandsOn library x := by
  have ready := compiles.ready
  rw [compiles.frame.growth.sees_gain ready.ordered ready.inside, compiles.names_branch branch]
  constructor
  · intro either
    rcases either with seen | ⟨_, listed | gained⟩
    · exact .inl seen
    · exact .inl (sees_iff.2 ⟨scope, Searches.self _ scope, listed⟩)
    · exact .inr gained
  · intro either
    rcases either with seen | gained
    · exact .inl seen
    · exact .inr ⟨Searches.self _ scope, .inr gained⟩

/-- Blocks gather the names that they list, and those gathered before. -/
theorem names_gather (declared taken : List Variable) (name : String) :
    name ∈ (gather declared taken).map (·.name) ↔
      name ∈ declared.map (·.name) ∨ name ∈ taken.map (·.name) := by
  unfold gather
  induction taken generalizing declared with
  | nil => simp
  | cons v rest ih =>
    rw [List.foldl_cons, ih]
    split
    · rename_i known
      obtain ⟨other, member, same⟩ := List.any_eq_true.1 known
      have listed : v.name ∈ declared.map (·.name) :=
        List.mem_map.2 ⟨other, member, eq_of_beq same⟩
      simp only [List.map_cons, List.mem_cons]
      constructor
      · intro either
        rcases either with old | new
        · exact .inl old
        · exact .inr (.inr new)
      · intro either
        rcases either with old | rfl | new
        · exact .inl old
        · exact .inl listed
        · exact .inr new
    · simp only [List.map_append, List.mem_append, List.map_cons, List.map_nil, List.mem_cons,
        List.not_mem_nil, false_or, or_assoc]

theorem sees_given (ready : Ready scope after) (more : List Variable) :
    (after.withTree (after.tree.addVariables scope more)).tree.Sees scope x ↔
      after.tree.Sees scope x ∨ x ∈ more.map (·.name) := by
  show (after.tree.addVariables scope more).Sees scope x ↔ _
  rw [sees_addVariables ready.inside]
  simp only [Searches.self, true_and]

theorem calls_given (more : List Variable) :
    (after.withTree (after.tree.addVariables scope more)).tree.Calls scope x ↔
      after.tree.Calls scope x :=
  calls_addVariables after.tree scope more scope x

end Treecode.Compile
