import Treecode.Proofs.Derivation

set_option autoImplicit false

namespace Treecode

namespace ScopeTree

variable {before middle after : ScopeTree} {scope : Nat}

/-- A change to a scope that was made meanwhile is no change to those that were there. -/
theorem Grows.modify_new (growth : Grows scope before middle) (inside : scope < before.size)
    {child : Nat} (new : before.size ≤ child) (change : Scope → Scope) :
    Grows scope before (middle.modify child change) := by
  have same : ∀ id < before.size, (middle.modify child change).get id = middle.get id := by
    intro id bound
    exact get_modify_of_ne middle change (by omega)
  refine ⟨?_, ?_, ?_, ?_⟩
  · rw [size_modify]
    exact growth.size
  · intro id bound apart
    rw [same id bound]
    exact growth.others id bound apart
  · rw [same scope inside]
    exact growth.own
  · intro inner member old
    rw [same scope inside] at member
    exact growth.children inner member old

theorem Grows.assigned (tree : ScopeTree) (scope : Nat) (name : String) (constant : Bool)
    (value : Expression) : Grows scope tree (tree.assigned scope name constant value) := by
  unfold ScopeTree.assigned
  split
  · exact .refl scope tree
  · have listed : (Compile.newVariable scope name constant value).scope = scope := by
      unfold Compile.newVariable
      split <;> rfl
    rw [declare_eq, listed]
    exact .addVariables tree scope _

@[simp] theorem size_assigned (tree : ScopeTree) (scope : Nat) (name : String) (constant : Bool)
    (value : Expression) : (tree.assigned scope name constant value).size = tree.size := by
  unfold ScopeTree.assigned
  split
  · rfl
  · exact size_modify _ _ _

theorem Ordered.assigned {tree : ScopeTree} (ordered : tree.Ordered) (scope : Nat) (name : String)
    (constant : Bool) (value : Expression) : (tree.assigned scope name constant value).Ordered := by
  unfold ScopeTree.assigned
  split
  · exact ordered
  · exact ordered.addVariables _ _

theorem variableCount_eq (tree : ScopeTree) (scope : Nat) :
    tree.variableCount scope = (tree.names scope).length := by
  unfold ScopeTree.variableCount names
  rw [List.length_map]

/-- What a scope lists since growth began is what it lists more. -/
theorem Grows.names_since (growth : Grows scope before after) :
    after.names scope =
      before.names scope ++ (after.variablesSince scope (before.variableCount scope)).map
        (·.name) := by
  have listed := List.prefix_iff_eq_take.1 growth.own.names
  unfold ScopeTree.variablesSince
  rw [List.map_drop, variableCount_eq]
  show after.names scope = before.names scope ++
    (after.names scope).drop (before.names scope).length
  have front : before.names scope = (after.names scope).take (before.names scope).length := by
    simpa only [names, List.length_map] using listed
  calc after.names scope
      = (after.names scope).take (before.names scope).length ++
          (after.names scope).drop (before.names scope).length :=
        (List.take_append_drop _ _).symm
    _ = before.names scope ++ (after.names scope).drop (before.names scope).length := by
        rw [← front]

end ScopeTree

namespace Compile

open ScopeTree

variable {setting : Setting} {depth scope : Nat}

/-- What a compilation in a scope leaves alone. -/
structure Frame (scope : Nat) (start after : Session) : Prop where
  growth : Grows scope start.tree after.tree
  ordered : after.tree.Ordered
  file : after.file = start.file
  including : after.including = start.including

theorem Frame.refl {start : Session} (scope : Nat) (ordered : start.tree.Ordered) :
    Frame scope start start :=
  ⟨.refl scope start.tree, ordered, rfl, rfl⟩

theorem Frame.trans {start middle after : Session} (first : Frame scope start middle)
    (last : Frame scope middle after) : Frame scope start after :=
  ⟨first.growth.trans last.growth, last.ordered, last.file.trans first.file,
    last.including.trans first.including⟩

theorem Frame.inside {start middle : Session} (frame : Frame scope start middle)
    (inside : scope < start.tree.size) : scope < middle.tree.size :=
  Nat.lt_of_lt_of_le inside frame.growth.size

/-- Names listed at the end of a scope stay in the frame. -/
theorem Frame.addVariables {start after : Session} (frame : Frame scope start after)
    (more : List Variable) : Frame scope start
      (after.withTree (after.tree.addVariables scope more)) :=
  ⟨frame.growth.trans (.addVariables _ _ _), frame.ordered.addVariables _ _, frame.file,
    frame.including⟩

/-- An assignment stays in its scope. -/
theorem frame_assignment (start : Session) (ordered : start.tree.Ordered) (scope : Nat)
    (target value : Expression) (append constant : Bool) :
    Frame scope start (start.afterAssignment scope target value append constant) := by
  obtain ⟨size, kept⟩ := keysRecorded_kept
    (start.tree.assigned scope target.token.text constant value) scope target append
  have declared := ordered.assigned scope target.token.text constant value
  exact ⟨(Grows.assigned _ _ _ _ _).trans (.of_kept size kept), declared.of_kept size kept, rfl,
    rfl⟩

/-- The definition that is kept in a function's scope changes nothing else. -/
theorem kept_defined (tree : ScopeTree) (child : Nat) (definition : Instruction) (id : Nat) :
    Scope.Kept (tree.get id)
      ((tree.modify child fun s => { s with definition := some definition }).get id) :=
  get_modify_induct (motive := Scope.Kept) tree child _ id (.refl _) fun _ =>
    ⟨rfl, rfl, rfl, rfl, rfl, rfl, rfl, rfl, rfl⟩

theorem sameLinks_defined (session : Session) (child : Nat) (definition : Instruction) :
    SameLinks session.tree (session.defined child definition).tree :=
  .modify session.tree child (fun s => { s with definition := some definition }) (fun _ => rfl)
    (fun _ => rfl) fun _ => rfl

theorem sameLinks_external (session : Session) (child : Nat) :
    SameLinks session.tree (session.external child).tree :=
  .modify session.tree child (fun s => { s with isExternal := true }) (fun _ => rfl) (fun _ => rfl)
    fun _ => rfl

/-- What is compiled in a function stays in the scope around it. -/
theorem frame_define {start after : Session} {name : Token} {params : List Parameter}
    (inside : scope < start.tree.size)
    (inner : Frame start.tree.size (start.function scope name params) after)
    (definition : Instruction) : Frame scope start (after.defined start.tree.size definition) := by
  have made : Grows scope start.tree (start.function scope name params).tree := .withFunction inside
  have size : (after.tree.modify start.tree.size fun s =>
      { s with definition := some definition }).size = after.tree.size := size_modify _ _ _
  refine ⟨?_, ?_, inner.file, inner.including⟩
  · exact (made.through inside (Nat.le_refl _) inner.growth).trans
      (.of_kept size (kept_defined after.tree _ definition))
  · exact inner.ordered.of_kept size (kept_defined after.tree _ definition)

theorem frame_external {start : Session} (ordered : start.tree.Ordered) {name : Token}
    {params : List Parameter} (inside : scope < start.tree.size) (definition : Instruction) :
    Frame scope start (((start.function scope name params).external start.tree.size).defined
      start.tree.size definition) := by
  have made : Grows scope start.tree (start.function scope name params).tree := .withFunction inside
  have order : (start.function scope name params).tree.Ordered := ordered.withFunction inside
  refine ⟨?_, ?_, by simp only [Session.defined, Session.external, Session.function,
    Session.withTree],
    by simp only [Session.defined, Session.external, Session.function, Session.withTree]⟩
  · have external : Grows scope start.tree
        ((start.function scope name params).external start.tree.size).tree :=
      made.modify_new inside (Nat.le_refl _) fun s => { s with isExternal := true }
    exact external.modify_new inside (Nat.le_refl _) fun s =>
      { s with definition := some definition }
  · have external : ((start.function scope name params).external start.tree.size).tree.Ordered :=
      order.modify start.tree.size (fun s => { s with isExternal := true }) (fun _ => rfl)
        (fun _ => rfl) fun _ => rfl
    exact external.modify start.tree.size (fun s => { s with definition := some definition })
      (fun _ => rfl) (fun _ => rfl) fun _ => rfl

theorem frame_loop {start after : Session} (ordered : start.tree.Ordered)
    (inside : scope < start.tree.size) (inner : Frame start.tree.size (start.loop scope) after) :
    Frame scope start (after.withTree (after.tree.discardChild scope start.tree.size)) := by
  have grown : Grows start.tree.size (start.tree.within scope "foreach"
      [{ Variable.fresh "it" start.tree.size with type := .any }]) after.tree := inner.growth
  obtain ⟨growth, order, _, _⟩ := loop_after ordered inside grown inner.ordered
  exact ⟨growth, order, inner.file, inner.including⟩

theorem frame_library {start after : Session} {name : Token} {path file : String}
    (inside : scope < start.tree.size)
    (inner : Frame start.tree.size (start.inLibrary scope name path file) after) :
    Frame scope start ⟨after.tree, start.file, after.including.tail⟩ := by
  have made : Grows scope start.tree (start.inLibrary scope name path file).tree :=
    .withLibrary inside
  refine ⟨made.through inside (Nat.le_refl _) inner.growth, inner.ordered, rfl, ?_⟩
  show after.including.tail = start.including
  rw [inner.including]
  rfl

/-- What a block lists is taken away after it. -/
theorem frame_branch {start after : Session} {mark : Nat} (inside : scope < start.tree.size)
    (since : mark = start.tree.variableCount scope) (inner : Frame scope start after) :
    Frame scope start (after.withTree (after.tree.dropVariablesSince scope mark)) ∧
      (after.tree.dropVariablesSince scope mark).names scope = start.tree.names scope := by
  obtain ⟨growth, names⟩ := inner.growth.dropVariablesSince since inside
  refine ⟨⟨growth, ?_, inner.file, inner.including⟩, names⟩
  exact inner.ordered.modify _ _ (fun _ => rfl) (fun _ => rfl) fun _ => rfl

/-- The names that a block leaves in its scope are those before it, whatever the block lists. -/
def Job.isBranch : Job → Bool
  | .branch _ _ _ _ _ | .elifs _ _ _ _ _ | .cases _ _ _ _ _ _ | .last _ _ _ _ _ => true
  | _ => false

/-- What a scope lists since a mark is what it lists more. -/
theorem Frame.names_since {start after : Session} {mark : Nat} (frame : Frame scope start after)
    (since : mark = start.tree.variableCount scope) :
    after.tree.names scope =
      start.tree.names scope ++ (after.tree.variablesSince scope mark).map (·.name) :=
  since ▸ frame.growth.names_since

/-- Every compilation in a scope stays in its frame, and a block leaves the names of its scope. -/
theorem Compiles.framed {job : Job} {start after : Session}
    (compiles : Compiles setting depth scope job start after) :
    Frame scope start after ∧ (job.isBranch → after.tree.names scope = start.tree.names scope) := by
  induction compiles with
  | assign ready =>
    refine ⟨frame_assignment _ ready.ordered _ _ _ _ _, fun marked => ?_⟩
    cases marked
  | select ready =>
    refine ⟨(Frame.refl _ ready.ordered).addVariables _, fun marked => ?_⟩
    cases marked
  | simple ready | noStatement ready | noLibrary ready | knownLibrary ready =>
    refine ⟨.refl _ ready.ordered, fun marked => ?_⟩
    cases marked
  | noElif ready | noCase ready | noLast ready => exact ⟨.refl _ ready.ordered, fun _ => rfl⟩
  | define ready _ ih =>
    refine ⟨frame_define ready.inside ih.1 _, fun marked => ?_⟩
    cases marked
  | defineExternal ready =>
    refine ⟨frame_external ready.ordered ready.inside _, fun marked => ?_⟩
    cases marked
  | ifElse _ _ _ _ _ first further final =>
    refine ⟨((first.1.trans further.1).trans final.1).addVariables _, fun marked => ?_⟩
    cases marked
  | whileLoop _ _ _ ih | includes _ _ ih | block _ _ ih =>
    refine ⟨ih.1, fun marked => ?_⟩
    cases marked
  | foreach ready _ _ ih =>
    refine ⟨frame_loop ready.ordered ready.inside ih.1, fun marked => ?_⟩
    cases marked
  | switch _ _ _ _ first final =>
    refine ⟨(first.1.trans final.1).addVariables _, fun marked => ?_⟩
    cases marked
  | moreStatements _ _ _ head tail | moreLibraries _ _ _ head tail =>
    refine ⟨head.1.trans tail.1, fun marked => ?_⟩
    cases marked
  | newLibrary ready _ _ _ _ _ _ ih =>
    refine ⟨frame_library ready.inside ih.1, fun marked => ?_⟩
    cases marked
  | branch ready since _ ih =>
    obtain ⟨frame, names⟩ := frame_branch ready.inside since ih.1
    exact ⟨frame, fun _ => names⟩
  | moreElifs _ _ _ _ _ head tail | moreCases _ _ _ _ _ head tail =>
    exact ⟨head.1.trans tail.1, fun _ => (tail.2 rfl).trans (head.2 rfl)⟩
  | someLast _ _ _ ih => exact ih

/-- Every compilation in a scope stays in its frame. -/
theorem Compiles.frame {job : Job} {start after : Session}
    (compiles : Compiles setting depth scope job start after) : Frame scope start after :=
  compiles.framed.1

theorem Compiles.names_branch {job : Job} {start after : Session}
    (compiles : Compiles setting depth scope job start after) (branch : job.isBranch) :
    after.tree.names scope = start.tree.names scope :=
  compiles.framed.2 branch

theorem Compiles.ready_after {job : Job} {start after : Session}
    (compiles : Compiles setting depth scope job start after) : Ready scope after :=
  ⟨compiles.frame.inside compiles.ready.inside, compiles.frame.ordered⟩

theorem Ready.function {start : Session} (ready : Ready scope start) (name : Token)
    (params : List Parameter) : Ready start.tree.size (start.function scope name params) := by
  refine ⟨?_, ready.ordered.withFunction ready.inside⟩
  simp [Session.function, Session.withTree]

theorem Ready.loop {start : Session} (ready : Ready scope start) :
    Ready start.tree.size (start.loop scope) := by
  refine ⟨?_, ready.ordered.within ready.inside⟩
  simp [Session.loop, Session.withTree]

theorem Ready.inLibrary {start : Session} (ready : Ready scope start) (name : Token)
    (path file : String) : Ready start.tree.size (start.inLibrary scope name path file) := by
  refine ⟨?_, ready.ordered.withLibrary ready.inside⟩
  simp [Session.inLibrary]

/-- The next block starts where this one did. -/
theorem Compiles.since_after {job : Job} {start after : Session} {mark : Nat}
    (compiles : Compiles setting depth scope job start after) (branch : job.isBranch)
    (since : mark = start.tree.variableCount scope) : mark = after.tree.variableCount scope := by
  rw [since, variableCount_eq, variableCount_eq, compiles.names_branch branch]

end Compile

end Treecode
