import Treecode.Proofs.Soundness

set_option autoImplicit false

namespace Treecode.Compile

open ScopeTree

theorem reservedTree_eq (reserved : List String) :
    reservedTree reserved = ScopeTree.initial.addVariables ScopeTree.root
      ((reservedNames reserved).map (.fresh · ScopeTree.root)) := by
  unfold reservedTree
  rw [← foldl_declare, List.foldl_map]
  intro v member
  obtain ⟨name, _, rfl⟩ := List.mem_map.1 member
  rfl

theorem size_reservedTree (reserved : List String) : (reservedTree reserved).size = 1 := by
  rw [reservedTree_eq, size_addVariables]
  rfl

theorem get_initial (id : Nat) :
    ScopeTree.initial.get id = if id = 0 then Scope.fresh "root" none else default := by
  cases id <;> rfl

/-- The variables at the start are no constants and no values are recorded of them. -/
theorem plain_reservedTree {reserved : List String} {id : Nat} {v : Variable}
    (listed : v ∈ ((reservedTree reserved).get id).declared) :
    v.constant = false ∧ v.value = none := by
  have bare : (ScopeTree.initial.get id).declared = [] := by
    rw [get_initial]
    split <;> rfl
  rw [reservedTree_eq, ScopeTree.addVariables, get_modify] at listed
  split at listed
  · rw [bare] at listed
    obtain ⟨name, _, rfl⟩ := List.mem_map.1 listed
    exact ⟨rfl, rfl⟩
  · rw [bare] at listed
    cases listed

theorem ordered_initial : ScopeTree.initial.Ordered := by
  have bare : ∀ id, (ScopeTree.initial.get id).children = [] ∧
      (ScopeTree.initial.get id).parent = none ∧ (ScopeTree.initial.get id).functions = [] := by
    intro id
    rw [get_initial]
    split <;> exact ⟨rfl, rfl, rfl⟩
  constructor
  · intro id child member
    rw [(bare id).1] at member
    cases member
  · intro id parent linked
    rw [(bare id).2.1] at linked
    cases linked
  · intro id function member
    rw [(bare id).2.2] at member
    cases member

theorem ordered_reservedTree (reserved : List String) : (reservedTree reserved).Ordered := by
  rw [reservedTree_eq]
  exact ordered_initial.addVariables _ _

theorem names_initial (id : Nat) : ScopeTree.initial.names id = [] := by
  unfold names
  rw [get_initial]
  split <;> rfl

theorem functionNames_initial (id : Nat) : ScopeTree.initial.functionNames id = [] := by
  unfold functionNames
  rw [get_initial]
  split <;> rfl

/-- At the start exactly the reserved names are seen. -/
theorem sees_reservedTree (reserved : List String) (name : String) :
    (reservedTree reserved).Sees ScopeTree.root name ↔ name ∈ reservedNames reserved := by
  have named : ((reservedNames reserved).map (Variable.fresh · ScopeTree.root)).map (·.name) =
      reservedNames reserved := by
    rw [List.map_map]
    exact List.map_id _
  have nothing : ¬ ScopeTree.initial.Sees ScopeTree.root name := by
    rw [sees_iff]
    intro found
    obtain ⟨other, _, listed⟩ := found
    rw [names_initial] at listed
    cases listed
  rw [reservedTree_eq, sees_addVariables (by decide), named]
  simp only [nothing, Searches.self, true_and, false_or]

/-- At the start no function can be called. -/
theorem calls_reservedTree (reserved : List String) (name : String) :
    ¬ (reservedTree reserved).Calls ScopeTree.root name := by
  rw [reservedTree_eq, calls_addVariables, calls_iff]
  intro found
  obtain ⟨other, _, listed⟩ := found
  rw [functionNames_initial] at listed
  cases listed

/-- The session in which the statements of a program are compiled. -/
def Session.begin (reserved : List String) (file : String) : Session :=
  ⟨reservedTree reserved, file, []⟩

theorem ready_begin (reserved : List String) (file : String) :
    Ready ScopeTree.root (Session.begin reserved file) := by
  refine ⟨?_, ordered_reservedTree reserved⟩
  show 0 < (reservedTree reserved).size
  rw [size_reservedTree]
  exact Nat.one_pos

/-- To compile a program is to compile its statements in fresh scopes, under the name of its
file. -/
theorem program_apply_begin {setting : Setting} (source : Program) (reserved : List String)
    (session : Session) : program setting source reserved session =
      match statements (library setting setting.depth) ScopeTree.root source.statements
        (Session.begin reserved source.file) with
      | (.ok code, after) => (.ok (code ++ [.finalHalt]), { after with file := session.file })
      | (.error error, after) => (.error error, { after with file := session.file }) := by
  unfold program programIn Step.inFile Session.begin
  dsimp only
  cases statements (library setting setting.depth) ScopeTree.root source.statements
      ⟨reservedTree reserved, source.file, []⟩ with
  | mk result after => cases result <;> rfl

/-- A compilation that succeeds leaves what the statements leave, but for the name of the file. -/
theorem program_done {setting : Setting} {source : Program} {reserved : List String}
    {code : List Instruction} {start last : Session} :
    program setting source reserved start = (.ok code, last) ↔
      ∃ body after, statements (library setting setting.depth) ScopeTree.root source.statements
          (Session.begin reserved source.file) = (.ok body, after) ∧
        code = body ++ [.finalHalt] ∧ last = { after with file := start.file } := by
  rw [program_apply_begin]
  cases statements (library setting setting.depth) ScopeTree.root source.statements
      (Session.begin reserved source.file) with
  | mk result after =>
    cases result with
    | error error => simp
    | ok body =>
      simp only [Prod.mk.injEq, Except.ok.injEq]
      constructor
      · intro both
        exact ⟨body, after, ⟨rfl, rfl⟩, both.1.symm, both.2.symm⟩
      · intro found
        obtain ⟨_, _, ⟨rfl, rfl⟩, rfl, rfl⟩ := found
        exact ⟨rfl, rfl⟩

theorem program_ok {setting : Setting} {source : Program} {reserved : List String}
    {code : List Instruction} {start : Session} :
    (program setting source reserved start).1 = .ok code ↔
      ∃ body after, statements (library setting setting.depth) ScopeTree.root source.statements
          (Session.begin reserved source.file) = (.ok body, after) ∧
        code = body ++ [.finalHalt] := by
  constructor
  · intro success
    obtain ⟨body, after, ran, rfl, _⟩ := program_done.1 (Prod.ext success rfl)
    exact ⟨body, after, ran, rfl⟩
  · intro found
    obtain ⟨body, after, ran, rfl⟩ := found
    rw [program_done.2 ⟨body, after, ran, rfl, rfl⟩]

/-- A source compiles when it can be read and its statements compile from the start. -/
theorem sourceText_ok {setting : Setting} {text file : String} {reserved : List String}
    {code : List Instruction} :
    sourceText setting text file reserved = .ok code ↔
      ∃ source body after, Program.ofSource text file = .ok source ∧
        statements (library setting setting.depth) ScopeTree.root source.statements
          (Session.begin reserved source.file) = (.ok body, after) ∧
        code = body ++ [.finalHalt] := by
  unfold sourceText
  cases Program.ofSource text file with
  | error error => simp
  | ok source =>
    dsimp only
    rw [program_ok]
    constructor
    · intro found
      obtain ⟨body, after, done, rfl⟩ := found
      exact ⟨source, body, after, rfl, done, rfl⟩
    · intro found
      obtain ⟨_, body, after, same, done, rfl⟩ := found
      cases same
      exact ⟨body, after, done, rfl⟩

/-- The code of a source is derived from the start. -/
theorem Compiles.of_sourceText {setting : Setting} {text file : String} {reserved : List String}
    {code : List Instruction} (success : sourceText setting text file reserved = .ok code) :
    ∃ source body after, Program.ofSource text file = .ok source ∧
      Compiles setting setting.depth ScopeTree.root (.statements source.statements body)
        (Session.begin reserved source.file) after ∧
      code = body ++ [.finalHalt] := by
  obtain ⟨source, body, after, read, done, rfl⟩ := sourceText_ok.1 success
  exact ⟨source, body, after, read, .of_statements (Program.regular_ofSource read).2
    (ready_begin reserved source.file) done, rfl⟩

end Treecode.Compile
