import Treecode.Proofs.Reserved

set_option autoImplicit false

namespace Treecode.Compile

open Step

variable {setting : Setting} {depth scope : Nat}

/-- The compiler takes a piece of source to its code and one session to another. -/
def Runs (setting : Setting) (depth scope : Nat) (start after : Session) : Job → Prop
  | .statement source code =>
    statement (library setting depth) scope source start = (.ok code, after)
  | .statements source code =>
    statements (library setting depth) scope source start = (.ok code, after)
  | .libraries names code =>
    inclusion (library setting depth) scope names start = (.ok code, after)
  | .library name code => library setting depth name scope start = (.ok code, after)
  | .branch mark declared source code gathered =>
    branch scope mark declared (statements (library setting depth) scope source) start =
      (.ok (code, gathered), after)
  | .elifs mark declared source code gathered =>
    elifClauses (library setting depth) scope mark declared source start =
      (.ok (code, gathered), after)
  | .cases mark declared labels source code gathered =>
    caseClauses (library setting depth) scope mark declared labels source start =
      (.ok (code, gathered), after)
  | .last mark declared source code gathered =>
    lastClause (library setting depth) scope mark declared source start =
      (.ok (code, gathered), after)

/-- A statement without blocks that changes no scopes runs in one way. -/
theorem runs_simple {includeOne : Including} {source : Statement} {start : Session}
    {code : Instruction} (translated : simpleCode? source = some code)
    (reads : simplyReads (start.tree.sees scope) (start.tree.calls scope) code) :
    statement includeOne scope source start = (.ok [code], start) := by
  cases source with
  | breakLoop | continueLoop =>
    cases translated
    rw [statement]
    rfl
  | returnValue _ value | halt _ value =>
    obtain ⟨valueCode, spelled, rfl⟩ := Option.map_eq_some_iff.1 translated
    unfold statement
    simp only [bind_ok, optionalExpression_ok, pure_ok]
    exact ⟨valueCode, start, ⟨rfl, spelled, reads⟩, rfl, rfl⟩
  | print _ args =>
    obtain ⟨argCode, spelled, rfl⟩ := Option.map_eq_some_iff.1 translated
    unfold statement
    simp only [bind_ok, expressions_ok, pure_ok]
    exact ⟨argCode, start, ⟨rfl, spelled, reads⟩, rfl, rfl⟩
  | call name args =>
    obtain ⟨argCode, spelled, rfl⟩ := Option.map_eq_some_iff.1 translated
    simp only [simplyReads, Bool.and_eq_true] at reads
    unfold statement
    simp only [bind_ok, requireFunction_ok, expressions_ok, pure_ok]
    exact ⟨(), start, ⟨reads.1, rfl⟩, argCode, start, ⟨rfl, spelled, reads.2⟩, rfl, rfl⟩
  | _ => cases translated

/-- A derived piece of source is compiled as derived. -/
theorem Compiles.runs {job : Job} {start after : Session}
    (compiles : Compiles setting depth scope job start after) :
    Runs setting depth scope start after job := by
  induction compiles with
  | assign ready shaped assigns =>
    simp only [Runs]
    rw [statement, assignment_ok]
    exact ⟨_, _, _, assigns, rfl, rfl⟩
  | select ready shaped properFilter properTarget selects =>
    simp only [Runs]
    unfold statement
    simp only [bind_ok, pure_ok]
    exact ⟨_, _, (selection_ok properFilter properTarget ready.inside).2
      ⟨_, _, _, _, selects, rfl, rfl⟩, rfl, rfl⟩
  | simple _ translated reads => exact runs_simple translated reads
  | @define depth scope start name params result brace body code after ready inner ih =>
    simp only [Runs] at ih ⊢
    unfold statement
    rw [bind_apply, functionScope_apply]
    dsimp only
    simp only [bind_ok, recordDefinition, changeTree_ok, pure_ok, functionBody, block_eq,
      Block.statements]
    exact ⟨_, after, ⟨code, after, ih, rfl, rfl⟩, (), _, rfl, rfl, rfl⟩
  | @defineExternal depth scope start name params result module function ready =>
    simp only [Runs]
    unfold statement
    rw [bind_apply, functionScope_apply]
    dsimp only
    simp only [bind_ok, recordDefinition, changeTree_ok, pure_ok, functionBody]
    exact ⟨_, _, ⟨(), _, rfl, rfl, rfl⟩, (), _, rfl, rfl, rfl⟩
  | ifElse ready evaluates _ _ _ first further final =>
    simp only [Runs] at first further final ⊢
    unfold statement
    simp only [bind_ok, evaluates_iff, tree_ok, changeTree_ok, block_eq, Block.statements, pure_ok]
    exact ⟨_, _, ⟨rfl, evaluates⟩, _, _, ⟨rfl, rfl⟩, (_, _), _, first, (_, _), _, further,
      (_, _), _, final, (), _, rfl, rfl, rfl⟩
  | whileLoop ready evaluates _ ih =>
    simp only [Runs] at ih ⊢
    unfold statement
    simp only [bind_ok, evaluates_iff, block_eq, Block.statements, pure_ok]
    exact ⟨_, _, ⟨rfl, evaluates⟩, _, _, ih, rfl, rfl⟩
  | foreach ready evaluates _ ih =>
    simp only [Runs] at ih ⊢
    unfold statement
    simp only [bind_ok, evaluates_iff, inScope_ok, changeTree_ok, block_eq,
      Block.statements, pure_ok]
    exact ⟨_, _, ⟨rfl, evaluates⟩, _, _, ⟨_, ⟨(), _, rfl, ih⟩, rfl⟩, rfl, rfl⟩
  | switch ready evaluates _ _ first final =>
    simp only [Runs] at first final ⊢
    unfold statement
    simp only [bind_ok, evaluates_iff, tree_ok, changeTree_ok, pure_ok]
    exact ⟨_, _, ⟨rfl, evaluates⟩, _, _, ⟨rfl, rfl⟩, (_, _), _, first, (_, _), _, final, (), _,
      rfl, rfl, rfl⟩
  | includes _ _ ih =>
    simp only [Runs] at ih ⊢
    rw [statement]
    exact ih
  | block _ _ ih =>
    simp only [Runs] at ih ⊢
    rw [statement, block_eq]
    exact ih
  | noStatement =>
    simp only [Runs]
    rw [statements]
    rfl
  | moreStatements _ _ _ head tail =>
    simp only [Runs] at head tail ⊢
    unfold statements
    simp only [bind_ok, pure_ok]
    exact ⟨_, _, head, _, _, tail, rfl, rfl⟩
  | noLibrary => rfl
  | moreLibraries _ _ _ head tail =>
    simp only [Runs] at head tail ⊢
    unfold inclusion
    simp only [bind_ok, pure_ok]
    exact ⟨_, _, head, _, _, tail, rfl, rfl⟩
  | @knownLibrary depth scope start name _ known =>
    simp only [Runs]
    unfold library
    simp only [bind_ok, tree_ok]
    refine ⟨_, _, ⟨rfl, rfl⟩, ?_⟩
    rw [if_pos known, pure_ok]
    exact ⟨rfl, rfl⟩
  | @newLibrary depth scope start name path text program code after _ fresh found apart
      loaded read _ ih =>
    simp only [Runs] at ih
    simp only [Runs]
    unfold library
    simp only [bind_ok, tree_ok]
    refine ⟨_, _, ⟨rfl, rfl⟩, ?_⟩
    rw [if_neg (by simp only [fresh, Bool.false_eq_true, not_false_eq_true])]
    simp only [bind_ok, libraryFile_ok, ofExcept_ok, whileIncluding_ok, programIn, inFile_ok,
      libraryScope_apply, Prod.mk.injEq, Except.ok.injEq]
    exact ⟨path, start, ⟨rfl, found, apart⟩, text, start, ⟨loaded, rfl⟩, _, _,
      ⟨rfl, rfl⟩, program, _, ⟨read, rfl⟩, _, ⟨after, ih, rfl⟩, rfl⟩
  | branch _ _ _ ih =>
    simp only [Runs] at ih ⊢
    exact branch_ok.2 ⟨_, ih, rfl, rfl⟩
  | noElif =>
    simp only [Runs]
    rw [elifClauses]
    rfl
  | moreElifs _ _ evaluates _ _ head tail =>
    simp only [Runs] at head tail ⊢
    unfold elifClauses
    simp only [bind_ok, evaluates_iff, block_eq, Block.statements, pure_ok]
    exact ⟨_, _, ⟨rfl, evaluates⟩, (_, _), _, head, (_, _), _, tail, rfl, rfl⟩
  | noCase =>
    simp only [Runs]
    rw [caseClauses]
    rfl
  | moreCases _ _ apart _ _ head tail =>
    simp only [Runs] at head tail ⊢
    unfold caseClauses
    dsimp only
    rw [if_neg (by simp only [apart, Bool.false_eq_true, not_false_eq_true])]
    simp only [bind_ok, block_eq, Block.statements, pure_ok]
    exact ⟨(_, _), _, head, (_, _), _, tail, rfl, rfl⟩
  | noLast =>
    simp only [Runs]
    rw [lastClause]
    rfl
  | someLast _ _ _ ih =>
    simp only [Runs] at ih ⊢
    rw [lastClause, block_eq]
    exact ih

/-- A source whose statements are derived from the start compiles to what is derived. -/
theorem Compiles.sourceText_eq {text file : String} {reserved : List String} {source : Program}
    {body : List Instruction} {after : Session} (read : Program.ofSource text file = .ok source)
    (compiles : Compiles setting setting.depth ScopeTree.root (.statements source.statements body)
      (Session.begin reserved source.file) after) :
    sourceText setting text file reserved = .ok (body ++ [.finalHalt]) :=
  sourceText_ok.2 ⟨source, body, after, read, compiles.runs, rfl⟩

end Treecode.Compile
