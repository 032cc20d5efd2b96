import Treecode.Proofs.Frame
import Treecode.Proofs.StatementGrammar

set_option autoImplicit false

namespace Treecode

theorem Expression.Regular.indexesAreProper {spelling : Spelling} :
    ∀ {e : Expression}, e.Regular spelling → e.indexesAreProper = true
  | .binary _ left right, regular => by
    have first := Expression.Regular.indexesAreProper (e := left) regular.2.1
    have second := Expression.Regular.indexesAreProper (e := right) regular.2.2
    simp only [Expression.indexesAreProper, first, second, Bool.and_self]
  | .indexed _ index, regular => by
    cases index with
    | nil => exact absurd rfl regular.2.1
    | cons key keys => rfl
  | .plain _, _ | .call _ _, _ | .indexedCall _ _ _, _ | .literal _ _, _ | .unary _ _, _
  | .isType _ _ _, _ | .typeOf _ _, _ => rfl

theorem Expression.OptionRegular.indexesAreProper {spelling : Spelling} {e : Option Expression}
    (regular : Expression.OptionRegular spelling e) : Expression.optionalIndexesAreProper e := by
  cases e with
  | none => rfl
  | some e => exact Expression.Regular.indexesAreProper (e := e) regular

namespace Compile

open Step

variable {setting : Setting} {depth scope : Nat}

theorem branch_ok {α : Type} {mark : Nat} {declared gathered : List Variable}
    {step : Step α} {a : α} {start after : Session} :
    branch scope mark declared step start = (.ok (a, gathered), after) ↔
      ∃ middle, step start = (.ok a, middle) ∧
        gathered = gather declared (middle.tree.variablesSince scope mark) ∧
        after = middle.withTree (middle.tree.dropVariablesSince scope mark) := by
  unfold branch
  simp only [bind_ok, tree_ok, changeTree_ok, pure_ok, Prod.mk.injEq]
  constructor
  · intro success
    obtain ⟨_, middle, done, _, _, ⟨rfl, rfl⟩, _, _, rfl, ⟨rfl, rfl⟩, rfl⟩ := success
    exact ⟨_, done, rfl, rfl⟩
  · intro success
    obtain ⟨middle, done, rfl, rfl⟩ := success
    exact ⟨_, middle, done, _, _, ⟨rfl, rfl⟩, (), _, rfl, ⟨rfl, rfl⟩, rfl⟩

/-- A step whose session is changed back afterwards succeeds exactly when the step does. -/
theorem restored_ok {α : Type} {outcome : Except Error α × Session} (restore : Session → Session)
    {a : α} {after : Session} :
    (outcome.1, restore outcome.2) = (.ok a, after) ↔
      ∃ middle, outcome = (.ok a, middle) ∧ after = restore middle := by
  rw [Prod.mk.injEq]
  constructor
  · intro success
    exact ⟨_, Prod.ext success.1 rfl, success.2.symm⟩
  · intro success
    obtain ⟨middle, rfl, rfl⟩ := success
    exact ⟨rfl, rfl⟩

theorem inScope_ok {α : Type} {title : String} {step : Nat → Step α} {a : α}
    {start after : Session} : inScope scope title step start = (.ok a, after) ↔
      ∃ middle, step start.tree.size (start.withTree (start.tree.newChild scope title)) =
          (.ok a, middle) ∧
        after = middle.withTree (middle.tree.discardChild scope start.tree.size) := by
  unfold inScope
  exact restored_ok fun session =>
    session.withTree (session.tree.discardChild scope start.tree.size)

theorem inFile_ok {α : Type} {file : String} {step : Step α} {a : α} {start after : Session} :
    inFile file step start = (.ok a, after) ↔
      ∃ middle, step { start with file } = (.ok a, middle) ∧
        after = { middle with file := start.file } := by
  unfold inFile
  exact restored_ok fun session => { session with file := start.file }

theorem whileIncluding_ok {α : Type} {path : String} {step : Step α} {a : α}
    {start after : Session} :
    whileIncluding path step start = (.ok a, after) ↔
      ∃ middle, step { start with including := path :: start.including } = (.ok a, middle) ∧
        after = { middle with including := middle.including.tail } := by
  unfold whileIncluding
  exact restored_ok fun session => { session with including := session.including.tail }

theorem libraryFile_ok {name : Token} {path : String} {start after : Session} :
    libraryFile setting name start = (.ok path, after) ↔
      after = start ∧ Library.find? setting.files setting.searchPath name.text = some path ∧
        start.including.any (Path.same path) = false := by
  unfold libraryFile
  cases Library.find? setting.files setting.searchPath name.text with
  | none =>
    simp only [reduceCtorEq, false_and, and_false, iff_false]
    intro success
    cases success
  | some found =>
    show (if start.including.any (Path.same found) then object name (.circularInclude name.text)
      else pure found : Step String) start = _ ↔ _
    split
    · rename_i under
      simp only [object_ne_ok, Option.some.injEq, false_iff]
      intro both
      obtain ⟨rfl, rfl, apart⟩ := both
      rw [apart] at under
      cases under
    · rename_i apart
      rw [pure_ok, Option.some.injEq]
      constructor
      · intro both
        obtain ⟨rfl, rfl⟩ := both
        exact ⟨rfl, rfl, by simpa only [Bool.not_eq_true] using apart⟩
      · intro both
        exact ⟨both.2.1.symm, both.1⟩

theorem compiles_branch {includeOne : Including} {mark : Nat} {declared gathered : List Variable}
    {source : List Statement} {start after : Session} {code : List Instruction}
    (derived : ∀ {code : List Instruction} {after : Session},
      statements includeOne scope source start = (.ok code, after) →
        Compiles setting depth scope (.statements source code) start after)
    (ready : Ready scope start) (since : mark = start.tree.variableCount scope)
    (success : branch scope mark declared (statements includeOne scope source) start =
      (.ok (code, gathered), after)) :
    Compiles setting depth scope (.branch mark declared source code gathered) start after := by
  obtain ⟨_, inner, rfl, rfl⟩ := branch_ok.1 success
  exact .branch ready since (derived inner)

def Derives (setting : Setting) (depth : Nat) (includeOne : Including) : Prop :=
  ∀ name scope start after code, Ready scope start →
    includeOne name scope start = (.ok code, after) →
      Compiles setting depth scope (.library name code) start after

section Sound

variable {includeOne : Including} {spelling : Spelling}

theorem compiles_inclusion (derives : Derives setting depth includeOne) (names : List Token)
    {start after : Session} {code : List Instruction} (ready : Ready scope start)
    (success : inclusion includeOne scope names start = (.ok code, after)) :
    Compiles setting depth scope (.libraries names code) start after := by
  induction names generalizing start code with
  | nil =>
    unfold inclusion at success
    rw [pure_ok] at success
    obtain ⟨rfl, rfl⟩ := success
    exact .noLibrary ready
  | cons name rest ih =>
    unfold inclusion at success
    simp only [bind_ok, pure_ok] at success
    obtain ⟨firstCode, middle, head, restCode, _, tail, rfl, rfl⟩ := success
    have first := derives name scope start middle firstCode ready head
    exact .moreLibraries ready first (ih first.ready_after tail)

/-- The statements of a block: a block is compiled like what is in it. -/
theorem block_eq (includeOne : Including) (scope : Nat) (body : Block) :
    block includeOne scope body = statements includeOne scope body.statements := by
  cases body
  rw [block]
  rfl

mutual

theorem compiles_statement (derives : Derives setting depth includeOne) (source : Statement)
    (regular : source.Regular spelling) {scope : Nat} {start after : Session}
    {code : List Instruction}
    (ready : Ready scope start)
    (success : statement includeOne scope source start = (.ok code, after)) :
    Compiles setting depth scope (.statement source code) start after := by
  cases source with
  | assign target operator value append constant =>
    rw [statement, assignment_ok] at success
    obtain ⟨operation, targetCode, valueCode, assigns, rfl, rfl⟩ := success
    exact .assign ready regular.1 assigns
  | define name params result body =>
    unfold statement at success
    rw [bind_apply, functionScope_apply] at success
    dsimp only at success
    simp only [bind_ok, recordDefinition, changeTree_ok, pure_ok] at success
    obtain ⟨definition, middle, inner, _, _, rfl, rfl, rfl⟩ := success
    cases body with
    | block body =>
      obtain ⟨brace, body⟩ := body
      simp only [functionBody, bind_ok, block_eq, Block.statements, pure_ok] at inner
      obtain ⟨code, _, inner, rfl, rfl⟩ := inner
      exact .define ready (compiles_statements derives body regular.2.2
        (ready.function name params) inner)
    | external module function =>
      simp only [functionBody, bind_ok, changeTree_ok, pure_ok] at inner
      obtain ⟨_, _, rfl, rfl, rfl⟩ := inner
      exact .defineExternal ready
  | ifElse word condition body elifs otherwise =>
    obtain ⟨brace, body⟩ := body
    obtain ⟨_, bodyRegular, elifsRegular, lastRegular⟩ := regular
    unfold statement at success
    simp only [bind_ok, evaluates_iff, tree_ok, changeTree_ok, block_eq, Block.statements,
      pure_ok] at success
    obtain ⟨conditionCode, _, ⟨rfl, evaluates⟩, _, begun, ⟨rfl, rfl⟩, ⟨bodyCode, declared⟩,
      middle, first,
      ⟨elifCode, declared'⟩, later, further, ⟨lastCode, declared''⟩, final, last, _, _,
          rfl, rfl, rfl⟩ :=
      success
    have head := compiles_branch (compiles_statements derives body bodyRegular ready)
      ready rfl first
    have since := head.since_after rfl rfl
    have rest := compiles_elifs derives elifs elifsRegular head.ready_after since further
    have since' := rest.since_after rfl since
    exact .ifElse ready evaluates head rest
      (compiles_last derives otherwise lastRegular rest.ready_after since' last)
  | whileLoop word condition body =>
    obtain ⟨brace, body⟩ := body
    unfold statement at success
    simp only [bind_ok, evaluates_iff, block_eq, Block.statements, pure_ok] at success
    obtain ⟨conditionCode, _, ⟨rfl, evaluates⟩, bodyCode, _, inner, rfl, rfl⟩ := success
    exact .whileLoop ready evaluates (compiles_statements derives body regular.2 ready inner)
  | foreach word iterable body =>
    obtain ⟨brace, body⟩ := body
    unfold statement at success
    simp only [bind_ok, evaluates_iff, inScope_ok, changeTree_ok, block_eq, Block.statements,
      pure_ok] at success
    obtain ⟨iterableCode, _, ⟨rfl, evaluates⟩, bodyCode, _, ⟨_, ⟨_, _, rfl, inner⟩, rfl⟩, rfl,
        rfl⟩ :=
      success
    exact .foreach ready evaluates (compiles_statements derives body regular.2 ready.loop inner)
  | switch word head cases default =>
    obtain ⟨_, _, casesRegular, lastRegular⟩ := regular
    unfold statement at success
    simp only [bind_ok, evaluates_iff, tree_ok, changeTree_ok, pure_ok] at success
    obtain ⟨headCode, _, ⟨rfl, evaluates⟩, _, _, ⟨rfl, rfl⟩, ⟨caseCode, declared⟩, middle, first,
      ⟨lastCode, declared'⟩, final, last, _, _, rfl, rfl, rfl⟩ := success
    have front := compiles_cases derives cases casesRegular ready rfl first
    have since := front.since_after rfl rfl
    exact .switch ready evaluates front
      (compiles_last derives default lastRegular front.ready_after since last)
  | breakLoop word =>
    rw [statement, pure_ok] at success
    obtain ⟨rfl, rfl⟩ := success
    exact .simple ready rfl rfl
  | continueLoop word =>
    rw [statement, pure_ok] at success
    obtain ⟨rfl, rfl⟩ := success
    exact .simple ready rfl rfl
  | returnValue word value =>
    unfold statement at success
    simp only [bind_ok, optionalExpression_ok, pure_ok] at success
    obtain ⟨valueCode, _, ⟨rfl, translated, reads⟩, rfl, rfl⟩ := success
    exact .simple ready (by simp only [simpleCode?, translated, Option.map_some]) reads
  | halt word value =>
    unfold statement at success
    simp only [bind_ok, optionalExpression_ok, pure_ok] at success
    obtain ⟨valueCode, _, ⟨rfl, translated, reads⟩, rfl, rfl⟩ := success
    exact .simple ready (by simp only [simpleCode?, translated, Option.map_some]) reads
  | print word args =>
    unfold statement at success
    simp only [bind_ok, expressions_ok, pure_ok] at success
    obtain ⟨argCode, _, ⟨rfl, translated, reads⟩, rfl, rfl⟩ := success
    exact .simple ready (by simp only [simpleCode?, translated, Option.map_some]) reads
  | includes word names =>
    rw [statement] at success
    exact .includes ready (compiles_inclusion derives names ready success)
  | select word distinct fields source filter merge target =>
    obtain ⟨_, _, filterRegular, shaped, targetRegular⟩ := regular
    unfold statement at success
    simp only [bind_ok, pure_ok] at success
    obtain ⟨selectCode, _, done, rfl, rfl⟩ := success
    rw [selection_ok filterRegular.indexesAreProper targetRegular.indexesAreProper
      ready.inside] at done
    obtain ⟨sourceCode, filterCode, targetCode, opened, selects, rfl, rfl⟩ := done
    exact .select ready shaped filterRegular.indexesAreProper targetRegular.indexesAreProper selects
  | call name args =>
    unfold statement at success
    simp only [bind_ok, requireFunction_ok, expressions_ok, pure_ok] at success
    obtain ⟨_, _, ⟨called, rfl⟩, argCode, _, ⟨rfl, translated, reads⟩, rfl, rfl⟩ := success
    refine .simple ready (by simp only [simpleCode?, translated, Option.map_some]) ?_
    simp only [simplyReads, Bool.and_eq_true]
    exact ⟨called, reads⟩
  | indexedCall name index args =>
    rw [statement] at success
    exact absurd success object_ne_ok
  | block body =>
    obtain ⟨brace, body⟩ := body
    rw [statement, block_eq] at success
    exact .block ready (compiles_statements derives body regular ready success)

theorem compiles_statements (derives : Derives setting depth includeOne) (source : List Statement)
    (regular : Statement.AllRegular spelling source) {scope : Nat} {start after : Session}
    {code : List Instruction} (ready : Ready scope start)
    (success : statements includeOne scope source start = (.ok code, after)) :
    Compiles setting depth scope (.statements source code) start after := by
  cases source with
  | nil =>
    rw [statements, pure_ok] at success
    obtain ⟨rfl, rfl⟩ := success
    exact .noStatement ready
  | cons first rest =>
    unfold statements at success
    simp only [bind_ok, pure_ok] at success
    obtain ⟨firstCode, middle, head, restCode, _, tail, rfl, rfl⟩ := success
    have front := compiles_statement derives first regular.1 ready head
    exact .moreStatements ready front
      (compiles_statements derives rest regular.2 front.ready_after tail)

theorem compiles_elifs (derives : Derives setting depth includeOne) (source : List Clause)
    (regular : Clause.AllRegular spelling source) {scope mark : Nat}
    {declared gathered : List Variable}
    {start after : Session} {code : List (Instruction × List Instruction)}
    (ready : Ready scope start) (since : mark = start.tree.variableCount scope)
    (success : elifClauses includeOne scope mark declared source start =
      (.ok (code, gathered), after)) :
    Compiles setting depth scope (.elifs mark declared source code gathered) start after := by
  cases source with
  | nil =>
    rw [elifClauses, pure_ok, Prod.mk.injEq] at success
    obtain ⟨⟨rfl, rfl⟩, rfl⟩ := success
    exact .noElif ready since
  | cons first rest =>
    obtain ⟨word, condition, brace, body⟩ := first
    unfold elifClauses at success
    simp only [bind_ok, evaluates_iff, block_eq, Block.statements, pure_ok,
      Prod.mk.injEq] at success
    obtain ⟨conditionCode, _, ⟨rfl, evaluates⟩, ⟨bodyCode, declared'⟩, middle, head,
      ⟨restCode, declared''⟩, _, tail, ⟨rfl, rfl⟩, rfl⟩ := success
    have front := compiles_branch (compiles_statements derives body regular.1.2 ready)
      ready since head
    exact .moreElifs ready since evaluates front
      (compiles_elifs derives rest regular.2 front.ready_after (front.since_after rfl since) tail)

theorem compiles_cases (derives : Derives setting depth includeOne) (source : List Clause)
    (regular : Clause.AllRegular spelling source) {scope mark : Nat}
    {declared gathered : List Variable}
    {labels : List Value} {start after : Session} {code : List (Value × List Instruction)}
    (ready : Ready scope start) (since : mark = start.tree.variableCount scope)
    (success : caseClauses includeOne scope mark declared labels source start =
      (.ok (code, gathered), after)) :
    Compiles setting depth scope (.cases mark declared labels source code gathered)
      start after := by
  cases source with
  | nil =>
    rw [caseClauses, pure_ok, Prod.mk.injEq] at success
    obtain ⟨⟨rfl, rfl⟩, rfl⟩ := success
    exact .noCase ready since
  | cons first rest =>
    obtain ⟨word, guard, brace, body⟩ := first
    cases guard with
    | literal token label =>
      unfold caseClauses at success
      dsimp only at success
      split at success
      · exact absurd success object_ne_ok
      · rename_i apart
        simp only [bind_ok, block_eq, Block.statements, pure_ok, Prod.mk.injEq] at success
        obtain ⟨⟨bodyCode, declared'⟩, middle, head, ⟨restCode, declared''⟩, _, tail,
            ⟨rfl, rfl⟩, rfl⟩ :=
          success
        have front := compiles_branch (compiles_statements derives body regular.1.2 ready)
          ready since head
        exact .moreCases ready since (by simpa only [Bool.not_eq_true] using apart) front
          (compiles_cases derives rest regular.2 front.ready_after
            (front.since_after rfl since) tail)
    | _ =>
      rw [caseClauses] at success
      · exact absurd success object_ne_ok
      · intros
        contradiction

theorem compiles_last (derives : Derives setting depth includeOne) (source : Option LastClause)
    (regular : LastClause.OptionRegular spelling source) {scope mark : Nat}
    {declared gathered : List Variable} {start after : Session} {code : List Instruction}
    (ready : Ready scope start) (since : mark = start.tree.variableCount scope)
    (success : lastClause includeOne scope mark declared source start =
      (.ok (code, gathered), after)) :
    Compiles setting depth scope (.last mark declared source code gathered) start after := by
  cases source with
  | none =>
    rw [lastClause, pure_ok, Prod.mk.injEq] at success
    obtain ⟨⟨rfl, rfl⟩, rfl⟩ := success
    exact .noLast ready since
  | some clause =>
    obtain ⟨word, brace, body⟩ := clause
    rw [lastClause, block_eq] at success
    exact .someLast ready since
      (compiles_branch (compiles_statements derives body regular ready) ready since success)

end

end Sound

theorem derives_library (setting : Setting) (depth : Nat) :
    Derives setting depth (library setting depth) := by
  induction depth with
  | zero =>
    intro name scope start after code _ success
    exact absurd success object_ne_ok
  | succ depth ih =>
    intro name scope start after code ready success
    unfold library at success
    simp only [bind_ok, tree_ok] at success
    obtain ⟨_, _, ⟨rfl, rfl⟩, success⟩ := success
    split at success
    · rename_i known
      rw [pure_ok] at success
      obtain ⟨rfl, rfl⟩ := success
      exact .knownLibrary ready known
    · rename_i fresh
      simp only [bind_ok, libraryFile_ok, ofExcept_ok, whileIncluding_ok, programIn, inFile_ok,
        libraryScope_apply, Prod.mk.injEq, Except.ok.injEq] at success
      obtain ⟨path, _, ⟨rfl, found, apart⟩, text, _, ⟨loaded, rfl⟩, _, _, ⟨rfl, rfl⟩, program, _,
        ⟨read, rfl⟩, _, ⟨_, inner, rfl⟩, rfl⟩ := success
      have body := compiles_statements ih program.statements (Program.regular_ofSource read).2
        (ready.inLibrary name path program.file) inner
      have done := Compiles.newLibrary ready (by simpa only [Bool.not_eq_true] using fresh)
        found apart loaded read body
      exact done

theorem Compiles.of_statements {spelling : Spelling} {source : List Statement}
    {start after : Session} {code : List Instruction}
    (regular : Statement.AllRegular spelling source)
    (ready : Ready scope start)
    (success : statements (library setting depth) scope source start = (.ok code, after)) :
    Compiles setting depth scope (.statements source code) start after :=
  compiles_statements (derives_library setting depth) source regular ready success

end Compile

end Treecode
