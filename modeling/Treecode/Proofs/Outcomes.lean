import Treecode.Proofs.Soundness
import Treecode.Proofs.ScopeTurns

set_option autoImplicit false

namespace Treecode

mutual

/-- The parameters of the functions that a statement defines at any depth, function by function. -/
def Statement.parameterLists : Statement → List (List Parameter)
  | .define _ params _ body => params :: body.parameterLists
  | .ifElse _ _ body elifs otherwise =>
    body.parameterLists ++ Clause.allParameterLists elifs ++
      LastClause.optionParameterLists otherwise
  | .whileLoop _ _ body | .foreach _ _ body => body.parameterLists
  | .switch _ _ cases default =>
    Clause.allParameterLists cases ++ LastClause.optionParameterLists default
  | .block body => body.parameterLists
  | _ => []

def Block.parameterLists : Block → List (List Parameter)
  | .mk _ body => Statement.allParameterLists body

def Statement.allParameterLists : List Statement → List (List Parameter)
  | [] => []
  | first :: rest => first.parameterLists ++ Statement.allParameterLists rest

def Clause.parameterLists : Clause → List (List Parameter)
  | .mk _ _ body => body.parameterLists

def Clause.allParameterLists : List Clause → List (List Parameter)
  | [] => []
  | first :: rest => first.parameterLists ++ Clause.allParameterLists rest

def LastClause.parameterLists : LastClause → List (List Parameter)
  | .mk _ body => body.parameterLists

def LastClause.optionParameterLists : Option LastClause → List (List Parameter)
  | none => []
  | some clause => clause.parameterLists

def FunctionBody.parameterLists : FunctionBody → List (List Parameter)
  | .block body => body.parameterLists
  | .external _ _ => []

end

namespace Compile

open Step ScopeTree

variable {setting : Setting} {sort : List Parameter → Prop} {move : Position → Position}
  {scope : Nat} {mode : Option (List Variable)} {origin start after : Session}

theorem checks_requireVariable {name : Token} (still : name.moved move = name) :
    Checks move (requireVariable scope name) :=
  .bind (.tree fun _ => .pure _) fun _ => .ite (.pure _) (.object still _)

theorem checks_requireFunction {name : Token} (still : name.moved move = name) :
    Checks move (requireFunction scope name) :=
  .tree fun _ => .ite (.pure _) (.object still _)

mutual

/-- An expression that declares nothing changes nothing, and fails at one of its tokens. -/
theorem checks_expression (e : Expression) (still : e.moved move = e) :
    Checks move (expression scope false e) := by
  cases e with
  | plain name =>
    rw [Expression.moved, Expression.plain.injEq] at still
    exact (checks_requireVariable still).bind fun _ => .pure _
  | indexed name index =>
    rw [Expression.moved, Expression.indexed.injEq] at still
    exact (checks_requireVariable still.1).bind fun _ =>
      (checks_expressions index still.2).bind fun _ => .pure _
  | call name args =>
    rw [Expression.moved, Expression.call.injEq] at still
    exact (checks_requireFunction still.1).bind fun _ =>
      (checks_expressions args still.2).bind fun _ => .pure _
  | indexedCall name index args =>
    rw [Expression.moved, Expression.indexedCall.injEq] at still
    exact .object still.1 _
  | literal token value => exact .pure _
  | unary operator operand =>
    rw [Expression.moved, Expression.unary.injEq] at still
    rw [expression]
    split
    · exact .object still.1 _
    · exact (checks_expression operand still.2).bind fun _ => .pure _
  | binary operator left right =>
    rw [Expression.moved, Expression.binary.injEq] at still
    rw [expression]
    split
    · exact .object still.1 _
    · exact (checks_expression left still.2.1).bind fun _ =>
        (checks_expression right still.2.2).bind fun _ => .pure _
  | isType word operand target =>
    rw [Expression.moved, Expression.isType.injEq] at still
    exact (checks_expression operand still.2.1).bind fun _ => .pure _
  | typeOf word operand =>
    rw [Expression.moved, Expression.typeOf.injEq] at still
    exact (checks_expression operand still.2).bind fun _ => .pure _

theorem checks_expressions (list : List Expression) (still : Expression.allMoved move list = list) :
    Checks move (expressions scope list) := by
  cases list with
  | nil => exact .pure _
  | cons first rest =>
    rw [Expression.allMoved, List.cons.injEq] at still
    exact (checks_expression first still.1).bind fun _ =>
      (checks_expressions rest still.2).bind fun _ => .pure _

end

/-- A list of expressions as it stands in a statement. -/
theorem checks_list {list : List Expression} (still : list.map (Expression.moved move) = list) :
    Checks move (expressions scope list) :=
  checks_expressions list ((Expression.allMoved_eq move list).trans still)

theorem turns_declareIfNew (name : String) :
    Turns setting sort move scope origin none (declareIfNew scope name) fun _ => none := by
  intro start turned
  rw [declareIfNew_apply]
  split
  · exact turned
  · rename_i unseen
    exact turned.withTree (.declare rfl (Bool.eq_false_iff.2 unseen) rfl)

theorem turns_expression (mayDeclare : Bool) (e : Expression) (still : e.moved move = e) :
    Turns setting sort move scope origin none (expression scope mayDeclare e) fun _ => none := by
  cases mayDeclare with
  | false => exact (checks_expression e still).turns
  | true =>
    cases e with
    | plain name => exact (turns_declareIfNew name.text).bind fun _ => .pure rfl
    | binary operator left right =>
      rw [Expression.moved, Expression.binary.injEq] at still
      rw [expression]
      split
      · exact Turns.object still.1 _
      · exact (turns_expression true left still.2.1).bind fun _ =>
          (turns_expression true right still.2.2).map
    | _ => exact (checks_expression _ still : Checks move (expression scope false _)).turns

theorem turns_optionalExpression (mayDeclare : Bool) {e : Option Expression}
    (still : e.map (Expression.moved move) = e) :
    Turns setting sort move scope origin none (optionalExpression scope mayDeclare e) fun _ =>
      none := by
  cases e with
  | none => exact .pure rfl
  | some e => exact (turns_expression mayDeclare e (Option.some.inj still)).map

theorem checks_assignedName {name : Token} (still : name.moved move = name) (constant : Bool) :
    Checks move (assignedName scope name constant) := by
  refine .tree fun tree => ?_
  split
  · exact .pure _
  · exact .ite (.object still _) (.ite (.object still _) (.pure _))

theorem checks_assignedOperation {operator : Token} (still : operator.moved move = operator) :
    Checks move (assignedOperation operator) := by
  unfold assignedOperation
  split
  · exact .pure _
  · split
    · exact .pure _
    · exact .object still _

theorem checks_checkOperation {operator : Token} (still : operator.moved move = operator)
    (operation : Option Opcode) (append isNew : Bool) (name : String) :
    Checks move (checkOperation operation operator append isNew name) := by
  unfold checkOperation
  split
  · exact .ite (.object still _) (.ite (.object still _) (.pure _))
  · exact .pure _

/-- A new variable belongs to the scope of its assignment, and none of its keys is known. -/
theorem newVariable_fresh (scope : Nat) (name : String) (constant : Bool) (value : Expression) :
    (newVariable scope name constant value).scope = scope ∧
      (newVariable scope name constant value).name = name ∧
      (newVariable scope name constant value).index = [] := by
  unfold newVariable
  split <;> exact ⟨rfl, rfl, rfl⟩

theorem turns_storing {target value : Expression} (stillTarget : target.moved move = target)
    (stillValue : value.moved move = value) (append isNew : Bool) (operation : Option Opcode) :
    Turns setting sort move scope origin none (storing scope target value append isNew operation)
      fun _ => none := by
  refine (Turns.checking (checks_expression target stillTarget)) fun _ => ?_
  refine (Turns.checking (checks_expression value stillValue)) fun _ => ?_
  exact (Turns.changeTree fun _ _ => .store).map

theorem turns_assignment {target : Expression} {operator : Token} {value : Expression}
    (stillTarget : target.moved move = target) (stillOperator : operator.moved move = operator)
    (stillValue : value.moved move = value) (append constant : Bool) :
    Turns setting sort move scope origin none
      (assignment scope target operator value append constant) fun _ => none := by
  have stillName : target.token.moved move = target.token := by
    rw [← Expression.token_moved, stillTarget]
  intro start turned
  refine (checks_assignedName stillName constant).outcome turned fun isNew named => ?_
  obtain ⟨_, unseen, _⟩ := assignedName_ok.1 named
  refine (checks_assignedOperation stillOperator).outcome turned fun operation _ => ?_
  refine (checks_checkOperation stillOperator operation append isNew _).outcome turned fun _ _ => ?_
  have stores : Turns setting sort move scope origin none
    (storing scope target value append isNew operation)
      fun _ => none := turns_storing stillTarget stillValue append isNew operation
  cases isNew with
  | false => exact stores start turned
  | true =>
    obtain ⟨owned, titled, keyless⟩ := newVariable_fresh scope target.token.text constant value
    have unseen : start.tree.sees scope target.token.text = false := by
      simpa using unseen
    exact stores _ (turned.withTree (.declare owned (titled.symm ▸ unseen) keyless))

theorem turns_selection {fields : List Field} {source : Expression} {filter : Option Expression}
    {target : Expression} (stillSource : source.moved move = source)
    (stillFilter : filter.map (Expression.moved move) = filter)
    (stillTarget : target.moved move = target)
    (distinct merge : Bool) :
    Turns setting sort move scope origin none
      (selection scope distinct fields source filter merge target) fun _ => none :=
  (turns_expression false source stillSource).bind fun _ =>
    (turns_optionalExpression true stillFilter).bind fun _ =>
      (turns_expression true target stillTarget).map

/-- What a piece of source asks of its functions and of the libraries that it includes: the
functions are of the sort, and to include a library takes turns. -/
structure Proper (setting : Setting) (sort : List Parameter → Prop) (move : Position → Position)
    (includeOne : Including) (functions : List (List Parameter)) (libraries : List Token) :
    Prop where
  fits : ∀ params ∈ functions, sort params
  includes : ∀ name ∈ libraries, name.moved move = name → ∀ scope origin,
    Turns setting sort move scope origin none (includeOne name scope) fun _ => none

section Pieces

variable {includeOne : Including}

theorem Proper.left {functions functions' : List (List Parameter)}
    {libraries libraries' : List Token}
    (proper : Proper setting sort move includeOne (functions ++ functions')
      (libraries ++ libraries')) :
    Proper setting sort move includeOne functions libraries :=
  ⟨fun params member => proper.fits params (List.mem_append_left _ member),
    fun name member => proper.includes name (List.mem_append_left _ member)⟩

theorem Proper.right {functions functions' : List (List Parameter)}
    {libraries libraries' : List Token}
    (proper : Proper setting sort move includeOne (functions ++ functions')
      (libraries ++ libraries')) :
    Proper setting sort move includeOne functions' libraries' :=
  ⟨fun params member => proper.fits params (List.mem_append_right _ member),
    fun name member => proper.includes name (List.mem_append_right _ member)⟩

theorem turns_inclusion {names : List Token} (still : names.map (Token.moved move) = names)
    (proper : Proper setting sort move includeOne [] names) :
    Turns setting sort move scope origin none (inclusion includeOne scope names) fun _ => none := by
  induction names with
  | nil => exact .pure rfl
  | cons name rest ih =>
    rw [List.map_cons, List.cons.injEq] at still
    refine (proper.includes name (List.mem_cons_self ..) still.1 scope origin).bind fun _ => ?_
    exact (ih still.2 ⟨nofun, fun other member =>
      proper.includes other (List.mem_cons_of_mem _ member)⟩).map

mutual

theorem turns_statement (source : Statement) (still : source.moved move = source)
    (proper : Proper setting sort move includeOne source.parameterLists source.included)
    (scope : Nat) (origin : Session) :
    Turns setting sort move scope origin none (statement includeOne scope source) fun _ =>
      none := by
  cases source with
  | assign target operator value append constant =>
    rw [Statement.moved, Statement.assign.injEq] at still
    rw [statement]
    exact turns_assignment still.1 still.2.1 still.2.2.1 append constant
  | define name params result body =>
    rw [Statement.moved, Statement.define.injEq] at still
    have fit := proper.fits params (List.mem_cons_self ..)
    cases body with
    | block body =>
      have inner : Proper setting sort move includeOne body.parameterLists body.included :=
        ⟨fun other member => proper.fits other (List.mem_cons_of_mem _ member), proper.includes⟩
      have stillBody := still.2.2.2
      rw [FunctionBody.moved, FunctionBody.block.injEq] at stillBody
      unfold statement functionBody
      refine Turns.function
        (fun child => do
          return .define name.text (params.map (·.name.text)) (← block includeOne child body))
        (fun definition => [definition]) fit fun start ready => ?_
      exact (turns_block body stillBody inner _ _).map
    | external module function =>
      unfold statement functionBody
      exact Turns.external fit
  | ifElse word condition body elifs otherwise =>
    rw [Statement.moved, Statement.ifElse.injEq] at still
    obtain ⟨_, stillCondition, stillBody, stillElifs, stillLast⟩ := still
    unfold statement
    refine Turns.checking (checks_expression condition stillCondition) fun _ => ?_
    apply Turns.opening
    intro start ready
    refine (Turns.branch fun next ready =>
      turns_block body stillBody proper.left.left scope next).bind ?_
    rintro ⟨bodyCode, declared⟩
    refine (turns_elifs elifs stillElifs proper.left.right scope start declared).bind ?_
    rintro ⟨elifCode, declared'⟩
    refine (turns_last otherwise stillLast proper.right scope start declared').bind ?_
    rintro ⟨lastCode, declared''⟩
    exact Turns.joined
  | whileLoop word condition body =>
    rw [Statement.moved, Statement.whileLoop.injEq] at still
    unfold statement
    refine Turns.checking (checks_expression condition still.2.1) fun _ => ?_
    exact (turns_block body still.2.2 proper _ _).map
  | foreach word iterable body =>
    rw [Statement.moved, Statement.foreach.injEq] at still
    unfold statement
    refine Turns.checking (checks_expression iterable still.2.1) fun _ => ?_
    exact (Turns.loop (fun child => block includeOne child body) fun start ready =>
      turns_block body still.2.2 proper start.tree.size (start.loop scope)).map
  | switch word head cases default =>
    rw [Statement.moved, Statement.switch.injEq] at still
    obtain ⟨_, stillHead, stillCases, stillLast⟩ := still
    unfold statement
    refine Turns.checking (checks_expression head stillHead) fun _ => ?_
    apply Turns.opening
    intro start ready
    refine (turns_cases cases stillCases proper.left scope start [] []).bind ?_
    rintro ⟨caseCode, declared⟩
    refine (turns_last default stillLast proper.right scope start declared).bind ?_
    rintro ⟨lastCode, declared'⟩
    exact Turns.joined
  | breakLoop word =>
    rw [statement]
    exact .pure rfl
  | continueLoop word =>
    rw [statement]
    exact .pure rfl
  | returnValue word value =>
    rw [Statement.moved, Statement.returnValue.injEq] at still
    rw [statement]
    exact (turns_optionalExpression false still.2).map
  | halt word value =>
    rw [Statement.moved, Statement.halt.injEq] at still
    rw [statement]
    exact (turns_optionalExpression false still.2).map
  | print word args =>
    rw [Statement.moved, Statement.print.injEq] at still
    rw [statement]
    exact Turns.checking (checks_list still.2) fun _ => .pure rfl
  | includes word libraries =>
    rw [Statement.moved, Statement.includes.injEq] at still
    rw [statement]
    exact turns_inclusion still.2 proper
  | select word distinct fields source filter merge target =>
    rw [Statement.moved, Statement.select.injEq] at still
    obtain ⟨_, _, _, stillSource, stillFilter, _, stillTarget⟩ := still
    rw [statement]
    exact (turns_selection stillSource stillFilter stillTarget distinct merge).map
  | call name args =>
    rw [Statement.moved, Statement.call.injEq] at still
    rw [statement]
    refine Turns.checking (checks_requireFunction still.1) fun _ => ?_
    exact Turns.checking (checks_list still.2) fun _ => .pure rfl
  | indexedCall name index args =>
    rw [Statement.moved, Statement.indexedCall.injEq] at still
    rw [statement]
    exact Turns.object still.1 _
  | block body =>
    rw [Statement.moved, Statement.block.injEq] at still
    rw [statement]
    exact turns_block body still proper _ _

theorem turns_block (body : Block) (still : body.moved move = body)
    (proper : Proper setting sort move includeOne body.parameterLists body.included)
    (scope : Nat) (origin : Session) :
    Turns setting sort move scope origin none (block includeOne scope body) fun _ => none := by
  cases body with
  | mk brace source =>
    rw [Block.moved, Block.mk.injEq] at still
    rw [block]
    exact turns_statements source still.2 proper scope origin

theorem turns_statements (source : List Statement) (still : Statement.allMoved move source = source)
    (proper : Proper setting sort move includeOne (Statement.allParameterLists source)
      (Statement.allIncluded source)) (scope : Nat) (origin : Session) :
    Turns setting sort move scope origin none (statements includeOne scope source) fun _ =>
      none := by
  cases source with
  | nil =>
    rw [statements]
    exact .pure rfl
  | cons first rest =>
    rw [Statement.allMoved, List.cons.injEq] at still
    rw [statements]
    exact (turns_statement first still.1 proper.left scope origin).bind fun _ =>
      (turns_statements rest still.2 proper.right scope origin).map

theorem turns_elifs (source : List Clause) (still : Clause.allMoved move source = source)
    (proper : Proper setting sort move includeOne (Clause.allParameterLists source)
      (Clause.allIncluded source)) (scope : Nat) (origin : Session) (declared : List Variable) :
    Turns setting sort move scope origin (some declared)
      (elifClauses includeOne scope (origin.tree.variableCount scope) declared source)
      fun result => some result.2 := by
  cases source with
  | nil =>
    rw [elifClauses]
    exact .pure rfl
  | cons first rest =>
    obtain ⟨word, condition, body⟩ := first
    rw [Clause.allMoved, List.cons.injEq, Clause.moved, Clause.mk.injEq] at still
    rw [elifClauses]
    refine Turns.checking (checks_expression condition still.1.2.1) fun _ => ?_
    refine (Turns.branch fun next ready => turns_block body still.1.2.2 proper.left scope next).bind
      ?_
    rintro ⟨bodyCode, declared'⟩
    refine (turns_elifs rest still.2 proper.right scope origin declared').bind ?_
    rintro ⟨others, declared''⟩
    exact .pure rfl

theorem turns_cases (source : List Clause) (still : Clause.allMoved move source = source)
    (proper : Proper setting sort move includeOne (Clause.allParameterLists source)
      (Clause.allIncluded source)) (scope : Nat) (origin : Session) (declared : List Variable)
      (labels : List Value) :
    Turns setting sort move scope origin (some declared)
      (caseClauses includeOne scope (origin.tree.variableCount scope) declared labels source)
      fun result => some result.2 := by
  cases source with
  | nil =>
    rw [caseClauses]
    exact .pure rfl
  | cons first rest =>
    obtain ⟨word, guard, body⟩ := first
    rw [Clause.allMoved, List.cons.injEq, Clause.moved, Clause.mk.injEq] at still
    have stillGuard : guard.token.moved move = guard.token := by
      rw [← Expression.token_moved, still.1.2.1]
    cases guard with
    | literal token label =>
      unfold caseClauses
      dsimp only
      split
      · exact Turns.object still.1.1 _
      · refine (Turns.branch fun next ready =>
          turns_block body still.1.2.2 proper.left scope next).bind ?_
        rintro ⟨bodyCode, declared'⟩
        refine (turns_cases rest still.2 proper.right scope origin declared'
          (labels ++ [label])).bind ?_
        rintro ⟨others, declared''⟩
        exact .pure rfl
    | _ =>
      unfold caseClauses
      exact Turns.object stillGuard _

theorem turns_last (source : Option LastClause)
    (still : LastClause.optionMoved move source = source)
    (proper : Proper setting sort move includeOne (LastClause.optionParameterLists source)
      (LastClause.optionIncluded source)) (scope : Nat) (origin : Session)
      (declared : List Variable) :
    Turns setting sort move scope origin (some declared)
      (lastClause includeOne scope (origin.tree.variableCount scope) declared source)
      fun result => some result.2 := by
  cases source with
  | none =>
    rw [lastClause]
    exact .pure rfl
  | some clause =>
    obtain ⟨word, body⟩ := clause
    rw [LastClause.optionMoved, Option.some.injEq, LastClause.moved, LastClause.mk.injEq] at still
    rw [lastClause]
    exact Turns.branch fun next ready => turns_block body still.2 proper scope next

end

end Pieces

/-- All functions of a program and of the libraries that it uses are of the sort. -/
def AllFit (setting : Setting) (sort : List Parameter → Prop) (program : Program) : Prop :=
  ∀ used, Uses setting program used → ∀ params ∈ Statement.allParameterLists used.statements,
    sort params

/-- To find the file of a library changes nothing, and fails at its name. -/
theorem checks_libraryFile {name : Token} (still : name.moved move = name) :
    Checks move (libraryFile setting name) := by
  have stillPlace : move name.position = name.position := congrArg Token.position still
  unfold libraryFile
  split
  · intro start
    refine ⟨rfl, fun error failed => ?_⟩
    cases failed
    exact ⟨name.position, rfl, stillPlace, rfl⟩
  · rename_i path _
    intro start
    have either : Checks move (if start.including.any (Path.same path) then
        object name (.circularInclude name.text) else pure path : Step String) :=
      .ite (.object still _) (.pure _)
    exact either start

/-- A library is opened from the time its scope is made. -/
theorem opened_withLibrary {name : String} {path text : String} {tree : ScopeTree}
    (inside : scope < start.tree.size)
    (growth : Grows start.tree.size (start.tree.withLibrary scope name) tree)
    (found : Library.find? setting.files setting.searchPath name = some path)
    (loaded : Library.load setting.files path = .ok text) : Opened setting tree path text := by
  have encloses : Encloses scope { Scope.fresh name (some scope) with isLibrary := true } start.tree
      (start.tree.withLibrary scope name) := encloses_withLibrary inside
  have named : (tree.get start.tree.size).name = name := encloses.name_after growth
  exact ⟨start.tree.size, (encloses.new_after growth).2.1, named.symm ▸ found, loaded⟩

/-- What comes of the statements of a library, seen from the scope that includes it: an error that
blames a token of the library's text blames what is read from an opened library. -/
theorem outcome_inLibrary {α : Type} {name : Token} {path text : String} {program : Program}
    {tokens : List Token} {result : Except Error α} (ready : Ready scope start)
    (fresh : start.tree.hasLibrary scope name.text = false)
    (found : Library.find? setting.files setting.searchPath name.text = some path)
    (loaded : Library.load setting.files path = .ok text)
    (success : tokenize text path = .ok tokens)
    (named : program.file = path)
    (inner : Outcome setting sort (leavingTokens tokens) start.tree.size
      (start.inLibrary scope name path program.file) (fun _ => none) (result, after)) :
    Outcome setting sort move scope start (fun _ => none)
      (result, ⟨after.tree, start.file, after.including.tail⟩) := by
  have arrived : Turned sort start.tree.size none
      (start.inLibrary scope name path program.file) after := by
    cases result with
    | ok a => exact inner
    | error error => exact inner.1
  have turned : Turned sort scope none start ⟨after.tree, start.file, after.including.tail⟩ := by
    refine ⟨ready, .library fresh arrived.changes, rfl, ?_⟩
    rw [arrived.including]
    rfl
  cases result with
  | ok a => exact turned
  | error error =>
    refine ⟨turned, ?_⟩
    have growth := (arrived.changes.contained arrived.ready.inside arrived.ready.ordered).growth
    have opened := opened_withLibrary ready.inside growth found loaded
    cases inner.2 with
    | nothing unlocated => exact .nothing unlocated
    | library opened' into => exact .library opened' into
    | @token p located still read =>
      refine .library opened fun place located' => ?_
      obtain rfl : _ = place := Option.some.inj (located.symm.trans located')
      obtain ⟨token, member, same⟩ := List.mem_map.1 (Position.leaving_eq.1 still)
      exact pointsInto_of_token success named
        ⟨token, member, congrArg Position.line same, congrArg Position.column same⟩

/-- The statements of a library are compiled in its scope, and after them the file and the libraries
under way are those of before. -/
theorem inLibrary_apply {includeOne : Including} {name : Token} {path : String} {program : Program}
    {result : Except Error (List Instruction)}
    (ran : statements includeOne start.tree.size program.statements
      (start.inLibrary scope name path program.file) = (result, after)) :
    whileIncluding path (programIn includeOne start.tree.size program)
        (start.withTree (start.tree.withLibrary scope name.text)) =
      (result, ⟨after.tree, start.file, after.including.tail⟩) := by
  unfold Session.inLibrary at ran
  unfold whileIncluding programIn inFile Session.withTree
  dsimp only
  rw [ran]

/-- An include takes turns, down to any depth. -/
theorem turns_library (depth : Nat) (move : Position → Position) (name : Token)
    (still : name.moved move = name)
    (fits : ∀ program, Loads setting name.text program → AllFit setting sort program)
    (scope : Nat) (origin : Session) :
    Turns setting sort move scope origin none (library setting depth name scope) fun _ => none := by
  induction depth generalizing move name scope origin with
  | zero => exact .object still _
  | succ depth ih =>
    intro start turned
    refine Outcome.of_arrived turned ?_
    have ready := turned.arrived
    show Outcome setting sort move scope start (fun _ => none)
      ((if start.tree.hasLibrary scope name.text then pure [] else _ :
        Step (List Instruction)) start)
    split
    · exact .refl ready
    · rename_i unknown
      have fresh : start.tree.hasLibrary scope name.text = false := Bool.eq_false_iff.2 unknown
      refine (checks_libraryFile still).outcome (.refl ready) fun path under => ?_
      obtain ⟨_, found, _⟩ := libraryFile_ok.1 under
      rw [bind_apply]
      cases loaded : Library.load setting.files path with
      | error error =>
        refine ⟨.refl ready, .nothing ?_⟩
        unfold Library.load at loaded
        split at loaded
        · cases loaded
        · cases loaded
          rfl
      | ok text =>
        dsimp only [Step.ofExcept]
        rw [bind_apply, libraryScope_apply]
        dsimp only
        rw [bind_apply]
        cases read : Program.ofSource text path with
        | error error =>
          have opened := opened_withLibrary ready.inside (.refl _ _) found loaded
          exact ⟨⟨ready, .library fresh .refl, rfl, rfl⟩,
            .library opened fun place located => pointsInto_ofSource read located⟩
        | ok program =>
          obtain ⟨tokens, success⟩ : ∃ tokens, tokenize text path = .ok tokens := by
            cases success : tokenize text path with
            | ok tokens => exact ⟨tokens, rfl⟩
            | error error =>
              unfold Program.ofSource at read
              rw [success] at read
              cases read
          obtain ⟨named, stillAll⟩ := moved_ofSource success read
          have loads : Loads setting name.text program := ⟨path, text, found, loaded, read⟩
          have proper : Proper setting sort (leavingTokens tokens) (library setting depth)
              (Statement.allParameterLists program.statements)
                  (Statement.allIncluded program.statements) := by
            refine ⟨fits program loads program .refl, fun other member still' scope origin => ?_⟩
            refine ih _ other still' (fun library loads' used uses => ?_) scope origin
            exact fits program loads used (.head ⟨other, member, loads'⟩ uses)
          have ready' := ready.inLibrary name path program.file
          have inner := turns_statements program.statements stillAll proper start.tree.size
            (start.inLibrary scope name path program.file) _ (.refl ready')
          cases ran : statements (library setting depth) start.tree.size program.statements
              (start.inLibrary scope name path program.file) with
          | mk result after =>
            rw [ran] at inner
            dsimp only [Step.ofExcept]
            rw [inLibrary_apply ran]
            exact outcome_inLibrary ready fresh found loaded success named inner

end Compile

end Treecode
