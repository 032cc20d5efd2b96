import Treecode.Compile.Programs
import Treecode.Proofs.StatementMovement
import Treecode.Proofs.Tiling

set_option autoImplicit false

namespace Treecode

def Location.unplaced (place : Location) : Location := ⟨place.file, 0, 0⟩

/-- An error without the line and the column that it points at. -/
def Error.unplaced : Error → Error
  | .unreadable path fault => .unreadable path fault
  | .libraryNotFound name place => .libraryNotFound name place.unplaced
  | .lexical place fault snippet => .lexical place.unplaced fault snippet
  | .unexpected place found text expected => .unexpected place.unplaced found text expected
  | .rejected place objection => .rejected place.unplaced objection
  | .unknownOpcode name => .unknownOpcode name

namespace Compile

open Step

variable {α β : Type}

/-- Two steps change a session alike and yield the same, or fail alike but for the line and the
column. -/
def Corresponds (one other : Step α) : Prop :=
  ∀ start, (one start).2 = (other start).2 ∧
    (one start).1.mapError Error.unplaced = (other start).1.mapError Error.unplaced

namespace Corresponds

theorem refl (step : Step α) : Corresponds step step := fun _ => ⟨rfl, rfl⟩

theorem object (move : Position → Position) (token : Token) (objection : Objection) :
    Corresponds (Step.object token objection : Step α) (Step.object (token.moved move) objection) :=
  fun _ => ⟨rfl, rfl⟩

theorem bind {one other : Step α} {next next' : α → Step β} (first : Corresponds one other)
    (last : ∀ a, Corresponds (next a) (next' a)) :
    Corresponds (one >>= next) (other >>= next') := by
  intro start
  obtain ⟨session, result⟩ := first start
  rw [bind_apply, bind_apply]
  cases outcome : one start with
  | mk yield after =>
    cases outcome' : other start with
    | mk yield' after' =>
      rw [outcome, outcome'] at session result
      dsimp only at session result
      subst session
      cases yield with
      | ok a =>
        cases yield' with
        | ok a' =>
          cases result
          exact last a after
        | error error' => cases result
      | error error =>
        cases yield' with
        | ok a' => cases result
        | error error' =>
          refine ⟨rfl, ?_⟩
          exact congrArg Except.error (Except.error.inj result)

theorem after (step : Step α) {next next' : α → Step β}
    (last : ∀ a, Corresponds (next a) (next' a)) : Corresponds (step >>= next) (step >>= next') :=
  (refl step).bind last

/-- Corresponding steps whose results are put to the same use. -/
theorem map {one other : Step α} {f : α → Step β} (first : Corresponds one other) :
    Corresponds (one >>= f) (other >>= f) :=
  first.bind fun a => refl (f a)

theorem inFile (file : String) {one other : Step α} (inner : Corresponds one other) :
    Corresponds (Step.inFile file one) (Step.inFile file other) := by
  intro start
  obtain ⟨session, result⟩ := inner { start with file }
  refine ⟨?_, result⟩
  unfold Step.inFile
  dsimp only
  rw [session]

theorem inScope (scope : Nat) (title : String) {one other : Nat → Step α}
    (inner : ∀ child, Corresponds (one child) (other child)) :
    Corresponds (Step.inScope scope title one) (Step.inScope scope title other) := by
  intro start
  obtain ⟨session, result⟩ :=
    inner start.tree.size { start with tree := start.tree.newChild scope title }
  refine ⟨?_, result⟩
  unfold Step.inScope
  dsimp only
  rw [session]

theorem branch (scope mark : Nat) (declared : List Variable) {one other : Step α}
    (inner : Corresponds one other) :
    Corresponds (branch scope mark declared one) (branch scope mark declared other) := inner.map

end Corresponds

variable (move : Position → Position) {scope : Nat}

theorem corresponds_requireVariable (name : Token) :
    Corresponds (requireVariable scope name) (requireVariable scope (name.moved move)) := by
  refine .after _ fun declared => ?_
  split
  · exact .refl _
  · exact .object move name _

theorem corresponds_requireFunction (name : Token) :
    Corresponds (requireFunction scope name) (requireFunction scope (name.moved move)) := by
  refine .after _ fun tree => ?_
  rw [Token.text_moved]
  split
  · exact .refl _
  · exact .object move name _

mutual

theorem corresponds_expression (mayDeclare : Bool) (e : Expression) :
    Corresponds (expression scope mayDeclare e) (expression scope mayDeclare (e.moved move)) := by
  cases e with
  | plain name =>
    simp only [Expression.moved, expression, Token.text_moved]
    split
    · exact .refl _
    · exact (corresponds_requireVariable move name).map
  | indexed name index =>
    simp only [Expression.moved, expression, Token.text_moved]
    exact (corresponds_requireVariable move name).bind fun _ => (corresponds_expressions index).map
  | call name args =>
    simp only [Expression.moved, expression, Token.text_moved]
    exact (corresponds_requireFunction move name).bind fun _ => (corresponds_expressions args).map
  | indexedCall name index args =>
    simp only [Expression.moved, expression]
    exact .object move name _
  | literal token value =>
    simp only [Expression.moved, expression]
    exact .refl _
  | unary operator operand =>
    simp only [Expression.moved, expression, Token.kind_moved, Token.text_moved]
    split
    · exact .object move operator _
    · exact (corresponds_expression false operand).map
  | binary operator left right =>
    simp only [Expression.moved, expression, Token.kind_moved, Token.text_moved]
    split
    · exact .object move operator _
    · exact (corresponds_expression mayDeclare left).bind fun _ =>
        (corresponds_expression mayDeclare right).map
  | isType word operand target =>
    simp only [Expression.moved, expression]
    exact (corresponds_expression false operand).map
  | typeOf word operand =>
    simp only [Expression.moved, expression]
    exact (corresponds_expression false operand).map

theorem corresponds_expressions (list : List Expression) :
    Corresponds (expressions scope list) (expressions scope (Expression.allMoved move list)) := by
  cases list with
  | nil => exact .refl _
  | cons first rest =>
    simp only [Expression.allMoved, expressions]
    exact (corresponds_expression false first).bind fun _ => (corresponds_expressions rest).map

end

theorem corresponds_list (list : List Expression) :
    Corresponds (expressions scope list)
      (expressions scope (list.map (Expression.moved move))) := by
  rw [← Expression.allMoved_eq]
  exact corresponds_expressions move list

theorem corresponds_optionalExpression (mayDeclare : Bool) (e : Option Expression) :
    Corresponds (optionalExpression scope mayDeclare e)
      (optionalExpression scope mayDeclare (e.map (Expression.moved move))) := by
  cases e with
  | none => exact .refl _
  | some e => exact (corresponds_expression move mayDeclare e).map

theorem corresponds_assignedName (name : Token) (constant : Bool) :
    Corresponds (assignedName scope name constant)
      (assignedName scope (name.moved move) constant) := by
  refine .after _ fun tree => ?_
  rw [Token.text_moved]
  split
  · exact .refl _
  · split
    · exact .object move name _
    · split
      · exact .object move name _
      · exact .refl _

theorem corresponds_assignedOperation (operator : Token) :
    Corresponds (assignedOperation operator) (assignedOperation (operator.moved move)) := by
  unfold assignedOperation
  rw [Token.kind_moved, Token.text_moved]
  split
  · exact .refl _
  · split
    · exact .refl _
    · exact .object move operator _

theorem corresponds_checkOperation (operation : Option Opcode) (operator : Token)
    (append isNew : Bool) (name : String) :
    Corresponds (checkOperation operation operator append isNew name)
      (checkOperation operation (operator.moved move) append isNew name) := by
  unfold checkOperation
  rw [Token.text_moved]
  split
  · split
    · exact .object move operator _
    · split
      · exact .object move operator _
      · exact .refl _
  · exact .refl _

/-- A declaration depends on what is stored, not on where it stands. -/
theorem newVariable_moved (name : String) (constant : Bool) (value : Expression) :
    newVariable scope name constant (value.moved move) = newVariable scope name constant value := by
  cases value <;> rfl

theorem storeKeys_moved (target : Expression) (append : Bool) :
    storeKeys (target.moved move) append = storeKeys target append := by
  funext known
  cases target with
  | indexed name index =>
    simp only [Expression.moved, storeKeys, Expression.allMoved_eq, List.foldl_map]
    congr 1
    funext v key
    cases key <;> rfl
  | _ => rfl

theorem recordKeys_moved (target : Expression) (append : Bool) :
    recordKeys scope (target.moved move) append = recordKeys scope target append := by
  unfold recordKeys
  rw [Expression.token_moved, Token.text_moved, storeKeys_moved]

theorem corresponds_assignment (target : Expression) (operator : Token) (value : Expression)
    (append constant : Bool) :
    Corresponds (assignment scope target operator value append constant)
      (assignment scope (target.moved move) (operator.moved move)
        (value.moved move) append constant) := by
  unfold assignment
  simp only [Expression.token_moved, Token.text_moved, newVariable_moved, recordKeys_moved]
  refine (corresponds_assignedName move target.token constant).bind fun isNew => ?_
  refine (corresponds_assignedOperation move operator).bind fun operation => ?_
  refine (corresponds_checkOperation move operation operator append isNew _).bind fun _ => ?_
  have stores : ∀ following : Instruction → Instruction → Step (List Instruction),
      Corresponds
        (do
          let targetCode ← expression scope false target
          let valueCode ← expression scope false value
          following targetCode valueCode)
        (do
          let targetCode ← expression scope false (target.moved move)
          let valueCode ← expression scope false (value.moved move)
          following targetCode valueCode) :=
    fun _ => (corresponds_expression move false target).bind fun _ =>
      (corresponds_expression move false value).map
  cases isNew with
  | true => exact .after _ fun _ => stores _
  | false => exact stores _

theorem corresponds_selection (distinct : Bool) (fields : List Field) (source : Expression)
    (filter : Option Expression) (merge : Bool) (target : Expression) :
    Corresponds (selection scope distinct fields source filter merge target)
      (selection scope distinct (fields.map (Field.moved move)) (source.moved move)
        (filter.map (Expression.moved move)) merge (target.moved move)) := by
  have names : (fields.map (Field.moved move)).map
    (fun field => (field.name.text, field.newName.map Token.text)) =
      fields.map fun field => (field.name.text, field.newName.map Token.text) := by
    rw [List.map_map]
    refine List.map_congr_left fun field _ => ?_
    simp only [Function.comp, Field.moved, Token.text_moved, Option.map_map]
    rfl
  unfold selection
  rw [names]
  exact (corresponds_expression move false source).bind fun _ =>
    (corresponds_optionalExpression move true filter).bind fun _ =>
      (corresponds_expression move true target).map

/-- The scope of a function depends on the texts of its names alone. -/
theorem functionScope_moved (name : Token) (params : List Parameter) :
    functionScope scope (name.moved move) (params.map (Parameter.moved move)) =
      functionScope scope name params := by
  unfold functionScope
  simp only [List.foldl_map]
  rfl

variable {includeOne : Including}

/-- A way of including that asks only for the text of a name. -/
def IncludesByText (move : Position → Position) (includeOne : Including) : Prop :=
  ∀ name scope, Corresponds (includeOne name scope) (includeOne (name.moved move) scope)

theorem corresponds_inclusion (includes : IncludesByText move includeOne) (names : List Token) :
    Corresponds (inclusion includeOne scope names)
      (inclusion includeOne scope (names.map (Token.moved move))) := by
  induction names with
  | nil => exact .refl _
  | cons name rest ih => exact (includes name scope).bind fun _ => ih.map

mutual

theorem corresponds_statement (includes : IncludesByText move includeOne) (source : Statement)
    (scope : Nat) :
    Corresponds (statement includeOne scope source)
      (statement includeOne scope (source.moved move)) := by
  cases source with
  | assign target operator value append constant =>
    simp only [Statement.moved, statement]
    exact corresponds_assignment move target operator value append constant
  | define name params result body =>
    have texts : (params.map (Parameter.moved move)).map (·.name.text) =
        params.map (·.name.text) := by
      rw [List.map_map]
      rfl
    simp only [Statement.moved, statement, functionScope_moved, texts, Token.text_moved]
    exact .after _ fun child => (corresponds_functionBody includes body child name.text _).map
  | ifElse word condition body elifs otherwise =>
    simp only [Statement.moved, statement]
    refine (corresponds_expression move false condition).bind fun _ => .after _ fun tree => ?_
    refine ((corresponds_block includes body scope).branch scope _ []).bind fun ⟨bodyCode,
      declared⟩ => ?_
    refine (corresponds_elifs includes elifs scope _ declared).bind fun ⟨elifCode, declared'⟩ => ?_
    exact (corresponds_last includes otherwise scope _ declared').map
  | whileLoop word condition body =>
    simp only [Statement.moved, statement]
    exact (corresponds_expression move false condition).bind fun _ =>
      (corresponds_block includes body scope).map
  | foreach word iterable body =>
    simp only [Statement.moved, statement]
    refine (corresponds_expression move false iterable).bind fun _ => ?_
    exact (Corresponds.inScope scope "foreach" fun child =>
      .after _ fun _ => corresponds_block includes body child).map
  | switch word head cases default =>
    simp only [Statement.moved, statement]
    refine (corresponds_expression move false head).bind fun _ => .after _ fun tree => ?_
    refine (corresponds_cases includes cases scope _ [] []).bind fun ⟨caseCode, declared⟩ => ?_
    exact (corresponds_last includes default scope _ declared).map
  | breakLoop word | continueLoop word =>
    simp only [Statement.moved, statement]
    exact .refl _
  | returnValue word value | halt word value =>
    simp only [Statement.moved, statement]
    exact (corresponds_optionalExpression move false value).map
  | print word args =>
    simp only [Statement.moved, statement]
    exact (corresponds_list move args).map
  | includes word libraries =>
    simp only [Statement.moved, statement]
    exact corresponds_inclusion move includes libraries
  | select word distinct fields source filter merge target =>
    simp only [Statement.moved, statement]
    exact (corresponds_selection move distinct fields source filter merge target).map
  | call name args =>
    simp only [Statement.moved, statement, Token.text_moved]
    exact (corresponds_requireFunction move name).bind fun _ => (corresponds_list move args).map
  | indexedCall name index args =>
    simp only [Statement.moved, statement]
    exact .object move name _
  | block body =>
    simp only [Statement.moved, statement]
    exact corresponds_block includes body scope

theorem corresponds_block (includes : IncludesByText move includeOne) (body : Block) (scope : Nat) :
    Corresponds (block includeOne scope body) (block includeOne scope (body.moved move)) := by
  cases body with
  | mk brace source =>
    simp only [Block.moved, block]
    exact corresponds_allMoved includes source scope

theorem corresponds_allMoved (includes : IncludesByText move includeOne) (source : List Statement)
    (scope : Nat) :
    Corresponds (statements includeOne scope source)
      (statements includeOne scope (Statement.allMoved move source)) := by
  cases source with
  | nil => exact .refl _
  | cons first rest =>
    simp only [Statement.allMoved, statements]
    exact (corresponds_statement includes first scope).bind fun _ =>
      (corresponds_allMoved includes rest scope).map

theorem corresponds_elifs (includes : IncludesByText move includeOne) (source : List Clause)
    (scope mark : Nat) (declared : List Variable) :
    Corresponds (elifClauses includeOne scope mark declared source)
      (elifClauses includeOne scope mark declared (Clause.allMoved move source)) := by
  cases source with
  | nil => exact .refl _
  | cons first rest =>
    obtain ⟨word, condition, body⟩ := first
    simp only [Clause.allMoved, Clause.moved, elifClauses]
    refine (corresponds_expression move false condition).bind fun _ => ?_
    refine ((corresponds_block includes body scope).branch scope mark declared).bind
      fun ⟨bodyCode, declared'⟩ => ?_
    exact (corresponds_elifs includes rest scope mark declared').map

theorem corresponds_cases (includes : IncludesByText move includeOne) (source : List Clause)
    (scope mark : Nat) (declared : List Variable) (labels : List Value) :
    Corresponds (caseClauses includeOne scope mark declared labels source)
      (caseClauses includeOne scope mark declared labels (Clause.allMoved move source)) := by
  cases source with
  | nil => exact .refl _
  | cons first rest =>
    obtain ⟨word, guard, body⟩ := first
    cases guard with
    | literal token label =>
      simp only [Clause.allMoved, Clause.moved, Expression.moved, caseClauses]
      split
      · exact .object move word _
      · refine ((corresponds_block includes body scope).branch scope mark declared).bind
          fun ⟨bodyCode, declared'⟩ => ?_
        exact (corresponds_cases includes rest scope mark declared' (labels ++ [label])).map
    | _ =>
      simp only [Clause.allMoved, Clause.moved, Expression.moved, caseClauses]
      exact .object move _ _

theorem corresponds_last (includes : IncludesByText move includeOne) (source : Option LastClause)
    (scope mark : Nat) (declared : List Variable) :
    Corresponds (lastClause includeOne scope mark declared source)
      (lastClause includeOne scope mark declared (LastClause.optionMoved move source)) := by
  cases source with
  | none => exact .refl _
  | some clause =>
    obtain ⟨word, body⟩ := clause
    simp only [LastClause.optionMoved, LastClause.moved, lastClause]
    exact (corresponds_block includes body scope).branch scope mark declared

theorem corresponds_functionBody (includes : IncludesByText move includeOne) (body : FunctionBody)
    (scope : Nat) (name : String) (params : List String) :
    Corresponds (functionBody includeOne scope name params body)
      (functionBody includeOne scope name params (body.moved move)) := by
  cases body with
  | block body =>
    simp only [FunctionBody.moved, functionBody]
    exact (corresponds_block includes body scope).map
  | external module function => exact .refl _

end

variable (setting : Setting)

theorem corresponds_libraryFile (name : Token) :
    Corresponds (libraryFile setting name) (libraryFile setting (name.moved move)) := by
  unfold libraryFile
  rw [Token.text_moved]
  split
  · exact fun _ => ⟨rfl, rfl⟩
  · refine .after _ fun including => ?_
    split
    · exact .object move name _
    · exact .refl _

/-- Which library a name stands for is told by its text. -/
theorem includesByText_library (depth : Nat) : IncludesByText move (library setting depth) := by
  intro name scope
  cases depth with
  | zero => exact .object move name _
  | succ depth =>
    unfold library
    refine .after _ fun tree => ?_
    rw [Token.text_moved]
    split
    · exact .refl _
    · exact (corresponds_libraryFile move setting name).map

theorem corresponds_statements (depth scope : Nat) (source : List Statement) :
    Corresponds (statements (library setting depth) scope source)
      (statements (library setting depth) scope (source.map (Statement.moved move))) := by
  rw [← Statement.allMoved_eq]
  exact corresponds_allMoved move (includesByText_library move setting depth) source scope

/-- A program is compiled in fresh scopes, and its bytecode ends with a halt. -/
theorem program_apply (source : Program) (reserved : List String) (session : Session) :
    program setting source reserved session =
      (do
        return (← programIn (library setting setting.depth) ScopeTree.root source) ++ [.finalHalt] :
        Step (List Instruction))
        { session with tree := reservedTree reserved, including := [] } := by
  unfold program
  rw [bind_apply]
  dsimp only
  cases programIn (library setting setting.depth) ScopeTree.root source
    { session with tree := reservedTree reserved, including := [] } with
  | mk result after => cases result <;> rfl

theorem corresponds_program (source : Program) (reserved : List String) :
    Corresponds (program setting source reserved)
      (program setting (source.moved move) reserved) := by
  have inner : Corresponds
      (do return (← programIn (library setting setting.depth) ScopeTree.root source) ++
        [.finalHalt])
      (do return (← programIn (library setting setting.depth) ScopeTree.root (source.moved move)) ++
        [.finalHalt]) :=
    (Corresponds.inFile source.file (corresponds_statements move setting _ _ source.statements)).map
  intro start
  rw [program_apply, program_apply]
  exact inner _

def toStart : Position → Position := fun _ => .start

/-- Tokens that agree in kind and text are the same once they are moved to one place. -/
theorem map_toStart_eq {tokens tokens' : List Token}
    (written : ∀ token ∈ tokens, token.spelling = some token.text)
    (written' : ∀ token ∈ tokens', token.spelling = some token.text)
    (same : tokens.map Token.word = tokens'.map Token.word) :
    tokens.map (Token.moved toStart) = tokens'.map (Token.moved toStart) := by
  have placed : ∀ tokens : List Token, (∀ token ∈ tokens, token.spelling = some token.text) →
      tokens.map (Token.moved toStart) =
        (tokens.map Token.word).map fun word => ⟨word.1, some word.2, .start⟩ := by
    intro tokens written
    rw [List.map_map]
    refine List.map_congr_left fun token member => ?_
    show (⟨token.kind, token.spelling, .start⟩ : Token) = _
    rw [written token member]
    rfl
  rw [placed tokens written, placed tokens' written', same]

/-- What scripts whose significant tokens agree in kind and text spell differs by a move, and where
one spells nothing the other fails in the same way. -/
theorem ofTokens_formatted {one other file : String} {tokens tokens' : List Token}
    (lexed : tokenize one file = .ok tokens) (lexed' : tokenize other file = .ok tokens')
    (same : (tokens.filter (!·.kind.isTrivia)).map Token.word =
      (tokens'.filter (!·.kind.isTrivia)).map Token.word) :
    (∃ source source', Program.ofTokens tokens file = .ok source ∧
        Program.ofTokens tokens' file = .ok source' ∧
        source.moved toStart = source'.moved toStart) ∨
      ∃ error error', Program.ofTokens tokens file = .error error ∧
        Program.ofTokens tokens' file = .error error' ∧ error.unplaced = error'.unplaced := by
  obtain ⟨split, written, _, unspelled⟩ := TokenList.meaningful_tokenize lexed
  obtain ⟨split', written', _, unspelled'⟩ := TokenList.meaningful_tokenize lexed'
  rw [split, split', List.map_append, List.map_append] at same
  have tokensSame := map_toStart_eq written written' (List.append_inj' same rfl).1
  have reads := Statement.moves_readAll toStart (TokenList.ofTokens tokens).tokens
  have reads' := Statement.moves_readAll toStart (TokenList.ofTokens tokens').tokens
  rw [tokensSame, reads'] at reads
  unfold Program.ofTokens TokenList.read
  rcases Reader.outcomeMoved_cases reads with
    ⟨list', _, list, _, found', found, moved⟩ | ⟨unexpected', unexpected, found', found, moved⟩
  · rw [found, found']
    exact .inl ⟨⟨file, list⟩, ⟨file, list'⟩, rfl, rfl, congrArg (Program.mk file) moved.symm⟩
  · rw [found, found']
    refine .inr ⟨_, _, rfl, rfl, ?_⟩
    obtain ⟨token, found, expected⟩ := unexpected
    obtain ⟨token', found', expected'⟩ := unexpected'
    obtain ⟨tokenSame, rfl, rfl⟩ := Unexpected.mk.inj moved
    have texts : (token.getD (TokenList.ofTokens tokens).stop).text =
        (token'.getD (TokenList.ofTokens tokens').stop).text := by
      cases token with
      | none =>
        cases token' with
        | none => simp only [Option.getD_none, Token.text, unspelled, unspelled']
        | some token' => cases tokenSame
      | some token =>
        cases token' with
        | none => cases tokenSame
        | some token' => exact (congrArg Token.text (Option.some.inj tokenSame)).symm
    simp only [Error.unplaced, Location.unplaced, texts]

/-- Formatting never changes the program. Of scripts whose tokens, white space and comments left
out, agree in kind and text, both have the same bytecode, or both fail with errors that differ in
the line and the column at most. -/
theorem sourceText_formatting {one other file : String} {tokens tokens' : List Token}
    (lexed : tokenize one file = .ok tokens) (lexed' : tokenize other file = .ok tokens')
    (same : (tokens.filter (!·.kind.isTrivia)).map Token.word =
      (tokens'.filter (!·.kind.isTrivia)).map Token.word)
    (setting : Setting) (reserved : List String) :
    (sourceText setting one file reserved).mapError Error.unplaced =
      (sourceText setting other file reserved).mapError Error.unplaced := by
  unfold sourceText Program.ofSource
  rw [lexed, lexed']
  dsimp only
  rcases ofTokens_formatted lexed lexed' same with
    ⟨source, source', spelled, spelled', moved⟩ | ⟨error, error', spelled, spelled', alike⟩
  · rw [spelled, spelled']
    have compiled := (corresponds_program toStart setting source reserved .initial).2
    rw [moved] at compiled
    exact compiled.trans (corresponds_program toStart setting source' reserved .initial).2.symm
  · rw [spelled, spelled']
    exact congrArg Except.error alike

/-- The same script with and without white space, and with a comment. -/
theorem sourceText_formatting_spaced :
    ∃ tokens tokens', tokenize "a=1;" "main.mcl" = .ok tokens ∧
      tokenize "a =\n1 ; # one" "main.mcl" = .ok tokens' ∧
      (tokens.filter (!·.kind.isTrivia)).map Token.word =
      (tokens'.filter (!·.kind.isTrivia)).map Token.word ∧
      (sourceText ⟨.empty, []⟩ "a=1;" "main.mcl" ["b"]).mapError Error.unplaced =
        (sourceText ⟨.empty, []⟩ "a =\n1 ; # one" "main.mcl" ["b"]).mapError Error.unplaced := by
  have lexed : tokenize "a=1;" "main.mcl" = .ok
      [⟨.identifier, some "a", ⟨1, 1, 0⟩⟩, ⟨.operatorAssignment, some "=", ⟨1, 2, 1⟩⟩,
        ⟨.integer, some "1", ⟨1, 3, 2⟩⟩, ⟨.semicolon, some ";", ⟨1, 4, 3⟩⟩,
          ⟨.eof, none, ⟨1, 5, 4⟩⟩] := by cbv
  have lexed' : tokenize "a =\n1 ; # one" "main.mcl" = .ok
      [⟨.identifier, some "a", ⟨1, 1, 0⟩⟩, ⟨.whitespace, some " ", ⟨1, 2, 1⟩⟩,
        ⟨.operatorAssignment, some "=", ⟨1, 3, 2⟩⟩, ⟨.whitespace, some "\n", ⟨1, 4, 3⟩⟩,
        ⟨.integer, some "1", ⟨2, 1, 4⟩⟩, ⟨.whitespace, some " ", ⟨2, 2, 5⟩⟩,
        ⟨.semicolon, some ";", ⟨2, 3, 6⟩⟩, ⟨.whitespace, some " ", ⟨2, 4, 7⟩⟩,
        ⟨.comment, some "# one", ⟨2, 5, 8⟩⟩, ⟨.eof, none, ⟨2, 10, 13⟩⟩] := by cbv
  exact ⟨_, _, lexed, lexed', by decide, sourceText_formatting lexed lexed' (by decide) _ _⟩

end Compile

end Treecode
