import Treecode.Proofs.Included
import Treecode.Proofs.Soundness

set_option autoImplicit false

namespace Treecode.Compile

open Step

/-- Two steps do the same while given libraries are under way. They leave the libraries under way as
they are, and they object only to circular includes of names that such an objection may name. -/
def Agrees {α : Type} (including : List String) (circular : String → Prop) (one other : Step α) :
    Prop :=
  ∀ start : Session, start.including = including →
    one start = other start ∧ (one start).2.including = including ∧
      ∀ place name, (one start).1 = .error (.rejected place (.circularInclude name)) → circular name

namespace Agrees

variable {α β : Type} {including : List String} {circular : String → Prop}

theorem pure (a : α) : Agrees including circular (Pure.pure a) (Pure.pure a) := by
  intro start same
  refine ⟨rfl, same, ?_⟩
  intro place name failed
  cases failed

theorem tree : Agrees including circular Step.tree Step.tree := by
  intro start same
  refine ⟨rfl, same, ?_⟩
  intro place name failed
  cases failed

theorem changeTree (change : ScopeTree → ScopeTree) :
    Agrees including circular (Step.changeTree change) (Step.changeTree change) := by
  intro start same
  refine ⟨rfl, same, ?_⟩
  intro place name failed
  cases failed

theorem object (token : Token) (objection : Objection)
    (calm : ∀ name, objection = .circularInclude name → circular name) :
    Agrees including circular (Step.object token objection : Step α)
      (Step.object token objection) := by
  intro start same
  refine ⟨rfl, same, ?_⟩
  intro place name failed
  cases failed
  exact calm name rfl

theorem ofExcept (result : Except Error α)
    (calm : ∀ place name, result = .error (.rejected place (.circularInclude name)) →
      circular name) :
    Agrees including circular (Step.ofExcept result) (Step.ofExcept result) := by
  intro start same
  exact ⟨rfl, same, calm⟩

/-- Steps that agree one after another agree; the second pair may use what the first one yields. -/
theorem bind_of {one other : Step α} {next next' : α → Step β}
    (first : Agrees including circular one other)
    (second : ∀ a, (∃ start after, start.including = including ∧ one start = (.ok a, after)) →
      Agrees including circular (next a) (next' a)) :
    Agrees including circular (one >>= next) (other >>= next') := by
  intro start same
  obtain ⟨equal, kept, calm⟩ := first start same
  rw [bind_apply, bind_apply, ← equal]
  cases outcome : one start with
  | mk result after =>
    rw [outcome] at kept calm
    cases result with
    | ok a => exact second a ⟨start, after, same, outcome⟩ after kept
    | error error => exact ⟨rfl, kept, fun place name failed => calm place name (by
        rw [Except.error.inj failed])⟩

theorem bind {one other : Step α} {next next' : α → Step β}
    (first : Agrees including circular one other)
    (second : ∀ a, Agrees including circular (next a) (next' a)) :
    Agrees including circular (one >>= next) (other >>= next') :=
  first.bind_of fun a _ => second a

theorem inFile (file : String) {one other : Step α} (inner : Agrees including circular one other) :
    Agrees including circular (Step.inFile file one) (Step.inFile file other) := by
  intro start same
  obtain ⟨equal, kept, calm⟩ := inner { start with file } same
  refine ⟨?_, kept, calm⟩
  unfold Step.inFile
  rw [equal]

theorem inScope (scope : Nat) (title : String) {one other : Nat → Step α}
    (inner : ∀ child, Agrees including circular (one child) (other child)) :
    Agrees including circular (Step.inScope scope title one) (Step.inScope scope title other) := by
  intro start same
  obtain ⟨equal, kept, calm⟩ :=
    inner start.tree.size { start with tree := start.tree.newChild scope title } same
  refine ⟨?_, kept, calm⟩
  unfold Step.inScope
  dsimp only
  rw [equal]

theorem whileIncluding (path : String) {one other : Step α}
    (inner : Agrees (path :: including) circular one other) :
    Agrees including circular (Step.whileIncluding path one) (Step.whileIncluding path other) := by
  intro start same
  have begun : ({ start with including := path :: start.including } : Session).including =
      path :: including := by rw [← same]
  obtain ⟨equal, kept, calm⟩ := inner _ begun
  refine ⟨?_, ?_, calm⟩
  · unfold Step.whileIncluding
    rw [equal]
  · show (one { start with including := path :: start.including }).2.including.tail = including
    rw [kept]
    rfl

end Agrees

section Pieces

variable {including : List String} {circular : String → Prop} {scope : Nat}

theorem agrees_isDeclared (name : String) :
    Agrees including circular (isDeclared scope name) (isDeclared scope name) :=
  Agrees.tree.bind fun _ => .pure _

theorem agrees_requireVariable (name : Token) :
    Agrees including circular (requireVariable scope name) (requireVariable scope name) := by
  refine (agrees_isDeclared name.text).bind fun declared => ?_
  split
  · exact .pure ()
  · exact .object name _ nofun

theorem agrees_requireFunction (name : Token) :
    Agrees including circular (requireFunction scope name) (requireFunction scope name) := by
  refine Agrees.tree.bind fun tree => ?_
  split
  · exact .pure ()
  · exact .object name _ nofun

theorem agrees_declareIfNew (name : String) :
    Agrees including circular (declareIfNew scope name) (declareIfNew scope name) := by
  refine (agrees_isDeclared name).bind fun declared => ?_
  split
  · exact .pure ()
  · exact .changeTree _

mutual

theorem agrees_expression (mayDeclare : Bool) (e : Expression) :
    Agrees including circular (expression scope mayDeclare e) (expression scope mayDeclare e) := by
  cases e with
  | plain name =>
    rw [expression]
    split
    · exact (agrees_declareIfNew name.text).bind fun _ => .pure _
    · exact (agrees_requireVariable name).bind fun _ => .pure _
  | indexed name index =>
    rw [expression]
    exact (agrees_requireVariable name).bind fun _ => (agrees_expressions index).bind fun _ =>
      .pure _
  | call name args =>
    rw [expression]
    exact (agrees_requireFunction name).bind fun _ => (agrees_expressions args).bind fun _ =>
      .pure _
  | indexedCall name index args =>
    rw [expression]
    exact .object name _ nofun
  | literal token value =>
    rw [expression]
    exact .pure _
  | unary operator operand =>
    rw [expression]
    split
    · exact .object operator _ nofun
    · exact (agrees_expression false operand).bind fun _ => .pure _
  | binary operator left right =>
    rw [expression]
    split
    · exact .object operator _ nofun
    · exact (agrees_expression mayDeclare left).bind fun _ =>
        (agrees_expression mayDeclare right).bind fun _ => .pure _
  | isType word operand target =>
    rw [expression]
    exact (agrees_expression false operand).bind fun _ => .pure _
  | typeOf word operand =>
    rw [expression]
    exact (agrees_expression false operand).bind fun _ => .pure _

theorem agrees_expressions (list : List Expression) :
    Agrees including circular (expressions scope list) (expressions scope list) := by
  cases list with
  | nil =>
    rw [expressions]
    exact .pure _
  | cons first rest =>
    rw [expressions]
    exact (agrees_expression false first).bind fun _ => (agrees_expressions rest).bind fun _ =>
      .pure _

end

theorem agrees_optionalExpression (mayDeclare : Bool) (e : Option Expression) :
    Agrees including circular (optionalExpression scope mayDeclare e)
      (optionalExpression scope mayDeclare e) := by
  cases e with
  | none => exact .pure _
  | some e => exact (agrees_expression mayDeclare e).bind fun _ => .pure _

theorem agrees_assignedName (name : Token) (constant : Bool) :
    Agrees including circular (assignedName scope name constant)
      (assignedName scope name constant) := by
  refine Agrees.tree.bind fun tree => ?_
  split
  · exact .pure _
  · split
    · exact .object name _ nofun
    · split
      · exact .object name _ nofun
      · exact .pure _

theorem agrees_assignedOperation (operator : Token) :
    Agrees including circular (assignedOperation operator) (assignedOperation operator) := by
  unfold assignedOperation
  split
  · exact .pure _
  · split
    · exact .pure _
    · exact .object operator _ nofun

theorem agrees_checkOperation (operation : Option Opcode) (operator : Token) (append isNew : Bool)
    (name : String) :
    Agrees including circular (checkOperation operation operator append isNew name)
      (checkOperation operation operator append isNew name) := by
  unfold checkOperation
  split
  · split
    · exact .object operator _ nofun
    · split
      · exact .object operator _ nofun
      · exact .pure _
  · exact .pure _

theorem agrees_assignment (target : Expression) (operator : Token) (value : Expression)
    (append constant : Bool) :
    Agrees including circular (assignment scope target operator value append constant)
      (assignment scope target operator value append constant) := by
  have stores : ∀ isNew operation,
      Agrees including circular (storing scope target value append isNew operation)
        (storing scope target value append isNew operation) := fun isNew operation =>
    (agrees_expression false target).bind fun _ => (agrees_expression false value).bind fun _ =>
      (Agrees.changeTree _).bind fun _ => .pure _
  refine (agrees_assignedName target.token constant).bind fun isNew => ?_
  refine (agrees_assignedOperation operator).bind fun operation => ?_
  refine (agrees_checkOperation operation operator append isNew target.token.text).bind fun _ => ?_
  cases isNew with
  | true => exact (Agrees.changeTree _).bind fun _ => stores true operation
  | false => exact stores false operation

theorem agrees_selection (distinct : Bool) (fields : List Field) (source : Expression)
    (filter : Option Expression) (merge : Bool) (target : Expression) :
    Agrees including circular (selection scope distinct fields source filter merge target)
      (selection scope distinct fields source filter merge target) :=
  (agrees_expression false source).bind fun _ =>
    (agrees_optionalExpression true filter).bind fun _ =>
    (agrees_expression true target).bind fun _ => .pure _

theorem agrees_functionScope (name : Token) (params : List Parameter) :
    Agrees including circular (functionScope scope name params)
      (functionScope scope name params) := by
  intro start same
  refine ⟨rfl, same, ?_⟩
  intro place name failed
  cases failed

theorem agrees_libraryScope (name : String) :
    Agrees including circular (libraryScope scope name) (libraryScope scope name) := by
  intro start same
  refine ⟨rfl, same, ?_⟩
  intro place name failed
  cases failed

theorem agrees_branch {α : Type} (mark : Nat) (declared : List Variable) {one other : Step α}
    (inner : Agrees including circular one other) :
    Agrees including circular (branch scope mark declared one) (branch scope mark declared other) :=
  inner.bind fun _ => Agrees.tree.bind fun _ => (Agrees.changeTree _).bind fun _ => .pure _

variable {one other : Including}

/-- Two ways of including libraries do the same for the given ones, in every scope. -/
def AgreeOn (including : List String) (circular : String → Prop) (one other : Including)
    (names : List Token) : Prop :=
  ∀ name ∈ names, ∀ scope, Agrees including circular (one name scope) (other name scope)

theorem AgreeOn.left {first rest : List Token}
    (agree : AgreeOn including circular one other (first ++ rest)) :
    AgreeOn including circular one other first :=
  fun name member => agree name (List.mem_append_left _ member)

theorem AgreeOn.right {first rest : List Token}
    (agree : AgreeOn including circular one other (first ++ rest)) :
    AgreeOn including circular one other rest :=
  fun name member => agree name (List.mem_append_right _ member)

theorem agrees_inclusion (names : List Token) (agree : AgreeOn including circular one other names) :
    Agrees including circular (inclusion one scope names) (inclusion other scope names) := by
  induction names with
  | nil => exact .pure _
  | cons name rest ih =>
    unfold inclusion
    refine (agree name (List.mem_cons_self ..) scope).bind fun code => ?_
    exact (ih fun later member => agree later (List.mem_cons_of_mem _ member)).bind fun _ => .pure _

mutual

theorem agrees_statement (source : Statement)
    (agree : AgreeOn including circular one other source.included) {scope : Nat} :
    Agrees including circular (statement one scope source) (statement other scope source) := by
  cases source with
  | assign target operator value append constant =>
    rw [statement, statement]
    exact agrees_assignment target operator value append constant
  | define name params result body =>
    unfold statement
    refine (agrees_functionScope name params).bind fun child => ?_
    refine (agrees_functionBody child name.text _ body agree).bind fun definition => ?_
    exact (Agrees.changeTree _).bind fun _ => .pure _
  | ifElse word condition body elifs otherwise =>
    unfold statement
    refine (agrees_expression false condition).bind fun conditionCode =>
      Agrees.tree.bind fun tree => ?_
    refine (agrees_branch _ [] (agrees_block body agree.left.left)).bind ?_
    rintro ⟨bodyCode, declared⟩
    refine (agrees_elifs _ declared elifs agree.left.right).bind ?_
    rintro ⟨elifCode, declared'⟩
    refine (agrees_last _ declared' otherwise agree.right).bind ?_
    rintro ⟨lastCode, declared''⟩
    exact (Agrees.changeTree _).bind fun _ => .pure _
  | whileLoop word condition body =>
    unfold statement
    refine (agrees_expression false condition).bind fun conditionCode => ?_
    exact (agrees_block body agree).bind fun _ => .pure _
  | foreach word iterable body =>
    unfold statement
    refine (agrees_expression false iterable).bind fun iterableCode => ?_
    refine (Agrees.inScope scope "foreach" fun child => ?_).bind fun _ => .pure _
    exact (Agrees.changeTree _).bind fun _ => agrees_block body agree
  | switch word head cases default =>
    unfold statement
    refine (agrees_expression false head).bind fun headCode => Agrees.tree.bind fun tree => ?_
    refine (agrees_cases _ [] [] cases agree.left).bind ?_
    rintro ⟨caseCode, declared⟩
    refine (agrees_last _ declared default agree.right).bind ?_
    rintro ⟨lastCode, declared'⟩
    exact (Agrees.changeTree _).bind fun _ => .pure _
  | breakLoop word =>
    rw [statement, statement]
    exact .pure _
  | continueLoop word =>
    rw [statement, statement]
    exact .pure _
  | returnValue word value =>
    rw [statement, statement]
    exact (agrees_optionalExpression false value).bind fun _ => .pure _
  | halt word value =>
    rw [statement, statement]
    exact (agrees_optionalExpression false value).bind fun _ => .pure _
  | print word args =>
    rw [statement, statement]
    exact (agrees_expressions args).bind fun _ => .pure _
  | includes word libraries =>
    rw [statement, statement]
    exact agrees_inclusion libraries agree
  | select word distinct fields source filter merge target =>
    rw [statement, statement]
    exact (agrees_selection distinct fields source filter merge target).bind fun _ => .pure _
  | call name args =>
    rw [statement, statement]
    exact (agrees_requireFunction name).bind fun _ => (agrees_expressions args).bind fun _ =>
      .pure _
  | indexedCall name index args =>
    rw [statement, statement]
    exact .object name _ nofun
  | block body =>
    rw [statement, statement]
    exact agrees_block body agree

theorem agrees_block (body : Block) (agree : AgreeOn including circular one other body.included)
    {scope : Nat} : Agrees including circular (block one scope body) (block other scope body) := by
  cases body with
  | mk brace source =>
    rw [block, block]
    exact agrees_statements source agree

theorem agrees_statements (source : List Statement)
    (agree : AgreeOn including circular one other (Statement.allIncluded source)) {scope : Nat} :
    Agrees including circular (statements one scope source) (statements other scope source) := by
  cases source with
  | nil =>
    rw [statements, statements]
    exact .pure _
  | cons first rest =>
    unfold statements
    refine (agrees_statement first agree.left).bind fun code => ?_
    exact (agrees_statements rest agree.right).bind fun _ => .pure _

theorem agrees_elifs (mark : Nat) (declared : List Variable) (source : List Clause)
    (agree : AgreeOn including circular one other (Clause.allIncluded source)) {scope : Nat} :
    Agrees including circular (elifClauses one scope mark declared source)
      (elifClauses other scope mark declared source) := by
  cases source with
  | nil =>
    rw [elifClauses, elifClauses]
    exact .pure _
  | cons first rest =>
    obtain ⟨word, condition, body⟩ := first
    unfold elifClauses
    refine (agrees_expression false condition).bind fun conditionCode => ?_
    refine (agrees_branch mark declared (agrees_block body agree.left)).bind ?_
    rintro ⟨bodyCode, declared'⟩
    exact (agrees_elifs mark declared' rest agree.right).bind fun _ => .pure _

theorem agrees_cases (mark : Nat) (declared : List Variable) (labels : List Value)
    (source : List Clause)
    (agree : AgreeOn including circular one other (Clause.allIncluded source)) {scope : Nat} :
    Agrees including circular (caseClauses one scope mark declared labels source)
      (caseClauses other scope mark declared labels source) := by
  cases source with
  | nil =>
    rw [caseClauses, caseClauses]
    exact .pure _
  | cons first rest =>
    obtain ⟨word, guard, body⟩ := first
    cases guard with
    | literal token label =>
      unfold caseClauses
      dsimp only
      split
      · exact .object word _ nofun
      · refine (agrees_branch mark declared (agrees_block body agree.left)).bind ?_
        rintro ⟨bodyCode, declared'⟩
        exact (agrees_cases mark declared' (labels ++ [label]) rest agree.right).bind fun _ =>
          .pure _
    | _ =>
      unfold caseClauses
      exact .object _ _ nofun

theorem agrees_last (mark : Nat) (declared : List Variable) (source : Option LastClause)
    (agree : AgreeOn including circular one other (LastClause.optionIncluded source))
    {scope : Nat} :
    Agrees including circular (lastClause one scope mark declared source)
      (lastClause other scope mark declared source) := by
  cases source with
  | none =>
    rw [lastClause, lastClause]
    exact .pure _
  | some clause =>
    obtain ⟨word, body⟩ := clause
    rw [lastClause, lastClause]
    exact agrees_branch mark declared (agrees_block body agree)

theorem agrees_functionBody (scope : Nat) (name : String) (params : List String)
    (body : FunctionBody) (agree : AgreeOn including circular one other body.included) :
    Agrees including circular (functionBody one scope name params body)
      (functionBody other scope name params body) := by
  cases body with
  | block body =>
    rw [functionBody, functionBody]
    exact (agrees_block body agree).bind fun _ => .pure _
  | external module function =>
    rw [functionBody, functionBody]
    exact (Agrees.changeTree _).bind fun _ => .pure _

end

end Pieces

variable {setting : Setting} {including : List String} {circular : String → Prop}

/-- Includes a library, where another way of including stands in for the libraries that it
includes. -/
def includingOver (setting : Setting) (inner : Including) : Including := fun name scope => do
  if (← tree).hasLibrary scope name.text then return []
  else
    let path ← libraryFile setting name
    let text ← ofExcept (Library.load setting.files path)
    let child ← libraryScope scope name.text
    let program ← ofExcept (Program.ofSource text path)
    whileIncluding path (programIn inner child program)

theorem library_succ (setting : Setting) (depth : Nat) :
    library setting (depth + 1) = includingOver setting (library setting depth) := rfl

/-- A script that cannot be read is not objected to as circular. -/
theorem ofSource_ne_circular {text file name : String} {place : Location} :
    Program.ofSource text file ≠ .error (.rejected place (.circularInclude name)) := by
  intro failed
  unfold Program.ofSource at failed
  split at failed
  · unfold Program.ofTokens at failed
    split at failed
    · cases failed
    · rename_i unread
      unfold TokenList.read at unread
      split at unread
      · cases unread
      · cases unread
        cases failed
  · rename_i unlexed
    unfold tokenize at unlexed
    split at unlexed
    · cases unlexed
    · cases unlexed
      cases failed

theorem load_ne_circular {files : Files} {path name : String} {place : Location} :
    Library.load files path ≠ .error (.rejected place (.circularInclude name)) := by
  unfold Library.load
  split <;> nofun

/-- A name may be objected to as circular where its library is under way. -/
theorem agrees_libraryFile (name : Token)
    (under : ∀ path, Library.find? setting.files setting.searchPath name.text = some path →
      including.any (Path.same path) → circular name.text) :
    Agrees including circular (libraryFile setting name) (libraryFile setting name) := by
  unfold libraryFile
  split
  · intro start same
    refine ⟨rfl, same, ?_⟩
    intro place other failed
    cases failed
  · rename_i path found
    intro start same
    have decided : ∀ step : Step String,
        step = (if start.including.any (Path.same path)
          then object name (.circularInclude name.text)
          else pure path) → Agrees including circular step step := by
      rintro step rfl
      split
      · rename_i known
        rw [same] at known
        refine .object name _ fun other equal => ?_
        cases equal
        exact under path found known
      · exact .pure path
    exact decided _ rfl start same

/-- Two ways of including one level deeper agree where they agree on what the library includes. -/
theorem agrees_includingOver {one other : Including} (name : Token)
    (under : ∀ path, Library.find? setting.files setting.searchPath name.text = some path →
      including.any (Path.same path) → circular name.text)
    (inner : ∀ path text program,
      Library.find? setting.files setting.searchPath name.text = some path →
      including.any (Path.same path) = false → Library.load setting.files path = .ok text →
      Program.ofSource text path = .ok program →
      AgreeOn (path :: including) circular one other (Statement.allIncluded program.statements))
    (scope : Nat) :
    Agrees including circular (includingOver setting one name scope)
      (includingOver setting other name scope) := by
  unfold includingOver
  refine Agrees.tree.bind fun tree => ?_
  split
  · exact .pure _
  refine (agrees_libraryFile name under).bind_of fun path found => ?_
  obtain ⟨start, _, same, found⟩ := found
  obtain ⟨_, found, apart⟩ := libraryFile_ok.1 found
  rw [same] at apart
  refine Agrees.bind_of (.ofExcept _ fun _ _ failed => absurd failed load_ne_circular)
    fun text loaded => ?_
  obtain ⟨_, _, _, loaded⟩ := loaded
  refine (agrees_libraryScope name.text).bind fun child => ?_
  refine Agrees.bind_of (.ofExcept _ fun _ _ failed => absurd failed ofSource_ne_circular)
    fun program read => ?_
  obtain ⟨_, _, _, read⟩ := read
  have agree := inner path text program found apart (ofExcept_ok.1 loaded).1 (ofExcept_ok.1 read).1
  exact .whileIncluding path (.inFile program.file (agrees_statements program.statements agree))

/-- Whether an include succeeds or fails, the same libraries are under way afterwards. -/
theorem including_library (setting : Setting) (depth : Nat) (name : Token) (scope : Nat)
    (start : Session) : (library setting depth name scope start).2.including = start.including := by
  have agrees : ∀ including name scope,
      Agrees including (fun _ => True) (library setting depth name scope)
        (library setting depth name scope) := by
    induction depth with
    | zero =>
      intro including name scope
      exact .object name _ fun _ _ => trivial
    | succ depth ih =>
      intro including name scope
      rw [library_succ]
      refine agrees_includingOver name (fun _ _ _ => trivial) ?_ scope
      intro path text program _ _ _ _ later _ child
      exact ih (path :: including) later child
  exact (agrees start.including name scope start rfl).2.1

end Treecode.Compile
