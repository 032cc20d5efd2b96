import Treecode.Proofs.Completeness

set_option autoImplicit false

namespace Treecode.Compile

open Step Relation

/-- A piece of source to compile. A block of an `if` or a `switch` comes with the mark where its
variables start and the variables gathered before it, a case also with the labels before it. -/
inductive Task where
  | statement (source : Statement)
  | statements (source : List Statement)
  | libraries (names : List Token)
  | library (name : Token)
  | branch (mark : Nat) (declared : List Variable) (source : List Statement)
  | elifs (mark : Nat) (declared : List Variable) (source : List Clause)
  | cases (mark : Nat) (declared : List Variable) (labels : List Value) (source : List Clause)
  | last (mark : Nat) (declared : List Variable) (source : Option LastClause)

/-- Whether a task is to compile blocks of an `if` or a `switch`. -/
def Task.isBranch : Task → Bool
  | .branch _ _ _ | .elifs _ _ _ | .cases _ _ _ _ | .last _ _ _ => true
  | _ => false

/-- The turn of a part among the parts of one point: a compilation comes to them in this order. -/
def Task.turn : Task → Nat
  | .statement _ | .library _ | .branch _ _ _ => 0
  | .statements _ | .libraries _ | .elifs _ _ _ | .cases _ _ _ _ => 1
  | .last _ _ _ => 2

def Job.task : Job → Task
  | .statement source _ => .statement source
  | .statements source _ => .statements source
  | .libraries names _ => .libraries names
  | .library name _ => .library name
  | .branch mark declared source _ _ => .branch mark declared source
  | .elifs mark declared source _ _ => .elifs mark declared source
  | .cases mark declared labels source _ _ => .cases mark declared labels source
  | .last mark declared source _ _ => .last mark declared source

/-- A point of a compilation: a task, the scope and the session in which it is to be done, and how
deep libraries may nest from there. -/
structure Point where
  depth : Nat
  scope : Nat
  task : Task
  session : Session

/-- Compiling at one point comes to another point, once what stands before it has compiled. -/
inductive Comes (setting : Setting) : Point → Point → Prop
  | first {depth scope start first rest} :
      Comes setting ⟨depth, scope, .statements (first :: rest), start⟩
        ⟨depth, scope, .statement first, start⟩
  | rest {depth scope start first code middle rest}
      (done : Compiles setting depth scope (.statement first code) start middle) :
      Comes setting ⟨depth, scope, .statements (first :: rest), start⟩
        ⟨depth, scope, .statements rest, middle⟩
  | define {depth scope start name params result brace body} :
      Comes setting
        ⟨depth, scope, .statement (.define name params result (.block (.mk brace body))), start⟩
        ⟨depth, start.tree.size, .statements body, start.function scope name params⟩
  | ifBlock {depth scope start word condition conditionCode brace body elifs otherwise}
      (evaluates : Evaluates start scope condition conditionCode) :
      Comes setting
        ⟨depth, scope, .statement (.ifElse word condition (.mk brace body) elifs otherwise), start⟩
        ⟨depth, scope, .branch (start.tree.variableCount scope) [] body, start⟩
  | elifBlocks
      {depth scope start word condition conditionCode brace body bodyCode declared middle elifs
        otherwise}
      (evaluates : Evaluates start scope condition conditionCode)
      (first : Compiles setting depth scope
        (.branch (start.tree.variableCount scope) [] body bodyCode declared) start middle) :
      Comes setting
        ⟨depth, scope, .statement (.ifElse word condition (.mk brace body) elifs otherwise), start⟩
        ⟨depth, scope, .elifs (start.tree.variableCount scope) declared elifs, middle⟩
  | elseBlock
      {depth scope start word condition conditionCode brace body bodyCode declared middle elifs
        elifCode declared' later otherwise}
      (evaluates : Evaluates start scope condition conditionCode)
      (first : Compiles setting depth scope
        (.branch (start.tree.variableCount scope) [] body bodyCode declared) start middle)
      (further : Compiles setting depth scope
        (.elifs (start.tree.variableCount scope) declared elifs elifCode declared') middle later) :
      Comes setting
        ⟨depth, scope, .statement (.ifElse word condition (.mk brace body) elifs otherwise), start⟩
        ⟨depth, scope, .last (start.tree.variableCount scope) declared' otherwise, later⟩
  | whileLoop {depth scope start word condition conditionCode brace body}
      (evaluates : Evaluates start scope condition conditionCode) :
      Comes setting ⟨depth, scope, .statement (.whileLoop word condition (.mk brace body)), start⟩
        ⟨depth, scope, .statements body, start⟩
  | foreach {depth scope start word iterable iterableCode brace body}
      (evaluates : Evaluates start scope iterable iterableCode) :
      Comes setting ⟨depth, scope, .statement (.foreach word iterable (.mk brace body)), start⟩
        ⟨depth, start.tree.size, .statements body, start.loop scope⟩
  | caseBlocks {depth scope start word head headCode cases default}
      (evaluates : Evaluates start scope head headCode) :
      Comes setting ⟨depth, scope, .statement (.switch word head cases default), start⟩
        ⟨depth, scope, .cases (start.tree.variableCount scope) [] [] cases, start⟩
  | defaultBlock {depth scope start word head headCode cases caseCode declared middle default}
      (evaluates : Evaluates start scope head headCode)
      (first : Compiles setting depth scope
        (.cases (start.tree.variableCount scope) [] [] cases caseCode declared) start middle) :
      Comes setting ⟨depth, scope, .statement (.switch word head cases default), start⟩
        ⟨depth, scope, .last (start.tree.variableCount scope) declared default, middle⟩
  | includes {depth scope start word names} :
      Comes setting ⟨depth, scope, .statement (.includes word names), start⟩
        ⟨depth, scope, .libraries names, start⟩
  | block {depth scope start brace body} :
      Comes setting ⟨depth, scope, .statement (.block (.mk brace body)), start⟩
        ⟨depth, scope, .statements body, start⟩
  | firstLibrary {depth scope start first rest} :
      Comes setting ⟨depth, scope, .libraries (first :: rest), start⟩
        ⟨depth, scope, .library first, start⟩
  | moreLibraries {depth scope start first code middle rest}
      (done : Compiles setting depth scope (.library first code) start middle) :
      Comes setting ⟨depth, scope, .libraries (first :: rest), start⟩
        ⟨depth, scope, .libraries rest, middle⟩
  | library {depth scope start name path text program}
      (fresh : start.tree.hasLibrary scope name.text = false)
      (found : Library.find? setting.files setting.searchPath name.text = some path)
      (apart : start.including.any (Path.same path) = false)
      (loaded : Library.load setting.files path = .ok text)
      (read : Program.ofSource text path = .ok program) :
      Comes setting ⟨depth + 1, scope, .library name, start⟩
        ⟨depth, start.tree.size, .statements program.statements,
          start.inLibrary scope name path program.file⟩
  | branch {depth scope start mark declared body} :
      Comes setting ⟨depth, scope, .branch mark declared body, start⟩
        ⟨depth, scope, .statements body, start⟩
  | firstElif {depth scope start mark declared word condition conditionCode brace body rest}
      (evaluates : Evaluates start scope condition conditionCode) :
      Comes setting
        ⟨depth, scope, .elifs mark declared (.mk word condition (.mk brace body) :: rest), start⟩
        ⟨depth, scope, .branch mark declared body, start⟩
  | moreElifs
      {depth scope start mark declared word condition conditionCode brace body code declared' middle
        rest}
      (evaluates : Evaluates start scope condition conditionCode)
      (done : Compiles setting depth scope (.branch mark declared body code declared')
        start middle) :
      Comes setting
        ⟨depth, scope, .elifs mark declared (.mk word condition (.mk brace body) :: rest), start⟩
        ⟨depth, scope, .elifs mark declared' rest, middle⟩
  | firstCase {depth scope start mark declared labels word token label brace body rest}
      (apart : labels.any (·.sameLabel label) = false) :
      Comes setting
        ⟨depth, scope, .cases mark declared labels
          (.mk word (.literal token label) (.mk brace body) :: rest), start⟩
        ⟨depth, scope, .branch mark declared body, start⟩
  | moreCases {depth scope start mark declared labels word token label brace body code
      declared' middle rest} (apart : labels.any (·.sameLabel label) = false)
      (done : Compiles setting depth scope (.branch mark declared body code declared')
        start middle) :
      Comes setting
        ⟨depth, scope, .cases mark declared labels
          (.mk word (.literal token label) (.mk brace body) :: rest), start⟩
        ⟨depth, scope, .cases mark declared' (labels ++ [label]) rest, middle⟩
  | last {depth scope start mark declared word brace body} :
      Comes setting ⟨depth, scope, .last mark declared (some (.mk word (.mk brace body))), start⟩
        ⟨depth, scope, .branch mark declared body, start⟩

/-- A compilation that starts at one point arrives at another. -/
def Arrives (setting : Setting) : Point → Point → Prop := ReflTransGen (Comes setting)

variable {setting : Setting}

/-- A compilation comes from a scope in order only to a scope in order. -/
theorem Comes.ready {here there : Point} (comes : Comes setting here there)
    (ready : Ready here.scope here.session) : Ready there.scope there.session := by
  cases comes with
  | first | ifBlock | whileLoop | caseBlocks | includes | block | firstLibrary | branch | firstElif
  | firstCase | last => exact ready
  | rest done | moreLibraries done => exact done.ready_after
  | define => exact ready.function _ _
  | elifBlocks _ done | defaultBlock _ done | moreElifs _ done | moreCases _ done
  | elseBlock _ _ done =>
    exact done.ready_after
  | foreach => exact ready.loop
  | library => exact ready.inLibrary _ _ _

theorem Arrives.ready {here there : Point} (arrives : Arrives setting here there)
    (ready : Ready here.scope here.session) : Ready there.scope there.session := by
  induction arrives with
  | refl => exact ready
  | tail _ comes ih => exact comes.ready ih

/-- A task is done in one way. -/
theorem Compiles.unique {depth scope : Nat} {job job' : Job} {start after after' : Session}
    (compiles : Compiles setting depth scope job start after)
    (compiles' : Compiles setting depth scope job' start after') (same : job.task = job'.task) :
    after = after' ∧ job.gathered = job'.gathered := by
  have runs := compiles.runs
  have runs' := compiles'.runs
  cases job <;> cases job' <;> cases same <;> simp only [Runs] at runs runs' <;>
    cases runs.symm.trans runs' <;> exact ⟨rfl, rfl⟩

/-- The parts of a point are told apart by their turns. -/
theorem Comes.unique {here first second : Point} (comes : Comes setting here first)
    (comes' : Comes setting here second) (same : first.task.turn = second.task.turn) :
    first = second := by
  cases comes with
  | first => cases comes' with
    | first => rfl
    | rest => cases same
  | rest done => cases comes' with
    | first => cases same
    | rest done' => rw [(done.unique done' rfl).1]
  | ifBlock => cases comes' with
    | ifBlock => rfl
    | _ => cases same
  | elifBlocks _ done => cases comes' with
    | elifBlocks _ done' =>
      obtain ⟨rfl, rfl⟩ := done.unique done' rfl
      rfl
    | _ => cases same
  | elseBlock _ done further => cases comes' with
    | elseBlock _ done' further' =>
      obtain ⟨rfl, rfl⟩ := done.unique done' rfl
      obtain ⟨rfl, rfl⟩ := further.unique further' rfl
      rfl
    | _ => cases same
  | caseBlocks => cases comes' with
    | caseBlocks => rfl
    | defaultBlock => cases same
  | defaultBlock _ done => cases comes' with
    | caseBlocks => cases same
    | defaultBlock _ done' =>
      obtain ⟨rfl, rfl⟩ := done.unique done' rfl
      rfl
  | firstLibrary => cases comes' with
    | firstLibrary => rfl
    | moreLibraries => cases same
  | moreLibraries done => cases comes' with
    | firstLibrary => cases same
    | moreLibraries done' => rw [(done.unique done' rfl).1]
  | library _ found _ loaded read => cases comes' with
    | library _ found' _ loaded' read' =>
      cases found.symm.trans found'
      cases loaded.symm.trans loaded'
      cases read.symm.trans read'
      rfl
  | firstElif => cases comes' with
    | firstElif => rfl
    | moreElifs => cases same
  | moreElifs _ done => cases comes' with
    | firstElif => cases same
    | moreElifs _ done' =>
      obtain ⟨rfl, rfl⟩ := done.unique done' rfl
      rfl
  | firstCase => cases comes' with
    | firstCase => rfl
    | moreCases => cases same
  | moreCases _ done => cases comes' with
    | firstCase => cases same
    | moreCases _ done' =>
      obtain ⟨rfl, rfl⟩ := done.unique done' rfl
      rfl
  | define | whileLoop | foreach | includes | block | branch | last =>
    cases comes'
    rfl

/-- A compilation arrives at a point by some turns, one for each part that it goes into. What comes
earlier in a compilation has turns that are smaller, letter by letter. -/
inductive ArrivesBy (setting : Setting) : Point → List Nat → Point → Prop
  | here {point} : ArrivesBy setting point [] point
  | step {here next there turns} (comes : Comes setting here next)
      (further : ArrivesBy setting next turns there) :
      ArrivesBy setting here (next.task.turn :: turns) there

theorem ArrivesBy.here_iff {here there : Point} :
    ArrivesBy setting here [] there ↔ there = here := by
  constructor
  · intro arrives
    cases arrives
    rfl
  · rintro rfl
    exact .here

/-- The first turn tells the part that comes first. -/
theorem ArrivesBy.step_iff {here next there : Point} {turns : List Nat}
    (comes : Comes setting here next) :
    ArrivesBy setting here (next.task.turn :: turns) there ↔
      ArrivesBy setting next turns there := by
  constructor
  · intro arrives
    generalize same : next.task.turn :: turns = all at arrives
    cases arrives with
    | here => cases same
    | step comes' further =>
      obtain ⟨turn, rfl⟩ := List.cons.inj same
      cases comes.unique comes' turn
      exact further
  · exact .step comes

def Task.Regular : Task → Prop
  | .statement source => source.Regular .any
  | .statements source | .branch _ _ source => Statement.AllRegular .any source
  | .elifs _ _ source | .cases _ _ _ source => Clause.AllRegular .any source
  | .last _ _ source => LastClause.OptionRegular .any source
  | .libraries _ | .library _ => True

/-- The pieces of regular source are regular, and so is every library. -/
theorem Comes.regular {here there : Point} (comes : Comes setting here there)
    (regular : here.task.Regular) : there.task.Regular := by
  cases comes with
  | first => exact regular.1
  | firstElif | firstCase => exact regular.1.2
  | rest | moreElifs | moreCases => exact regular.2
  | define => exact regular.2.2
  | ifBlock => exact regular.2.1
  | elifBlocks => exact regular.2.2.1
  | elseBlock => exact regular.2.2.2
  | whileLoop | foreach => exact regular.2
  | caseBlocks => exact regular.2.2.1
  | defaultBlock => exact regular.2.2.2
  | includes | firstLibrary | moreLibraries => trivial
  | library _ _ _ _ read => exact (Program.regular_ofSource read).2
  | block | branch | last => exact regular

theorem Arrives.regular {here there : Point} (arrives : Arrives setting here there)
    (regular : here.task.Regular) : there.task.Regular := by
  induction arrives with
  | refl => exact regular
  | tail _ comes ih => exact comes.regular ih

theorem Evaluates.runs {start : Session} {scope : Nat} {e : Expression} {code : Instruction}
    (evaluates : Evaluates start scope e code) :
    expression scope false e start = (.ok code, start) :=
  evaluates_iff.2 ⟨rfl, evaluates⟩

section Errors

variable {α β : Type} {error : Error} {start middle : Session}

theorem bind_error_of_first {step : Step α} {next : α → Step β}
    (failed : (step start).1 = .error error) : ((step >>= next) start).1 = .error error := by
  rw [bind_apply]
  split
  · rename_i a after done
    rw [done] at failed
    cases failed
  · rename_i other after done
    rw [done] at failed
    cases failed
    rfl

theorem bind_error_of_next {step : Step α} {next : α → Step β} {a : α}
    (done : step start = (.ok a, middle)) (failed : (next a middle).1 = .error error) :
    ((step >>= next) start).1 = .error error := by
  rw [bind_apply, done]
  exact failed

theorem inFile_error {file : String} {step : Step α}
    (failed : (step { start with file }).1 = .error error) :
    (inFile file step start).1 = .error error :=
  failed

theorem whileIncluding_error {path : String} {step : Step α}
    (failed : (step { start with including := path :: start.including }).1 = .error error) :
    (whileIncluding path step start).1 = .error error :=
  failed

theorem inScope_error {scope : Nat} {title : String} {step : Nat → Step α}
    (failed : (step start.tree.size (start.withTree (start.tree.newChild scope title))).1 =
      .error error) :
    (inScope scope title step start).1 = .error error :=
  failed

end Errors

def Fails (setting : Setting) (error : Error) : Point → Prop
  | ⟨depth, scope, .statement source, start⟩ =>
    (statement (library setting depth) scope source start).1 = .error error
  | ⟨depth, scope, .statements source, start⟩ =>
    (statements (library setting depth) scope source start).1 = .error error
  | ⟨depth, scope, .libraries names, start⟩ =>
    (inclusion (library setting depth) scope names start).1 = .error error
  | ⟨depth, scope, .library name, start⟩ =>
    (library setting depth name scope start).1 = .error error
  | ⟨depth, scope, .branch mark declared source, start⟩ =>
    (branch scope mark declared (statements (library setting depth) scope source) start).1 =
      .error error
  | ⟨depth, scope, .elifs mark declared source, start⟩ =>
    (elifClauses (library setting depth) scope mark declared source start).1 = .error error
  | ⟨depth, scope, .cases mark declared labels source, start⟩ =>
    (caseClauses (library setting depth) scope mark declared labels source start).1 = .error error
  | ⟨depth, scope, .last mark declared source, start⟩ =>
    (lastClause (library setting depth) scope mark declared source start).1 = .error error

/-- What comes to a failing piece of source fails as that does. -/
theorem Comes.fails {here there : Point} {error : Error} (comes : Comes setting here there)
    (failed : Fails setting error there) : Fails setting error here := by
  cases comes with
  | first =>
    simp only [Fails] at failed ⊢
    unfold statements
    exact bind_error_of_first failed
  | rest done =>
    simp only [Fails] at failed ⊢
    unfold statements
    exact bind_error_of_next done.runs (bind_error_of_first failed)
  | define =>
    simp only [Fails] at failed ⊢
    unfold statement
    refine bind_error_of_next (functionScope_apply _ _ _ _) (bind_error_of_first ?_)
    unfold functionBody
    rw [block_eq]
    exact bind_error_of_first failed
  | ifBlock evaluates =>
    simp only [Fails] at failed ⊢
    unfold statement
    refine bind_error_of_next evaluates.runs (bind_error_of_next (tree_ok.2 ⟨rfl, rfl⟩) ?_)
    simp only [block_eq, Block.statements]
    exact bind_error_of_first failed
  | elifBlocks evaluates first =>
    simp only [Fails] at failed ⊢
    unfold statement
    refine bind_error_of_next evaluates.runs (bind_error_of_next (tree_ok.2 ⟨rfl, rfl⟩) ?_)
    simp only [block_eq, Block.statements]
    exact bind_error_of_next first.runs (bind_error_of_first failed)
  | elseBlock evaluates first further =>
    simp only [Fails] at failed ⊢
    unfold statement
    refine bind_error_of_next evaluates.runs (bind_error_of_next (tree_ok.2 ⟨rfl, rfl⟩) ?_)
    simp only [block_eq, Block.statements]
    exact bind_error_of_next first.runs
      (bind_error_of_next further.runs (bind_error_of_first failed))
  | whileLoop evaluates =>
    simp only [Fails] at failed ⊢
    unfold statement
    refine bind_error_of_next evaluates.runs ?_
    rw [block_eq]
    exact bind_error_of_first failed
  | foreach evaluates =>
    simp only [Fails] at failed ⊢
    unfold statement
    refine bind_error_of_next evaluates.runs (bind_error_of_first (inScope_error ?_))
    refine bind_error_of_next (changeTree_ok (u := ()).2 rfl) ?_
    rw [block_eq]
    exact failed
  | caseBlocks evaluates =>
    simp only [Fails] at failed ⊢
    unfold statement
    refine bind_error_of_next evaluates.runs (bind_error_of_next (tree_ok.2 ⟨rfl, rfl⟩) ?_)
    exact bind_error_of_first failed
  | defaultBlock evaluates first =>
    simp only [Fails] at failed ⊢
    unfold statement
    refine bind_error_of_next evaluates.runs (bind_error_of_next (tree_ok.2 ⟨rfl, rfl⟩) ?_)
    exact bind_error_of_next first.runs (bind_error_of_first failed)
  | includes =>
    simp only [Fails] at failed ⊢
    rw [statement]
    exact failed
  | block =>
    simp only [Fails] at failed ⊢
    rw [statement, block_eq]
    exact failed
  | firstLibrary =>
    simp only [Fails] at failed ⊢
    unfold inclusion
    exact bind_error_of_first failed
  | moreLibraries done =>
    simp only [Fails] at failed ⊢
    unfold inclusion
    exact bind_error_of_next done.runs (bind_error_of_first failed)
  | library fresh found apart loaded read =>
    simp only [Fails] at failed ⊢
    unfold Compile.library
    refine bind_error_of_next (tree_ok.2 ⟨rfl, rfl⟩) ?_
    rw [if_neg (by simp only [fresh, Bool.false_eq_true, not_false_eq_true])]
    refine bind_error_of_next (libraryFile_ok.2 ⟨rfl, found, apart⟩) ?_
    refine bind_error_of_next (ofExcept_ok.2 ⟨loaded, rfl⟩) ?_
    refine bind_error_of_next (libraryScope_apply _ _ _) ?_
    refine bind_error_of_next (ofExcept_ok.2 ⟨read, rfl⟩) ?_
    exact whileIncluding_error (inFile_error failed)
  | branch =>
    simp only [Fails] at failed ⊢
    exact bind_error_of_first failed
  | firstElif evaluates =>
    simp only [Fails] at failed ⊢
    unfold elifClauses
    refine bind_error_of_next evaluates.runs ?_
    simp only [block_eq, Block.statements]
    exact bind_error_of_first failed
  | moreElifs evaluates done =>
    simp only [Fails] at failed ⊢
    unfold elifClauses
    refine bind_error_of_next evaluates.runs ?_
    simp only [block_eq, Block.statements]
    exact bind_error_of_next done.runs (bind_error_of_first failed)
  | firstCase apart =>
    simp only [Fails] at failed ⊢
    unfold caseClauses
    dsimp only
    rw [if_neg (by simp only [apart, Bool.false_eq_true, not_false_eq_true])]
    simp only [block_eq, Block.statements]
    exact bind_error_of_first failed
  | moreCases apart done =>
    simp only [Fails] at failed ⊢
    unfold caseClauses
    dsimp only
    rw [if_neg (by simp only [apart, Bool.false_eq_true, not_false_eq_true])]
    simp only [block_eq, Block.statements]
    exact bind_error_of_next done.runs (bind_error_of_first failed)
  | last =>
    simp only [Fails] at failed ⊢
    rw [lastClause, block_eq]
    exact failed

theorem Arrives.fails {here there : Point} {error : Error} (arrives : Arrives setting here there)
    (failed : Fails setting error there) : Fails setting error here := by
  induction arrives using ReflTransGen.head_induction_on with
  | refl => exact failed
  | head comes _ ih => exact comes.fails ih

/-- The point at which the compilation of a program starts. -/
def Point.start (setting : Setting) (reserved : List String) (program : Program) : Point :=
  ⟨setting.depth, ScopeTree.root, .statements program.statements,
    Session.begin reserved program.file⟩

/-- The compilation of a source text arrives at a point. -/
def Reaches (setting : Setting) (text file : String) (reserved : List String) (point : Point) :
    Prop :=
  ∃ program, Program.ofSource text file = .ok program ∧
    Arrives setting (.start setting reserved program) point

variable {text file : String} {reserved : List String} {point : Point}

theorem Reaches.ready (reaches : Reaches setting text file reserved point) :
    Ready point.scope point.session := by
  obtain ⟨program, _, arrives⟩ := reaches
  exact arrives.ready (ready_begin reserved program.file)

theorem Reaches.regular (reaches : Reaches setting text file reserved point) :
    point.task.Regular := by
  obtain ⟨program, read, arrives⟩ := reaches
  exact arrives.regular (Program.regular_ofSource read).2

/-- An error at a point that is reached is the error of the source. -/
theorem Reaches.sourceText_error {error : Error}
    (reaches : Reaches setting text file reserved point)
    (failed : Fails setting error point) :
    sourceText setting text file reserved = .error error := by
  obtain ⟨source, read, arrives⟩ := reaches
  have begun : (statements (library setting setting.depth) ScopeTree.root source.statements
      (Session.begin reserved source.file)).1 = .error error := arrives.fails failed
  unfold sourceText
  rw [read]
  show (program setting source reserved .initial).1 = .error error
  unfold program
  have inside : (programIn (library setting setting.depth) ScopeTree.root source
      { Session.initial with tree := reservedTree reserved, including := [] }).1 = .error error :=
    inFile_error begun
  dsimp only
  split
  · rename_i done
    rw [done] at inside
    cases inside
  · rename_i done
    rw [done] at inside
    exact inside

end Treecode.Compile
