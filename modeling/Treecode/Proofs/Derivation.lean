import Treecode.Proofs.Effects

set_option autoImplicit false

namespace Treecode

namespace Compile

open Step

/-- The instruction of a statement without blocks that changes no scopes. -/
def simpleCode? : Statement → Option Instruction
  | .breakLoop _ => some .breakLoop
  | .continueLoop _ => some .continueLoop
  | .returnValue _ value => (Expression.optionalCode? value).map .returnValue
  | .halt _ value => (Expression.optionalCode? value).map .halt
  | .print _ args => (Expression.codes? args).map .print
  | .call name args => (Expression.codes? args).map (.call name.text)
  | _ => none

def simplyReads (seen called : String → Bool) : Instruction → Bool
  | .breakLoop | .continueLoop => true
  | .returnValue value | .halt value => Instruction.readsOptional seen called value
  | .print args => Instruction.readsAll seen called args
  | .call name args => called name && Instruction.readsAll seen called args
  | _ => false

/-- A piece of source with the code that it compiles to. A block of an `if` or a `switch` comes with
the mark where its variables start, the variables gathered before it and those gathered after it; a
case comes with the labels before it. -/
inductive Job where
  | statement (source : Statement) (code : List Instruction)
  | statements (source : List Statement) (code : List Instruction)
  | libraries (names : List Token) (code : List Instruction)
  | library (name : Token) (code : List Instruction)
  | branch (mark : Nat) (declared : List Variable) (source : List Statement)
      (code : List Instruction) (gathered : List Variable)
  | elifs (mark : Nat) (declared : List Variable) (source : List Clause)
      (code : List (Instruction × List Instruction)) (gathered : List Variable)
  | cases (mark : Nat) (declared : List Variable) (labels : List Value) (source : List Clause)
      (code : List (Value × List Instruction)) (gathered : List Variable)
  | last (mark : Nat) (declared : List Variable) (source : Option LastClause)
      (code : List Instruction) (gathered : List Variable)

/-- The variables gathered before a block of an `if` or a `switch`. -/
def Job.declared : Job → List Variable
  | .branch _ declared _ _ _ | .elifs _ declared _ _ _ | .cases _ declared _ _ _ _
  | .last _ declared _ _ _ => declared
  | _ => []

def Job.gathered : Job → List Variable
  | .branch _ _ _ _ gathered | .elifs _ _ _ _ gathered | .cases _ _ _ _ _ gathered
  | .last _ _ _ _ gathered => gathered
  | _ => []

/-- Whether an expression in a session compiles to an instruction. -/
structure Evaluates (start : Session) (scope : Nat) (e : Expression) (code : Instruction) :
    Prop where
  translated : e.code? = some code
  reads : code.reads (start.tree.sees scope) (start.tree.calls scope)

theorem evaluates_iff {scope : Nat} {e : Expression} {start after : Session} {code : Instruction} :
    expression scope false e start = (.ok code, after) ↔ after = start ∧
      Evaluates start scope e code := by
  rw [expression_ok]
  exact and_congr_right fun _ => ⟨fun both => ⟨both.1, both.2⟩, fun both => ⟨both.1, both.2⟩⟩

def Session.loop (start : Session) (scope : Nat) : Session :=
  start.withTree (start.tree.within scope "foreach"
    [{ Variable.fresh "it" start.tree.size with type := .any }])

def Session.function (start : Session) (scope : Nat) (name : Token) (params : List Parameter) :
    Session :=
  start.withTree (start.tree.withFunction scope name.text
    (parameterVariables start.tree.size params))

/-- A session in which a function lies outside. -/
def Session.external (session : Session) (child : Nat) : Session :=
  session.withTree (session.tree.modify child fun s => { s with isExternal := true })

def Session.defined (session : Session) (child : Nat) (definition : Instruction) : Session :=
  session.withTree (session.tree.modify child fun s => { s with definition := some definition })

def Session.inLibrary (start : Session) (scope : Nat) (name : Token) (path file : String) :
    Session :=
  ⟨start.tree.withLibrary scope name.text, file, path :: start.including⟩

/-- Sessions in which a scope can be worked in: it is there, and the scopes are in order. -/
structure Ready (scope : Nat) (start : Session) : Prop where
  inside : scope < start.tree.size
  ordered : start.tree.Ordered

/-- A piece of source compiles in a scope and takes one session to another. Includes nest down to
the given depth. -/
inductive Compiles (setting : Setting) : Nat → Nat → Job → Session → Session → Prop
  | assign {depth scope start target operator value append constant operation targetCode valueCode}
      (ready : Ready scope start) (shaped : target.isVariable)
      (assigns : Assigns start scope target operator value append constant operation targetCode
        valueCode) :
      Compiles setting depth scope
        (.statement (.assign target operator value append constant)
          (assignmentCode (!start.tree.sees scope target.token.text) target.token.text operation
            targetCode valueCode append))
        start (start.afterAssignment scope target value append constant)
  | select {depth scope start word distinct fields source filter merge target sourceCode
      filterCode targetCode
        opened}
      (ready : Ready scope start) (shaped : target.isVariable)
      (properFilter : Expression.optionalIndexesAreProper filter)
      (properTarget : target.indexesAreProper)
      (selects : Selects start scope source filter target sourceCode filterCode targetCode opened) :
      Compiles setting depth scope
        (.statement (.select word distinct fields source filter merge target)
          [.select (fieldNames fields) sourceCode filterCode distinct merge targetCode])
        start (start.opening scope opened)
  | simple {depth scope start source code}
      (ready : Ready scope start)
      (translated : simpleCode? source = some code)
      (reads : simplyReads (start.tree.sees scope) (start.tree.calls scope) code) :
      Compiles setting depth scope (.statement source [code]) start start
  | define {depth scope start name params result brace body code after}
      (ready : Ready scope start)
      (inner : Compiles setting depth start.tree.size (.statements body code)
        (start.function scope name params) after) :
      Compiles setting depth scope
        (.statement (.define name params result (.block (.mk brace body)))
          [.define name.text (params.map (·.name.text)) code])
        start (after.defined start.tree.size (.define name.text (params.map (·.name.text)) code))
  | defineExternal {depth scope start name params result module function}
      (ready : Ready scope start) :
      Compiles setting depth scope
        (.statement (.define name params result (.external module function))
          [.defineExternal name.text (params.map (·.name.text)) module function])
        start
        (((start.function scope name params).external start.tree.size).defined start.tree.size
          (.defineExternal name.text (params.map (·.name.text)) module function))
  | ifElse {depth scope start word condition conditionCode brace body bodyCode declared middle
      elifs elifCode
        declared' later otherwise lastCode declared'' after}
      (ready : Ready scope start)
      (evaluates : Evaluates start scope condition conditionCode)
      (first : Compiles setting depth scope
        (.branch (start.tree.variableCount scope) [] body bodyCode declared) start middle)
      (further : Compiles setting depth scope
        (.elifs (start.tree.variableCount scope) declared elifs elifCode declared') middle later)
      (final : Compiles setting depth scope
        (.last (start.tree.variableCount scope) declared' otherwise lastCode declared'')
          later after) :
      Compiles setting depth scope
        (.statement (.ifElse word condition (.mk brace body) elifs otherwise)
          [.ifElse conditionCode bodyCode elifCode lastCode])
        start (after.withTree (after.tree.addVariables scope declared''))
  | whileLoop {depth scope start word condition conditionCode brace body code after}
      (ready : Ready scope start)
      (evaluates : Evaluates start scope condition conditionCode)
      (inner : Compiles setting depth scope (.statements body code) start after) :
      Compiles setting depth scope
        (.statement (.whileLoop word condition (.mk brace body)) [.whileLoop conditionCode code])
        start after
  | foreach {depth scope start word iterable iterableCode brace body code after}
      (ready : Ready scope start)
      (evaluates : Evaluates start scope iterable iterableCode)
      (inner : Compiles setting depth start.tree.size (.statements body code)
        (start.loop scope) after) :
      Compiles setting depth scope
        (.statement (.foreach word iterable (.mk brace body)) [.foreach iterableCode code])
        start (after.withTree (after.tree.discardChild scope start.tree.size))
  | switch {depth scope start word head headCode cases caseCode declared middle default
      lastCode declared'
        after}
      (ready : Ready scope start)
      (evaluates : Evaluates start scope head headCode)
      (first : Compiles setting depth scope
        (.cases (start.tree.variableCount scope) [] [] cases caseCode declared) start middle)
      (final : Compiles setting depth scope
        (.last (start.tree.variableCount scope) declared default lastCode declared') middle after) :
      Compiles setting depth scope
        (.statement (.switch word head cases default) [.switch headCode caseCode lastCode])
        start (after.withTree (after.tree.addVariables scope declared'))
  | includes {depth scope start word names code after}
      (ready : Ready scope start)
      (inner : Compiles setting depth scope (.libraries names code) start after) :
      Compiles setting depth scope (.statement (.includes word names) code) start after
  | block {depth scope start brace body code after}
      (ready : Ready scope start)
      (inner : Compiles setting depth scope (.statements body code) start after) :
      Compiles setting depth scope (.statement (.block (.mk brace body)) code) start after
  | noStatement {depth scope start}
      (ready : Ready scope start) : Compiles setting depth scope (.statements [] []) start start
  | moreStatements {depth scope start first code middle rest restCode after}
      (ready : Ready scope start)
      (head : Compiles setting depth scope (.statement first code) start middle)
      (tail : Compiles setting depth scope (.statements rest restCode) middle after) :
      Compiles setting depth scope (.statements (first :: rest) (code ++ restCode)) start after
  | noLibrary {depth scope start}
      (ready : Ready scope start) : Compiles setting depth scope (.libraries [] []) start start
  | moreLibraries {depth scope start first code middle rest restCode after}
      (ready : Ready scope start)
      (head : Compiles setting depth scope (.library first code) start middle)
      (tail : Compiles setting depth scope (.libraries rest restCode) middle after) :
      Compiles setting depth scope (.libraries (first :: rest) (code ++ restCode)) start after
  | knownLibrary {depth scope start name}
      (ready : Ready scope start) (known : start.tree.hasLibrary scope name.text) :
      Compiles setting (depth + 1) scope (.library name []) start start
  | newLibrary {depth scope start name path text program code after}
      (ready : Ready scope start)
      (fresh : start.tree.hasLibrary scope name.text = false)
      (found : Library.find? setting.files setting.searchPath name.text = some path)
      (apart : start.including.any (Path.same path) = false)
      (loaded : Library.load setting.files path = .ok text)
      (read : Program.ofSource text path = .ok program)
      (inner : Compiles setting depth start.tree.size (.statements program.statements code)
        (start.inLibrary scope name path program.file) after) :
      Compiles setting (depth + 1) scope (.library name code) start
        ⟨after.tree, start.file, after.including.tail⟩
  | branch {depth scope start mark declared body code after}
      (ready : Ready scope start) (since : mark = start.tree.variableCount scope)
      (inner : Compiles setting depth scope (.statements body code) start after) :
      Compiles setting depth scope
        (.branch mark declared body code (gather declared (after.tree.variablesSince scope mark)))
        start (after.withTree (after.tree.dropVariablesSince scope mark))
  | noElif {depth scope start mark declared}
      (ready : Ready scope start) (since : mark = start.tree.variableCount scope) :
      Compiles setting depth scope (.elifs mark declared [] [] declared) start start
  | moreElifs
      {depth scope start mark declared word condition conditionCode brace body code declared' middle
        rest restCode declared'' after}
      (ready : Ready scope start) (since : mark = start.tree.variableCount scope)
      (evaluates : Evaluates start scope condition conditionCode)
      (head : Compiles setting depth scope (.branch mark declared body code declared') start middle)
      (tail : Compiles setting depth scope (.elifs mark declared' rest restCode declared'')
        middle after) :
      Compiles setting depth scope
        (.elifs mark declared (.mk word condition (.mk brace body) :: rest)
          ((conditionCode, code) :: restCode) declared'') start after
  | noCase {depth scope start mark declared labels}
      (ready : Ready scope start) (since : mark = start.tree.variableCount scope) :
      Compiles setting depth scope (.cases mark declared labels [] [] declared) start start
  | moreCases
      {depth scope start mark declared labels word token label brace body code declared' middle
        rest restCode declared'' after}
      (ready : Ready scope start) (since : mark = start.tree.variableCount scope)
      (apart : labels.any (·.sameLabel label) = false)
      (head : Compiles setting depth scope (.branch mark declared body code declared') start middle)
      (tail : Compiles setting depth scope
        (.cases mark declared' (labels ++ [label]) rest restCode declared'') middle after) :
      Compiles setting depth scope
        (.cases mark declared labels (.mk word (.literal token label) (.mk brace body) :: rest)
          ((label, code) :: restCode) declared'') start after
  | noLast {depth scope start mark declared}
      (ready : Ready scope start) (since : mark = start.tree.variableCount scope) :
      Compiles setting depth scope (.last mark declared none [] declared) start start
  | someLast {depth scope start mark declared word brace body code declared' after}
      (ready : Ready scope start) (since : mark = start.tree.variableCount scope)
      (inner : Compiles setting depth scope (.branch mark declared body code declared')
        start after) :
      Compiles setting depth scope
        (.last mark declared (some (.mk word (.mk brace body))) code declared') start after

theorem Compiles.ready {setting : Setting} {depth scope : Nat} {job : Job} {start after : Session}
    (compiles : Compiles setting depth scope job start after) : Ready scope start := by
  cases compiles <;> assumption

end Compile

end Treecode
