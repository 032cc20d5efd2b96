import Mathlib
import Treecode.Proofs.Reserved
import Treecode.Proofs.VisibleNames

set_option autoImplicit false

namespace Treecode

/-- An instruction of some code with the bodies that hold it, innermost first. A body is that of a
function or of a loop over items, and is named by the place of that function or loop in the order of
the code. -/
structure Occurrence where
  instruction : Instruction
  bodies : List Nat

namespace Instruction

def definedName? : Instruction → Option String
  | .define name _ _ | .defineExternal name _ _ _ => some name
  | _ => none

def calledName? : Instruction → Option String
  | .call name _ => some name
  | _ => none

mutual

/-- Puts an instruction and its parts after others, in the order in which they are written. -/
def visit (bodies : List Nat) (past : List Occurrence) (i : Instruction) : List Occurrence :=
  match i with
  | .binary _ left right => visit bodies (visit bodies (past ++ [⟨i, bodies⟩]) left) right
  | .unary _ operand | .isType operand _ | .typeOf operand =>
    visit bodies (past ++ [⟨i, bodies⟩]) operand
  | .loadVariable _ index => visitAll bodies (past ++ [⟨i, bodies⟩]) index
  | .storeVariable target value _ =>
    visit bodies (visit bodies (past ++ [⟨i, bodies⟩]) target) value
  | .call _ args | .print args => visitAll bodies (past ++ [⟨i, bodies⟩]) args
  | .returnValue value | .halt value => visitOptional bodies (past ++ [⟨i, bodies⟩]) value
  | .ifElse condition body elifs otherwise =>
    visitAll bodies (visitElifs bodies
      (visitAll bodies (visit bodies (past ++ [⟨i, bodies⟩]) condition) body) elifs) otherwise
  | .whileLoop condition body =>
    visitAll bodies (visit bodies (past ++ [⟨i, bodies⟩]) condition) body
  | .foreach iterable body =>
    visitAll (past.length :: bodies) (visit bodies (past ++ [⟨i, bodies⟩]) iterable) body
  | .switch head cases default =>
    visitAll bodies (visitCases bodies (visit bodies (past ++ [⟨i, bodies⟩]) head) cases) default
  | .define _ _ body => visitAll (past.length :: bodies) (past ++ [⟨i, bodies⟩]) body
  | .select _ source filter _ _ target =>
    visit bodies (visitOptional bodies (visit bodies (past ++ [⟨i, bodies⟩]) source) filter) target
  | .loadConstant _ | .newVariable _ | .breakLoop | .continueLoop | .defineExternal _ _ _ _ =>
    past ++ [⟨i, bodies⟩]

def visitAll (bodies : List Nat) (past : List Occurrence) : List Instruction → List Occurrence
  | [] => past
  | first :: rest => visitAll bodies (visit bodies past first) rest

def visitOptional (bodies : List Nat) (past : List Occurrence) :
    Option Instruction → List Occurrence
  | none => past
  | some i => visit bodies past i

def visitElifs (bodies : List Nat) (past : List Occurrence) :
    List (Instruction × List Instruction) → List Occurrence
  | [] => past
  | (condition, body) :: rest =>
    visitElifs bodies (visitAll bodies (visit bodies past condition) body) rest

def visitCases (bodies : List Nat) (past : List Occurrence) :
    List (Value × List Instruction) → List Occurrence
  | [] => past
  | (_, body) :: rest => visitCases bodies (visitAll bodies past body) rest

end

/-- The instructions of some code in the order in which they are written. -/
def ordered (code : List Instruction) : List Occurrence := visitAll [] [] code

example :
    (ordered [.foreach (.loadConstant .nil) [.define "f" [] [.call "f" []], .call "f" []]]).map
    (fun o => (o.instruction.opcode, o.bodies)) =
      [(.foreach, []), (.loadConstant, []), (.define, [0]), (.call, [2, 0]), (.call, [0])] := rfl

theorem visitAll_append (bodies : List Nat) (past : List Occurrence)
    (first second : List Instruction) :
    visitAll bodies past (first ++ second) =
      visitAll bodies (visitAll bodies past first) second := by
  induction first generalizing past with
  | nil => rfl
  | cons i rest ih => exact ih (visit bodies past i)

end Instruction

open Instruction

/-- A function is defined among some instructions, and given bodies hold all that holds its
definition. -/
def Defined (bodies : List Nat) (past : List Occurrence) (name : String) : Prop :=
  ∃ definition ∈ past, definition.instruction.definedName? = some name ∧ definition.bodies ⊆ bodies

/-- Before every call there is a definition of its callee, and whatever holds the definition holds
the call. -/
def CalleesDefined (code : List Occurrence) : Prop :=
  ∀ before call after, code = before ++ call :: after →
    ∀ name, call.instruction.calledName? = some name → Defined call.bodies before name

theorem Defined.mono {bodies bodies' : List Nat} {past past' : List Occurrence} {name : String}
    (defined : Defined bodies past name) (inside : bodies ⊆ bodies') (further : past ⊆ past') :
    Defined bodies' past' name := by
  obtain ⟨definition, member, named, within⟩ := defined
  exact ⟨definition, further member, named, fun _ held => inside (within held)⟩

/-- Some instructions go on as others, and their calls stay in order. -/
structure GoesOn (past past' : List Occurrence) : Prop where
  further : past ⊆ past'
  callees : CalleesDefined past'

theorem GoesOn.trans {past past' past'' : List Occurrence} (first : GoesOn past past')
    (last : GoesOn past' past'') : GoesOn past past'' :=
  ⟨fun _ member => last.further (first.further member), last.callees⟩

/-- One more instruction: if it is a call, its callee is defined. -/
theorem GoesOn.push {past : List Occurrence} (callees : CalleesDefined past) (i : Instruction)
    {bodies : List Nat} (callee : ∀ name, i.calledName? = some name → Defined bodies past name) :
    GoesOn past (past ++ [⟨i, bodies⟩]) := by
  refine ⟨List.subset_append_left _ _, ?_⟩
  intro before call after split name called
  rcases List.eq_nil_or_concat after with rfl | ⟨middle, last, rfl⟩
  · obtain ⟨rfl, same⟩ := List.append_inj' split rfl
    cases same
    exact callee name called
  · rw [List.concat_eq_append, ← List.cons_append, ← List.append_assoc] at split
    obtain ⟨rfl, _⟩ := List.append_inj' split rfl
    exact callees before call middle rfl name called

/-- What is no call can always follow. -/
theorem GoesOn.plain {past : List Occurrence} (callees : CalleesDefined past) (i : Instruction)
    (bodies : List Nat) (other : i.calledName? = none) : GoesOn past (past ++ [⟨i, bodies⟩]) := by
  refine GoesOn.push callees i fun name called => ?_
  rw [other] at called
  cases called

section Expressions

variable {seen called : String → Bool} {bodies : List Nat} {past : List Occurrence}

mutual

theorem goesOn_of_reads (i : Instruction) (past : List Occurrence) (callees : CalleesDefined past)
    (defined : ∀ name, called name → Defined bodies past name) (reads : i.reads seen called) :
    GoesOn past (visit bodies past i) := by
  have start (other : i.calledName? = none) := GoesOn.plain callees i bodies other
  cases i with
  | binary opcode left right =>
    simp only [Instruction.reads, Bool.and_eq_true] at reads
    have begun := start rfl
    have first := goesOn_of_reads left _ begun.callees
      (fun name known => (defined name known).mono (List.Subset.refl _) begun.further) reads.1
    have second := goesOn_of_reads right _ first.callees
      (fun name known => (defined name known).mono (List.Subset.refl _) (begun.trans first).further)
        reads.2
    unfold visit
    exact (begun.trans first).trans second
  | unary opcode operand | isType operand kind | typeOf operand =>
    have begun := start rfl
    have rest := goesOn_of_reads operand _ begun.callees
      (fun name known => (defined name known).mono (List.Subset.refl _) begun.further) reads
    unfold visit
    exact begun.trans rest
  | loadConstant value =>
    unfold visit
    exact start rfl
  | loadVariable name index =>
    simp only [Instruction.reads, Bool.and_eq_true] at reads
    have begun := start rfl
    have rest := goesOn_of_readsAll index _ begun.callees
      (fun name known => (defined name known).mono (List.Subset.refl _) begun.further) reads.2
    unfold visit
    exact begun.trans rest
  | call name args =>
    simp only [Instruction.reads, Bool.and_eq_true] at reads
    have begun : GoesOn past (past ++ [⟨.call name args, bodies⟩]) := by
      refine GoesOn.push callees _ fun callee same => ?_
      cases same
      exact defined name reads.1
    have rest := goesOn_of_readsAll args _ begun.callees
      (fun name known => (defined name known).mono (List.Subset.refl _) begun.further) reads.2
    unfold visit
    exact begun.trans rest
  | _ => cases reads

theorem goesOn_of_readsAll (is : List Instruction) (past : List Occurrence)
    (callees : CalleesDefined past) (defined : ∀ name, called name → Defined bodies past name)
    (reads : readsAll seen called is) : GoesOn past (visitAll bodies past is) := by
  cases is with
  | nil => exact ⟨List.Subset.refl _, callees⟩
  | cons first rest =>
    simp only [readsAll, Bool.and_eq_true] at reads
    have front := goesOn_of_reads first past callees defined reads.1
    have back := goesOn_of_readsAll rest _ front.callees
      (fun name known => (defined name known).mono (List.Subset.refl _) front.further) reads.2
    unfold visitAll
    exact front.trans back

end

theorem goesOn_of_readsOptional (i : Option Instruction) (callees : CalleesDefined past)
    (defined : ∀ name, called name → Defined bodies past name)
    (reads : readsOptional seen called i) :
    GoesOn past (visitOptional bodies past i) := by
  cases i with
  | none => exact ⟨List.Subset.refl _, callees⟩
  | some i => exact goesOn_of_reads i past callees defined reads

/-- Where an instruction may declare it calls only what can be called, whatever it opens. -/
theorem reads_of_opens (i : Instruction) {seen : String → Bool} {added : List String}
    (opened : i.opens seen called = some added) : i.reads (fun _ => true) called := by
  refine opens_induct (motive := fun _ i _ => i.reads (fun _ => true) called) ?_ ?_ ?_ i opened
  · intro seen opcode left right first second front back
    simp only [Instruction.reads, front, back, Bool.and_self]
  · intro seen name
    rfl
  · intro seen i _ reads
    exact reads_mono (fun _ _ => rfl) (fun _ known => known) i reads

theorem reads_of_opensInSelect {filter : Option Instruction} {target : Instruction}
    {added : List String} (opened : opensInSelect seen called filter target = some added) :
    readsOptional (fun _ => true) called filter ∧ target.reads (fun _ => true) called := by
  unfold opensInSelect at opened
  simp only [Option.bind_eq_bind, Option.bind_eq_some_iff, Option.pure_def,
    Option.some.injEq] at opened
  obtain ⟨first, front, second, back, _⟩ := opened
  refine ⟨?_, reads_of_opens target back⟩
  cases filter with
  | none => rfl
  | some i => exact reads_of_opens i front

end Expressions

namespace Compile

open ScopeTree

variable {setting : Setting} {depth scope : Nat} {bodies : List Nat} {past : List Occurrence}

/-- Puts the code of a piece of source after other instructions. -/
def Job.visit (bodies : List Nat) (past : List Occurrence) : Job → List Occurrence
  | .statement _ code | .statements _ code | .libraries _ code | .library _ code
  | .branch _ _ _ code _ | .last _ _ _ code _ => visitAll bodies past code
  | .elifs _ _ _ code _ => visitElifs bodies past code
  | .cases _ _ _ _ code _ => visitCases bodies past code

/-- Every function that a scope can call is defined among some instructions, in given bodies. -/
def CallsDefined (bodies : List Nat) (past : List Occurrence) (scope : Nat) (session : Session) :
    Prop :=
  ∀ name, session.tree.Calls scope name → Defined bodies past name

theorem CallsDefined.mono {session : Session} {past' : List Occurrence}
    (defined : CallsDefined bodies past scope session) (further : past ⊆ past') :
    CallsDefined bodies past' scope session :=
  fun name called => (defined name called).mono (List.Subset.refl _) further

section Reading

variable {start : Session} {seen : String → Bool}

theorem CallsDefined.reads (defined : CallsDefined bodies past scope start)
    (callees : CalleesDefined past) {i : Instruction}
    (reads : i.reads seen (start.tree.calls scope)) :
    GoesOn past (Instruction.visit bodies past i) :=
  goesOn_of_reads i past callees defined reads

theorem CallsDefined.readsAll (defined : CallsDefined bodies past scope start)
    (callees : CalleesDefined past) {is : List Instruction}
    (reads : Instruction.readsAll seen (start.tree.calls scope) is) :
    GoesOn past (visitAll bodies past is) :=
  goesOn_of_readsAll is past callees defined reads

theorem CallsDefined.readsOptional (defined : CallsDefined bodies past scope start)
    (callees : CalleesDefined past) {i : Option Instruction}
    (reads : Instruction.readsOptional seen (start.tree.calls scope) i) :
    GoesOn past (visitOptional bodies past i) :=
  goesOn_of_readsOptional i callees defined reads

end Reading

theorem goesOn_assignment {start : Session} {target value : Expression} {operator : Token}
    {append constant : Bool} {operation : Option Opcode} {targetCode valueCode : Instruction}
    (assigns : Assigns start scope target operator value append constant operation
      targetCode valueCode)
    (callees : CalleesDefined past) (defined : CallsDefined bodies past scope start)
    (isNew : Bool) :
    GoesOn past (visitAll bodies past
      (assignmentCode isNew target.token.text operation targetCode valueCode append)) := by
  have same : (start.tree.assigned scope target.token.text constant value).calls scope =
      start.tree.calls scope :=
    calls_eq fun name => calls_assigned start.tree target.token.text constant value
  have targetReads := assigns.targetReads
  have valueReads := assigns.valueReads
  rw [same] at targetReads valueReads
  -- The instruction that stores, after whatever instructions.
  have stores : ∀ past', past ⊆ past' → CalleesDefined past' → GoesOn past'
      (visitAll bodies past' [.storeVariable targetCode (storedValue operation targetCode valueCode)
          append]) := by
    intro past' further callees'
    have known := defined.mono further
    have begun := GoesOn.plain callees'
      (.storeVariable targetCode (storedValue operation targetCode valueCode) append) bodies rfl
    have first := (known.mono begun.further).reads begun.callees targetReads
    have storedReads : (storedValue operation targetCode valueCode).reads
        ((start.tree.assigned scope target.token.text constant value).sees scope)
        (start.tree.calls scope) := by
      cases operation with
      | none => exact valueReads
      | some opcode =>
        simp only [storedValue, Instruction.reads, Bool.and_eq_true]
        exact ⟨targetReads, valueReads⟩
    have second := (known.mono (begun.trans first).further).reads first.callees storedReads
    simp only [visitAll, Instruction.visit]
    exact (begun.trans first).trans second
  unfold assignmentCode
  cases isNew with
  | false => exact stores past (List.Subset.refl _) callees
  | true =>
    have begun := GoesOn.plain callees (.newVariable target.token.text) bodies rfl
    have rest := stores _ begun.further begun.callees
    simp only [↓reduceIte, List.cons_append, List.nil_append, visitAll, Instruction.visit] at rest ⊢
    exact begun.trans rest

theorem goesOn_simple {start : Session} {i : Instruction}
    (reads : simplyReads (start.tree.sees scope) (start.tree.calls scope) i)
    (callees : CalleesDefined past) (defined : CallsDefined bodies past scope start) :
    GoesOn past (Instruction.visit bodies past i) := by
  cases i with
  | breakLoop | continueLoop =>
    unfold Instruction.visit
    exact GoesOn.plain callees _ bodies rfl
  | returnValue value =>
    have begun := GoesOn.plain callees (.returnValue value) bodies rfl
    unfold Instruction.visit
    exact begun.trans ((defined.mono begun.further).readsOptional begun.callees reads)
  | halt value =>
    have begun := GoesOn.plain callees (.halt value) bodies rfl
    unfold Instruction.visit
    exact begun.trans ((defined.mono begun.further).readsOptional begun.callees reads)
  | print args =>
    have begun := GoesOn.plain callees (.print args) bodies rfl
    unfold Instruction.visit
    exact begun.trans ((defined.mono begun.further).readsAll begun.callees reads)
  | call name args =>
    simp only [simplyReads, Bool.and_eq_true] at reads
    have begun : GoesOn past (past ++ [⟨.call name args, bodies⟩]) := by
      refine GoesOn.push callees _ fun callee same => ?_
      cases same
      exact defined name reads.1
    unfold Instruction.visit
    exact begun.trans ((defined.mono begun.further).readsAll begun.callees reads.2)
  | _ => cases reads

theorem goesOn_select {start : Session} {source target : Expression} {filter : Option Expression}
    {sourceCode targetCode : Instruction} {filterCode : Option Instruction} {opened : List String}
    (selects : Selects start scope source filter target sourceCode filterCode targetCode opened)
    (callees : CalleesDefined past) (defined : CallsDefined bodies past scope start)
    (fields : List (String × Option String)) (distinct merge : Bool) :
    GoesOn past (visitAll bodies past
      [.select fields sourceCode filterCode distinct merge targetCode]) := by
  obtain ⟨filterReads, targetReads⟩ := reads_of_opensInSelect selects.opens
  have begun := GoesOn.plain callees
    (.select fields sourceCode filterCode distinct merge targetCode) bodies rfl
  have first := begun.trans ((defined.mono begun.further).reads begun.callees selects.sourceReads)
  have second := first.trans ((defined.mono first.further).readsOptional first.callees filterReads)
  have third := second.trans ((defined.mono second.further).reads second.callees targetReads)
  simp only [visitAll, Instruction.visit]
  exact third

/-- Whatever compiles in a scope goes on after instructions that define what the scope can call, and
then what the scope can call is defined again. -/
theorem Compiles.callees {job : Job} {start after : Session}
    (compiles : Compiles setting depth scope job start after) {bodies : List Nat}
    {past : List Occurrence} (callees : CalleesDefined past)
    (defined : CallsDefined bodies past scope start) :
    GoesOn past (job.visit bodies past) ∧
      CallsDefined bodies (job.visit bodies past) scope after := by
  induction compiles generalizing bodies past with
  | assign _ _ assigns =>
    have goes := goesOn_assignment assigns callees defined
    refine ⟨goes _, fun name called => ?_⟩
    rw [calls_afterAssignment] at called
    exact defined.mono (goes _).further name called
  | select _ _ _ _ selects =>
    have goes := goesOn_select selects callees defined
    refine ⟨goes _ _ _, fun name called => ?_⟩
    exact defined.mono (goes _ _ _).further name ((calls_given _).1 called)
  | simple _ _ reads =>
    have goes := goesOn_simple reads callees defined
    exact ⟨goes, defined.mono goes.further⟩
  | @define depth scope start name params result brace body code after ready inner ih =>
    have begun := GoesOn.plain callees
      (.define name.text (params.map (·.name.text)) code) bodies rfl
    have own : Defined bodies
      (past ++ [⟨.define name.text (params.map (·.name.text)) code, bodies⟩]) name.text :=
      ⟨_, List.mem_append_right _ (List.mem_singleton_self _), rfl, List.Subset.refl _⟩
    obtain ⟨goes, _⟩ := @ih (past.length :: bodies) _ begun.callees fun x called => by
      rcases (calls_function ready name params).1 called with known | same
      · exact (defined x known).mono (List.subset_cons_self _ _) begun.further
      · rw [same]
        exact own.mono (List.subset_cons_self _ _) (List.Subset.refl _)
    refine ⟨?_, fun x called => ?_⟩
    · simp only [Job.visit, visitAll, Instruction.visit]
      exact begun.trans goes
    · simp only [Job.visit, visitAll, Instruction.visit]
      rcases (calls_define ready inner.frame _).1 called with known | same
      · exact (defined x known).mono (List.Subset.refl _) (begun.trans goes).further
      · rw [same]
        exact own.mono (List.Subset.refl _) goes.further
  | @defineExternal depth scope start name params result module function ready =>
    have begun := GoesOn.plain callees
      (.defineExternal name.text (params.map (·.name.text)) module function) bodies rfl
    refine ⟨begun, fun x called => ?_⟩
    rcases (calls_external ready _).1 called with known | same
    · exact (defined x known).mono (List.Subset.refl _) begun.further
    · rw [same]
      exact ⟨_, List.mem_append_right _ (List.mem_singleton_self _), rfl, List.Subset.refl _⟩
  | @ifElse depth scope start word condition conditionCode brace body bodyCode declared middle
    elifs elifCode
      declared' later otherwise lastCode declared'' after ready evaluates front between back first
          further final =>
    have begun := GoesOn.plain callees (.ifElse conditionCode bodyCode elifCode lastCode) bodies rfl
    have tested := begun.trans ((defined.mono begun.further).reads begun.callees evaluates.reads)
    obtain ⟨goes₁, defined₁⟩ := first tested.callees (defined.mono tested.further)
    obtain ⟨goes₂, defined₂⟩ := further goes₁.callees defined₁
    obtain ⟨goes₃, defined₃⟩ := final goes₂.callees defined₂
    refine ⟨((tested.trans goes₁).trans goes₂).trans goes₃, fun x called => ?_⟩
    exact defined₃ x ((calls_given _).1 called)
  | @whileLoop depth scope start word condition conditionCode brace body code after ready
      evaluates inner ih =>
    have begun := GoesOn.plain callees (.whileLoop conditionCode code) bodies rfl
    have tested := begun.trans ((defined.mono begun.further).reads begun.callees evaluates.reads)
    obtain ⟨goes, defined'⟩ := ih tested.callees (defined.mono tested.further)
    exact ⟨tested.trans goes, defined'⟩
  | @foreach depth scope start word iterable iterableCode brace body code after ready
      evaluates inner ih =>
    have begun := GoesOn.plain callees (.foreach iterableCode code) bodies rfl
    have tested := begun.trans ((defined.mono begun.further).reads begun.callees evaluates.reads)
    obtain ⟨goes, _⟩ := @ih (past.length :: bodies) _ tested.callees fun x called =>
      (defined x ((calls_loop ready).1 called)).mono (List.subset_cons_self _ _) tested.further
    refine ⟨tested.trans goes, fun x called => ?_⟩
    have known := defined x ((calls_afterLoop ready inner.frame).1 called)
    exact known.mono (List.Subset.refl _) (tested.trans goes).further
  | @switch depth scope start word head headCode cases caseCode declared middle default lastCode
    declared' after ready evaluates front back first final =>
    have begun := GoesOn.plain callees (.switch headCode caseCode lastCode) bodies rfl
    have tested := begun.trans ((defined.mono begun.further).reads begun.callees evaluates.reads)
    obtain ⟨goes₁, defined₁⟩ := first tested.callees (defined.mono tested.further)
    obtain ⟨goes₂, defined₂⟩ := final goes₁.callees defined₁
    refine ⟨(tested.trans goes₁).trans goes₂, fun x called => ?_⟩
    exact defined₂ x ((calls_given _).1 called)
  | includes _ _ ih | block _ _ ih => exact ih callees defined
  | noStatement | noLibrary | knownLibrary | noElif | noCase | noLast =>
    exact ⟨⟨List.Subset.refl _, callees⟩, defined⟩
  | moreStatements _ _ _ head tail | moreLibraries _ _ _ head tail =>
    obtain ⟨goes₁, defined₁⟩ := head callees defined
    obtain ⟨goes₂, defined₂⟩ := tail goes₁.callees defined₁
    simp only [Job.visit, visitAll_append] at goes₁ goes₂ defined₂ ⊢
    exact ⟨goes₁.trans goes₂, defined₂⟩
  | newLibrary ready _ _ _ _ _ inner ih =>
    obtain ⟨goes, defined'⟩ := ih callees fun x called =>
      defined x ((calls_inLibrary ready _ _ _).1 called)
    exact ⟨goes, fun x called => defined' x ((calls_library ready inner.frame).1 called)⟩
  | branch _ _ _ ih =>
    obtain ⟨goes, defined'⟩ := ih callees defined
    exact ⟨goes, fun x called => defined' x ((calls_branch _).1 called)⟩
  | moreElifs _ _ evaluates _ _ head tail =>
    have tested := defined.reads callees evaluates.reads
    obtain ⟨goes₁, defined₁⟩ := head tested.callees (defined.mono tested.further)
    obtain ⟨goes₂, defined₂⟩ := tail goes₁.callees defined₁
    exact ⟨(tested.trans goes₁).trans goes₂, defined₂⟩
  | moreCases _ _ _ _ _ head tail =>
    obtain ⟨goes₁, defined₁⟩ := head callees defined
    obtain ⟨goes₂, defined₂⟩ := tail goes₁.callees defined₁
    exact ⟨goes₁.trans goes₂, defined₂⟩
  | someLast _ _ _ ih => exact ih callees defined

/-- Before every call in the code of a source there is a definition of the function that it names,
and every body of a function or of a loop over items that holds the definition holds the call. -/
theorem sourceText_callees {text file : String} {reserved : List String} {code : List Instruction}
    (success : sourceText setting text file reserved = .ok code) :
    CalleesDefined (ordered code) := by
  obtain ⟨source, body, after, _, compiles, rfl⟩ := Compiles.of_sourceText success
  have nothing : CalleesDefined [] := by
    intro before call after split
    simp at split
  have noFunction : CallsDefined [] [] ScopeTree.root (Session.begin reserved source.file) :=
    fun name called => absurd called (calls_reservedTree reserved name)
  obtain ⟨goes, _⟩ := compiles.callees nothing noFunction
  have halt := GoesOn.plain goes.callees .finalHalt [] rfl
  have value := GoesOn.plain halt.callees (.loadConstant (.integer 0)) [] rfl
  unfold ordered
  rw [visitAll_append]
  exact value.callees

/-- A function that calls itself, called in a loop over items. -/
theorem sourceText_callees_recursive :
    ∃ code, sourceText ⟨.empty, []⟩ "f=>(n)\x7breturn f(n);\x7dforeach [1]\x7bf(it);\x7d" "main.mcl"
      [] = .ok code ∧ CalleesDefined (ordered code) := by
  have success : sourceText ⟨.empty, []⟩ "f=>(n)\x7breturn f(n);\x7dforeach [1]\x7bf(it);\x7d"
    "main.mcl" [] = .ok [.define "f" ["n"] [.returnValue (some (.call "f" [.loadVariable "n" []]))],
        .foreach (.loadConstant (.array [.integer 1])) [.call "f" [.loadVariable "it" []]],
        .finalHalt] := by cbv
  exact ⟨_, success, sourceText_callees success⟩

end Compile

end Treecode
