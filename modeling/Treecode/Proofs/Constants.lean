import Mathlib
import Treecode.Proofs.Arrival

set_option autoImplicit false

namespace Treecode

namespace Instruction

mutual

/-- The names that an instruction stores to, in order. -/
def stored : Instruction → List String
  | .storeVariable target _ _ =>
    match target with
    | .loadVariable name _ => [name]
    | _ => []
  | .ifElse _ body elifs otherwise => allStored body ++ elifsStored elifs ++ allStored otherwise
  | .whileLoop _ body | .foreach _ body | .define _ _ body => allStored body
  | .switch _ cases default => casesStored cases ++ allStored default
  | _ => []

def allStored : List Instruction → List String
  | [] => []
  | first :: rest => first.stored ++ allStored rest

def elifsStored : List (Instruction × List Instruction) → List String
  | [] => []
  | (_, body) :: rest => allStored body ++ elifsStored rest

def casesStored : List (Value × List Instruction) → List String
  | [] => []
  | (_, body) :: rest => allStored body ++ casesStored rest

end

theorem allStored_append (first second : List Instruction) :
    allStored (first ++ second) = allStored first ++ allStored second := by
  induction first with
  | nil => rfl
  | cons i rest ih => simp only [List.cons_append, allStored, ih, List.append_assoc]

end Instruction

namespace Compile

open Step Instruction

variable {setting : Setting} {depth scope : Nat}

/-- The names that the code of a piece of source stores to. -/
def Job.stored : Job → List String
  | .statement _ code | .statements _ code | .libraries _ code | .library _ code
  | .branch _ _ _ code _ | .last _ _ _ code _ => allStored code
  | .elifs _ _ _ code _ => elifsStored code
  | .cases _ _ _ _ code _ => casesStored code

/-- Some turns lead to one assignment, to a name that may be assigned to there. -/
def AssignsAt (setting : Setting) (start : Point) (name : String) (turns : List Nat) : Prop :=
  ∃ point, (∀ other, ArrivesBy setting start turns other ↔ other = point) ∧
    ∃ target operator value append constant,
      point.task = .statement (.assign target operator value append constant) ∧
        target.token.text = name ∧ Assignable point.session.tree point.scope name constant

/-- Names are stored to in order, each by an assignment of its own: each assignment comes later in
the compilation than those of the names before. -/
def Stores (setting : Setting) (start : Point) (names : List String) : Prop :=
  ∃ places, List.Forall₂ (AssignsAt setting start) names places ∧ places.Pairwise (· < ·)

/-- The same, where the assignments stand in parts of some turn or of a later one. -/
def StoresSince (setting : Setting) (start : Point) (turn : Nat) (names : List String) : Prop :=
  ∃ places, List.Forall₂ (AssignsAt setting start) names places ∧ places.Pairwise (· < ·) ∧
    ∀ place ∈ places, ∃ first rest, place = first :: rest ∧ turn ≤ first

theorem Stores.nil (start : Point) : Stores setting start [] := ⟨[], .nil, .nil⟩

theorem StoresSince.stores {start : Point} {turn : Nat} {names : List String}
    (since : StoresSince setting start turn names) : Stores setting start names := by
  obtain ⟨places, each, ordered, _⟩ := since
  exact ⟨places, each, ordered⟩

/-- What is stored in a part is stored, before what is stored in later parts. -/
theorem StoresSince.cons {here there : Point} {turn : Nat} {names further : List String}
    (comes : Comes setting here there) (stores : Stores setting there names)
    (later : StoresSince setting here turn further) (before : there.task.turn < turn) :
    StoresSince setting here there.task.turn (names ++ further) := by
  obtain ⟨places, each, ordered⟩ := stores
  obtain ⟨places', each', ordered', since⟩ := later
  have front : List.Forall₂ (AssignsAt setting here) names
      (places.map (there.task.turn :: ·)) := by
    rw [List.forall₂_map_right_iff]
    refine each.imp fun name place assigns => ?_
    obtain ⟨point, way, assigned⟩ := assigns
    exact ⟨point, fun other => (ArrivesBy.step_iff comes).trans (way other), assigned⟩
  refine ⟨_, List.rel_append front each', ?_, ?_⟩
  · refine List.pairwise_append.2 ⟨?_, ordered', ?_⟩
    · refine List.pairwise_map.2 (ordered.imp fun smaller => ?_)
      exact List.cons_lt_cons_iff.2 (.inr ⟨rfl, smaller⟩)
    · intro place member place' member'
      obtain ⟨rest, _, rfl⟩ := List.mem_map.1 member
      obtain ⟨first, rest', rfl, bound⟩ := since place' member'
      exact List.cons_lt_cons_iff.2 (.inl (Nat.lt_of_lt_of_le before bound))
  · intro place member
    rcases List.mem_append.1 member with own | other
    · obtain ⟨rest, _, rfl⟩ := List.mem_map.1 own
      exact ⟨_, rest, rfl, Nat.le_refl _⟩
    · obtain ⟨first, rest, same, bound⟩ := since place other
      exact ⟨first, rest, same, Nat.le_trans (Nat.le_of_lt before) bound⟩

theorem StoresSince.last {here there : Point} {names : List String}
    (comes : Comes setting here there)
    (stores : Stores setting there names) : StoresSince setting here there.task.turn names := by
  have nothing : StoresSince setting here (there.task.turn + 1) [] :=
    ⟨[], .nil, .nil, fun _ member => absurd member List.not_mem_nil⟩
  have whole := StoresSince.cons comes stores nothing (Nat.lt_succ_self _)
  rwa [List.append_nil] at whole

theorem Stores.of_comes {here there : Point} {names : List String}
    (comes : Comes setting here there)
    (stores : Stores setting there names) : Stores setting here names :=
  (StoresSince.last comes stores).stores

theorem Stores.append {here first second : Point} {names further : List String}
    (comes : Comes setting here first) (front : Stores setting first names)
    (comes' : Comes setting here second) (back : Stores setting second further)
    (before : first.task.turn < second.task.turn) : Stores setting here (names ++ further) :=
  (StoresSince.cons comes front (.last comes' back) before).stores

theorem stored_simply {seen called : String → Bool} {i : Instruction}
    (reads : simplyReads seen called i) : i.stored = [] := by
  cases i with
  | storeVariable | ifElse | whileLoop | foreach | define | switch => cases reads
  | _ => rfl

/-- Every store of some code comes from an assignment to a name that may be assigned to. -/
theorem Compiles.stores {job : Job} {start after : Session}
    (compiles : Compiles setting depth scope job start after) :
    Stores setting ⟨depth, scope, job.task, start⟩ job.stored := by
  induction compiles with
  | @assign depth scope start target operator value append constant operation targetCode
    valueCode ready shaped assigns =>
    obtain ⟨index, rfl⟩ := Expression.code?_target shaped assigns.spelled
    have stored : allStored (assignmentCode (!start.tree.sees scope target.token.text)
        target.token.text operation (.loadVariable target.token.text index) valueCode append) =
        [target.token.text] := by
      unfold assignmentCode
      split <;> rfl
    simp only [Job.stored, Job.task, stored]
    exact ⟨[[]], .cons ⟨_, fun _ => ArrivesBy.here_iff, target, operator, value, append,
      constant, rfl, rfl, assigns.assignable⟩ .nil, List.pairwise_singleton _ _⟩
  | select | defineExternal | noStatement | noLibrary | knownLibrary | noElif | noCase | noLast =>
    exact .nil _
  | simple _ _ reads =>
    simp only [Job.stored, allStored, stored_simply reads, List.append_nil]
    exact .nil _
  | define _ _ ih =>
    simp only [Job.stored, Job.task, allStored, Instruction.stored, List.append_nil] at ih ⊢
    exact ih.of_comes .define
  | ifElse _ evaluates front between _ first further final =>
    simp only [Job.stored, Job.task, allStored, Instruction.stored,
      List.append_nil] at first further final ⊢
    rw [List.append_assoc]
    exact (StoresSince.cons (.ifBlock evaluates) first
      (.cons (.elifBlocks evaluates front) further
        (.last (.elseBlock evaluates front between) final) Nat.one_lt_two) Nat.zero_lt_one).stores
  | whileLoop _ evaluates _ ih =>
    simp only [Job.stored, Job.task, allStored, Instruction.stored, List.append_nil] at ih ⊢
    exact ih.of_comes (.whileLoop evaluates)
  | foreach _ evaluates _ ih =>
    simp only [Job.stored, Job.task, allStored, Instruction.stored, List.append_nil] at ih ⊢
    exact ih.of_comes (.foreach evaluates)
  | switch _ evaluates front _ first final =>
    simp only [Job.stored, Job.task, allStored, Instruction.stored,
      List.append_nil] at first final ⊢
    exact .append (.caseBlocks evaluates) first (.defaultBlock evaluates front) final Nat.one_lt_two
  | includes _ _ ih => exact ih.of_comes .includes
  | block _ _ ih => exact ih.of_comes .block
  | moreStatements _ front _ head tail =>
    simp only [Job.stored, Job.task, allStored_append] at head tail ⊢
    exact .append .first head (.rest front) tail Nat.zero_lt_one
  | moreLibraries _ front _ head tail =>
    simp only [Job.stored, Job.task, allStored_append] at head tail ⊢
    exact .append .firstLibrary head (.moreLibraries front) tail Nat.zero_lt_one
  | newLibrary _ fresh found apart loaded read _ ih =>
    exact ih.of_comes (.library fresh found apart loaded read)
  | branch _ _ _ ih => exact ih.of_comes .branch
  | moreElifs _ _ evaluates front _ head tail =>
    simp only [Job.stored, Job.task, elifsStored] at head tail ⊢
    exact .append (.firstElif evaluates) head (.moreElifs evaluates front) tail Nat.zero_lt_one
  | moreCases _ _ apart front _ head tail =>
    simp only [Job.stored, Job.task, casesStored] at head tail ⊢
    exact .append (.firstCase apart) head (.moreCases apart front) tail Nat.zero_lt_one
  | someLast _ _ _ ih => exact ih.of_comes .last

/-- An assignment to a constant is rejected, whatever its sign, its value and its index. -/
theorem fails_assignment {target : Expression} {operator : Token} {value : Expression}
    {append constant : Bool} {start : Session} {known : Variable}
    (found : start.tree.findVariable scope target.token.text = some known)
    (kept : known.constant = true) :
    Fails setting (.rejected (start.place target.token) (.assignsConstant target.token.text))
      ⟨depth, scope, .statement (.assign target operator value append constant), start⟩ := by
  simp only [Fails]
  rw [statement]
  unfold assignment
  refine bind_error_of_first ?_
  rw [assignedName_apply, found]
  simp only [kept, ↓reduceIte]

/-- A select compiles exactly when its parts do. -/
theorem select_compiles_iff {includeOne : Including} {word : Token} {distinct merge : Bool}
    {fields : List Field} {source target : Expression} {filter : Option Expression}
    {start : Session}
    (regular : (Statement.select word distinct fields source filter merge target).Regular .any)
    (ready : Ready scope start) :
    (∃ code after,
      statement includeOne scope (.select word distinct fields source filter merge target) start =
        (.ok code, after)) ↔
      ∃ sourceCode filterCode targetCode opened,
        Selects start scope source filter target sourceCode filterCode targetCode opened := by
  obtain ⟨_, _, filterRegular, _, targetRegular⟩ := regular
  unfold statement
  simp only [bind_ok, pure_ok]
  constructor
  · intro success
    obtain ⟨_, _, selectCode, _, done, _, _⟩ := success
    rw [selection_ok filterRegular.indexesAreProper targetRegular.indexesAreProper ready.inside]
      at done
    obtain ⟨sourceCode, filterCode, targetCode, opened, selects, _, _⟩ := done
    exact ⟨sourceCode, filterCode, targetCode, opened, selects⟩
  · intro parts
    obtain ⟨sourceCode, filterCode, targetCode, opened, selects⟩ := parts
    have done : selection scope distinct fields source filter merge target start =
        (.ok (.select (fieldNames fields) sourceCode filterCode distinct merge targetCode),
          start.opening scope opened) :=
      (selection_ok filterRegular.indexesAreProper targetRegular.indexesAreProper ready.inside).2
        ⟨sourceCode, filterCode, targetCode, opened, selects, rfl, rfl⟩
    exact ⟨_, _, _, _, done, rfl, rfl⟩

/-- Wherever a compilation arrives at an assignment to a constant, the source is rejected there. A
select compiles exactly when its parts do, also into a constant. The stores in the code of a source
come, in their order, from assignments that the compilation arrives at one after another, each to a
name that is new there or neither a constant nor declared as one. -/
theorem constants_keep_their_stores (setting : Setting) (text file : String)
    (reserved : List String) :
    (∀ depth scope start target operator value append constant known,
      Reaches setting text file reserved
        ⟨depth, scope, .statement (.assign target operator value append constant), start⟩ →
      start.tree.findVariable scope target.token.text = some known → known.constant = true →
      sourceText setting text file reserved =
        .error (.rejected (start.place target.token) (.assignsConstant target.token.text))) ∧
    (∀ depth scope start word distinct fields source filter merge target,
      Reaches setting text file reserved
        ⟨depth, scope, .statement (.select word distinct fields source filter merge target),
          start⟩ →
      ((∃ code after, statement (library setting depth) scope
          (.select word distinct fields source filter merge target) start = (.ok code, after)) ↔
        ∃ sourceCode filterCode targetCode opened,
          Selects start scope source filter target sourceCode filterCode targetCode opened)) ∧
    ∀ code, sourceText setting text file reserved = .ok code →
      ∃ program, Program.ofSource text file = .ok program ∧
        Stores setting (.start setting reserved program) (allStored code) := by
  refine ⟨?_, ?_, ?_⟩
  · intro depth scope start target operator value append constant known reaches found kept
    exact reaches.sourceText_error (fails_assignment found kept)
  · intro depth scope start word distinct fields source filter merge target reaches
    exact select_compiles_iff reaches.regular reaches.ready
  · intro code success
    obtain ⟨program, body, after, read, compiles, rfl⟩ := Compiles.of_sourceText success
    refine ⟨program, read, ?_⟩
    have halt : allStored [.finalHalt] = [] := rfl
    rw [allStored_append, halt, List.append_nil]
    exact compiles.stores

/-- A constant that is assigned to again. -/
theorem constants_keep_their_stores_again :
    sourceText ⟨.empty, []⟩ "const x=1;x=2;" "main.mcl" [] =
      .error (.rejected ⟨"main.mcl", 1, 11⟩ (.assignsConstant "x")) := by
  have read : Program.ofSource "const x=1;x=2;" "main.mcl" = .ok ⟨"main.mcl",
      [.assign (.plain ⟨.identifier, some "x", ⟨1, 7, 6⟩⟩)
        ⟨.operatorAssignment, some "=", ⟨1, 8, 7⟩⟩
          (.literal ⟨.integer, some "1", ⟨1, 9, 8⟩⟩ (.integer 1)) false true,
        .assign (.plain ⟨.identifier, some "x", ⟨1, 11, 10⟩⟩)
          ⟨.operatorAssignment, some "=", ⟨1, 12, 11⟩⟩
          (.literal ⟨.integer, some "2", ⟨1, 13, 12⟩⟩ (.integer 2)) false false]⟩ := by cbv
  obtain ⟨code, after, done, known, found, kept⟩ : ∃ code after,
      statement (library ⟨.empty, []⟩ 2) ScopeTree.root
        (.assign (.plain ⟨.identifier, some "x", ⟨1, 7, 6⟩⟩)
          ⟨.operatorAssignment, some "=", ⟨1, 8, 7⟩⟩
          (.literal ⟨.integer, some "1", ⟨1, 9, 8⟩⟩ (.integer 1)) false true)
        (Session.begin [] "main.mcl") = (.ok code, after) ∧
      ∃ known, after.tree.findVariable ScopeTree.root "x" = some known ∧ known.constant = true := by
    refine ⟨[.newVariable "x",
      .storeVariable (.loadVariable "x" []) (.loadConstant (.integer 1)) false], _,
      Prod.ext ?_ rfl, (Option.any_eq_true Variable.constant _).1 ?_⟩ <;> cbv
  have first := compiles_statement
    (derives_library ⟨.empty, []⟩ 2) _ (Program.regular_ofSource read).2.1
    (ready_begin [] "main.mcl") done
  have rejected := (constants_keep_their_stores ⟨.empty, []⟩ "const x=1;x=2;" "main.mcl" []).1
    _ _ _ _ _ _ _ _ _ ⟨_, read, .head (.rest first) (.single .first)⟩ found kept
  have file : after.file = "main.mcl" := first.frame.file
  rw [rejected, Session.place, file]
  rfl

/-- A select into a constant. -/
example :
    sourceText ⟨.empty, []⟩ "const x=1;select a from x into x;" "main.mcl" [] = .ok
      [.newVariable "x", .storeVariable (.loadVariable "x" []) (.loadConstant (.integer 1)) false,
        .select [("a", none)] (.loadVariable "x" []) none false false (.loadVariable "x" []),
        .finalHalt] := by cbv

end Compile

end Treecode
