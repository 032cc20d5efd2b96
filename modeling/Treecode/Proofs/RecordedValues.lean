import Mathlib
import Treecode.Proofs.Arrival
import Treecode.Proofs.Declared

set_option autoImplicit false

namespace Treecode

namespace Instruction

variable {part code whole : List Instruction}

/-- The blocks of code in an instruction. -/
def bodies : Instruction → List (List Instruction)
  | .ifElse _ body elifs otherwise => body :: (elifs.map (·.2) ++ [otherwise])
  | .whileLoop _ body | .foreach _ body | .define _ _ body => [body]
  | .switch _ cases default => cases.map (·.2) ++ [default]
  | _ => []

/-- Instructions stand one after another in some code, at any depth. -/
inductive Holds (part : List Instruction) : List Instruction → Prop where
  | here {code : List Instruction} (found : part <:+: code) : Holds part code
  | inside {code body : List Instruction} {i : Instruction} (member : i ∈ code)
      (inner : body ∈ i.bodies) (deeper : Holds part body) : Holds part code

theorem Holds.of_part (holds : Holds part code) (inside : code <:+: whole) : Holds part whole := by
  cases holds with
  | here found => exact .here (found.trans inside)
  | inside member inner deeper => exact .inside (inside.subset member) inner deeper

/-- What stands in some blocks of code stands in others. -/
def Encloses (inner outer : List (List Instruction)) : Prop :=
  ∀ part, (∃ body ∈ inner, Holds part body) → ∃ body ∈ outer, Holds part body

theorem Encloses.of_subset {inner outer : List (List Instruction)} (subset : inner ⊆ outer) :
    Encloses inner outer :=
  fun _ ⟨body, member, holds⟩ => ⟨body, subset member, holds⟩

theorem Encloses.of_part (inside : code <:+: whole) : Encloses [code] [whole] := by
  intro part holds
  obtain ⟨body, member, holds⟩ := holds
  obtain rfl := List.mem_singleton.1 member
  exact ⟨whole, List.mem_singleton.2 rfl, holds.of_part inside⟩

theorem Encloses.of_bodies {i : Instruction} {inner : List (List Instruction)}
    (subset : inner ⊆ i.bodies) : Encloses inner [[i]] := by
  intro part holds
  obtain ⟨body, member, holds⟩ := holds
  exact ⟨[i], List.mem_singleton.2 rfl, .inside (List.mem_singleton.2 rfl) (subset member) holds⟩

end Instruction

theorem Expression.codes?_eq_nil {index : List Expression}
    (translated : Expression.codes? index = some []) : index = [] := by
  cases index with
  | nil => rfl
  | cons key keys =>
    simp only [Expression.codes?, Option.bind_eq_bind, Option.bind_eq_some_iff, Option.pure_def,
      Option.some.injEq, reduceCtorEq, and_false, exists_false] at translated

/-- The instruction of a variable has no index exactly if the variable is written without one. -/
theorem Expression.Regular.index_eq_nil_iff {target : Expression} {name : String}
    {index : List Instruction} (regular : target.Regular .any) (shaped : target.isVariable)
    (translated : target.code? = some (.loadVariable name index)) :
    index = [] ↔ target = .plain target.token := by
  cases target with
  | plain token =>
    cases translated
    exact ⟨fun _ => rfl, fun _ => rfl⟩
  | indexed token keys =>
    simp only [Expression.code?, Option.bind_eq_bind, Option.bind_eq_some_iff, Option.pure_def,
      Option.some.injEq, Instruction.loadVariable.injEq] at translated
    obtain ⟨_, spelled, rfl, rfl⟩ := translated
    refine ⟨fun none => ?_, fun plain => by cases plain⟩
    subst none
    exact absurd (Expression.codes?_eq_nil spelled) regular.2.1
  | _ => cases shaped

namespace Compile

open Step Instruction ScopeTree

variable {setting : Setting} {depth scope : Nat}

theorem Assigns.code_of_new {start : Session} {target value : Expression} {operator : Token}
    {append constant : Bool} {operation : Option Opcode} {targetCode valueCode : Instruction}
    (assigns : Assigns start scope target operator value append constant operation
      targetCode valueCode)
    (shaped : target.isVariable) (isNew : start.tree.sees scope target.token.text = false) :
    ∃ index, target.code? = some (.loadVariable target.token.text index) ∧
      assignmentCode (!start.tree.sees scope target.token.text) target.token.text operation
        targetCode valueCode
          append =
        [.newVariable target.token.text,
          .storeVariable (.loadVariable target.token.text index) valueCode append] := by
  obtain ⟨index, rfl⟩ := Expression.code?_target shaped assigns.spelled
  refine ⟨index, assigns.spelled, ?_⟩
  cases operation with
  | none => rw [isNew]; rfl
  | some opcode => exact absurd (isNew.symm.trans (assigns.operand rfl).2) (by decide)

/-- A value is recorded of a new variable if it is a constant and the value is written as a
literal. -/
theorem value_newVariable {name : String} {constant : Bool} {value : Expression} {known : Value} :
    (newVariable scope name constant value).value = some known ↔
      constant = true ∧ ∃ token, value = .literal token known := by
  cases value with
  | literal token v => cases constant <;> simp [newVariable]
  | _ => simp [newVariable, Variable.fresh]

/-- The blocks of code that a piece of source compiles to. -/
def Job.bodies : Job → List (List Instruction)
  | .statement _ code | .statements _ code | .libraries _ code | .library _ code
  | .branch _ _ _ code _ | .last _ _ _ code _ => [code]
  | .elifs _ _ _ code _ => code.map (·.2)
  | .cases _ _ _ _ code _ => code.map (·.2)

/-- A compilation arrives at an assignment that declares a constant with a literal. The code of the
assignment stands in some blocks of code. -/
inductive Declares (setting : Setting) (here : Point) (bodies : List (List Instruction)) :
    Variable → Prop where
  | mk {depth scope : Nat} {start : Session} {target : Expression} {operator token : Token}
      {value : Value} {append : Bool} {index : List Instruction}
    (arrives : Arrives setting here
      ⟨depth, scope, .statement (.assign target operator (.literal token value) append true),
        start⟩)
    (isNew : start.tree.sees scope target.token.text = false)
    (spelled : target.code? = some (.loadVariable target.token.text index))
    (emitted : ∃ body ∈ bodies, Holds [.newVariable target.token.text,
      .storeVariable (.loadVariable target.token.text index) (.loadConstant value) append] body) :
    Declares setting here bodies (newVariable scope target.token.text true (.literal token value))

def Records (setting : Setting) (here : Point) (bodies : List (List Instruction)) (v : Variable) :
    Prop :=
  v.value ≠ none → Declares setting here bodies v

theorem welcomes_records (here : Point) (bodies : List (List Instruction)) :
    Welcomes (Records setting here bodies) :=
  fun _ _ none recorded => absurd none recorded

theorem Declares.of_arrives {here there : Point} {inner outer : List (List Instruction)}
    {v : Variable}
    (declares : Declares setting there inner v) (arrives : Arrives setting here there)
    (encloses : Encloses inner outer) : Declares setting here outer v := by
  cases declares with
  | mk further isNew spelled emitted =>
    exact .mk (arrives.trans further) isNew spelled (encloses _ emitted)

theorem Records.of_comes {here there : Point} {inner outer : List (List Instruction)}
    (comes : Comes setting here there) (encloses : Encloses inner outer) (v : Variable)
    (records : Records setting there inner v) : Records setting here outer v :=
  fun recorded => (records recorded).of_arrives (.single comes) encloses

theorem records_assignment {start : Session} {target value : Expression} {operator : Token}
    {append constant : Bool} {operation : Option Opcode} {targetCode valueCode : Instruction}
    (assigns : Assigns start scope target operator value append constant operation
      targetCode valueCode)
    (shaped : target.isVariable) (isNew : start.tree.sees scope target.token.text = false) :
    Records setting
      ⟨depth, scope, .statement (.assign target operator value append constant), start⟩
      [assignmentCode (!start.tree.sees scope target.token.text) target.token.text operation
        targetCode valueCode append]
      (newVariable scope target.token.text constant value) := by
  intro recorded
  obtain ⟨known, found⟩ := Option.ne_none_iff_exists'.1 recorded
  obtain ⟨rfl, token, rfl⟩ := value_newVariable.1 found
  obtain ⟨index, spelled, code⟩ := assigns.code_of_new shaped isNew
  obtain rfl : Instruction.loadConstant known = valueCode := Option.some.inj assigns.valued
  rw [code]
  exact .mk .refl isNew spelled ⟨_, List.mem_singleton.2 rfl, .here List.infix_rfl⟩

/-- What compiling a piece of source inside another one adds is added by the other one. -/
theorem Adds.of_comes {here there : Point} {inner outer : List (List Instruction)} {scope' : Nat}
    {declared gathered : List Variable} {start after : Session}
    (adds : Adds (Records setting there inner) scope' declared gathered start after)
    (comes : Comes setting here there) (encloses : Encloses inner outer) :
    Adds (Records setting here outer) scope' declared gathered start after :=
  adds.mono (Records.of_comes comes encloses)

/-- Whatever value is recorded after some source has compiled, and was not before, comes from an
assignment that the compilation arrives at, and the code of the source holds the code of that
assignment. -/
theorem Compiles.records {job : Job} {start after : Session}
    (compiles : Compiles setting depth scope job start after) :
    Adds (Records setting ⟨depth, scope, job.task, start⟩ job.bodies) scope job.declared
      job.gathered start after := by
  have same (bodies : List (List Instruction)) : Encloses bodies bodies :=
    .of_subset (List.Subset.refl _)
  induction compiles with
  | assign _ shaped assigns =>
    exact .of_lists (addsOnly_afterAssignment (records_assignment assigns shaped))
  | select => exact .of_lists (addsOnly_opening (welcomes_records _ _) _ _ _)
  | simple | noStatement | noLibrary | knownLibrary | noElif | noCase | noLast => exact .refl _
  | define ready _ ih =>
    exact .of_lists (((addsOnly_function (welcomes_records _ _) ready _ _).trans
      (ih.of_comes .define (.of_bodies (by simp [bodies, Job.bodies]))).lists).trans
        (addsOnly_defined _ _ _))
  | defineExternal ready =>
    exact .of_lists (((addsOnly_function (welcomes_records _ _) ready _ _).trans
      (addsOnly_external _ _)).trans (addsOnly_defined _ _ _))
  | ifElse _ evaluates front between _ first further final =>
    exact .given (.trans (.trans
      (first.of_comes (.ifBlock evaluates) (.of_bodies (by simp [bodies, Job.bodies])))
      (further.of_comes (.elifBlocks evaluates front) (.of_bodies (by simp [bodies, Job.bodies]))))
      (final.of_comes (.elseBlock evaluates front between)
        (.of_bodies (by simp [bodies, Job.bodies]))))
  | whileLoop _ evaluates _ ih =>
    exact ih.of_comes (.whileLoop evaluates) (.of_bodies (by simp [bodies, Job.bodies]))
  | foreach ready evaluates _ ih =>
    exact .of_lists (((addsOnly_loop (welcomes_records _ _) ready).trans
      (ih.of_comes (.foreach evaluates) (.of_bodies (by simp [bodies, Job.bodies]))).lists).trans
      (.discardChild _ _ _))
  | switch _ evaluates front _ first final =>
    exact .given (.trans
      (first.of_comes (.caseBlocks evaluates) (.of_bodies (by simp [bodies, Job.bodies])))
      (final.of_comes (.defaultBlock evaluates front) (.of_bodies (by simp [bodies, Job.bodies]))))
  | includes _ _ ih => exact ih.of_comes .includes (same _)
  | block _ _ ih => exact ih.of_comes .block (same _)
  | moreStatements _ front _ head tail =>
    exact .trans (head.of_comes .first (.of_part (List.prefix_append _ _).isInfix))
      (tail.of_comes (.rest front) (.of_part (List.suffix_append _ _).isInfix))
  | moreLibraries _ front _ head tail =>
    exact .trans (head.of_comes .firstLibrary (.of_part (List.prefix_append _ _).isInfix))
      (tail.of_comes (.moreLibraries front) (.of_part (List.suffix_append _ _).isInfix))
  | newLibrary ready fresh found apart loaded read _ ih =>
    exact .of_lists ((AddsOnly.withLibrary ready.inside _).trans
      (ih.of_comes (.library fresh found apart loaded read) (same _)).lists)
  | branch _ _ _ ih => exact .taken (ih.of_comes .branch (same _)) _ _
  | moreElifs _ _ evaluates front _ head tail =>
    exact .trans (head.of_comes (.firstElif evaluates) (.of_subset (by simp [Job.bodies])))
      (tail.of_comes (.moreElifs evaluates front) (.of_subset (by simp [Job.bodies])))
  | moreCases _ _ apart front _ head tail =>
    exact .trans (head.of_comes (.firstCase apart) (.of_subset (by simp [Job.bodies])))
      (tail.of_comes (.moreCases apart front) (.of_subset (by simp [Job.bodies])))
  | someLast _ _ _ ih => exact ih.of_comes .last (same _)

/-- Whatever value is recorded after a source has compiled comes from an assignment that declares a
constant with a literal. -/
theorem declares_of_program {text file : String} {reserved : List String} {source : Program}
    {before after : Session}
    {code : List Instruction} (read : Program.ofSource text file = .ok source)
    (done : program setting source reserved before = (.ok code, after)) {id : Nat} {v : Variable}
    (listed : v ∈ (after.tree.get id).declared) (recorded : v.value ≠ none) :
    Declares setting (.start setting reserved source) [code] v.withoutKeys := by
  obtain ⟨body, last, ran, rfl, rfl⟩ := program_done.1 done
  have compiles : Compiles setting setting.depth root (.statements source.statements body)
      (Session.begin reserved source.file) last :=
    .of_statements (Program.regular_ofSource read).2 (ready_begin reserved source.file) ran
  rcases compiles.records.lists id v listed with new | old
  · exact (new recorded).of_arrives .refl (.of_part (List.prefix_append _ _).isInfix)
  · obtain ⟨known, listed', same⟩ := List.mem_map.1 old
    have value : known.withoutKeys.value = v.withoutKeys.value := congrArg Variable.value same
    exact absurd (value.symm.trans (plain_reservedTree listed').2) recorded

/-- After a first assignment its scope lists the target behind what it listed before. -/
theorem declared_afterAssignment {start : Session} {target value : Expression}
    {append constant : Bool}
    (ready : Ready scope start) (isNew : start.tree.sees scope target.token.text = false) :
    ((start.afterAssignment scope target value append constant).tree.get scope).declared.map
    Variable.withoutKeys =
      (start.tree.get scope).declared.map Variable.withoutKeys ++
        [newVariable scope target.token.text constant value] := by
  obtain ⟨_, kept⟩ := keysRecorded_kept
    (start.tree.assigned scope target.token.text constant value) scope target append
  have listed : ((start.tree.assigned scope target.token.text constant value).get scope).declared =
      (start.tree.get scope).declared ++ [newVariable scope target.token.text constant value] := by
    rw [ScopeTree.assigned, isNew, if_neg Bool.false_ne_true, ScopeTree.declare, scope_newVariable,
      get_modify_self _ ready.inside]
  refine (kept scope).declared.trans ?_
  rw [listed, List.map_append, List.map_singleton, withoutKeys_newVariable]

/-- The literal that a constant is declared with is recorded, and stored by the assignment that
declares it: in the whole constant exactly if the target is written without an index and nothing is
appended. Whatever is recorded after a source has compiled comes from such an assignment, whose code
stands in the code of the source. -/
theorem recorded_values_are_stored (setting : Setting) (text file : String)
    (reserved : List String) :
    (∀ depth scope start target operator value append constant code after,
      Reaches setting text file reserved
        ⟨depth, scope, .statement (.assign target operator value append constant), start⟩ →
      start.tree.sees scope target.token.text = false →
      statement (library setting depth) scope
        (.assign target operator value append constant) start = (.ok code, after) →
      ∃ index valueCode v,
        code = [.newVariable target.token.text,
          .storeVariable (.loadVariable target.token.text index) valueCode append] ∧
        (index = [] ↔ target = .plain target.token) ∧
        (after.tree.get scope).declared.map Variable.withoutKeys =
          (start.tree.get scope).declared.map Variable.withoutKeys ++ [v] ∧
        v.name = target.token.text ∧
        (∀ known, v.value = some known ↔ constant = true ∧ ∃ token, value = .literal token known) ∧
        ∀ known, v.value = some known → valueCode = .loadConstant known ∧ v.type = known.type) ∧
    ∀ source before code after, Program.ofSource text file = .ok source →
      program setting source reserved before = (.ok code, after) →
      ∀ id, ∀ v ∈ (after.tree.get id).declared, ∀ known, v.value = some known →
        v.type = known.type ∧ ∃ depth start target operator token append index,
          Reaches setting text file reserved
            ⟨depth, v.scope, .statement
              (.assign target operator (.literal token known) append true), start⟩ ∧
          target.token.text = v.name ∧ start.tree.sees v.scope v.name = false ∧
          (index = [] ↔ target = .plain target.token) ∧
          Holds [.newVariable v.name,
            .storeVariable (.loadVariable v.name index) (.loadConstant known) append] code := by
  constructor
  · intro depth scope start target operator value append constant code after reaches isNew done
    have regular : (Statement.assign target operator value append constant).Regular .any :=
      reaches.regular
    rw [statement, assignment_ok] at done
    obtain ⟨operation, targetCode, valueCode, assigns, rfl, rfl⟩ := done
    obtain ⟨index, spelled, emitted⟩ := assigns.code_of_new regular.1 isNew
    refine ⟨index, valueCode, newVariable scope target.token.text constant value, emitted,
      regular.2.1.index_eq_nil_iff regular.1 spelled, declared_afterAssignment reaches.ready isNew,
        ?_,
      fun known => value_newVariable, ?_⟩
    · unfold newVariable
      split <;> rfl
    · intro known recorded
      obtain ⟨rfl, token, rfl⟩ := value_newVariable.1 recorded
      exact ⟨(Option.some.inj assigns.valued).symm, rfl⟩
  · intro source before code after read done id v listed known recorded
    have declares := declares_of_program read done listed (recorded ▸ Option.some_ne_none _)
    generalize same : v.withoutKeys = w at declares
    obtain @⟨depth, scope, start, target, operator, token, value, append, index, arrives,
      isNew, spelled, _, member, holds⟩ := declares
    obtain rfl := List.mem_singleton.1 member
    obtain rfl : scope = v.scope := (congrArg Variable.scope same).symm
    obtain rfl : known = value :=
      Option.some.inj (recorded.symm.trans (congrArg Variable.value same))
    have named : v.name = target.token.text := congrArg Variable.name same
    have reaches : Reaches setting text file reserved ⟨depth, v.scope, .statement
      (.assign target operator (.literal token known) append true), start⟩ :=
        ⟨source, read, arrives⟩
    obtain ⟨shaped, regular, _⟩ : (Statement.assign target operator (.literal token known) append
      true).Regular .any := reaches.regular
    rw [named]
    exact ⟨congrArg Variable.type same, depth, start, target, operator, token, append, index,
      reaches, rfl, isNew, regular.index_eq_nil_iff shaped spelled, holds⟩

/-- A constant that is declared through an index records the literal, which is stored in one
element. -/
theorem recorded_values_are_stored_indexed :
    ∃ source code after index v,
      Program.ofSource "const x[0]=5;" "main.mcl" = .ok source ∧
      program ⟨.empty, []⟩ source [] .initial = (.ok code, after) ∧
      Holds [.newVariable "x", .storeVariable (.loadVariable "x" index)
        (.loadConstant (.integer 5)) false] code ∧
      index ≠ [] ∧ v ∈ (after.tree.get root).declared ∧ v.value = some (.integer 5) ∧
        v.type = .integer := by
  have read : Program.ofSource "const x[0]=5;" "main.mcl" = .ok ⟨"main.mcl",
      [.assign (.indexed ⟨.identifier, some "x", ⟨1, 7, 6⟩⟩
          [.literal ⟨.integer, some "0", ⟨1, 9, 8⟩⟩ (.integer 0)])
        ⟨.operatorAssignment, some "=", ⟨1, 11, 10⟩⟩
        (.literal ⟨.integer, some "5", ⟨1, 12, 11⟩⟩ (.integer 5)) false true]⟩ := by cbv
  have ran : statement (library ⟨.empty, []⟩ 2) root
      (.assign (.indexed ⟨.identifier, some "x", ⟨1, 7, 6⟩⟩
          [.literal ⟨.integer, some "0", ⟨1, 9, 8⟩⟩ (.integer 0)])
        ⟨.operatorAssignment, some "=", ⟨1, 11, 10⟩⟩
        (.literal ⟨.integer, some "5", ⟨1, 12, 11⟩⟩ (.integer 5)) false true)
          (Session.begin [] "main.mcl") =
      (.ok [.newVariable "x", .storeVariable (.loadVariable "x" [.loadConstant (.integer 0)])
        (.loadConstant (.integer 5)) false], _) := Prod.ext (by cbv) rfl
  obtain ⟨first, last⟩ := recorded_values_are_stored ⟨.empty, []⟩ "const x[0]=5;" "main.mcl" []
  obtain ⟨index, _, v, emitted, whole, listed, _, recorded, _⟩ :=
    first 2 root _ _ _ _ _ _ _ _ ⟨_, read, .single .first⟩ (by cbv) ran
  obtain ⟨known, member, same⟩ :=
    List.mem_map.1 (listed ▸ List.mem_append_right _ (List.mem_singleton.2 rfl))
  have value : known.value = some (.integer 5) :=
    (congrArg Variable.value same).trans ((recorded (.integer 5)).2 ⟨rfl, _, rfl⟩)
  have alone : ∀ {one : Statement} {code : List Instruction} {start after : Session},
      statement (library ⟨.empty, []⟩ 2) root one start = (.ok code, after) →
      statements (library ⟨.empty, []⟩ 2) root [one] start = (.ok (code ++ []), after) := by
    intro one code start after ran
    rw [statements, bind_apply, ran, statements]
    rfl
  have done : program ⟨.empty, []⟩ ⟨"main.mcl", _⟩ [] .initial = _ :=
    program_done.2 ⟨_, _, alone ran, rfl, rfl⟩
  obtain ⟨type, _⟩ := last _ _ _ _ read done root known member _ value
  refine ⟨_, _, _, index, known, read, done, .here ?_, ?_, member, value, type⟩
  · cases emitted
    exact ⟨[], [.finalHalt], rfl⟩
  · exact fun none => by cases whole.1 none

end Compile

end Treecode
