import Mathlib
import Treecode.Proofs.Arrival
import Treecode.Proofs.Demands
import Treecode.Proofs.Scoping

set_option autoImplicit false

namespace Treecode

namespace ScopeTree

/-- The names that a scope sees, once for each scope that lists them. -/
def namesSeen (tree : ScopeTree) (id : Nat) : List String :=
  ((List.range tree.size).flatMap tree.names).filter (tree.sees id)

theorem mem_namesSeen {tree : ScopeTree} {id : Nat} {name : String} :
    name ∈ tree.namesSeen id ↔ tree.Sees id name := by
  rw [namesSeen, List.mem_filter, List.mem_flatMap]
  refine ⟨fun both => both.2, fun seen => ⟨?_, seen⟩⟩
  obtain ⟨other, _, listed⟩ := sees_iff.1 seen
  refine ⟨other, List.mem_range.2 (Nat.lt_of_not_le fun outside => ?_), listed⟩
  rw [names, get_of_size_le outside] at listed
  cases listed

end ScopeTree

namespace Compile

open ScopeTree Instruction Relation Demand

variable {setting : Setting} {depth scope : Nat}

/-- What is seen after a piece of source was seen before or is given by its code, which asks only
for variables that are seen. -/
structure Introduces (scope : Nat) (start after : Session) (job : Job) : Prop where
  gains : ∀ x, after.tree.Sees scope x → start.tree.Sees scope x ∨ .seen x ∈ job.gives
  asks : ∀ x, .seen x ∈ job.demands false → start.tree.Sees scope x
  gathers : ∀ x ∈ job.gathered.map (·.name),
    x ∈ job.declared.map (·.name) ∨ start.tree.Sees scope x ∨ .seen x ∈ job.gives

section Sequence

variable {start middle after : Session}

/-- Of two pieces of source, one after the other, the second one may ask for what the first one
gives. -/
theorem Introduces.trans {first second whole : Job} (front : Introduces scope start middle first)
    (back : Introduces scope middle after second)
    (gives : ∀ x, .seen x ∈ first.gives ∨ .seen x ∈ second.gives → .seen x ∈ whole.gives)
    (demands : ∀ x, .seen x ∈ whole.demands false → start.tree.Sees scope x ∨
      .seen x ∈ first.demands false ∨ .seen x ∈ second.demands false ∧ .seen x ∉ first.gives)
    (before : first.declared = whole.declared) (between : first.gathered = second.declared)
    (behind : second.gathered = whole.gathered) : Introduces scope start after whole := by
  have early : ∀ x, start.tree.Sees scope x ∨ .seen x ∈ first.gives →
      start.tree.Sees scope x ∨ .seen x ∈ whole.gives :=
    fun x either => either.imp_right fun new => gives x (.inl new)
  have late : ∀ x, middle.tree.Sees scope x ∨ .seen x ∈ second.gives →
      start.tree.Sees scope x ∨ .seen x ∈ whole.gives := by
    intro x either
    rcases either with seen | new
    · exact early x (front.gains x seen)
    · exact .inr (gives x (.inr new))
  refine ⟨fun x seen => late x (back.gains x seen), ?_, ?_⟩
  · intro x member
    rcases demands x member with seen | inFirst | ⟨inSecond, unmet⟩
    · exact seen
    · exact front.asks x inFirst
    · exact (front.gains x (back.asks x inSecond)).resolve_right unmet
  · intro x member
    rw [← behind] at member
    rw [← before]
    rcases back.gathers x member with declared | new
    · rw [← between] at declared
      exact (front.gathers x declared).imp_right (early x)
    · exact .inr (late x new)

theorem seen_of_asks {i : Instruction} {x : String}
    (reads : i.reads (start.tree.sees scope) (start.tree.calls scope)) (member : .seen x ∈ i.asks) :
    start.tree.Sees scope x :=
  ((reads_iff _ _ i).1 reads).2 _ member

theorem introduces_elif {mark mark' : Nat} {declared declared' declared'' : List Variable}
    {body : List Statement} {rest : List Clause} {condition : Instruction} {code : List Instruction}
    {restCode : List (Instruction × List Instruction)} (clause : Clause)
    (reads : condition.reads (start.tree.sees scope) (start.tree.calls scope))
    (first : Introduces scope start middle (.branch mark declared body code declared'))
    (further : Introduces scope middle after (.elifs mark' declared' rest restCode declared'')) :
    Introduces scope start after
      (.elifs mark declared (clause :: rest) ((condition, code) :: restCode) declared'') := by
  refine first.trans further (fun x either => List.mem_append.2 either) ?_ rfl rfl rfl
  intro x member
  simp only [Job.demands, elifsDemand, List.append_assoc, List.mem_append, mem_remaining,
    mem_lasting_false] at member
  exact member.imp_left (seen_of_asks reads)

theorem introduces_branching {blocks : Job} {mark : Nat} {declared gathered : List Variable}
    {otherwise : Option LastClause} {code lastCode : List Instruction} (source : Statement)
    (first : Introduces scope start middle blocks)
    (final : Introduces scope middle after (.last mark declared otherwise lastCode gathered))
    (ready : Ready scope after)
    (gives : ∀ x, .seen x ∈ blocks.gives ∨ .seen x ∈ allGive lastCode → .seen x ∈ allGive code)
    (demands : ∀ x, .seen x ∈ allDemand false code → start.tree.Sees scope x ∨
      .seen x ∈ blocks.demands false ∨ .seen x ∈ allDemand false lastCode ∧ .seen x ∉ blocks.gives)
    (before : blocks.declared = []) (between : blocks.gathered = declared) :
    Introduces scope start (after.withTree (after.tree.addVariables scope gathered))
      (.statement source code) := by
  have whole : Introduces scope start after (.last mark [] otherwise code gathered) :=
    first.trans final gives demands before between rfl
  refine ⟨?_, whole.asks, by simp [Job.gathered]⟩
  intro x seen
  rw [sees_given ready] at seen
  rcases seen with seen | member
  · exact whole.gains x seen
  · exact (whole.gathers x member).resolve_left List.not_mem_nil

end Sequence

/-- An assignment gives its target where that is not seen. -/
theorem introduces_assignment {start : Session} {target value : Expression} {operator : Token}
    {append constant : Bool} {operation : Option Opcode} {targetCode valueCode : Instruction}
    (ready : Ready scope start)
    (assigns : Assigns start scope target operator value append constant operation
      targetCode valueCode) :
    Introduces scope start (start.afterAssignment scope target value append constant)
      (.statement (.assign target operator value append constant)
        (assignmentCode (!start.tree.sees scope target.token.text) target.token.text
          operation targetCode valueCode append)) := by
  refine ⟨?_, ?_, by simp [Job.gathered]⟩
  · intro x seen
    rw [sees_afterAssignment ready] at seen
    rcases seen with seen | rfl
    · exact .inl seen
    · cases known : start.tree.sees scope target.token.text with
      | true => exact .inl known
      | false => exact .inr (List.mem_cons_self ..)
  · intro x member
    obtain ⟨asked, new⟩ := mem_demands_assignmentCode.1 member
    have seen : (start.tree.assigned scope target.token.text constant value).Sees scope x := by
      rcases asked with stored | inTarget | inValue
      · simp at stored
      · exact ((reads_iff _ _ _).1 assigns.targetReads).2 _ inTarget
      · exact ((reads_iff _ _ _).1 assigns.valueReads).2 _ inValue
    rw [sees_assigned start.tree ready.inside] at seen
    rcases seen with seen | rfl
    · exact seen
    · cases known : start.tree.sees scope target.token.text with
      | true => exact known
      | false => exact absurd rfl (new (by rw [known]; rfl))

theorem Compiles.introduces {job : Job} {start after : Session}
    (compiles : Compiles setting depth scope job start after) :
    Introduces scope start after job := by
  induction compiles with
  | assign ready _ assigns => exact introduces_assignment ready assigns
  | @select depth scope start _ _ _ _ _ _ _ sourceCode filterCode targetCode opened ready
      _ _ _ selects =>
    have opening := opening_select filterCode targetCode
    refine ⟨?_, ?_, by simp [Job.gathered]⟩
    · intro x seen
      unfold ScopeTree.Sees at seen
      rw [Session.opening_sees start ready.inside, Bool.or_eq_true, List.contains_iff_mem] at seen
      refine seen.imp_right fun member => ?_
      have named := ((opening.added_iff selects.opens x).1 member).1
      rw [Job.gives, allGive_single]
      exact List.mem_map_of_mem named
    · intro x member
      rw [Job.demands, allDemand_single, demands, List.append_assoc] at member
      rcases List.mem_append.1 member with inSource | inOpening
      · exact seen_of_asks selects.sourceReads inSource
      · exact opening.met selects.opens _ inOpening
  | @simple depth scope start source code ready translated reads =>
    refine ⟨fun x seen => .inl seen, fun x member => ?_, by simp [Job.gathered]⟩
    rw [Job.demands, allDemand_single] at member
    exact ((simplyReads_iff code false).1 reads).2 _ member
  | @define depth scope start name params result brace body code after ready inner ih =>
    refine ⟨fun x seen => .inl ((sees_define ready inner.frame _).1 seen), fun x member => ?_,
      by simp [Job.gathered]⟩
    rw [Job.demands, allDemand_single, demands, mem_remaining, seen_mem_function] at member
    obtain ⟨asked, unbound⟩ := member
    exact ((sees_function ready name params).1 (ih.asks x asked)).resolve_right unbound
  | defineExternal ready =>
    refine ⟨fun x seen => .inl ((sees_external ready _).1 seen), ?_, by simp [Job.gathered]⟩
    intro x member
    cases member
  | @ifElse _ _ _ word condition _ brace body _ _ _ _ _ _ _ _ _ _ _ _ evaluates front
    between back first further final =>
    have blocks := introduces_elif
      (.mk word condition (.mk brace body)) evaluates.reads first further
    refine introduces_branching _ blocks final back.ready_after ?_ ?_ rfl rfl
    · intro x either
      simpa only [Job.gives, allGive_single, gives, elifsGive, List.mem_append] using either
    · intro x member
      refine .inr ?_
      simp only [allDemand_single, demands, List.mem_append, mem_remaining,
        mem_lasting_false] at member
      simpa only [Job.demands, Job.gives, elifsDemand, elifsGive, List.mem_append, mem_remaining,
        mem_lasting_false] using member
  | @whileLoop depth scope start word condition conditionCode brace body code after ready
      evaluates inner ih =>
    refine ⟨?_, ?_, by simp [Job.gathered]⟩
    · intro x seen
      simpa only [Job.gives, allGive_single, gives] using ih.gains x seen
    · intro x member
      simp only [Job.demands, allDemand_single, demands, List.mem_append] at member
      exact member.elim (seen_of_asks evaluates.reads) (ih.asks x)
  | @foreach depth scope start word iterable iterableCode brace body code after ready
      evaluates inner ih =>
    refine ⟨fun x seen => .inl ((sees_afterLoop ready inner.frame).1 seen),
      ?_, by simp [Job.gathered]⟩
    intro x member
    rw [Job.demands, allDemand_single, demands, List.mem_append, mem_remaining, seen_mem_bound,
      List.mem_singleton] at member
    rcases member with inIterable | ⟨inBody, other⟩
    · exact seen_of_asks evaluates.reads inIterable
    · exact ((sees_loop ready).1 (ih.asks x inBody)).resolve_right other
  | @switch _ _ _ _ _ headCode _ _ _ _ _ _ _ _ _ evaluates front back first final =>
    refine introduces_branching _ first final back.ready_after ?_ ?_ rfl rfl
    · intro x either
      simpa only [Job.gives, allGive_single, gives, List.mem_append] using either
    · intro x member
      simp only [allDemand_single, demands, List.append_assoc, List.mem_append] at member
      refine member.imp (seen_of_asks evaluates.reads) fun inBlocks => ?_
      exact inBlocks.imp_right mem_remaining.1
  | includes _ _ ih | block _ _ ih => exact ⟨ih.gains, ih.asks, ih.gathers⟩
  | noStatement | noLibrary | knownLibrary =>
    refine ⟨fun x seen => .inl seen, ?_, by simp [Job.gathered]⟩
    intro x member
    cases member
  | noElif | noCase | noLast =>
    refine ⟨fun x seen => .inl seen, ?_, fun x member => .inl member⟩
    intro x member
    cases member
  | moreStatements _ _ _ head tail | moreLibraries _ _ _ head tail =>
    exact head.trans tail (fun x either => mem_allGive_append.2 either)
      (fun x member => .inr (mem_allDemand_append.1 member)) rfl rfl rfl
  | newLibrary ready _ _ _ _ _ inner ih =>
    refine ⟨?_, fun x member => (sees_inLibrary ready _ _ _).1 (ih.asks x member), by
      simp [Job.gathered]⟩
    intro x seen
    exact (ih.gains x ((sees_library ready inner.frame).1 seen)).imp_left
      (sees_inLibrary ready _ _ _).1
  | @branch depth scope start mark declared body code after ready since inner ih =>
    refine ⟨fun x seen => ih.gains x (sees_of_dropVariablesSince seen), ih.asks, ?_⟩
    intro x member
    rw [Job.gathered, names_gather] at member
    refine member.imp_right fun taken => ih.gains x ?_
    refine sees_iff.2 ⟨scope, Searches.self _ scope, ?_⟩
    rw [inner.frame.names_since since, List.mem_append]
    exact .inr taken
  | moreElifs _ _ evaluates _ _ head tail => exact introduces_elif _ evaluates.reads head tail
  | moreCases _ _ _ _ _ head tail =>
    refine head.trans tail (fun x either => List.mem_append.2 either) ?_ rfl rfl rfl
    intro x member
    simp only [Job.demands, casesDemand, List.mem_append, mem_remaining] at member
    exact .inr member
  | someLast _ _ _ ih => exact ⟨ih.gains, ih.asks, ih.gathers⟩

/-- A block of an `if` or a `switch` starts in a session: the compilation of that statement comes to
it by way of its own blocks alone. -/
def BlockStarts (setting : Setting) (depth scope : Nat) (branching : Statement) (before : Session)
    (source : List Statement) (start : Session) : Prop :=
  ∃ mark declared, ReflTransGen (fun here there => Comes setting here there ∧ there.task.isBranch)
    ⟨depth, scope, .statement branching, before⟩ ⟨depth, scope, .branch mark declared source, start⟩

/-- From block to block only what blocks leave is added. -/
theorem Comes.branch_frame {here there : Point} (comes : Comes setting here there)
    (branch : there.task.isBranch) (ready : Ready here.scope here.session) :
    there.scope = here.scope ∧ Frame here.scope here.session there.session ∧
      there.session.tree.names here.scope = here.session.tree.names here.scope := by
  cases comes with
  | ifBlock | caseBlocks | firstElif | firstCase | last => exact ⟨rfl, .refl _ ready.ordered, rfl⟩
  | elifBlocks _ done | defaultBlock _ done | moreElifs _ done | moreCases _ done =>
    exact ⟨rfl, done.frame, done.names_branch rfl⟩
  | elseBlock _ first further =>
    exact ⟨rfl, first.frame.trans further.frame,
      (further.names_branch rfl).trans (first.names_branch rfl)⟩
  | _ => cases branch

theorem BlockStarts.frame {branching : Statement} {before start : Session} {source : List Statement}
    (starts : BlockStarts setting depth scope branching before source start)
    (ready : Ready scope before) :
    Frame scope before start ∧ start.tree.names scope = before.tree.names scope := by
  obtain ⟨mark, declared, way⟩ := starts
  have kept : ∀ {there : Point}, ReflTransGen (fun here there => Comes setting here there ∧
      there.task.isBranch) ⟨depth, scope, .statement branching, before⟩ there →
      there.scope = scope ∧ Frame scope before there.session ∧
        there.session.tree.names scope = before.tree.names scope := by
    intro there way
    induction way with
    | refl => exact ⟨rfl, .refl _ ready.ordered, rfl⟩
    | tail _ comes ih =>
      obtain ⟨same, frame, names⟩ := ih
      have inside := frame.inside ready.inside
      rw [← same] at inside frame names ⊢
      obtain ⟨same', frame', names'⟩ := comes.1.branch_frame comes.2 ⟨inside, frame.ordered⟩
      exact ⟨same', frame.trans frame', names'.trans names⟩
  exact (kept way).2

theorem BlockStarts.regular {branching : Statement} {before start : Session}
    {source : List Statement}
    (starts : BlockStarts setting depth scope branching before source start)
    (regular : branching.Regular .any) : Statement.AllRegular .any source := by
  obtain ⟨mark, declared, way⟩ := starts
  have arrives : Arrives setting _ _ := ReflTransGen.mono (fun _ _ comes => comes.1) _ _ way
  exact Arrives.regular arrives regular

/-- Every block of an `if` or a `switch` sees what was seen before the first block, exactly if the
libraries included in the blocks before it hand on nothing new. From the start of its code on, a
block loads and stores only what it sees at its start or has declared before, and if no block in it
includes anything, its code is well scoped from the names that it sees at its start. -/
theorem siblings_see_alike {text file : String} {reserved : List String} {branching : Statement}
    {before start : Session} {source : List Statement}
    (reaches : Reaches setting text file reserved ⟨depth, scope, .statement branching, before⟩)
    (starts : BlockStarts setting depth scope branching before source start) :
    ((∀ x, start.tree.Sees scope x ↔ before.tree.Sees scope x) ↔
      ∀ library, before.tree.size ≤ library → start.tree.Includes scope library →
        ∀ x, start.tree.HandsOn library x → before.tree.Sees scope x) ∧
    ∀ code after, statements (library setting depth) scope source start = (.ok code, after) →
      (∀ x, .seen x ∈ allDemand false code → start.tree.Sees scope x) ∧
        (Scoping.Plain setting (.statements source code) →
          ∃ names, Scoping.checkAll (start.tree.namesSeen scope) code = some names) := by
  have ready : Ready scope before := reaches.ready
  obtain ⟨frame, names⟩ := starts.frame ready
  have gain : ∀ x, start.tree.Sees scope x ↔ before.tree.Sees scope x ∨
      ∃ library, before.tree.size ≤ library ∧ start.tree.Includes scope library ∧
        start.tree.HandsOn library x := by
    intro x
    rw [frame.growth.sees_gain ready.ordered ready.inside, names]
    have listed : x ∈ before.tree.names scope → before.tree.Sees scope x :=
      fun member => sees_iff.2 ⟨scope, Searches.self _ scope, member⟩
    have self := Searches.self before.tree scope
    constructor
    · intro either
      rcases either with seen | ⟨_, member | gained⟩
      · exact .inl seen
      · exact .inl (listed member)
      · exact .inr gained
    · intro either
      exact either.imp_right fun gained => ⟨self, .inr gained⟩
  refine ⟨⟨?_, ?_⟩, ?_⟩
  · intro alike library new included x handsOn
    exact (alike x).1 ((gain x).2 (.inr ⟨library, new, included, handsOn⟩))
  · intro nothingNew x
    rw [gain x]
    constructor
    · intro either
      cases either with
      | inl seen => exact seen
      | inr gained =>
        obtain ⟨library, new, included, handsOn⟩ := gained
        exact nothingNew library new included x handsOn
    · exact .inl
  · intro code after success
    have inner : Ready scope start := ⟨frame.inside ready.inside, frame.ordered⟩
    have compiles := Compiles.of_statements (starts.regular reaches.regular) inner success
    refine ⟨compiles.introduces.asks, fun plain => ?_⟩
    obtain ⟨names, passes, _⟩ := Scoping.checked_of_compiles compiles plain fun _ =>
      mem_namesSeen.symm
    exact ⟨names, passes⟩

/-- A condition with two blocks that declare the same name. -/
def assignsInTurn : String := "if c \x7bx=1;\x7d else \x7bx=2;\x7d"

def assigning (digit : String) (value : Int64) (column : Nat) : List Statement :=
  [.assign (.plain ⟨.identifier, some "x", ⟨1, column, column - 1⟩⟩)
    ⟨.operatorAssignment, some "=", ⟨1, column + 1, column⟩⟩
    (.literal ⟨.integer, some digit, ⟨1, column + 2, column + 1⟩⟩ (.integer value)) false false]

/-- The second of two blocks that declare the same name. -/
theorem siblings_see_alike_else :
    ∃ depth scope branching before source start,
      Reaches ⟨.empty, []⟩ assignsInTurn "main.mcl" ["c"]
        ⟨depth, scope, .statement branching, before⟩ ∧
      BlockStarts ⟨.empty, []⟩ depth scope branching before source start ∧
      ((∀ x, start.tree.Sees scope x ↔ before.tree.Sees scope x) ↔
        ∀ library, before.tree.size ≤ library → start.tree.Includes scope library →
          ∀ x, start.tree.HandsOn library x → before.tree.Sees scope x) ∧
      ∀ code after, statements (library ⟨.empty, []⟩ depth) scope source start = (.ok code, after) →
        (∀ x, .seen x ∈ allDemand false code → start.tree.Sees scope x) ∧
          (Scoping.Plain ⟨.empty, []⟩ (.statements source code) →
            ∃ names, Scoping.checkAll (start.tree.namesSeen scope) code = some names) := by
  have read : Program.ofSource assignsInTurn "main.mcl" = .ok ⟨"main.mcl",
      [.ifElse ⟨.ifStatement, some "if", ⟨1, 1, 0⟩⟩ (.plain ⟨.identifier, some "c", ⟨1, 4, 3⟩⟩)
        (.mk ⟨.leftBrace, some "\x7b", ⟨1, 6, 5⟩⟩ (assigning "1" 1 7)) []
        (some (.mk ⟨.elseStatement, some "else", ⟨1, 13, 12⟩⟩
          (.mk ⟨.leftBrace, some "\x7b", ⟨1, 18, 17⟩⟩ (assigning "2" 2 19))))]⟩ := by cbv
  have start := ready_begin ["c"] "main.mcl"
  have evaluates : Evaluates (Session.begin ["c"] "main.mcl") root
      (.plain ⟨.identifier, some "c", ⟨1, 4, 3⟩⟩) (.loadVariable "c" []) :=
    ⟨rfl, by cbv⟩
  have ran : (statements (library ⟨.empty, []⟩ 2) root (assigning "1" 1 7)
      (Session.begin ["c"] "main.mcl")).1 =
      .ok [.newVariable "x", .storeVariable (.loadVariable "x" [])
        (.loadConstant (.integer 1)) false] := by cbv
  have regular := (Program.regular_ofSource read).2
  have first : Compiles ⟨.empty, []⟩ 2 root (.branch _ [] _ _ _)
      (Session.begin ["c"] "main.mcl") _ :=
    .branch start rfl (.of_statements regular.1.2.1 start (Prod.ext ran rfl))
  obtain ⟨branching, before, source, start, reaches, starts⟩ : ∃ branching before source start,
      Reaches ⟨.empty, []⟩ assignsInTurn "main.mcl" ["c"] ⟨2, root, .statement branching, before⟩ ∧
      BlockStarts ⟨.empty, []⟩ 2 root branching before source start :=
    ⟨_, _, _, _, ⟨_, read, .single .first⟩, _, _, .head
      ⟨.elseBlock evaluates first (.noElif first.ready_after (first.since_after rfl rfl)), rfl⟩
      (.single ⟨.last, rfl⟩)⟩
  exact ⟨2, root, branching, before, source, start, reaches, starts,
    siblings_see_alike reaches starts⟩

end Compile

end Treecode
