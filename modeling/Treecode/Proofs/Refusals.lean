import Mathlib.Logic.Relation
import Treecode.Instruction.Script

set_option autoImplicit false

namespace Treecode.Instruction

/-- What is asked for at the place of an instruction. -/
inductive Role where
  | statement
  | value
  deriving DecidableEq, Repr

/-- An instruction at a place where something is asked for. -/
structure Node where
  role : Role
  instruction : Instruction

/-- Whether an instruction does something and yields no value. -/
def isStatementForm : Instruction → Bool
  | .define _ _ _ | .defineExternal _ _ _ _ | .storeVariable _ _ _ | .newVariable _ | .print _
  | .select _ _ _ _ _ _ | .returnValue _ | .halt _ | .breakLoop | .continueLoop | .ifElse _ _ _ _
  | .whileLoop _ _ | .foreach _ _ | .switch _ _ _ => true
  | _ => false

namespace Node

def values (instructions : List Instruction) : List Node := instructions.map (⟨.value, ·⟩)

/-- Instructions that are asked for as statements. -/
def body (instructions : List Instruction) : List Node := instructions.map (⟨.statement, ·⟩)

/-- The parts that are written before the node itself is judged: an operator stands behind its left
operand. -/
def front (node : Node) : List Node :=
  match node.instruction with
  | .binary _ left _ => [⟨.value, left⟩]
  | _ => []

/-- The parts that are written after the node itself is judged. -/
def back (node : Node) : List Node :=
  match node.instruction with
  | .binary _ _ right => [⟨.value, right⟩]
  | .unary _ operand | .isType operand _ | .typeOf operand => [⟨.value, operand⟩]
  | .loadVariable _ index => values index
  | .call _ args | .print args => values args
  | .storeVariable target value _ => [⟨.value, target⟩, ⟨.value, value⟩]
  | .returnValue value | .halt value => values value.toList
  | .ifElse condition first elifs otherwise =>
    ⟨.value, condition⟩ :: (body first
      ++ (elifs.flatMap (fun (condition, block) => ⟨.value, condition⟩ :: body block) ++
        body otherwise))
  | .whileLoop head block | .foreach head block => ⟨.value, head⟩ :: body block
  | .switch head cases default =>
    ⟨.value, head⟩ :: (cases.flatMap (fun (_, block) => body block) ++ body default)
  | .define _ _ block => body block
  | .select _ source filter _ _ target =>
    ⟨.value, source⟩ :: (values filter.toList ++ [⟨.value, target⟩])
  | .loadConstant _ | .newVariable _ | .breakLoop | .continueLoop | .defineExternal _ _ _ _ => []

def parts (node : Node) : List Node := node.front ++ node.back

/-- A node is in the tree of another one. -/
def Within (root : Node) : Node → Prop :=
  Relation.ReflTransGen (fun whole part => part ∈ whole.parts) root

/-- A node is refused under a name. -/
inductive Refused : Node → String → Prop
  | misplaced {instruction} (form : instruction.isStatementForm) :
      Refused ⟨.value, instruction⟩ instruction.opcode.name
  | binary {role opcode left right} (unspelled : opcode.operatorText? = none) :
      Refused ⟨role, .binary opcode left right⟩ opcode.name
  | unary {role opcode operand} (unspelled : opcode.operatorText? = none) :
      Refused ⟨role, .unary opcode operand⟩ opcode.name
  | isType {role operand kind} (unspelled : kind.testWord? = none) :
      Refused ⟨role, .isType operand kind⟩ (Opcode.isType.name ++ " " ++ kind.name)

theorem sizeOf_values {instructions : List Instruction} {part : Node}
    (member : part ∈ values instructions) : sizeOf part.instruction < sizeOf instructions := by
  obtain ⟨instruction, listed, rfl⟩ := List.mem_map.1 member
  exact List.sizeOf_lt_of_mem listed

theorem sizeOf_body {instructions : List Instruction} {part : Node}
    (member : part ∈ body instructions) : sizeOf part.instruction < sizeOf instructions := by
  obtain ⟨instruction, listed, rfl⟩ := List.mem_map.1 member
  exact List.sizeOf_lt_of_mem listed

theorem sizeOf_toList {instruction : Option Instruction} {part : Node}
    (member : part ∈ values instruction.toList) : sizeOf part.instruction < sizeOf instruction := by
  cases instruction with
  | none => cases member
  | some instruction =>
    obtain rfl := List.mem_singleton.1 member
    simp

theorem sizeOf_elif {elifs : List (Instruction × List Instruction)} {part : Node}
    (member : part ∈ elifs.flatMap fun (condition, block) => ⟨.value, condition⟩ :: body block) :
    sizeOf part.instruction < sizeOf elifs := by
  obtain ⟨⟨condition, block⟩, listed, inner⟩ := List.mem_flatMap.1 member
  have pair := List.sizeOf_lt_of_mem listed
  rw [Prod.mk.sizeOf_spec] at pair
  rcases List.mem_cons.1 inner with rfl | inner
  · dsimp only
    omega
  · have := sizeOf_body inner
    omega

theorem sizeOf_case {cases : List (Value × List Instruction)} {part : Node}
    (member : part ∈ cases.flatMap fun (_, block) => body block) :
    sizeOf part.instruction < sizeOf cases := by
  obtain ⟨⟨label, block⟩, listed, inner⟩ := List.mem_flatMap.1 member
  have pair := List.sizeOf_lt_of_mem listed
  rw [Prod.mk.sizeOf_spec] at pair
  have := sizeOf_body inner
  omega

theorem sizeOf_part {node part : Node} (member : part ∈ node.parts) :
    sizeOf part.instruction < sizeOf node.instruction := by
  obtain ⟨role, instruction⟩ := node
  cases instruction with
  | binary opcode left right | storeVariable left right append =>
    simp only [parts, front, back, List.cons_append, List.nil_append, List.mem_cons,
      List.not_mem_nil, or_false] at member
    rcases member with rfl | rfl
    all_goals
      simp only [Instruction.binary.sizeOf_spec, Instruction.storeVariable.sizeOf_spec]
      omega
  | unary | isType | typeOf =>
    obtain rfl := List.mem_singleton.1 member
    simp <;> omega
  | loadVariable _ listed | call _ listed | print listed =>
    have : sizeOf part.instruction < sizeOf listed := sizeOf_values member
    simp
    omega
  | returnValue value | halt value =>
    have : sizeOf part.instruction < sizeOf value := sizeOf_toList member
    simp
    omega
  | define _ _ listed =>
    have : sizeOf part.instruction < sizeOf listed := sizeOf_body member
    simp
    omega
  | whileLoop head block | foreach head block =>
    rcases List.mem_cons.1 member with rfl | inner
    · simp
      omega
    · have := sizeOf_body inner
      simp
      omega
  | ifElse condition first elifs otherwise =>
    rcases List.mem_cons.1 member with rfl | inner
    · simp
      omega
    · simp only [Instruction.ifElse.sizeOf_spec]
      rcases List.mem_append.1 inner with inner | inner
      · have := sizeOf_body inner
        omega
      · rcases List.mem_append.1 inner with inner | inner
        · have := sizeOf_elif inner
          omega
        · have := sizeOf_body inner
          omega
  | switch head cases default =>
    rcases List.mem_cons.1 member with rfl | inner
    · simp
      omega
    · simp only [Instruction.switch.sizeOf_spec]
      rcases List.mem_append.1 inner with inner | inner
      · have := sizeOf_case inner
        omega
      · have := sizeOf_body inner
        omega
  | select fields source filter distinct merge target =>
    rcases List.mem_cons.1 member with rfl | inner
    · simp
      omega
    · simp only [Instruction.select.sizeOf_spec]
      rcases List.mem_append.1 inner with inner | inner
      · have := sizeOf_toList inner
        omega
      · obtain rfl := List.mem_singleton.1 inner
        dsimp only
        omega
  | loadConstant | newVariable | breakLoop | continueLoop | defineExternal => cases member

/-- The nodes of a tree in the order in which they are judged. -/
def visits (node : Node) : List Node :=
  node.front.attach.flatMap (fun part => part.1.visits)
    ++ node :: node.back.attach.flatMap (fun part => part.1.visits)
  termination_by sizeOf node.instruction
  decreasing_by
    · exact sizeOf_part (List.mem_append_left _ part.2)
    · exact sizeOf_part (List.mem_append_right _ part.2)

theorem visits_eq (node : Node) :
    node.visits = node.front.flatMap visits ++ node :: node.back.flatMap visits := by
  have plain : ∀ nodes : List Node, nodes.attach.flatMap (fun part => part.1.visits) =
      nodes.flatMap visits := by
    intro nodes
    rw [List.flatMap_subtype (g := visits) fun _ _ => rfl, List.unattach_attach]
  rw [visits, plain, plain]

/-- All nodes of a tree are visited, and no others. -/
theorem mem_visits {root node : Node} : node ∈ root.visits ↔ root.Within node := by
  induction size : sizeOf root.instruction using Nat.strongRecOn generalizing root with
  | ind size ih =>
    have inner : ∀ part ∈ root.parts, (node ∈ part.visits ↔ part.Within node) := fun part member =>
      ih _ (size ▸ sizeOf_part member) rfl
    rw [visits_eq, Within, Relation.ReflTransGen.cases_head_iff]
    simp only [List.mem_append, List.mem_cons, List.mem_flatMap]
    constructor
    · rintro (⟨part, member, visited⟩ | rfl | ⟨part, member, visited⟩)
      · have member := List.mem_append_left root.back member
        exact .inr ⟨part, member, (inner part member).1 visited⟩
      · exact .inl rfl
      · have member := List.mem_append_right root.front member
        exact .inr ⟨part, member, (inner part member).1 visited⟩
    · rintro (rfl | ⟨part, member, within⟩)
      · exact .inr (.inl rfl)
      · have visited := (inner part member).2 within
        rcases List.mem_append.1 member with member | member
        · exact .inl ⟨part, member, visited⟩
        · exact .inr (.inr ⟨part, member, visited⟩)

def refusal? (node : Node) : Option String :=
  match node.instruction with
  | .binary opcode _ _ | .unary opcode _ =>
    if opcode.operatorText?.isNone then some opcode.name else none
  | .isType _ kind =>
    if kind.testWord?.isNone then some (Opcode.isType.name ++ " " ++ kind.name) else none
  | other => if node.role = .value ∧ other.isStatementForm then some other.opcode.name else none

theorem refusal?_eq_some_iff {node : Node} {name : String} :
    node.refusal? = some name ↔ node.Refused name := by
  constructor
  · intro refused
    obtain ⟨role, instruction⟩ := node
    cases instruction with
    | binary opcode left right =>
      obtain ⟨unspelled, same⟩ := Option.ite_none_right_eq_some.1 refused
      cases same
      exact .binary (Option.isNone_iff_eq_none.1 unspelled)
    | unary opcode operand =>
      obtain ⟨unspelled, same⟩ := Option.ite_none_right_eq_some.1 refused
      cases same
      exact .unary (Option.isNone_iff_eq_none.1 unspelled)
    | isType operand kind =>
      obtain ⟨unspelled, same⟩ := Option.ite_none_right_eq_some.1 refused
      cases same
      exact .isType (Option.isNone_iff_eq_none.1 unspelled)
    | _ =>
      obtain ⟨⟨asked, form⟩, same⟩ := Option.ite_none_right_eq_some.1 refused
      cases asked
      cases same
      exact .misplaced form
  · intro refused
    cases refused with
    | @misplaced instruction form =>
      cases instruction with
      | binary | unary | isType | loadConstant | loadVariable | call | typeOf => cases form
      | _ => rfl
    | binary unspelled | unary unspelled | isType unspelled => simp only [refusal?, unspelled]; rfl

end Node

/-- A result is what comes of judging nodes one after another: the first one that is refused is
reported. -/
def Judged {α : Type} (nodes : List Node) (result : Except Error α) : Prop :=
  match nodes.findSome? Node.refusal? with
  | none => ∃ a, result = .ok a
  | some name => result = .error (.unknownOpcode name)

namespace Judged

variable {α β : Type} {node : Node} {nodes rest : List Node}

theorem nothing (a : α) : Judged [] (.ok a : Except Error α) := ⟨a, rfl⟩

theorem bind {result : Except Error α} {next : α → Except Error β} (first : Judged nodes result)
    (last : ∀ a, Judged rest (next a)) : Judged (nodes ++ rest) (result >>= next) := by
  unfold Judged at first
  rw [Judged, List.findSome?_append]
  cases refused : nodes.findSome? Node.refusal? with
  | none =>
    rw [refused] at first
    obtain ⟨a, rfl⟩ := first
    exact last a
  | some name =>
    rw [refused] at first
    rw [show result = _ from first]
    rfl

theorem map {result : Except Error α} (f : α → β) (first : Judged nodes result) :
    Judged nodes (do let a ← result; return f a) := by
  have whole : Judged (nodes ++ []) (do let a ← result; return f a) :=
    first.bind fun a => nothing (f a)
  rwa [List.append_nil] at whole

/-- A node that is not refused leaves the judgement to its parts. -/
theorem cons {result : Except Error α} (passed : node.refusal? = none)
    (judged : Judged nodes result) : Judged (node :: nodes) result := by
  rw [Judged, List.findSome?_cons, passed]
  exact judged

theorem refused {name : String} (refused : node.refusal? = some name) :
    Judged (node :: nodes) (.error (.unknownOpcode name) : Except Error α) := by
  rw [Judged, List.findSome?_cons, refused]

end Judged

/-- The word for an operator is asked for where the node is judged. -/
theorem judged_operatorText {node : Node} {opcode : Opcode}
    (judge : node.refusal? = if opcode.operatorText?.isNone then some opcode.name else none) :
    Judged [node] (operatorText opcode) := by
  unfold operatorText
  cases spelled : opcode.operatorText? with
  | none => exact .refused (judge.trans (by rw [spelled]; rfl))
  | some text => exact .cons (judge.trans (by rw [spelled]; rfl)) (.nothing text)

mutual

/-- An instruction is written as a value up to the first part that is refused. -/
theorem judged_expression (i : Instruction) : Judged (Node.visits ⟨.value, i⟩) i.expression := by
  rw [Node.visits_eq]
  cases i with
  | binary opcode left right =>
    have word : Judged [⟨.value, .binary opcode left right⟩] (operatorText opcode) :=
      judged_operatorText rfl
    have judged := (judged_expression left).bind fun leftText =>
      word.bind fun operator =>
        (judged_expression right).map fun rightText =>
          operandText left leftText ++ " " ++ operator ++ " " ++ operandText right rightText
    rw [expression]
    simpa only [Node.front, Node.back, List.flatMap_cons, List.flatMap_nil, List.append_nil,
      List.singleton_append] using judged
  | unary opcode operand =>
    have word : Judged [⟨.value, .unary opcode operand⟩] (operatorText opcode) :=
      judged_operatorText rfl
    have judged := word.bind fun operator =>
      (judged_expression operand).map fun text =>
        operator ++ (if opcode = .not then " " else "") ++ operandText operand text
    rw [expression]
    simpa only [Node.front, Node.back, List.flatMap_cons, List.flatMap_nil, List.append_nil,
      List.nil_append, List.singleton_append] using judged
  | loadConstant value => exact .cons rfl (.nothing _)
  | loadVariable name index =>
    rw [expression]
    exact .cons rfl ((judged_expressions index).map _)
  | call name args =>
    rw [expression]
    exact .cons rfl ((judged_expressions args).map _)
  | isType operand kind =>
    rw [expression]
    cases spelled : kind.testWord? with
    | none => exact .refused (by simp only [Node.refusal?, spelled]; rfl)
    | some word =>
      refine .cons (by simp only [Node.refusal?, spelled]; rfl) ?_
      simpa only [Node.back, List.flatMap_cons, List.flatMap_nil, List.append_nil] using
        (judged_expression operand).map fun text => word ++ "(" ++ text ++ ")"
  | typeOf operand =>
    rw [expression]
    refine .cons rfl ?_
    simpa only [Node.back, List.flatMap_cons, List.flatMap_nil, List.append_nil] using
      (judged_expression operand).map fun text => "Type(" ++ text ++ ")"
  | _ => exact .refused rfl

theorem judged_expressions (is : List Instruction) :
    Judged ((Node.values is).flatMap Node.visits) (expressions is) := by
  cases is with
  | nil => exact .nothing []
  | cons i is =>
    rw [expressions]
    exact (judged_expression i).bind fun text => (judged_expressions is).map (text :: ·)

end

/-- An instruction that yields a value is judged alike where a statement is asked for. -/
theorem Judged.asStatement {α : Type} {i : Instruction} {result : Except Error α}
    (yields : i.isStatementForm = false)
    (judged : Judged (Node.visits ⟨.value, i⟩) result) :
    Judged (Node.visits ⟨.statement, i⟩) result := by
  have own : Node.refusal? ⟨.statement, i⟩ = Node.refusal? ⟨.value, i⟩ := by
    cases i with
    | binary | unary | isType | loadConstant | loadVariable | call | typeOf => rfl
    | _ => cases yields
  rw [Judged, Node.visits_eq, List.findSome?_append, List.findSome?_cons] at judged ⊢
  rw [own]
  exact judged

theorem judged_wordStatement (word : String) (value : Option Instruction) :
    Judged ((Node.values value.toList).flatMap Node.visits) (wordStatement word value) := by
  cases value with
  | none => exact .nothing _
  | some value =>
    rw [Option.toList_some, Node.values, List.map_singleton, List.flatMap_singleton]
    exact (judged_expression value).map _

theorem judged_selectStatement (fields : List (String × Option String)) (source : Instruction)
    (filter : Option Instruction) (distinct merge : Bool) (target : Instruction) :
    Judged (Node.visits ⟨.value, source⟩ ++
        ((Node.values filter.toList).flatMap Node.visits ++ Node.visits ⟨.value, target⟩))
      (selectStatement fields source filter distinct merge target) := by
  unfold selectStatement
  refine (judged_expression source).bind fun sourceText => ?_
  cases filter with
  | none => exact (Judged.nothing "").bind fun filterText => (judged_expression target).map _
  | some condition =>
    rw [Option.toList_some, Node.values, List.map_singleton, List.flatMap_singleton]
    exact (judged_expression condition).bind fun filterText => (judged_expression target).map _

mutual

/-- An instruction is written as a statement up to the first part that is refused. -/
theorem judged_statementLines (level : Nat) (i : Instruction) :
    Judged (Node.visits ⟨.statement, i⟩) (statementLines level i) := by
  cases i with
  | binary | unary | isType | loadConstant | loadVariable | call | typeOf =>
    exact ((judged_expression _).asStatement rfl).map _
  | newVariable | breakLoop | continueLoop | defineExternal =>
    rw [Node.visits_eq]
    exact .cons rfl (.nothing _)
  | storeVariable target value append =>
    rw [Node.visits_eq, statementLines]
    refine .cons rfl ?_
    rw [Node.back, List.flatMap_cons, List.flatMap_singleton]
    exact (judged_expression target).bind fun targetText => (judged_expression value).map _
  | returnValue value | halt value =>
    rw [Node.visits_eq, statementLines]
    exact .cons rfl ((judged_wordStatement _ value).map _)
  | print args =>
    rw [Node.visits_eq, statementLines]
    exact .cons rfl ((judged_expressions args).map _)
  | ifElse condition body elifs otherwise =>
    rw [Node.visits_eq, statementLines]
    refine .cons rfl ?_
    rw [Node.back, List.flatMap_cons, List.flatMap_append, List.flatMap_append]
    exact (judged_expression condition).bind fun conditionText =>
      (judged_bodyLines (level + 1) body).bind
      fun bodyPart => (judged_elifLines level elifs).bind fun elifPart =>
        (judged_bodyLines (level + 1) otherwise).map _
  | whileLoop head body | foreach head body =>
    rw [Node.visits_eq, statementLines]
    refine .cons rfl ?_
    rw [Node.back, List.flatMap_cons]
    exact (judged_expression head).bind fun headText => (judged_bodyLines (level + 1) body).map _
  | switch head cases default =>
    rw [Node.visits_eq, statementLines]
    refine .cons rfl ?_
    rw [Node.back, List.flatMap_cons, List.flatMap_append]
    exact (judged_expression head).bind fun headText => (judged_caseLines (level + 1) cases).bind
      fun casePart => (judged_bodyLines (level + 2) default).map _
  | define name params body =>
    rw [Node.visits_eq, statementLines]
    exact .cons rfl ((judged_bodyLines (level + 1) body).map _)
  | select fields source filter distinct merge target =>
    rw [Node.visits_eq, statementLines]
    refine .cons rfl ?_
    rw [Node.back, List.flatMap_cons, List.flatMap_append, List.flatMap_singleton]
    exact (judged_selectStatement fields source filter distinct merge target).map _

/-- Statements are written up to the first part that is refused. -/
theorem judged_bodyLines (level : Nat) (is : List Instruction) :
    Judged ((Node.body is).flatMap Node.visits) (bodyLines level is) := by
  cases is with
  | nil => exact .nothing []
  | cons i is =>
    rw [bodyLines]
    exact (judged_statementLines level i).bind fun first => (judged_bodyLines level is).map _

theorem judged_elifLines (level : Nat) (elifs : List (Instruction × List Instruction)) :
    Judged ((elifs.flatMap fun (condition, block) => ⟨.value, condition⟩ :: Node.body block).flatMap
      Node.visits) (elifLines level elifs) := by
  match elifs with
  | [] => exact .nothing []
  | (condition, block) :: elifs =>
    rw [elifLines, List.flatMap_cons, List.cons_append, List.flatMap_cons, List.flatMap_append]
    exact (judged_expression condition).bind fun conditionText =>
      (judged_bodyLines (level + 1) block).bind fun first => (judged_elifLines level elifs).map _

theorem judged_caseLines (level : Nat) (cases : List (Value × List Instruction)) :
    Judged ((cases.flatMap fun (_, block) => Node.body block).flatMap Node.visits)
      (caseLines level cases) := by
  match cases with
  | [] => exact .nothing []
  | (label, block) :: cases =>
    rw [caseLines, List.flatMap_cons, List.flatMap_append]
    exact (judged_bodyLines (level + 1) block).bind fun first =>
      (judged_caseLines level cases).map _

end

theorem Judged.fails_iff {α : Type} {nodes : List Node} {result : Except Error α}
    (judged : Judged nodes result) :
    (∃ error, result = .error error) ↔ ∃ node ∈ nodes, ∃ name, node.Refused name := by
  unfold Judged at judged
  cases refused : nodes.findSome? Node.refusal? with
  | none =>
    rw [refused] at judged
    obtain ⟨a, rfl⟩ := judged
    constructor
    · rintro ⟨error, failed⟩
      cases failed
    · rintro ⟨node, member, name, here⟩
      have passed := List.findSome?_eq_none_iff.1 refused node member
      rw [Node.refusal?_eq_some_iff.2 here] at passed
      cases passed
  | some name =>
    rw [refused] at judged
    obtain ⟨node, member, here⟩ := List.exists_of_findSome?_eq_some refused
    exact ⟨fun _ => ⟨node, member, name, Node.refusal?_eq_some_iff.1 here⟩, fun _ => ⟨_, judged⟩⟩

/-- A judgement that fails reports the first node that is refused. -/
theorem Judged.error_iff {α : Type} {nodes : List Node} {result : Except Error α}
    (judged : Judged nodes result)
    {error : Error} : result = .error error ↔ ∃ before node after name,
      nodes = before ++ node :: after ∧
      (∀ other ∈ before, ∀ name, ¬other.Refused name) ∧ node.Refused name ∧
      error = .unknownOpcode name := by
  have passed : ∀ {node : Node}, node.refusal? = none ↔ ∀ name, ¬node.Refused name := by
    intro node
    simp only [Option.eq_none_iff_forall_ne_some, ne_eq, Node.refusal?_eq_some_iff]
  -- A split of the nodes at the first refusal is what the search finds.
  have first : ∀ name, nodes.findSome? Node.refusal? = some name ↔ ∃ before node after,
      nodes = before ++ node :: after ∧ (∀ other ∈ before, ∀ name, ¬other.Refused name) ∧
          node.Refused name := by
    intro name
    rw [List.findSome?_eq_some_iff]
    simp only [passed, Node.refusal?_eq_some_iff]
    exact ⟨fun ⟨before, node, after, split, here, front⟩ =>
      ⟨before, node, after, split, front, here⟩,
      fun ⟨before, node, after, split, front, here⟩ => ⟨before, node, after, split, here, front⟩⟩
  have reported : result = .error error ↔
      ∃ name, nodes.findSome? Node.refusal? = some name ∧ error = .unknownOpcode name := by
    unfold Judged at judged
    cases refused : nodes.findSome? Node.refusal? with
    | none =>
      rw [refused] at judged
      obtain ⟨a, rfl⟩ := judged
      constructor
      · intro failed
        cases failed
      · rintro ⟨name, found, _⟩
        cases found
    | some name =>
      rw [refused] at judged
      rw [show result = _ from judged, Except.error.injEq]
      exact ⟨fun same => ⟨name, rfl, same.symm⟩, fun ⟨_, found, same⟩ =>
        Option.some.inj found ▸ same.symm⟩
  rw [reported]
  constructor
  · rintro ⟨name, found, rfl⟩
    obtain ⟨before, node, after, split, front, here⟩ := (first name).1 found
    exact ⟨before, node, after, name, split, front, here, rfl⟩
  · rintro ⟨before, node, after, name, split, front, here, rfl⟩
    exact ⟨name, (first name).2 ⟨before, node, after, split, front, here⟩, rfl⟩

/-- Instructions have no script exactly if some part of one of them is refused. What is reported
then is the first part that is refused, in the order in which the parts are written. -/
theorem script_refused (instructions : List Instruction) (level : Nat) :
    ((∃ error, script instructions level = .error error) ↔
        ∃ instruction ∈ instructions, ∃ node name, Node.Within ⟨.statement, instruction⟩ node ∧
          node.Refused name) ∧
      ∀ error, script instructions level = .error error ↔
        ∃ before node after name, (Node.body instructions).flatMap Node.visits =
          before ++ node :: after ∧
          (∀ other ∈ before, ∀ name, ¬other.Refused name) ∧ node.Refused name ∧
          error = .unknownOpcode name := by
  have judged : Judged ((Node.body instructions).flatMap Node.visits) (script instructions level) :=
    (judged_bodyLines level instructions).map _
  refine ⟨?_, fun error => judged.error_iff⟩
  rw [judged.fails_iff]
  constructor
  · rintro ⟨node, visited, name, refused⟩
    obtain ⟨root, member, visited⟩ := List.mem_flatMap.1 visited
    obtain ⟨instruction, listed, rfl⟩ := List.mem_map.1 member
    exact ⟨instruction, listed, node, name, Node.mem_visits.1 visited, refused⟩
  · rintro ⟨instruction, listed, node, name, within, refused⟩
    have member : (⟨.statement, instruction⟩ : Node) ∈ Node.body instructions :=
      List.mem_map.2 ⟨_, listed, rfl⟩
    exact ⟨node, List.mem_flatMap.2 ⟨_, member, Node.mem_visits.2 within⟩, name, refused⟩

/-- The left operand of an operator without a word is refused before the operator is, and that
before the right operand. -/
example : script [.print [.binary .call (.halt none) .breakLoop]] 0 =
    .error (.unknownOpcode "HALT") ∧
    script [.print [.binary .call (.loadConstant .nil) .breakLoop]] 0 =
      .error (.unknownOpcode "CALL") :=
  ⟨rfl, rfl⟩

end Treecode.Instruction
