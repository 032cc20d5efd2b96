import Mathlib.Tactic.Tauto
import Treecode.Proofs.Derivation

set_option autoImplicit false

namespace Treecode

/-- What code may ask of the scopes around it: that a variable is seen, that a function can be
called, or that a variable may be stored to. -/
inductive Demand where
  | seen (name : String)
  | called (name : String)
  | stored (name : String)
  deriving DecidableEq

namespace Demand

/-- The demands that what is given leaves open. -/
def remaining (given demands : List Demand) : List Demand :=
  demands.filter fun d => !given.contains d

/-- What is met by variables that a function or a loop declares for its body. -/
def bound (names : List String) : List Demand := names.map .seen ++ names.map .stored

/-- What blocks of one statement give to the blocks after them: functions, and variables unless the
blocks are kept apart. -/
def lasting (apart : Bool) (given : List Demand) : List Demand :=
  if apart then given.filter fun | .called _ => true | _ => false else given

/-- A demand is met where some variables are seen and some functions can be called. -/
def Met (seen called : String → Bool) : Demand → Prop
  | .seen name => seen name
  | .called name => called name
  | .stored _ => True

variable {d : Demand} {given demands : List Demand} {x : String}

theorem mem_remaining : d ∈ remaining given demands ↔ d ∈ demands ∧ d ∉ given := by
  simp only [remaining, List.mem_filter, Bool.not_eq_true', List.contains_eq_mem,
    decide_eq_false_iff_not]

theorem mem_or_mem_remaining (member : d ∈ demands) : d ∈ remaining given demands ∨ d ∈ given := by
  by_cases met : d ∈ given
  · exact .inr met
  · exact .inl (mem_remaining.2 ⟨member, met⟩)

theorem seen_mem_bound {names : List String} : .seen x ∈ bound names ↔ x ∈ names := by
  simp [bound]

theorem stored_mem_bound {names : List String} : .stored x ∈ bound names ↔ x ∈ names := by
  simp [bound]

theorem called_mem_bound {names : List String} : .called x ∉ bound names := by
  simp [bound]

theorem seen_mem_function {f : String} {names : List String} :
    .seen x ∈ .called f :: bound names ↔ x ∈ names := by
  simp [bound]

theorem stored_mem_function {f : String} {names : List String} :
    .stored x ∈ .called f :: bound names ↔ x ∈ names := by
  simp [bound]

theorem called_mem_function {f : String} {names : List String} :
    .called x ∈ .called f :: bound names ↔ x = f := by
  simp [bound]

theorem mem_lasting_false : d ∈ lasting false given ↔ d ∈ given := Iff.rfl

theorem seen_mem_lasting_true : .seen x ∉ lasting true given := by
  simp [lasting]

theorem called_mem_lasting {apart : Bool} :
    .called x ∈ lasting apart given ↔ .called x ∈ given := by
  cases apart <;> simp [lasting]

theorem lasting_append (apart : Bool) (first second : List Demand) :
    lasting apart (first ++ second) = lasting apart first ++ lasting apart second := by
  cases apart with
  | false => rfl
  | true => exact List.filter_append ..

/-- What further blocks ask for is asked for from the start, or left by a block before them. -/
theorem mem_after_block {apart : Bool} {further first last : List Demand}
    (member : d ∈ first ++ remaining (lasting apart further) last) :
    d ∈ remaining (lasting apart given) first ++ remaining (lasting apart (given ++ further)) last ∨
      d ∈ lasting apart given := by
  rcases List.mem_append.1 member with inFirst | inLast
  · exact (mem_or_mem_remaining inFirst).imp_left (List.mem_append_left _)
  · obtain ⟨asked, unmet⟩ := mem_remaining.1 inLast
    by_cases left : d ∈ lasting apart given
    · exact .inr left
    · refine .inl (List.mem_append_right _ (mem_remaining.2 ⟨asked, ?_⟩))
      rw [lasting_append, List.mem_append, not_or]
      exact ⟨left, unmet⟩

theorem lasting_subset {apart : Bool} (member : d ∈ lasting apart given) : d ∈ given := by
  cases apart with
  | false => exact member
  | true => exact (List.mem_filter.1 member).1

end Demand

namespace Instruction

open Demand

mutual

/-- What an instruction that declares nothing asks for: the variables that it loads and the
functions that it calls. -/
def asks : Instruction → List Demand
  | .binary _ left right => left.asks ++ right.asks
  | .unary _ operand | .isType operand _ | .typeOf operand => operand.asks
  | .loadVariable name index => .seen name :: allAsk index
  | .call name args => .called name :: allAsk args
  | .print args => allAsk args
  | .returnValue value | .halt value => optionalAsks value
  | _ => []

def allAsk : List Instruction → List Demand
  | [] => []
  | first :: rest => first.asks ++ allAsk rest

def optionalAsks : Option Instruction → List Demand
  | none => []
  | some i => i.asks

end

/-- The plain variables that an instruction reaches through operators between operands, which it
declares where it may. -/
def openable : Instruction → List String
  | .binary _ left right => left.openable ++ right.openable
  | .loadVariable name [] => [name]
  | _ => []

def optionalOpenable : Option Instruction → List String
  | none => []
  | some i => i.openable

/-- What an instruction asks for where the variables that it reaches may be new. -/
def openingAsks : Instruction → List Demand
  | .binary _ left right =>
    left.openingAsks ++ remaining (left.openable.map .seen) right.openingAsks
  | .loadVariable _ [] => []
  | other => other.asks

def optionalOpeningAsks : Option Instruction → List Demand
  | none => []
  | some i => i.openingAsks

def placed : Instruction → List String
  | .loadVariable name _ => [name]
  | _ => []

mutual

/-- What an instruction leaves to those after it: the variables that it declares or names where it
may declare, and the functions that it defines. -/
def gives : Instruction → List Demand
  | .newVariable name => [.seen name]
  | .select _ _ filter _ _ target => (optionalOpenable filter ++ target.openable).map .seen
  | .define name _ _ | .defineExternal name _ _ _ => [.called name]
  | .ifElse _ body elifs otherwise => allGive body ++ elifsGive elifs ++ allGive otherwise
  | .whileLoop _ body => allGive body
  | .switch _ cases default => casesGive cases ++ allGive default
  | _ => []

def allGive : List Instruction → List Demand
  | [] => []
  | first :: rest => first.gives ++ allGive rest

def elifsGive : List (Instruction × List Instruction) → List Demand
  | [] => []
  | (_, body) :: rest => allGive body ++ elifsGive rest

def casesGive : List (Value × List Instruction) → List Demand
  | [] => []
  | (_, body) :: rest => allGive body ++ casesGive rest

end

mutual

/-- What an instruction asks of the scopes around it, in any of its blocks and bodies, but for what
those before leave. Blocks of one statement leave variables to each other or are kept apart. -/
def demands (apart : Bool) : Instruction → List Demand
  | .storeVariable target value _ => target.placed.map .stored ++ target.asks ++ value.asks
  | .ifElse condition body elifs otherwise =>
    condition.asks ++ allDemand apart body ++
      remaining (lasting apart (allGive body)) (elifsDemand apart elifs) ++
      remaining (lasting apart (allGive body ++ elifsGive elifs)) (allDemand apart otherwise)
  | .whileLoop condition body => condition.asks ++ allDemand apart body
  | .foreach iterable body => iterable.asks ++ remaining (bound ["it"]) (allDemand apart body)
  | .switch head cases default =>
    head.asks ++ casesDemand apart cases ++
      remaining (lasting apart (casesGive cases)) (allDemand apart default)
  | .define name params body => remaining (.called name :: bound params) (allDemand apart body)
  | .select _ source filter _ _ target =>
    source.asks ++ optionalOpeningAsks filter ++
      remaining ((optionalOpenable filter).map .seen) target.openingAsks
  | other => other.asks

def allDemand (apart : Bool) : List Instruction → List Demand
  | [] => []
  | first :: rest => first.demands apart ++ remaining first.gives (allDemand apart rest)

def elifsDemand (apart : Bool) : List (Instruction × List Instruction) → List Demand
  | [] => []
  | (condition, body) :: rest =>
    condition.asks ++ allDemand apart body ++
      remaining (lasting apart (allGive body)) (elifsDemand apart rest)

def casesDemand (apart : Bool) : List (Value × List Instruction) → List Demand
  | [] => []
  | (_, body) :: rest =>
    allDemand apart body ++ remaining (lasting apart (allGive body)) (casesDemand apart rest)

end

theorem allGive_single (i : Instruction) : allGive [i] = i.gives := List.append_nil _

theorem allDemand_single (apart : Bool) (i : Instruction) : allDemand apart [i] = i.demands apart :=
  List.append_nil _

theorem mem_allGive_append {d : Demand} {first second : List Instruction} :
    d ∈ allGive (first ++ second) ↔ d ∈ allGive first ∨ d ∈ allGive second := by
  induction first with
  | nil => simp [allGive]
  | cons i rest ih => simp only [List.cons_append, allGive, List.mem_append, ih, or_assoc]

mutual

/-- That a variable may be stored to is not for code to give. -/
theorem stored_mem_gives (x : String) (i : Instruction) : .stored x ∉ i.gives := by
  cases i with
  | ifElse condition body elifs otherwise =>
    simp only [gives, List.mem_append, stored_mem_allGive x body, stored_mem_elifsGive x elifs,
      stored_mem_allGive x otherwise, or_self, not_false_eq_true]
  | whileLoop condition body => exact stored_mem_allGive x body
  | switch head cases default =>
    simp only [gives, List.mem_append, stored_mem_casesGive x cases, stored_mem_allGive x default,
      or_self, not_false_eq_true]
  | _ => simp [gives]

theorem stored_mem_allGive (x : String) (is : List Instruction) : .stored x ∉ allGive is := by
  cases is with
  | nil => exact List.not_mem_nil
  | cons first rest =>
    simp only [allGive, List.mem_append, stored_mem_gives x first, stored_mem_allGive x rest,
      or_self, not_false_eq_true]

theorem stored_mem_elifsGive (x : String) (elifs : List (Instruction × List Instruction)) :
    .stored x ∉ elifsGive elifs := by
  cases elifs with
  | nil => exact List.not_mem_nil
  | cons first rest =>
    simp only [elifsGive, List.mem_append, stored_mem_allGive x first.2,
      stored_mem_elifsGive x rest, or_self, not_false_eq_true]

theorem stored_mem_casesGive (x : String) (cases : List (Value × List Instruction)) :
    .stored x ∉ casesGive cases := by
  cases cases with
  | nil => exact List.not_mem_nil
  | cons first rest =>
    simp only [casesGive, List.mem_append, stored_mem_allGive x first.2,
      stored_mem_casesGive x rest, or_self, not_false_eq_true]

end

/-- What code of two parts asks for: what the first one does, and what is left open of the second
one. -/
theorem mem_allDemand_append {apart : Bool} {d : Demand} {first second : List Instruction} :
    d ∈ allDemand apart (first ++ second) ↔
      d ∈ allDemand apart first ∨ d ∈ allDemand apart second ∧ d ∉ allGive first := by
  induction first with
  | nil => simp [allDemand, allGive]
  | cons i rest ih =>
    simp only [List.cons_append, allDemand, allGive, List.mem_append, mem_remaining, ih, not_or]
    tauto

theorem mem_allDemand_or {apart : Bool} {d : Demand} {first second : List Instruction}
    (member : d ∈ allDemand apart second) :
    d ∈ allDemand apart (first ++ second) ∨ d ∈ allGive first := by
  by_cases given : d ∈ allGive first
  · exact .inr given
  · exact .inl (mem_allDemand_append.2 (.inr ⟨member, given⟩))

section Reading

variable {seen called seen' called' : String → Bool}

mutual

/-- An instruction reads only what is there if it yields a value and what it asks for is met. -/
theorem reads_iff (seen called : String → Bool) (i : Instruction) :
    i.reads seen called ↔ i.reads (fun _ => true) (fun _ => true) ∧ ∀ d ∈ i.asks,
      d.Met seen called := by
  cases i with
  | binary opcode left right =>
    simp only [reads, asks, Bool.and_eq_true, List.forall_mem_append, reads_iff seen called left,
      reads_iff seen called right]
    tauto
  | loadVariable name index =>
    simp only [reads, asks, Bool.and_eq_true, List.forall_mem_cons, readsAll_iff seen called index,
      Met]
    tauto
  | call name args =>
    simp only [reads, asks, Bool.and_eq_true, List.forall_mem_cons, readsAll_iff seen called args,
      Met]
    tauto
  | unary opcode operand => exact reads_iff seen called operand
  | isType operand kind => exact reads_iff seen called operand
  | typeOf operand => exact reads_iff seen called operand
  | loadConstant value => simp [reads, asks]
  | _ => simp [reads]

theorem readsAll_iff (seen called : String → Bool) (is : List Instruction) :
    readsAll seen called is ↔
      readsAll (fun _ => true) (fun _ => true) is ∧ ∀ d ∈ allAsk is, d.Met seen called := by
  cases is with
  | nil => simp [readsAll, allAsk]
  | cons first rest =>
    simp only [readsAll, allAsk, Bool.and_eq_true, List.forall_mem_append,
      reads_iff seen called first, readsAll_iff seen called rest]
    tauto

end

theorem readsOptional_iff (seen called : String → Bool) (i : Option Instruction) :
    readsOptional seen called i ↔
      readsOptional (fun _ => true) (fun _ => true) i ∧ ∀ d ∈ optionalAsks i,
        d.Met seen called := by
  cases i with
  | none => simp [readsOptional, optionalAsks]
  | some i => exact reads_iff seen called i

/-- Something may open some variables and asks for what it does not open: it opens those that are
not seen, where all that it asks for is met, and it opens something wherever this is met. -/
structure Opening (openable : List String) (asks : List Demand)
    (opens : (String → Bool) → (String → Bool) → Option (List String)) : Prop where
  added_iff : ∀ {seen called added}, opens seen called = some added →
    ∀ x, x ∈ added ↔ x ∈ openable ∧ seen x = false
  met : ∀ {seen called added}, opens seen called = some added → ∀ d ∈ asks, d.Met seen called
  again : ∀ {seen called seen' called' added}, opens seen called = some added →
    (∀ d ∈ asks, d.Met seen' called') → ∃ added', opens seen' called' = some added'

theorem Opening.both {openable openable' : List String} {asks asks' : List Demand}
    {opens opens' : (String → Bool) → (String → Bool) → Option (List String)}
    (front : Opening openable asks opens) (back : Opening openable' asks' opens') :
    Opening (openable ++ openable') (asks ++ remaining (openable.map .seen) asks')
      fun seen called => do
      let first ← opens seen called
      let second ← opens' (fun name => seen name || first.contains name) called
      return first ++ second := by
  simp only [Option.bind_eq_bind, Option.pure_def]
  constructor
  · intro seen called added opened x
    simp only [Option.bind_eq_some_iff, Option.some.injEq] at opened
    obtain ⟨first, early, second, late, rfl⟩ := opened
    simp only [List.mem_append, front.added_iff early, back.added_iff late, Bool.or_eq_false_iff,
      List.contains_eq_mem, decide_eq_false_iff_not]
    tauto
  · intro seen called added opened d member
    simp only [Option.bind_eq_some_iff, Option.some.injEq] at opened
    obtain ⟨first, early, second, late, rfl⟩ := opened
    simp only [List.mem_append, mem_remaining] at member
    rcases member with own | ⟨other, unmet⟩
    · exact front.met early d own
    · have met := back.met late d other
      cases d with
      | seen x =>
        rw [Met, Bool.or_eq_true, List.contains_iff_mem] at met
        refine met.resolve_right fun new => unmet ?_
        exact List.mem_map_of_mem ((front.added_iff early x).1 new).1
      | called x => exact met
      | stored x => trivial
  · intro seen called seen' called' added opened met
    simp only [Option.bind_eq_some_iff, Option.some.injEq, List.forall_mem_append] at opened met
    obtain ⟨first, early, second, late, rfl⟩ := opened
    obtain ⟨first', early'⟩ := front.again early met.1
    -- What could be opened first is seen or opened when the second one comes.
    obtain ⟨second', late'⟩ : ∃ second',
        opens' (fun name => seen' name || first'.contains name) called' = some second' := by
      refine back.again late fun d member => ?_
      by_cases given : d ∈ openable.map .seen
      · obtain ⟨x, own, rfl⟩ := List.mem_map.1 given
        rw [Met, Bool.or_eq_true, List.contains_iff_mem, front.added_iff early', ← Bool.not_eq_true]
        tauto
      · have needed := met.2 d (mem_remaining.2 ⟨member, given⟩)
        cases d with
        | seen x => exact Bool.or_eq_true_iff.2 (.inl needed)
        | called x => exact needed
        | stored x => trivial
    exact ⟨first' ++ second', by simp only [early', late', Option.bind_some]⟩

theorem Opening.closed (i : Instruction)
    (shape : ∀ seen called, i.opens seen called = if i.reads seen called then some [] else none) :
    Opening [] i.asks fun seen called => i.opens seen called := by
  simp only [shape]
  constructor
  · intro seen called added opened x
    split at opened <;> cases opened
    simp
  · intro seen called added opened
    split at opened
    · rename_i reads
      exact ((reads_iff seen called i).1 reads).2
    · cases opened
  · intro seen called seen' called' added opened met
    split at opened
    · rename_i reads
      rw [if_pos ((reads_iff seen' called' i).2 ⟨((reads_iff seen called i).1 reads).1, met⟩)]
      exact ⟨[], rfl⟩
    · cases opened

theorem opening (i : Instruction) :
    Opening i.openable i.openingAsks fun seen called => i.opens seen called := by
  cases i with
  | binary opcode left right => exact (opening left).both (opening right)
  | loadVariable name index =>
    cases index with
    | nil =>
      refine ⟨?_, ?_, fun _ _ => ⟨_, rfl⟩⟩
      · intro seen called added opened x
        cases opened
        cases known : seen name <;> simp [openable]
        · rintro rfl
          exact known
        · rintro rfl
          exact known
      · intro seen called added _ d member
        cases member
    | cons key keys => exact .closed _ fun _ _ => rfl
  | _ => exact .closed _ fun _ _ => rfl

theorem opening_select (filter : Option Instruction) (target : Instruction) :
    Opening (optionalOpenable filter ++ target.openable)
      (optionalOpeningAsks filter ++
        remaining ((optionalOpenable filter).map .seen) target.openingAsks)
      fun seen called => opensInSelect seen called filter target := by
  have condition : Opening (optionalOpenable filter) (optionalOpeningAsks filter) fun seen called =>
      opensOptional seen called filter := by
    cases filter with
    | none =>
      refine ⟨?_, fun _ d member => absurd member List.not_mem_nil, fun _ _ => ⟨_, rfl⟩⟩
      intro seen called added opened x
      cases opened
      simp [optionalOpenable]
    | some i => exact opening i
  exact condition.both (opening target)

end Reading

end Instruction

namespace Compile

open Demand Instruction

def Job.gives : Job → List Demand
  | .statement _ code | .statements _ code | .libraries _ code | .library _ code
  | .branch _ _ _ code _ | .last _ _ _ code _ => allGive code
  | .elifs _ _ _ code _ => elifsGive code
  | .cases _ _ _ _ code _ => casesGive code

/-- What the code of a piece of source asks for. -/
def Job.demands (apart : Bool) : Job → List Demand
  | .statement _ code | .statements _ code | .libraries _ code | .library _ code
  | .branch _ _ _ code _ | .last _ _ _ code _ => allDemand apart code
  | .elifs _ _ _ code _ => elifsDemand apart code
  | .cases _ _ _ _ code _ => casesDemand apart code

/-- An assignment asks for its target, unless it declares it, and for its value. -/
theorem mem_demands_assignmentCode {apart isNew : Bool} {name : String} {operation : Option Opcode}
    {target value : Instruction} {append : Bool} {d : Demand} :
    d ∈ allDemand apart (assignmentCode isNew name operation target value append) ↔
      (d ∈ target.placed.map .stored ∨ d ∈ target.asks ∨ d ∈ value.asks) ∧
      (isNew → d ≠ .seen name) := by
  have stored : d ∈ (storedValue operation target value).asks ↔
      (operation.isSome ∧ d ∈ target.asks) ∨ d ∈ value.asks := by
    cases operation <;> simp [storedValue, asks]
  cases isNew <;>
    simp only [assignmentCode, Bool.false_eq_true, ↓reduceIte, List.nil_append,
      List.cons_append, allDemand,
      demands, asks, gives, remaining, List.filter_nil, List.append_nil, List.mem_append, stored,
      List.mem_filter, List.contains_eq_mem, List.mem_singleton, Bool.not_eq_true',
        decide_eq_false_iff_not,
      List.not_mem_nil, forall_const, false_implies, and_true, ne_eq] <;>
    tauto

theorem mem_gives_assignmentCode {isNew : Bool} {name : String} {operation : Option Opcode}
    {target value : Instruction} {append : Bool} {d : Demand} :
    d ∈ allGive (assignmentCode isNew name operation target value append) ↔
      isNew ∧ d = .seen name := by
  cases isNew <;> simp [assignmentCode, allGive, gives]

/-- What an instruction that stands alone reads it asks for. -/
theorem simplyReads_iff {seen called : String → Bool} (i : Instruction) (apart : Bool) :
    simplyReads seen called i ↔
      simplyReads (fun _ => true) (fun _ => true) i ∧ ∀ d ∈ i.demands apart, d.Met seen called := by
  cases i with
  | breakLoop | continueLoop => simp [simplyReads, demands, asks]
  | returnValue value | halt value => exact readsOptional_iff seen called value
  | print args => exact readsAll_iff seen called args
  | call name args =>
    simp only [simplyReads, demands, asks, Bool.and_eq_true, List.forall_mem_cons,
      readsAll_iff seen called args, Met]
    tauto
  | _ => simp [simplyReads]

end Compile

end Treecode
