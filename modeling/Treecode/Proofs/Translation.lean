import Treecode.Proofs.Change
import Treecode.Proofs.Steps

set_option autoImplicit false

namespace Treecode

open Compile

mutual

def Expression.code? : Expression → Option Instruction
  | .plain name => some (.loadVariable name.text [])
  | .indexed name index => do return .loadVariable name.text (← Expression.codes? index)
  | .call name args => do return .call name.text (← Expression.codes? args)
  | .indexedCall _ _ _ => none
  | .literal _ value => some (.loadConstant value)
  | .unary operator operand => do return .unary (← unary? operator.kind) (← operand.code?)
  | .binary operator left right => do
    return .binary (← binary? operator.kind) (← left.code?) (← right.code?)
  | .isType _ operand target => do return .isType (← operand.code?) target
  | .typeOf _ operand => do return .typeOf (← operand.code?)

def Expression.codes? : List Expression → Option (List Instruction)
  | [] => some []
  | first :: rest => do return (← first.code?) :: (← Expression.codes? rest)

end

/-- Whether an index that is written has a key, in the expression or in its operands. -/
def Expression.indexesAreProper : Expression → Bool
  | .binary _ left right => left.indexesAreProper && right.indexesAreProper
  | .indexed _ index => !index.isEmpty
  | _ => true

def Expression.optionalIndexesAreProper : Option Expression → Bool
  | none => true
  | some e => e.indexesAreProper

def Expression.optionalCode? : Option Expression → Option (Option Instruction)
  | none => some none
  | some e => e.code?.map some

namespace Instruction

variable {seen called : String → Bool}

mutual

/-- Whether an instruction yields a value, reads only variables that are seen and calls only
functions that can be called. -/
def reads (seen called : String → Bool) : Instruction → Bool
  | .binary _ left right => left.reads seen called && right.reads seen called
  | .unary _ operand => operand.reads seen called
  | .loadConstant _ => true
  | .loadVariable name index => seen name && readsAll seen called index
  | .call name args => called name && readsAll seen called args
  | .isType operand _ => operand.reads seen called
  | .typeOf operand => operand.reads seen called
  | _ => false

def readsAll (seen called : String → Bool) : List Instruction → Bool
  | [] => true
  | instruction :: rest => instruction.reads seen called && readsAll seen called rest

end

def readsOptional (seen called : String → Bool) : Option Instruction → Bool
  | none => true
  | some instruction => instruction.reads seen called

/-- The names that an instruction opens where it may declare: plain variables that are not seen,
reached through operators between operands. What is opened on the left is seen on the right. -/
def opens (seen called : String → Bool) : Instruction → Option (List String)
  | .binary _ left right => do
    let first ← left.opens seen called
    let second ← right.opens (fun name => seen name || first.contains name) called
    return first ++ second
  | .loadVariable name [] => some (if seen name then [] else [name])
  | other => if other.reads seen called then some [] else none

def opensOptional (seen called : String → Bool) : Option Instruction → Option (List String)
  | none => some []
  | some instruction => instruction.opens seen called

def opensInSelect (seen called : String → Bool) (filter : Option Instruction)
    (target : Instruction) : Option (List String) := do
  let first ← opensOptional seen called filter
  let second ← target.opens (fun name => seen name || first.contains name) called
  return first ++ second

mutual

theorem reads_mono {seen' called' : String → Bool} (moreSeen : ∀ name, seen name → seen' name)
    (moreCalled : ∀ name, called name → called' name) (i : Instruction)
    (ready : i.reads seen called) : i.reads seen' called' := by
  cases i with
  | binary opcode left right =>
    simp only [reads, Bool.and_eq_true] at ready ⊢
    exact ⟨reads_mono moreSeen moreCalled left ready.1,
      reads_mono moreSeen moreCalled right ready.2⟩
  | unary opcode operand => exact reads_mono moreSeen moreCalled operand ready
  | loadConstant value => rfl
  | loadVariable name index =>
    simp only [reads, Bool.and_eq_true] at ready ⊢
    exact ⟨moreSeen name ready.1, readsAll_mono moreSeen moreCalled index ready.2⟩
  | call name args =>
    simp only [reads, Bool.and_eq_true] at ready ⊢
    exact ⟨moreCalled name ready.1, readsAll_mono moreSeen moreCalled args ready.2⟩
  | isType operand kind => exact reads_mono moreSeen moreCalled operand ready
  | typeOf operand => exact reads_mono moreSeen moreCalled operand ready
  | _ => cases ready

theorem readsAll_mono {seen' called' : String → Bool} (moreSeen : ∀ name, seen name → seen' name)
    (moreCalled : ∀ name, called name → called' name) (is : List Instruction)
    (ready : readsAll seen called is) : readsAll seen' called' is := by
  cases is with
  | nil => rfl
  | cons first rest =>
    simp only [readsAll, Bool.and_eq_true] at ready ⊢
    exact ⟨reads_mono moreSeen moreCalled first ready.1,
      readsAll_mono moreSeen moreCalled rest ready.2⟩

end

theorem readsOptional_mono {seen' called' : String → Bool}
    (moreSeen : ∀ name, seen name → seen' name) (moreCalled : ∀ name, called name → called' name)
    (i : Option Instruction) (ready : readsOptional seen called i) :
    readsOptional seen' called' i := by
  cases i with
  | none => rfl
  | some i => exact reads_mono moreSeen moreCalled i ready

/-- Induction over what is opened: an operator opens what its operands do, from left to right, a
plain variable is opened unless it is seen, and whatever else is there opens nothing and reads what
is there. -/
theorem opens_induct {motive : (String → Bool) → Instruction → List String → Prop}
    (operands : ∀ seen opcode left right first second, motive seen left first →
      motive (fun name => seen name || first.contains name) right second →
      motive seen (.binary opcode left right) (first ++ second))
    (plain : ∀ seen name, motive seen (.loadVariable name []) (if seen name then [] else [name]))
    (closed : ∀ seen i,
      (∀ seen called, i.opens seen called = if i.reads seen called then some [] else none) →
      i.reads seen called → motive seen i [])
    (i : Instruction) {seen : String → Bool} {added : List String}
    (opened : i.opens seen called = some added) : motive seen i added := by
  have shut : ∀ {i : Instruction},
      (∀ seen called, i.opens seen called = if i.reads seen called then some [] else none) →
      i.opens seen called = some added → motive seen i added := by
    intro i shape opened
    rw [shape] at opened
    split at opened
    · rename_i ready
      cases opened
      exact closed seen i shape ready
    · cases opened
  cases i with
  | binary opcode left right =>
    simp only [opens, Option.bind_eq_bind, Option.bind_eq_some_iff, Option.pure_def,
      Option.some.injEq] at opened
    obtain ⟨first, front, second, back, rfl⟩ := opened
    exact operands seen opcode left right first second
      (opens_induct operands plain closed left front)
      (opens_induct operands plain closed right back)
  | loadVariable name index =>
    cases index with
    | nil =>
      cases opened
      exact plain seen name
    | cons key keys => exact shut (fun _ _ => rfl) opened
  | _ => exact shut (fun _ _ => rfl) opened

/-- More functions change nothing of what is opened. -/
theorem opens_mono {called' : String → Bool} (moreCalled : ∀ name, called name → called' name)
    (i : Instruction) {seen : String → Bool} {added : List String}
    (opened : i.opens seen called = some added) : i.opens seen called' = some added := by
  refine opens_induct (motive := fun seen i added => i.opens seen called' = some added) ?_
    ?_ ?_ i opened
  · intro seen opcode left right first second front back
    simp only [opens, front, back, Option.bind_eq_bind, Option.bind_some, Option.pure_def]
  · intro seen name
    rfl
  · intro seen i shape ready
    rw [shape, if_pos (reads_mono (fun _ known => known) moreCalled i ready)]

theorem opensInSelect_mono {called' : String → Bool}
    (moreCalled : ∀ name, called name → called' name)
    {filter : Option Instruction} {target : Instruction} {added : List String}
    (opened : opensInSelect seen called filter target = some added) :
    opensInSelect seen called' filter target = some added := by
  unfold opensInSelect at opened ⊢
  simp only [Option.bind_eq_bind, Option.bind_eq_some_iff, Option.pure_def,
    Option.some.injEq] at opened ⊢
  obtain ⟨first, front, second, back, rfl⟩ := opened
  refine ⟨first, ?_, second, opens_mono moreCalled target back, rfl⟩
  cases filter with
  | none => exact front
  | some condition => exact opens_mono moreCalled condition front

end Instruction

theorem Expression.code?_target {target : Expression} {code : Instruction}
    (shaped : target.isVariable) (translated : target.code? = some code) :
    ∃ index, code = .loadVariable target.token.text index := by
  cases target with
  | plain name =>
    cases translated
    exact ⟨[], rfl⟩
  | indexed name index =>
    simp only [Expression.code?, Option.bind_eq_bind, Option.bind_eq_some_iff, Option.pure_def,
      Option.some.injEq] at translated
    obtain ⟨indexCode, _, rfl⟩ := translated
    exact ⟨indexCode, rfl⟩
  | _ => cases shaped

namespace Compile

open Step

variable {scope : Nat}

def Session.withTree (session : Session) (tree : ScopeTree) : Session := { session with tree }

mutual

/-- Where nothing may be declared, an expression compiles exactly when every name in it is found,
and nothing changes. -/
theorem expression_ok (e : Expression) {start after : Session} {code : Instruction} :
    expression scope false e start = (.ok code, after) ↔
      after = start ∧ e.code? = some code ∧
        code.reads (start.tree.sees scope) (start.tree.calls scope) := by
  cases e with
  | plain name =>
    simp only [expression, bind_ok, Bool.false_eq_true, ↓reduceIte, requireVariable_ok, pure_ok,
      Expression.code?, Option.some.injEq]
    constructor
    · rintro ⟨_, _, ⟨seen, rfl⟩, rfl, rfl⟩
      exact ⟨rfl, rfl, by simpa only [Instruction.reads, Instruction.readsAll, Bool.and_true]⟩
    · rintro ⟨rfl, rfl, ready⟩
      simp only [Instruction.reads, Instruction.readsAll, Bool.and_true] at ready
      exact ⟨(), _, ⟨ready, rfl⟩, rfl, rfl⟩
  | indexed name index =>
    simp only [expression, bind_ok, requireVariable_ok, pure_ok, expressions_ok index,
      Expression.code?, Option.bind_eq_bind, Option.bind_eq_some_iff, Option.pure_def,
      Option.some.injEq]
    constructor
    · rintro ⟨_, _, ⟨seen, rfl⟩, indexCode, _, ⟨rfl, translated, ready⟩, rfl, rfl⟩
      refine ⟨rfl, ⟨indexCode, translated, rfl⟩, ?_⟩
      simp only [Instruction.reads, Bool.and_eq_true]
      exact ⟨seen, ready⟩
    · rintro ⟨rfl, ⟨indexCode, translated, rfl⟩, ready⟩
      simp only [Instruction.reads, Bool.and_eq_true] at ready
      exact ⟨(), _, ⟨ready.1, rfl⟩, indexCode, _, ⟨rfl, translated, ready.2⟩, rfl, rfl⟩
  | call name args =>
    simp only [expression, bind_ok, requireFunction_ok, pure_ok, expressions_ok args,
      Expression.code?, Option.bind_eq_bind, Option.bind_eq_some_iff, Option.pure_def,
      Option.some.injEq]
    constructor
    · rintro ⟨_, _, ⟨called, rfl⟩, argCode, _, ⟨rfl, translated, ready⟩, rfl, rfl⟩
      refine ⟨rfl, ⟨argCode, translated, rfl⟩, ?_⟩
      simp only [Instruction.reads, Bool.and_eq_true]
      exact ⟨called, ready⟩
    · rintro ⟨rfl, ⟨argCode, translated, rfl⟩, ready⟩
      simp only [Instruction.reads, Bool.and_eq_true] at ready
      exact ⟨(), _, ⟨ready.1, rfl⟩, argCode, _, ⟨rfl, translated, ready.2⟩, rfl, rfl⟩
  | indexedCall name index args =>
    simp only [expression, object_ne_ok, Expression.code?, reduceCtorEq, false_and, and_false]
  | literal token value =>
    simp only [expression, pure_ok, Expression.code?, Option.some.injEq]
    constructor
    · rintro ⟨rfl, rfl⟩
      exact ⟨rfl, rfl, rfl⟩
    · rintro ⟨rfl, rfl, _⟩
      exact ⟨rfl, rfl⟩
  | unary operator operand =>
    cases known : unary? operator.kind with
    | none =>
      simp only [expression, known, object_ne_ok, Expression.code?, Option.bind_eq_bind,
        Option.bind_none, reduceCtorEq, false_and, and_false]
    | some opcode =>
      simp only [expression, known, bind_ok, pure_ok, expression_ok operand, Expression.code?,
        Option.bind_eq_bind, Option.bind_some, Option.bind_eq_some_iff, Option.pure_def,
        Option.some.injEq]
      constructor
      · rintro ⟨operandCode, _, ⟨rfl, translated, ready⟩, rfl, rfl⟩
        exact ⟨rfl, ⟨operandCode, translated, rfl⟩, ready⟩
      · rintro ⟨rfl, ⟨operandCode, translated, rfl⟩, ready⟩
        exact ⟨operandCode, _, ⟨rfl, translated, ready⟩, rfl, rfl⟩
  | binary operator left right =>
    cases known : binary? operator.kind with
    | none =>
      simp only [expression, known, object_ne_ok, Expression.code?, Option.bind_eq_bind,
        Option.bind_none, reduceCtorEq, false_and, and_false]
    | some opcode =>
      simp only [expression, known, bind_ok, pure_ok, expression_ok left, expression_ok right,
        Expression.code?, Option.bind_eq_bind, Option.bind_some, Option.bind_eq_some_iff,
        Option.pure_def, Option.some.injEq]
      constructor
      · rintro ⟨leftCode, _, ⟨rfl, first, front⟩, rightCode, _, ⟨rfl, second, back⟩, rfl, rfl⟩
        refine ⟨rfl, ⟨leftCode, first, rightCode, second, rfl⟩, ?_⟩
        simp only [Instruction.reads, Bool.and_eq_true]
        exact ⟨front, back⟩
      · rintro ⟨rfl, ⟨leftCode, first, rightCode, second, rfl⟩, ready⟩
        simp only [Instruction.reads, Bool.and_eq_true] at ready
        exact ⟨leftCode, _, ⟨rfl, first, ready.1⟩, rightCode, _, ⟨rfl, second, ready.2⟩, rfl, rfl⟩
  | isType word operand target =>
    simp only [expression, bind_ok, pure_ok, expression_ok operand, Expression.code?,
      Option.bind_eq_bind, Option.bind_eq_some_iff, Option.pure_def, Option.some.injEq]
    constructor
    · rintro ⟨operandCode, _, ⟨rfl, translated, ready⟩, rfl, rfl⟩
      exact ⟨rfl, ⟨operandCode, translated, rfl⟩, ready⟩
    · rintro ⟨rfl, ⟨operandCode, translated, rfl⟩, ready⟩
      exact ⟨operandCode, _, ⟨rfl, translated, ready⟩, rfl, rfl⟩
  | typeOf word operand =>
    simp only [expression, bind_ok, pure_ok, expression_ok operand, Expression.code?,
      Option.bind_eq_bind, Option.bind_eq_some_iff, Option.pure_def, Option.some.injEq]
    constructor
    · rintro ⟨operandCode, _, ⟨rfl, translated, ready⟩, rfl, rfl⟩
      exact ⟨rfl, ⟨operandCode, translated, rfl⟩, ready⟩
    · rintro ⟨rfl, ⟨operandCode, translated, rfl⟩, ready⟩
      exact ⟨operandCode, _, ⟨rfl, translated, ready⟩, rfl, rfl⟩

theorem expressions_ok (list : List Expression) {start after : Session} {code : List Instruction} :
    expressions scope list start = (.ok code, after) ↔
      after = start ∧ Expression.codes? list = some code ∧
        Instruction.readsAll (start.tree.sees scope) (start.tree.calls scope) code := by
  cases list with
  | nil =>
    simp only [expressions, pure_ok, Expression.codes?, Option.some.injEq]
    constructor
    · rintro ⟨rfl, rfl⟩
      exact ⟨rfl, rfl, rfl⟩
    · rintro ⟨rfl, rfl, _⟩
      exact ⟨rfl, rfl⟩
  | cons first rest =>
    simp only [expressions, bind_ok, pure_ok, expression_ok first, expressions_ok rest,
      Expression.codes?, Option.bind_eq_bind, Option.bind_eq_some_iff, Option.pure_def,
      Option.some.injEq]
    constructor
    · rintro ⟨firstCode, _, ⟨rfl, head, front⟩, restCode, _, ⟨rfl, tail, back⟩, rfl, rfl⟩
      refine ⟨rfl, ⟨firstCode, head, restCode, tail, rfl⟩, ?_⟩
      simp only [Instruction.readsAll, Bool.and_eq_true]
      exact ⟨front, back⟩
    · rintro ⟨rfl, ⟨firstCode, head, restCode, tail, rfl⟩, ready⟩
      simp only [Instruction.readsAll, Bool.and_eq_true] at ready
      exact ⟨firstCode, _, ⟨rfl, head, ready.1⟩, restCode, _, ⟨rfl, tail, ready.2⟩, rfl, rfl⟩

end

theorem optionalExpression_ok {e : Option Expression} {start after : Session}
    {code : Option Instruction} :
    optionalExpression scope false e start = (.ok code, after) ↔
      after = start ∧ Expression.optionalCode? e = some code ∧
        Instruction.readsOptional (start.tree.sees scope) (start.tree.calls scope) code := by
  cases e with
  | none =>
    simp only [optionalExpression, pure_ok, Expression.optionalCode?, Option.some.injEq]
    constructor
    · intro success
      obtain ⟨rfl, rfl⟩ := success
      exact ⟨rfl, rfl, rfl⟩
    · intro success
      obtain ⟨rfl, rfl, _⟩ := success
      exact ⟨rfl, rfl⟩
  | some e =>
    simp only [optionalExpression, bind_ok, pure_ok, expression_ok e, Expression.optionalCode?,
      Option.map_eq_some_iff]
    constructor
    · intro success
      obtain ⟨i, _, ⟨rfl, translated, ready⟩, rfl, rfl⟩ := success
      exact ⟨rfl, ⟨i, translated, rfl⟩, ready⟩
    · intro success
      obtain ⟨rfl, ⟨i, translated, rfl⟩, ready⟩ := success
      exact ⟨i, _, ⟨rfl, translated, ready⟩, rfl, rfl⟩

/-- A session whose scope lists new variables of which nothing is known. -/
def Session.opening (session : Session) (scope : Nat) (added : List String) : Session :=
  session.withTree (session.tree.addVariables scope (added.map (.fresh · scope)))

@[simp] theorem Session.opening_nil (session : Session) (scope : Nat) :
    session.opening scope [] = session := by
  unfold Session.opening
  rw [List.map_nil, ScopeTree.addVariables_nil]
  rfl

theorem Session.opening_opening (session : Session) (scope : Nat) (first second : List String) :
    (session.opening scope first).opening scope second = session.opening scope
    (first ++ second) := by
  unfold Session.opening
  rw [List.map_append, ← ScopeTree.addVariables_addVariables]
  rfl

theorem Session.opening_tree_size (session : Session) (scope : Nat) (added : List String) :
    (session.opening scope added).tree.size = session.tree.size :=
  ScopeTree.size_addVariables _ _ _

theorem Session.opening_sees (session : Session) (inside : scope < session.tree.size)
    (added : List String) :
    (session.opening scope added).tree.sees scope =
      fun name => session.tree.sees scope name || added.contains name := by
  have names : (added.map (Variable.fresh · scope)).map (·.name) = added := by
    rw [List.map_map]
    exact List.map_id added
  funext name
  rw [Bool.eq_iff_iff]
  show (session.tree.addVariables scope _).Sees scope name ↔ _
  rw [ScopeTree.sees_addVariables inside, names, Bool.or_eq_true, List.contains_iff_mem]
  simp only [ScopeTree.Searches.self, true_and]
  exact Iff.rfl

theorem Session.opening_calls (session : Session) (added : List String) :
    (session.opening scope added).tree.calls scope = session.tree.calls scope :=
  ScopeTree.calls_eq fun name => ScopeTree.calls_addVariables session.tree scope _ scope name

/-- What opens nothing reads what is there and leaves the session as it is. -/
theorem opening_closed {e : Expression} {start after : Session} {code : Instruction}
    (same : expression scope true e = expression scope false e)
    (closed : e.code? = some code → code.opens (start.tree.sees scope) (start.tree.calls scope) =
      if code.reads (start.tree.sees scope) (start.tree.calls scope) then some [] else none) :
    expression scope true e start = (.ok code, after) ↔
      e.code? = some code ∧ ∃ added,
        code.opens (start.tree.sees scope) (start.tree.calls scope) = some added ∧
        after = start.opening scope added := by
  rw [same, expression_ok]
  constructor
  · intro success
    obtain ⟨rfl, translated, ready⟩ := success
    refine ⟨translated, [], ?_, (Session.opening_nil _ scope).symm⟩
    rw [closed translated, if_pos ready]
  · intro success
    obtain ⟨translated, added, opened, rfl⟩ := success
    rw [closed translated] at opened
    split at opened
    · rename_i ready
      cases opened
      exact ⟨Session.opening_nil start scope, translated, ready⟩
    · cases opened

/-- Where an expression may declare, it compiles exactly to its instruction when that can open what
it opens, and the opened names are listed. -/
theorem opening_ok (e : Expression) (proper : e.indexesAreProper) {start after : Session}
    {code : Instruction} (inside : scope < start.tree.size) :
    expression scope true e start = (.ok code, after) ↔
      e.code? = some code ∧ ∃ added,
        code.opens (start.tree.sees scope) (start.tree.calls scope) = some added ∧
        after = start.opening scope added := by
  cases e with
  | plain name =>
    have declared : declareIfNew scope name.text start =
        (.ok (), start.opening scope (if start.tree.sees scope name.text then []
            else [name.text])) := by
      rw [declareIfNew_apply]
      unfold ScopeTree.sees
      split
      · rw [Session.opening_nil]
      · rfl
    simp only [expression, bind_ok, ↓reduceIte, declared, pure_ok, Expression.code?,
      Option.some.injEq, Prod.mk.injEq]
    constructor
    · intro success
      obtain ⟨_, _, ⟨_, rfl⟩, rfl, rfl⟩ := success
      exact ⟨rfl, _, rfl, rfl⟩
    · intro success
      obtain ⟨rfl, added, opened, rfl⟩ := success
      cases opened
      exact ⟨(), _, ⟨trivial, rfl⟩, rfl, rfl⟩
  | binary operator left right =>
    simp only [Expression.indexesAreProper, Bool.and_eq_true] at proper
    cases known : binary? operator.kind with
    | none =>
      simp only [expression, known, object_ne_ok, Expression.code?, Option.bind_eq_bind,
        Option.bind_none, reduceCtorEq, false_and]
    | some opcode =>
      simp only [expression, known, bind_ok, pure_ok, Expression.code?, Option.bind_eq_bind,
        Option.bind_some, Option.bind_eq_some_iff, Option.pure_def, Option.some.injEq]
      constructor
      · intro success
        obtain ⟨leftCode, _, leftDone, rightCode, _, rightDone, rfl, rfl⟩ := success
        obtain ⟨first, front, leftOpened, rfl⟩ := (opening_ok left proper.1 inside).1 leftDone
        have inside' : scope < (start.opening scope front).tree.size := by
          rw [Session.opening_tree_size]
          exact inside
        obtain ⟨second, back, rightOpened, rfl⟩ := (opening_ok right proper.2 inside').1 rightDone
        rw [Session.opening_sees start inside, Session.opening_calls] at rightOpened
        refine ⟨⟨leftCode, first, rightCode, second, rfl⟩, front ++ back, ?_,
          Session.opening_opening start scope front back⟩
        simp only [Instruction.opens, leftOpened, rightOpened, Option.bind_eq_bind,
          Option.bind_some, Option.pure_def]
      · intro success
        obtain ⟨⟨leftCode, first, rightCode, second, rfl⟩, added, opened, rfl⟩ := success
        simp only [Instruction.opens, Option.bind_eq_bind, Option.bind_eq_some_iff, Option.pure_def,
          Option.some.injEq] at opened
        obtain ⟨front, leftOpened, back, rightOpened, rfl⟩ := opened
        have inside' : scope < (start.opening scope front).tree.size := by
          rw [Session.opening_tree_size]
          exact inside
        refine ⟨leftCode, _, (opening_ok left proper.1 inside).2 ⟨first, front, leftOpened, rfl⟩,
          rightCode, _, (opening_ok right proper.2 inside').2 ⟨second, back, ?_, rfl⟩, rfl, ?_⟩
        · rw [Session.opening_sees start inside, Session.opening_calls]
          exact rightOpened
        · exact (Session.opening_opening start scope front back).symm
  | indexed name index =>
    refine opening_closed (by simp only [expression]) fun translated => ?_
    cases index with
    | nil => cases proper
    | cons key keys =>
      simp only [Expression.code?, Expression.codes?, Option.bind_eq_bind, Option.bind_eq_some_iff,
        Option.pure_def, Option.some.injEq] at translated
      obtain ⟨_, ⟨keyCode, _, keyCodes, _, rfl⟩, rfl⟩ := translated
      rfl
  | call name args =>
    refine opening_closed (by simp only [expression]) fun translated => ?_
    simp only [Expression.code?, Option.bind_eq_bind, Option.bind_eq_some_iff, Option.pure_def,
      Option.some.injEq] at translated
    obtain ⟨argCode, _, rfl⟩ := translated
    rfl
  | indexedCall name index args =>
    refine opening_closed (by simp only [expression]) fun translated => ?_
    cases translated
  | literal token value =>
    refine opening_closed (by simp only [expression]) fun translated => ?_
    cases translated
    rfl
  | unary operator operand =>
    refine opening_closed (by simp only [expression]) fun translated => ?_
    simp only [Expression.code?, Option.bind_eq_bind, Option.bind_eq_some_iff, Option.pure_def,
      Option.some.injEq] at translated
    obtain ⟨opcode, _, operandCode, _, rfl⟩ := translated
    rfl
  | isType word operand target =>
    refine opening_closed (by simp only [expression]) fun translated => ?_
    simp only [Expression.code?, Option.bind_eq_bind, Option.bind_eq_some_iff, Option.pure_def,
      Option.some.injEq] at translated
    obtain ⟨operandCode, _, rfl⟩ := translated
    rfl
  | typeOf word operand =>
    refine opening_closed (by simp only [expression]) fun translated => ?_
    simp only [Expression.code?, Option.bind_eq_bind, Option.bind_eq_some_iff, Option.pure_def,
      Option.some.injEq] at translated
    obtain ⟨operandCode, _, rfl⟩ := translated
    rfl

/-- The names that a condition opens, if there is one. -/
theorem optionalOpening_ok {e : Option Expression} (proper : Expression.optionalIndexesAreProper e)
    {start after : Session} {code : Option Instruction} (inside : scope < start.tree.size) :
    optionalExpression scope true e start = (.ok code, after) ↔
      Expression.optionalCode? e = some code ∧ ∃ added,
        Instruction.opensOptional (start.tree.sees scope) (start.tree.calls scope) code =
          some added ∧
        after = start.opening scope added := by
  cases e with
  | none =>
    simp only [optionalExpression, pure_ok, Expression.optionalCode?, Option.some.injEq]
    constructor
    · intro success
      obtain ⟨rfl, rfl⟩ := success
      exact ⟨rfl, [], rfl, (Session.opening_nil _ scope).symm⟩
    · intro success
      obtain ⟨rfl, added, opened, rfl⟩ := success
      cases opened
      exact ⟨rfl, Session.opening_nil start scope⟩
  | some e =>
    simp only [optionalExpression, bind_ok, pure_ok, opening_ok e proper inside,
      Expression.optionalCode?, Option.map_eq_some_iff]
    constructor
    · intro success
      obtain ⟨i, _, ⟨translated, added, opened, rfl⟩, rfl, rfl⟩ := success
      exact ⟨⟨i, translated, rfl⟩, added, opened, rfl⟩
    · intro success
      obtain ⟨⟨i, translated, rfl⟩, added, opened, rfl⟩ := success
      exact ⟨i, _, ⟨translated, added, opened, rfl⟩, rfl, rfl⟩

end Compile

end Treecode
