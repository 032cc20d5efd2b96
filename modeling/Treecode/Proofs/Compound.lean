import Mathlib
import Treecode.Proofs.Effects
import Treecode.Proofs.Moved
import Treecode.Compile.Programs

set_option autoImplicit false

namespace Treecode

open Compile

/-- The operator of the expansion of a compound assignment. -/
def Kind.compound? : Kind → Option Kind
  | .operatorAssignmentInc => some .operatorAddition
  | .operatorAssignmentDec => some .operatorSubtraction
  | .operatorAssignmentMul => some .operatorMultiplication
  | .operatorAssignmentDiv => some .operatorDivision
  | .operatorAssignmentMod => some .operatorModulus
  | .operatorAssignmentPow => some .operatorPower
  | _ => none

theorem Kind.operation_of_compound {sign operator : Kind}
    (compound : sign.compound? = some operator) :
    sign ≠ .operatorAssignment ∧
      ∃ opcode, arithmetic? sign = some opcode ∧ binary? operator = some opcode := by
  unfold Kind.compound? at compound
  split at compound <;> cases compound <;> exact ⟨nofun, _, rfl, rfl⟩

mutual

/-- Where an expression stands does not matter to its instruction. -/
@[simp] theorem Expression.code?_moved (move : Position → Position) (e : Expression) :
    (e.moved move).code? = e.code? := by
  cases e with
  | plain name | literal token value => rfl
  | indexed name index | call name args =>
    simp only [Expression.moved, Expression.code?, Token.text_moved, Expression.codes?_moved]
  | indexedCall name index args => rfl
  | unary operator operand =>
    simp only [Expression.moved, Expression.code?, Token.kind_moved,
      Expression.code?_moved move operand]
  | binary operator left right =>
    simp only [Expression.moved, Expression.code?, Token.kind_moved,
      Expression.code?_moved move left, Expression.code?_moved move right]
  | isType word operand target =>
    simp only [Expression.moved, Expression.code?, Expression.code?_moved move operand]
  | typeOf word operand =>
    simp only [Expression.moved, Expression.code?, Expression.code?_moved move operand]

theorem Expression.codes?_moved (move : Position → Position) (list : List Expression) :
    Expression.codes? (Expression.allMoved move list) = Expression.codes? list := by
  cases list with
  | nil => rfl
  | cons first rest =>
    simp only [Expression.allMoved, Expression.codes?, Expression.code?_moved move first,
      Expression.codes?_moved move rest]

end

namespace Compile

variable {scope : Nat} {target value : Expression} {sign operator : Token} {constant : Bool}
  {start after : Session} {code : List Instruction}

/-- What an update of a variable that is seen takes: it may be assigned to, and target and value
compile. -/
structure Updates (start : Session) (scope : Nat) (target value : Expression) (constant : Bool)
    (targetCode valueCode : Instruction) : Prop where
  assignable : Assignable start.tree scope target.token.text constant
  spelled : target.code? = some targetCode
  valued : value.code? = some valueCode
  targetReads : targetCode.reads (start.tree.sees scope) (start.tree.calls scope)
  valueReads : valueCode.reads (start.tree.sees scope) (start.tree.calls scope)

def Session.afterUpdate (start : Session) (scope : Nat) (target : Expression) : Session :=
  start.withTree (start.tree.keysRecorded scope target false)

def updateCode (opcode : Opcode) (targetCode valueCode : Instruction) : Instruction :=
  .storeVariable targetCode (.binary opcode targetCode valueCode) false

/-- An assignment to a name that is seen declares nothing. -/
theorem assignment_seen_ok {append : Bool} (seen : start.tree.sees scope target.token.text) :
    assignment scope target sign value append constant start = (.ok code, after) ↔
      ∃ operation targetCode valueCode,
        Updates start scope target value constant targetCode valueCode ∧
        operationOf? sign = some operation ∧ (operation.isSome → append = false) ∧
        after = start.withTree (start.tree.keysRecorded scope target append) ∧
        code = [.storeVariable targetCode (storedValue operation targetCode valueCode) append] := by
  have tree : start.tree.assigned scope target.token.text constant value = start.tree := if_pos seen
  rw [assignment_ok]
  unfold Session.afterAssignment assignmentCode
  rw [tree, seen]
  constructor
  · intro success
    obtain ⟨operation, targetCode, valueCode, assigns, rfl, rfl⟩ := success
    have targetReads := assigns.targetReads
    have valueReads := assigns.valueReads
    rw [tree] at targetReads valueReads
    exact ⟨operation, targetCode, valueCode,
      ⟨assigns.assignable, assigns.spelled, assigns.valued, targetReads, valueReads⟩, assigns.sign,
      fun applies => (assigns.operand applies).1, rfl, rfl⟩
  · intro success
    obtain ⟨operation, targetCode, valueCode, updates, signed, operand, rfl, rfl⟩ := success
    refine ⟨operation, targetCode, valueCode, ⟨updates.assignable, signed,
      fun applies => ⟨operand applies, seen⟩, updates.spelled, updates.valued, ?_, ?_⟩, rfl, rfl⟩
    · rw [tree]
      exact updates.targetReads
    · rw [tree]
      exact updates.valueReads

/-- What a compound assignment to a name that is seen takes. -/
theorem compound_ok {opcode : Opcode} (seen : start.tree.sees scope target.token.text)
    (operation : operationOf? sign = some (some opcode)) :
    assignment scope target sign value false constant start = (.ok code, after) ↔
      ∃ targetCode valueCode, Updates start scope target value constant targetCode valueCode ∧
        after = start.afterUpdate scope target ∧
          code = [updateCode opcode targetCode valueCode] := by
  rw [assignment_seen_ok seen]
  constructor
  · intro success
    obtain ⟨_, targetCode, valueCode, updates, applied, _, rfl, rfl⟩ := success
    obtain rfl : some opcode = _ := Option.some.inj (operation.symm.trans applied)
    exact ⟨targetCode, valueCode, updates, rfl, rfl⟩
  · intro success
    obtain ⟨targetCode, valueCode, updates, rfl, rfl⟩ := success
    exact ⟨_, targetCode, valueCode, updates, operation, fun _ => rfl, rfl, rfl⟩

/-- What the expansion of a compound assignment to a name that is seen takes. The value that it
stores reads the target again, which asks for nothing more. -/
theorem expansion_ok {opcode : Opcode} {left right : Expression}
    (seen : start.tree.sees scope target.token.text) (plain : sign.kind = .operatorAssignment)
    (operation : binary? operator.kind = some opcode) (sameTarget : left.code? = target.code?)
    (sameValue : right.code? = value.code?) :
    assignment scope target sign (.binary operator left right) false constant start =
      (.ok code, after) ↔
      ∃ targetCode valueCode, Updates start scope target value constant targetCode valueCode ∧
        after = start.afterUpdate scope target ∧
          code = [updateCode opcode targetCode valueCode] := by
  have unapplied : operationOf? sign = some none := if_pos plain
  rw [assignment_seen_ok seen]
  constructor
  · intro success
    obtain ⟨_, targetCode, _, updates, applied, _, rfl, rfl⟩ := success
    obtain rfl : none = _ := Option.some.inj (unapplied.symm.trans applied)
    have valued := updates.valued
    simp only [Expression.code?, operation, sameTarget, sameValue, updates.spelled,
      Option.bind_eq_bind,
      Option.bind_some, Option.bind_eq_some_iff, Option.pure_def, Option.some.injEq] at valued
    obtain ⟨valueCode, valued, rfl⟩ := valued
    have reads := updates.valueReads
    rw [Instruction.reads, Bool.and_eq_true] at reads
    exact ⟨targetCode, valueCode, ⟨updates.assignable, updates.spelled, valued, reads.1, reads.2⟩,
      rfl, rfl⟩
  · intro success
    obtain ⟨targetCode, valueCode, updates, rfl, rfl⟩ := success
    refine ⟨none, targetCode, .binary opcode targetCode valueCode,
      ⟨updates.assignable, updates.spelled, ?_, updates.targetReads, ?_⟩, unapplied, ?_, rfl, rfl⟩
    · simp only [Expression.code?, operation, sameTarget, sameValue, updates.spelled,
        updates.valued, Option.bind_eq_bind, Option.bind_some, Option.pure_def]
    · rw [Instruction.reads, Bool.and_eq_true]
      exact ⟨updates.targetReads, updates.valueReads⟩
    · intro applies
      cases applies

theorem compound_new {operation : Opcode} (unseen : start.tree.sees scope target.token.text = false)
    (signed : operationOf? sign = some (some operation)) :
    assignment scope target sign value false constant start =
      (.error (.rejected (start.place sign) (.newVariableWith sign.text target.token.text)),
        start) := by
  have new : assignedName scope target.token constant start = (.ok true, start) := by
    rw [assignedName_ok, unseen]
    refine ⟨rfl, rfl, ?_⟩
    intro known found
    rw [ScopeTree.sees, found] at unseen
    cases unseen
  have applies : assignedOperation sign start = (.ok (some operation), start) :=
    assignedOperation_ok.2 ⟨rfl, signed⟩
  unfold assignment
  simp only [Step.bind_apply, new, applies]
  rfl

/-- In every scope that sees its target, a compound assignment compiles exactly when its expansion
does, to the same code and the same scopes. Where its target is new, it is rejected at its sign. The
target and the value of the expansion may stand elsewhere. -/
theorem compound_expands (includeOne : Including) (scope : Nat) (start : Session)
    (target value : Expression) (sign equals operator : Token) (constant : Bool)
    (moveTarget moveValue : Position → Position)
    (compound : sign.kind.compound? = some operator.kind)
    (plain : equals.kind = .operatorAssignment) :
    (start.tree.sees scope target.token.text = true → ∀ code after,
      (statement includeOne scope (.assign target sign value false constant) start =
          (.ok code, after) ↔
        statement includeOne scope (.assign target equals
          (.binary operator (target.moved moveTarget) (value.moved moveValue)) false constant)
            start = (.ok code, after))) ∧
    (start.tree.sees scope target.token.text = false →
      statement includeOne scope (.assign target sign value false constant) start =
        (.error (.rejected (start.place sign) (.newVariableWith sign.text target.token.text)),
          start)) := by
  obtain ⟨different, opcode, applied, between⟩ := Kind.operation_of_compound compound
  have operation : operationOf? sign = some (some opcode) := by
    rw [operationOf?, if_neg different, applied]
    rfl
  simp only [statement]
  constructor
  · intro seen code after
    rw [compound_ok seen operation, expansion_ok seen plain between
      (Expression.code?_moved moveTarget target) (Expression.code?_moved moveValue value)]
  · intro unseen
    exact compound_new unseen operation

/-- `x += 1;` and `x = x + (1);` where `x` is declared. -/
theorem compound_expands_seen :
    ∃ after,
      statement (library ⟨.empty, []⟩ 2) ScopeTree.root
          (.assign (.plain ⟨.identifier, some "x", ⟨1, 1, 0⟩⟩)
            ⟨.operatorAssignmentInc, some "+=", ⟨1, 3, 2⟩⟩
            (.literal ⟨.integer, some "1", ⟨1, 6, 5⟩⟩ (.integer 1)) false false)
          (Session.initial.withTree (reservedTree ["x"])) =
        (.ok [updateCode .add (.loadVariable "x" []) (.loadConstant (.integer 1))], after) ∧
      statement (library ⟨.empty, []⟩ 2) ScopeTree.root
          (.assign (.plain ⟨.identifier, some "x", ⟨1, 1, 0⟩⟩)
            ⟨.operatorAssignment, some "=", ⟨1, 3, 2⟩⟩
            (.binary ⟨.operatorAddition, some "+", ⟨1, 7, 6⟩⟩
              (.plain ⟨.identifier, some "x", ⟨1, 5, 4⟩⟩)
              (.literal ⟨.integer, some "1", ⟨1, 10, 9⟩⟩ (.integer 1))) false false)
          (Session.initial.withTree (reservedTree ["x"])) =
        (.ok [updateCode .add (.loadVariable "x" []) (.loadConstant (.integer 1))], after) := by
  have compiled : statement (library ⟨.empty, []⟩ 2) ScopeTree.root
      (.assign (.plain ⟨.identifier, some "x", ⟨1, 1, 0⟩⟩)
        ⟨.operatorAssignmentInc, some "+=", ⟨1, 3, 2⟩⟩
        (.literal ⟨.integer, some "1", ⟨1, 6, 5⟩⟩ (.integer 1)) false false)
      (Session.initial.withTree (reservedTree ["x"])) =
        (.ok [updateCode .add (.loadVariable "x" []) (.loadConstant (.integer 1))], _) :=
    Prod.ext (by cbv) rfl
  exact ⟨_, compiled, ((compound_expands (library ⟨.empty, []⟩ 2) ScopeTree.root
    (Session.initial.withTree (reservedTree ["x"])) (.plain ⟨.identifier, some "x", ⟨1, 1, 0⟩⟩)
    (.literal ⟨.integer, some "1", ⟨1, 6, 5⟩⟩ (.integer 1))
      ⟨.operatorAssignmentInc, some "+=", ⟨1, 3, 2⟩⟩
    ⟨.operatorAssignment, some "=", ⟨1, 3, 2⟩⟩ ⟨.operatorAddition, some "+", ⟨1, 7, 6⟩⟩ false
    (fun _ => ⟨1, 5, 4⟩) (fun _ => ⟨1, 10, 9⟩) rfl rfl).1 (by cbv) _ _).1 compiled⟩

/-- Where `x` is new, `x = x + (1);` compiles and `x += 1;` does not. -/
theorem expansion_declares :
    ¬ ((∃ code after,
        statement (library ⟨.empty, []⟩ 2) ScopeTree.root
          (.assign (.plain ⟨.identifier, some "x", ⟨1, 1, 0⟩⟩)
            ⟨.operatorAssignmentInc, some "+=", ⟨1, 3, 2⟩⟩
            (.literal ⟨.integer, some "1", ⟨1, 6, 5⟩⟩ (.integer 1)) false false)
          Session.initial = (.ok code, after)) ↔
      ∃ code after,
        statement (library ⟨.empty, []⟩ 2) ScopeTree.root
          (.assign (.plain ⟨.identifier, some "x", ⟨1, 1, 0⟩⟩)
            ⟨.operatorAssignment, some "=", ⟨1, 3, 2⟩⟩
            (.binary ⟨.operatorAddition, some "+", ⟨1, 7, 6⟩⟩
              (.plain ⟨.identifier, some "x", ⟨1, 5, 4⟩⟩)
              (.literal ⟨.integer, some "1", ⟨1, 10, 9⟩⟩ (.integer 1))) false false)
          Session.initial = (.ok code, after)) := by
  intro alike
  have expanded : ∃ code after,
      statement (library ⟨.empty, []⟩ 2) ScopeTree.root
        (.assign (.plain ⟨.identifier, some "x", ⟨1, 1, 0⟩⟩)
            ⟨.operatorAssignment, some "=", ⟨1, 3, 2⟩⟩
          (.binary ⟨.operatorAddition, some "+", ⟨1, 7, 6⟩⟩
            (.plain ⟨.identifier, some "x", ⟨1, 5, 4⟩⟩)
            (.literal ⟨.integer, some "1", ⟨1, 10, 9⟩⟩ (.integer 1))) false false)
        Session.initial = (.ok code, after) := by
    refine ⟨[.newVariable "x", .storeVariable (.loadVariable "x" [])
      (.binary .add (.loadVariable "x" []) (.loadConstant (.integer 1))) false], _, Prod.ext ?_ rfl⟩
    cbv
  obtain ⟨code, after, compiled⟩ := alike.2 expanded
  have adds : operationOf? ⟨.operatorAssignmentInc, some "+=", ⟨1, 3, 2⟩⟩ = some (some .add) := rfl
  rw [statement, compound_new (by cbv) adds] at compiled
  cases compiled

end Compile

end Treecode
