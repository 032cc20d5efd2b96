import Treecode.Proofs.Movement

set_option autoImplicit false

namespace Treecode.Statement

open Reader

variable {move : Position → Position}

theorem moves_expression : Moves move (Expression.moved move) expression expression :=
  Expression.moves_read

theorem moves_semicolon : Moves move (Token.moved move) semicolon semicolon :=
  .expectMark .semicolon ";"

theorem moves_expressionOrEnd :
    Moves move (Option.map (Expression.moved move)) expressionOrEnd expressionOrEnd :=
  Moves.peekKind.bind fun _ => Moves.ite (.pure rfl) (moves_expression.map fun _ => rfl)

theorem arrowAfterClose_moved (depth : Nat) (tokens : List Token) :
    arrowAfterClose depth (tokens.map (Token.moved move)) = arrowAfterClose depth tokens := by
  induction tokens generalizing depth with
  | nil => rfl
  | cons token rest ih =>
    simp only [List.map_cons, arrowAfterClose, Token.kind_moved, ih]
    split
    · rfl
    · cases rest <;> rfl
    all_goals rfl

/-- Whether parameters and an arrow come next is told by kinds alone. -/
theorem arrowAfterParameters_moved (tokens : List Token) :
    arrowAfterParameters (tokens.map (Token.moved move)) = arrowAfterParameters tokens := by
  cases tokens with
  | nil => rfl
  | cons token rest =>
    simp only [List.map_cons, arrowAfterParameters, Token.kind_moved, arrowAfterClose_moved]

section Parts

variable {self self' : Reader Statement} (moves : Moves move (Statement.moved move) self self')

include moves

theorem moves_blockOf : Moves move (Block.moved move) (blockOf self) (blockOf self') := by
  intro tokens
  cases tokens with
  | nil => rfl
  | cons token rest =>
    simp only [List.map_cons, blockOf, Token.kind_moved]
    split
    · rfl
    · refine (Moves.bind (Moves.many (Statement.moved move) ?_) fun statements => ?_ :
        Moves move (Block.moved move) _ _) rest
      · refine Moves.peek.bind fun next => ?_
        cases next with
        | none => exact .fail _
        | some next => exact Moves.ite (.pure rfl) (moves.map fun _ => rfl)
      · refine (Moves.expectMark .rightBrace "\x7d").bind fun _ => .pure ?_
        rw [Block.moved, allMoved_eq]
    · rfl

theorem moves_clause (word : Token) :
    Moves move (Clause.moved move) (clause self word) (clause self' (word.moved move)) :=
  moves_expression.bind fun _ => (moves_blockOf moves).map fun _ => rfl

theorem moves_ifRest (word : Token) :
    Moves move (Statement.moved move) (ifRest self word) (ifRest self' (word.moved move)) := by
  refine moves_expression.bind fun condition => (moves_blockOf moves).bind fun body => ?_
  refine Moves.bind (Moves.many (Clause.moved move) ?_) fun elifs => ?_
  · refine (Moves.take .elifStatement).bind fun elifWord => ?_
    cases elifWord with
    | none => exact .pure rfl
    | some elifWord => exact (moves_clause moves elifWord).map fun _ => rfl
  · refine (Moves.take .elseStatement).bind fun elseWord => ?_
    cases elseWord with
    | none =>
      apply Moves.pure
      rw [Statement.moved, Clause.allMoved_eq]
      rfl
    | some elseWord =>
      refine (moves_blockOf moves).map fun last => ?_
      rw [Statement.moved, Clause.allMoved_eq]
      rfl

theorem moves_caseRest (word : Token) :
    Moves move (Clause.moved move) (caseRest self word) (caseRest self' (word.moved move)) := by
  refine moves_expression.bind fun guard => ?_
  cases guard with
  | literal token value =>
    exact (Moves.expectMark .colon ":").bind fun _ => (moves_blockOf moves).map fun _ => rfl
  | _ => exact .failAt _ _ _

theorem moves_switchRest (word : Token) :
    Moves move (Statement.moved move) (switchRest self word)
      (switchRest self' (word.moved move)) := by
  refine moves_expression.bind fun head => ?_
  rw [Expression.isCallOrVariable_moved, Expression.token_moved, Expression.kind_moved]
  refine Moves.ite (.failAt _ _ _) ((Moves.eat .newRecord).bind fun empty =>
    Moves.ite (.pure rfl) ?_)
  refine (Moves.expectMark .leftBrace "\x7b").bind fun _ => ?_
  refine Moves.bind (Moves.many (Clause.moved move) ?_) fun clauses => ?_
  · refine (Moves.take .caseStatement).bind fun caseWord => ?_
    cases caseWord with
    | none => exact .pure rfl
    | some caseWord => exact (moves_caseRest moves caseWord).map fun _ => rfl
  · have ending : ∀ last : Option LastClause, Moves move (Statement.moved move)
        (do
          let _ ← expect .rightBrace .caseOrEnd
          return .switch word head clauses last)
        (do
          let _ ← expect .rightBrace .caseOrEnd
          return .switch (word.moved move) (head.moved move) (clauses.map (Clause.moved move))
            (LastClause.optionMoved move last)) := by
      intro last
      refine (Moves.expect .rightBrace .caseOrEnd).map fun _ => ?_
      rw [Statement.moved, Clause.allMoved_eq]
    refine (Moves.take .defaultStatement).bind fun defaultWord => ?_
    cases defaultWord with
    | none => exact ending none
    | some defaultWord =>
      refine (Moves.expectMark .colon ":").bind fun _ => ?_
      exact (moves_blockOf moves).bind fun body => ending (some (.mk defaultWord body))

end Parts

theorem moves_field : Moves move (Field.moved move) field field := by
  refine (Moves.expect .identifier .selectField).bind fun name => ?_
  refine (Moves.eat .asStatement).bind fun renamed => Moves.ite ?_ (.pure rfl)
  exact (Moves.expect .identifier .fieldAlias).map fun _ => rfl

theorem moves_selectRest (word : Token) :
    Moves move (Statement.moved move) (selectRest word) (selectRest (word.moved move)) := by
  refine (Moves.eat .distinctStatement).bind fun distinct => ?_
  refine (Moves.take .operatorMultiplication).bind fun star => ?_
  -- After the fields, and again after the condition, every select goes on alike.
  cases star
  case' none => refine (Moves.separated moves_field).bind fun fields => ?_
  all_goals
    refine (Moves.expectMark .fromStatement "from").bind fun _ =>
      moves_expression.bind fun source => ?_
    refine (Moves.eat .whereStatement).bind fun filtered =>
      Moves.ite (moves_expression.bind fun condition => ?_) ?_
    all_goals
      refine (Moves.pure rfl : Moves move (Option.map (Expression.moved move)) _ _).bind
        fun filter => ?_
      refine (Moves.eat .mergeStatement).bind fun merge => ?_
      refine (Moves.expectMark .intoStatement "into").bind fun _ =>
        moves_expression.bind fun target => ?_
      rw [Expression.isVariable_moved, Expression.token_moved, Expression.kind_moved]
      exact Moves.ite (.failAt _ _ _) (moves_semicolon.map fun _ => rfl)

theorem moves_includeRest (word : Token) :
    Moves move (Statement.moved move) (includeRest word) (includeRest (word.moved move)) :=
  (Moves.separated (Moves.expect .identifier .libraryName)).bind fun _ =>
    moves_semicolon.map fun _ => rfl

theorem moves_printRest (word : Token) :
    Moves move (Statement.moved move) (printRest word) (printRest (word.moved move)) :=
  (Moves.expectMark .leftParen "(").bind fun _ =>
    (Expression.moves_arguments moves_expression).bind fun _ => moves_semicolon.map fun _ => rfl

theorem moves_typeTag : Moves move id typeTag typeTag := by
  intro tokens
  cases tokens with
  | nil => rfl
  | cons token rest =>
    simp only [List.map_cons, typeTag, Token.text_moved]
    cases Kind.ofTypeName? token.text <;> rfl

theorem moves_typeTagOr (otherwise : Kind) :
    Moves move id (typeTagOr otherwise) (typeTagOr otherwise) :=
  Moves.peekKind.bind fun _ => Moves.ite moves_typeTag (.pure rfl)

theorem moves_parameter : Moves move (Parameter.moved move) parameter parameter :=
  (moves_typeTagOr .any).bind fun _ => (Moves.expect .identifier .parameterName).map fun _ => rfl

theorem moves_parameters : Moves move (List.map (Parameter.moved move)) parameters parameters := by
  refine (Moves.expectMark .leftParen "(").bind fun _ => (Moves.eat .rightParen).bind fun empty =>
    ?_
  refine Moves.ite (.pure rfl) (moves_parameter.bind fun first => ?_)
  refine Moves.bind (Moves.many (Parameter.moved move) ?_) fun others =>
    (Moves.expectMark .rightParen ")").map fun _ => rfl
  refine (Moves.eat .comma).bind fun more => Moves.ite ?_ (.pure rfl)
  exact Moves.peekKind.bind fun _ => Moves.ite (.pure rfl) (moves_parameter.map fun _ => rfl)

theorem moves_stringLiteral (expected : Expectation) :
    Moves move id (stringLiteral expected) (stringLiteral expected) := by
  refine (Moves.expect .string expected).bind fun token => ?_
  rw [Token.value_moved]
  split
  · exact .pure rfl
  · exact .failAt _ _ _

theorem moves_assignmentRest (name : Token) (index : List Expression) (operator : Token)
    (append constant : Bool) :
    Moves move (Statement.moved move) (assignmentRest name index operator append constant)
      (assignmentRest (name.moved move) (index.map (Expression.moved move))
        (operator.moved move) append constant) := by
  refine moves_expression.bind fun value => moves_semicolon.map fun _ => ?_
  cases index <;> simp [Statement.moved, Expression.moved, Expression.allMoved_eq]

section Parts

variable {self self' : Reader Statement} (moves : Moves move (Statement.moved move) self self')

include moves

theorem moves_functionBody :
    Moves move (FunctionBody.moved move) (functionBody self) (functionBody self') := by
  refine (Moves.eat .externalStatement).bind fun external => Moves.ite ?_ ?_
  · refine (moves_stringLiteral .moduleName).bind fun module => ?_
    refine (Moves.expectMark .comma ",").bind fun _ => ?_
    exact (moves_stringLiteral .functionName).bind fun function => moves_semicolon.map fun _ => rfl
  · exact (moves_blockOf moves).bind fun body => (Moves.eat .semicolon).map fun _ => rfl

theorem moves_definitionRest (name : Token) (arrowLater : Bool) :
    Moves move (Statement.moved move) (definitionRest self name arrowLater)
      (definitionRest self' (name.moved move) arrowLater) := by
  refine moves_parameters.bind fun params => ?_
  have following : Moves move (Statement.moved move)
      (do
        let result ← typeTagOr .nil
        return .define name params result (← functionBody self))
      (do
        let result ← typeTagOr .nil
        return .define (name.moved move) (params.map (Parameter.moved move)) result
          (← functionBody self')) :=
    (moves_typeTagOr .nil).bind fun _ => (moves_functionBody moves).map fun _ => rfl
  exact Moves.ite ((Moves.expectMark .operatorArrow "=>").bind fun _ => following) following

theorem moves_signRest (name : Token) (index : List Expression) (append constant : Bool) :
    Moves move (Statement.moved move) (signRest self name index append constant)
      (signRest self' (name.moved move) (index.map (Expression.moved move)) append constant) := by
  intro tokens
  cases tokens with
  | nil => rfl
  | cons sign rest =>
    simp only [List.map_cons, signRest, Token.kind_moved, arrowAfterParameters_moved,
      List.isEmpty_map]
    by_cases assigns : sign.kind.isAssignment
    · simp only [assigns, Bool.not_true, Bool.false_eq_true, ↓reduceIte]
      by_cases defines : sign.kind = .operatorArrow ∨
          sign.kind = .operatorAssignment ∧ arrowAfterParameters rest = true
      · simp only [defines, ↓reduceIte]
        by_cases plain : (append || !index.isEmpty) = true
        · simp only [plain, ↓reduceIte]
          rfl
        · simp only [plain, Bool.false_eq_true, ↓reduceIte]
          exact moves_definitionRest moves name _ rest
      · simp only [defines, ↓reduceIte]
        exact moves_assignmentRest name index sign append constant rest
    · simp only [assigns, Bool.not_false, ↓reduceIte]
      rfl

theorem moves_nameStatement (constant : Bool) :
    Moves move (Statement.moved move) (nameStatement self constant)
      (nameStatement self' constant) := by
  refine (Moves.expect .identifier .identifier).bind fun name => ?_
  refine (Expression.moves_indexChain moves_expression).bind fun index =>
    Moves.peekKind.bind fun kind => ?_
  refine Moves.ite (Moves.ite (.fail _) ?_) ?_
  · refine (Moves.expectMark .leftParen "(").bind fun _ => ?_
    refine (Expression.moves_arguments moves_expression).bind fun args =>
      moves_semicolon.map fun _ => ?_
    cases index <;> rfl
  · exact (Moves.eat .newArray).bind fun append => moves_signRest moves name index append constant

theorem moves_fromParts : Moves move (Statement.moved move) (fromParts self) (fromParts self') := by
  have word : ∀ (token : Token) (result : Token → Statement),
      (∀ token, result (token.moved move) = (result token).moved move) →
      Moves move (Statement.moved move) (do let _ ← semicolon; return result token)
        (do let _ ← semicolon; return result (token.moved move)) :=
    fun token result same => moves_semicolon.map fun _ => same token
  intro tokens
  cases tokens with
  | nil => rfl
  | cons token rest =>
    simp only [List.map_cons, fromParts, Token.kind_moved]
    split
    case h_1 => exact moves_ifRest moves token rest
    case h_2 =>
      refine (moves_expression.bind fun condition => ?_ : Moves move (Statement.moved move) _ _)
        rest
      exact (moves_blockOf moves).map fun _ => rfl
    case h_3 =>
      refine (moves_expression.bind fun iterable => ?_ : Moves move (Statement.moved move) _ _) rest
      exact (moves_blockOf moves).map fun _ => rfl
    case h_4 => exact moves_selectRest token rest
    case h_5 => exact word token .breakLoop (fun _ => rfl) rest
    case h_6 => exact word token .continueLoop (fun _ => rfl) rest
    case h_7 =>
      refine (moves_expressionOrEnd.bind fun value => ?_ : Moves move (Statement.moved move) _ _)
        rest
      exact moves_semicolon.map fun _ => rfl
    case h_8 =>
      refine (moves_expressionOrEnd.bind fun value => ?_ : Moves move (Statement.moved move) _ _)
        rest
      exact moves_semicolon.map fun _ => rfl
    case h_9 => exact moves_printRest token rest
    case h_10 => exact moves_includeRest token rest
    case h_11 => exact moves_switchRest moves token rest
    case h_12 => exact moves_nameStatement moves true rest
    case h_13 => exact moves_nameStatement moves false (token :: rest)
    case h_16 => rfl
    all_goals
      have block : Moves move (Statement.moved move) (do return .block (← blockOf self))
          (do return .block (← blockOf self')) := (moves_blockOf moves).map fun _ => rfl
      exact block (token :: rest)

end Parts

theorem moves_read : Moves move (Statement.moved move) read read := by
  intro tokens
  induction count : tokens.length using Nat.strongRecOn generalizing tokens with
  | ind count ih =>
    rw [read, read]
    refine moves_fromParts (Moves.shorterThan ?_) tokens
    intro rest shorter
    exact ih rest.length (count ▸ shorter) rest rfl

theorem moves_readAll (move : Position → Position) :
    Moves move (List.map (Statement.moved move)) readAll readAll := by
  refine Moves.many _ (Moves.peek.bind fun next => ?_)
  cases next with
  | none => exact .pure rfl
  | some next => exact moves_read.map fun _ => rfl

end Treecode.Statement
