import Treecode.Proofs.Extension
import Treecode.Program.Statements

set_option autoImplicit false

namespace Treecode.Statement

open Reader

variable {more : List Token} {ends : Prop}

/-- The kinds of the tokens with which a statement may go on that could end before them. -/
def continuations : List Kind := [.elifStatement, .elseStatement, .semicolon]

/-- No statement that could end goes on with the tokens. -/
def Separate (tokens : List Token) : Prop := nextKind tokens ∉ continuations

theorem extends_expression : Extends more False expression expression := Expression.extends_read

theorem extends_semicolon : Extends more ends semicolon semicolon := .expectMark .semicolon ";"

theorem extends_expressionOrEnd : Extends more False expressionOrEnd expressionOrEnd :=
  Extends.peekKind.bind fun _ => Extends.ite (.pure _) (extends_expression.map _)

/-- An arrow that is found is found whatever follows. -/
theorem arrowAfterClose_of_arrow {depth : Nat} {tokens : List Token}
    (arrow : arrowAfterClose depth tokens) : arrowAfterClose depth (tokens ++ more) := by
  induction tokens generalizing depth with
  | nil => cases arrow
  | cons token rest ih =>
    rw [List.cons_append]
    unfold arrowAfterClose at arrow ⊢
    split at arrow
    · exact ih arrow
    · cases rest with
      | nil => cases arrow
      | cons next rest => exact arrow
    · exact ih arrow
    · cases arrow
    · exact ih arrow

/-- A semicolon ends the look ahead. -/
theorem arrowAfterClose_append (depth : Nat) {tokens : List Token}
    (ended : ∃ token ∈ tokens, token.kind = .semicolon) :
    arrowAfterClose depth (tokens ++ more) = arrowAfterClose depth tokens := by
  induction tokens generalizing depth with
  | nil =>
    obtain ⟨token, member, _⟩ := ended
    cases member
  | cons token rest ih =>
    have later : token.kind ≠ .semicolon → ∃ token ∈ rest, token.kind = .semicolon := by
      intro other
      obtain ⟨found, member, kind⟩ := ended
      rcases List.mem_cons.1 member with rfl | member
      · exact absurd kind other
      · exact ⟨found, member, kind⟩
    rw [List.cons_append]
    unfold arrowAfterClose
    split
    · next kind => exact ih _ (later (by rw [kind]; decide))
    · next kind =>
      obtain ⟨found, member, _⟩ := later (by rw [kind]; decide)
      cases rest with
      | nil => cases member
      | cons next rest => rfl
    · next kind => exact ih _ (later (by rw [kind]; decide))
    · rfl
    · next other _ _ => exact ih _ (later other)

/-- Where a semicolon stands, whether parameters and an arrow come next is settled before it. -/
theorem arrowAfterParameters_append {tokens : List Token}
    (ended : ∃ token ∈ tokens, token.kind = .semicolon) :
    arrowAfterParameters (tokens ++ more) = arrowAfterParameters tokens := by
  cases tokens with
  | nil =>
    obtain ⟨token, member, _⟩ := ended
    cases member
  | cons token rest =>
    rw [List.cons_append]
    simp only [arrowAfterParameters]
    by_cases opened : token.kind = .leftParen
    · obtain ⟨found, member, kind⟩ := ended
      have later : found ∈ rest := by
        rcases List.mem_cons.1 member with rfl | later
        · rw [opened] at kind
          cases kind
        · exact later
      rw [arrowAfterClose_append 0 ⟨found, later, kind⟩]
    · simp only [beq_eq_false_iff_ne.2 opened, Bool.false_and]

theorem arrowAfterParameters_of_arrow {tokens : List Token} (arrow : arrowAfterParameters tokens) :
    arrowAfterParameters (tokens ++ more) := by
  cases tokens with
  | nil => cases arrow
  | cons token rest =>
    obtain ⟨opened, arrow⟩ := Bool.and_eq_true_iff.1 arrow
    exact Bool.and_eq_true_iff.2 ⟨opened, arrowAfterClose_of_arrow arrow⟩

/-- Among tokens without an arrow, up to a semicolon, none follows any mark. -/
theorem arrowAfterClose_before {tokens rest : List Token} {stop : Token}
    (plain : ∀ token ∈ tokens, token.kind ≠ .operatorArrow) (stops : stop.kind = .semicolon)
    (depth : Nat) :
    arrowAfterClose depth (tokens ++ stop :: rest) = false := by
  induction tokens generalizing depth with
  | nil => simp only [List.nil_append, arrowAfterClose, stops]
  | cons token tokens ih =>
    have inner := (List.forall_mem_cons.1 plain).2
    have next : (tokens ++ stop :: rest).head?.any (·.kind == .operatorArrow) = false := by
      cases tokens with
      | nil => simp [stops]
      | cons other tokens => simpa using (List.forall_mem_cons.1 inner).1
    rw [List.cons_append]
    unfold arrowAfterClose
    split
    · exact ih inner _
    · exact next
    · exact ih inner _
    · rfl
    · exact ih inner _

/-- Tokens without an arrow, up to a semicolon, are no parameters with an arrow behind them. -/
theorem arrowAfterParameters_before {tokens rest : List Token} {stop : Token}
    (plain : ∀ token ∈ tokens, token.kind ≠ .operatorArrow) (stops : stop.kind = .semicolon) :
    arrowAfterParameters (tokens ++ stop :: rest) = false := by
  cases tokens with
  | nil => simp [arrowAfterParameters, stops]
  | cons token tokens =>
    rw [List.cons_append, arrowAfterParameters,
      arrowAfterClose_before (List.forall_mem_cons.1 plain).2 stops, Bool.and_false]

theorem extends_field : Extends more False field field := by
  refine (Extends.expect .identifier .selectField).bind fun name => ?_
  exact (Extends.eat False.elim).bind fun renamed =>
    Extends.ite ((Extends.expect .identifier .fieldAlias).map _) (.pure _)

theorem extends_selectRest (word : Token) :
    Consumes more ends (selectRest word) (selectRest word) := by
  refine (Extends.eat False.elim).before fun distinct =>
    (Extends.take False.elim).before fun star => ?_
  -- After the fields, and again after the condition, every select goes on alike.
  cases star
  case' none => refine (Extends.separated extends_field).before fun fields => ?_
  all_goals
    refine Extends.after fun _ => (extends_expression.before fun source => ?_).extension
    refine (Extends.eat False.elim).before fun filtered =>
      Consumes.ite (extends_expression.before fun condition => ?_) ?_
    all_goals
      refine (Extends.pure _).before fun filter => (Extends.eat False.elim).before fun merge => ?_
      refine Extends.after fun _ => (extends_expression.before fun target => ?_).extension
      exact Consumes.ite (.failAt _ _ _) (Extends.after fun _ => .pure _)

theorem extends_includeRest (word : Token) :
    Extends more ends (includeRest word) (includeRest word) :=
  ((Extends.separated (.expect .identifier .libraryName)).before fun _ =>
    Extends.after fun _ => .pure _).extension

theorem extends_printRest (word : Token) : Extends more ends (printRest word) (printRest word) :=
  (Extends.expectMark .leftParen "(").bind fun _ =>
    ((Expression.extends_arguments extends_expression).before fun _ => Extends.after fun _ =>
      .pure _).extension

theorem extends_typeTag : Consumes more ends typeTag typeTag := by
  refine Consumes.of_cons ⟨_, rfl⟩ fun token tokens kind rest success => ?_
  simp only [typeTag] at success ⊢
  split at success
  · cases success
    exact ⟨List.suffix_rfl, fun _ => rfl⟩
  · cases success

theorem extends_typeTagOr (otherwise : Kind) :
    Extends more False (typeTagOr otherwise) (typeTagOr otherwise) :=
  Extends.peekKind.bind fun _ => Extends.ite extends_typeTag.extension (.pure _)

theorem extends_parameter : Extends more False parameter parameter :=
  (extends_typeTagOr .any).bind fun _ => (Extends.expect .identifier .parameterName).map _

theorem extends_parameters : Extends more False parameters parameters := by
  refine (Extends.expectMark .leftParen "(").bind fun _ =>
    (Extends.eat False.elim).bind fun empty => ?_
  refine Extends.ite (.pure _) (extends_parameter.bind fun first => ?_)
  refine Extends.bind (Extends.many ?_) fun others => (Extends.expectMark .rightParen ")").map _
  exact (Extends.eat False.elim).bind fun more => Extends.ite
    (Extends.peekKind.bind fun _ => Extends.ite (.pure _) (extends_parameter.map _)) (.pure _)

theorem extends_stringLiteral (expected : Expectation) :
    Consumes more ends (stringLiteral expected) (stringLiteral expected) := by
  refine Extends.after fun token => ?_
  split
  · exact .pure _
  · exact .failAt _ _ _

theorem extends_assignmentRest (name : Token) (index : List Expression) (operator : Token)
    (append constant : Bool) :
    Extends more ends (assignmentRest name index operator append constant)
      (assignmentRest name index operator append constant) :=
  (extends_expression.before fun _ => Extends.after fun _ => .pure _).extension

theorem semicolon_of_assignmentRest {name : Token} {index : List Expression} {operator : Token}
    {append constant : Bool} {tokens rest : List Token} {statement : Statement}
    (success : assignmentRest name index operator append constant tokens = .ok (statement, rest)) :
    ∃ token ∈ tokens, token.kind = .semicolon := by
  obtain ⟨value, between, read, ending⟩ := bind_ok success
  obtain ⟨token, _, found, _⟩ := bind_ok ending
  cases between with
  | nil => cases found
  | cons next between =>
    by_cases fits : next.kind = .semicolon
    · exact ⟨next, (@extends_expression [] tokens value _ read).1.mem (List.mem_cons_self ..), fits⟩
    · cases found.symm.trans (if_neg fits)

section Parts

variable {self self' : Reader Statement} (parts : Extends more (Separate more) self self')

include parts

theorem extends_blockOf : Consumes more ends (blockOf self) (blockOf self') := by
  refine Consumes.of_cons ⟨_, rfl⟩ fun token tokens body rest success => ?_
  simp only [blockOf] at success ⊢
  split at success
  · cases success
    exact ⟨List.suffix_rfl, fun _ => rfl⟩
  · have inside : ∀ {reader reader' : Reader Block}, Consumes more ends reader reader' →
        reader tokens = .ok (body, rest) →
        rest <:+ tokens ∧ (rest ≠ [] ∨ ends →
            reader' (tokens ++ more) = .ok (body, rest ++ more)) :=
      fun consumes => consumes.extension tokens body rest
    refine inside (Extends.before (Extends.many ?_) fun list => Extends.after fun _ =>
      .pure _) success
    refine Extends.peek.bind fun next => ?_
    cases next with
    | none => exact .fail _
    | some next => exact Extends.ite (.pure _) ((parts.weaken False.elim).map _)
  · cases success

theorem extends_clause (word : Token) : Extends more ends (clause self word) (clause self' word) :=
  (extends_expression.before fun _ => (extends_blockOf parts).bind fun _ => .pure _).extension

theorem extends_ifRest (word : Token) :
    Extends more (Separate more) (ifRest self word) (ifRest self' word) := by
  refine (extends_expression.before fun condition => (extends_blockOf parts).bind fun body =>
    ?_).extension
  refine Extends.bind (Extends.many ?_) fun elifs => ?_
  · refine (Extends.take fun separate kind => separate (by rw [kind]; decide)).bind fun elifWord =>
      ?_
    cases elifWord with
    | none => exact .pure _
    | some elifWord => exact (extends_clause parts elifWord).map _
  · refine (Extends.take fun separate kind => separate (by rw [kind]; decide)).bind fun elseWord =>
      ?_
    cases elseWord with
    | none => exact .pure _
    | some elseWord => exact (extends_blockOf parts).extension.map _

theorem extends_caseRest (word : Token) :
    Extends more ends (caseRest self word) (caseRest self' word) := by
  refine (extends_expression.before fun guard => ?_).extension
  cases guard with
  | literal token value => exact Extends.after fun _ => (extends_blockOf parts).extension.map _
  | _ => exact .failAt _ _ _

theorem extends_switchRest (word : Token) :
    Extends more ends (switchRest self word) (switchRest self' word) := by
  refine (extends_expression.before fun head => Consumes.ite (.failAt _ _ _) ?_).extension
  refine Extends.eatElse (.pure _) (Extends.after fun _ => ?_)
  refine (Extends.before (Extends.many ?_) fun clauses => ?_).extension
  · refine (Extends.take False.elim).bind fun caseWord => ?_
    cases caseWord with
    | none => exact .pure _
    | some caseWord => exact (extends_caseRest parts caseWord).map _
  · refine (Extends.take False.elim).before fun defaultWord => ?_
    cases defaultWord with
    | none => exact Extends.after fun _ => .pure _
    | some defaultWord =>
      exact Extends.after fun _ => ((extends_blockOf parts).bind fun _ =>
        (Extends.after fun _ => .pure _).extension).extension

theorem extends_functionBody :
    Consumes more (Separate more) (functionBody self) (functionBody self') := by
  refine (Extends.eat False.elim).before fun external => Consumes.ite ?_ ?_
  · refine (extends_stringLiteral .moduleName).bind fun module =>
      (Extends.after fun _ => ?_).extension
    exact ((extends_stringLiteral .functionName).bind fun function =>
      (Extends.after fun _ => .pure _).extension).extension
  · exact (extends_blockOf parts).bind fun body =>
      (Extends.eat fun separate kind => separate (by rw [kind]; decide)).map _

theorem extends_definitionRest (name : Token) (arrowLater : Bool) :
    Extends more (Separate more) (definitionRest self name arrowLater)
      (definitionRest self' name arrowLater) := by
  have following : ∀ params : List Parameter, Consumes more (Separate more)
      (do
        let result ← typeTagOr .nil
        return Statement.define name params result (← functionBody self))
      (do
        let result ← typeTagOr .nil
        return Statement.define name params result (← functionBody self')) :=
    fun params => (extends_typeTagOr .nil).before fun _ =>
      (extends_functionBody parts).bind fun _ => .pure _
  exact (extends_parameters.before fun params =>
    Consumes.ite (Extends.after fun _ => (following params).extension) (following params)).extension

theorem extends_signRest (name : Token) (index : List Expression) (append constant : Bool) :
    Consumes more (Separate more) (signRest self name index append constant)
      (signRest self' name index append constant) := by
  refine Consumes.of_cons ⟨_, rfl⟩ fun sign tokens statement rest success => ?_
  simp only [signRest] at success ⊢
  split at success
  · cases success
  · next assigns =>
    rw [if_neg assigns]
    split at success
    · next defines =>
      have defines' : sign.kind = .operatorArrow ∨
          sign.kind = .operatorAssignment ∧ arrowAfterParameters (tokens ++ more) = true :=
        defines.imp_right fun ⟨assigned, arrow⟩ => ⟨assigned, arrowAfterParameters_of_arrow arrow⟩
      rw [if_pos defines']
      split at success
      · cases success
      · next plain =>
        rw [if_neg plain]
        exact extends_definitionRest parts name _ tokens statement rest success
    · next assigned =>
      -- The look ahead does not get beyond the semicolon of the assignment.
      rw [arrowAfterParameters_append (semicolon_of_assignmentRest success), if_neg assigned]
      exact extends_assignmentRest name index sign append constant tokens statement rest success

theorem extends_nameStatement (constant : Bool) :
    Consumes more (Separate more) (nameStatement self constant) (nameStatement self' constant) := by
  refine Extends.after fun name => ?_
  refine ((Expression.extends_indexChain extends_expression).before fun index =>
    Extends.peekKind.before fun kind => Consumes.ite (Consumes.ite (.fail _) ?_) ?_).extension
  · exact Extends.after fun _ =>
      ((Expression.extends_arguments extends_expression).before fun args =>
        Extends.after fun _ => .pure _).extension
  · exact (Extends.eat False.elim).before fun append =>
      extends_signRest parts name index append constant

theorem extends_fromParts : Consumes more (Separate more) (fromParts self) (fromParts self') := by
  have word : ∀ result : Statement,
    Extends more (Separate more) (do let _ ← semicolon; return result)
      (do let _ ← semicolon; return result) := fun result => extends_semicolon.map _
  have valued : ∀ result : Option Expression → Statement, Extends more (Separate more)
      (do
        let value ← expressionOrEnd
        let _ ← semicolon
        return result value)
      (do
        let value ← expressionOrEnd
        let _ ← semicolon
        return result value) :=
    fun result => (extends_expressionOrEnd.before fun _ => Extends.after fun _ => .pure _).extension
  have guarded : ∀ result : Expression → Block → Statement, Extends more (Separate more)
      (do
        let guard ← expression
        return result guard (← blockOf self))
      (do
        let guard ← expression
        return result guard (← blockOf self')) :=
    fun result => (extends_expression.before fun _ => (extends_blockOf parts).bind fun _ =>
      .pure _).extension
  refine Consumes.of_cons ⟨_, rfl⟩ fun token tokens statement rest success => ?_
  simp only [fromParts] at success ⊢
  split at success
  case h_1 => exact extends_ifRest parts token tokens statement rest success
  case h_2 => exact guarded (.whileLoop token) tokens statement rest success
  case h_3 => exact guarded (.foreach token) tokens statement rest success
  case h_4 => exact (extends_selectRest token).extension tokens statement rest success
  case h_5 => exact word (.breakLoop token) tokens statement rest success
  case h_6 => exact word (.continueLoop token) tokens statement rest success
  case h_7 => exact valued (.returnValue token) tokens statement rest success
  case h_8 => exact valued (.halt token) tokens statement rest success
  case h_9 => exact extends_printRest token tokens statement rest success
  case h_10 => exact extends_includeRest token tokens statement rest success
  case h_11 => exact extends_switchRest parts token tokens statement rest success
  case h_12 => exact (extends_nameStatement parts true).extension tokens statement rest success
  case h_13 => exact (extends_nameStatement parts false).cons success
  case h_16 => cases success
  all_goals
    have block : Consumes more (Separate more) (do return Statement.block (← blockOf self))
        (do return Statement.block (← blockOf self')) :=
          (extends_blockOf parts).bind fun _ => .pure _
    exact block.cons success

end Parts

/-- A statement in front of tokens with which no statement goes on is the same statement. -/
theorem extends_read : Extends more (Separate more) read read := by
  intro tokens
  induction count : tokens.length using Nat.strongRecOn generalizing tokens with
  | ind count ih =>
    rw [read, read]
    refine (extends_fromParts (Extends.shorterThan ?_)).extension tokens
    intro rest shorter
    exact ih rest.length (count ▸ shorter) rest rfl

theorem length_of_read {tokens rest : List Token} {statement : Statement}
    (success : read tokens = .ok (statement, rest)) : rest.length < tokens.length := by
  have parts : Extends [] (Separate []) (shorterThan tokens (fun rest _ => read rest) .statement)
      (shorterThan (tokens ++ []) (fun rest _ => read rest) .statement) :=
    Extends.shorterThan fun rest _ => extends_read rest
  rw [read] at success
  exact (extends_fromParts parts).shorter tokens statement rest success

/-- No statement starts with a token that another one goes on with. -/
theorem separate_of_read {tokens rest : List Token} {statement : Statement}
    (success : read tokens = .ok (statement, rest)) : Separate tokens := by
  cases tokens with
  | nil =>
    rw [read] at success
    cases success
  | cons token tokens =>
    intro member
    have kinds : token.kind ∈ continuations := member
    simp only [continuations, List.mem_cons, List.not_mem_nil, or_false] at kinds
    rw [read] at success
    rcases kinds with kind | kind | kind <;> simp only [fromParts, kind] at success <;>
      cases success

theorem readAll_nil : readAll [] = .ok ([], []) := many_of_none rfl

theorem readAll_cons (token : Token) (tokens : List Token) :
    readAll (token :: tokens) =
      match read (token :: tokens) with
      | .error unexpected => .error unexpected
      | .ok (statement, rest) =>
        match readAll rest with
        | .error unexpected => .error unexpected
        | .ok (others, rest) => .ok (statement :: others, rest) := by
  obtain ⟨step, all, turn⟩ : ∃ step : Reader (Option Statement), readAll = many step ∧
      step (token :: tokens) = (do return some (← read) : Reader (Option Statement))
          (token :: tokens) :=
    ⟨_, rfl, rfl⟩
  replace turn := turn.trans (bind_apply read _ _)
  rw [all]
  cases found : read (token :: tokens) with
  | error unexpected =>
    rw [found] at turn
    rw [many, turn]
  | ok result =>
    obtain ⟨statement, rest⟩ := result
    rw [found] at turn
    dsimp only
    rw [many_of_some turn (length_of_read found)]
    cases many step rest <;> rfl

theorem readAll_ok {token : Token} {tokens rest : List Token} {statements : List Statement}
    (success : readAll (token :: tokens) = .ok (statements, rest)) :
    ∃ statement others between, read (token :: tokens) = .ok (statement, between) ∧
      readAll between = .ok (others, rest) ∧ statements = statement :: others := by
  rw [readAll_cons] at success
  split at success
  · cases success
  · next statement between read =>
    split at success
    · cases success
    · next others rest' following =>
      cases success
      exact ⟨statement, others, between, read, following, rfl⟩

theorem separate_of_readAll {tokens rest : List Token} {statements : List Statement}
    (success : readAll tokens = .ok (statements, rest)) : Separate tokens := by
  cases tokens with
  | nil => exact (by decide : nextKind [] ∉ continuations)
  | cons token tokens =>
    obtain ⟨statement, _, between, read, _, _⟩ := readAll_ok success
    exact separate_of_read read

/-- What is read from the tokens of statements and of more statements is the statements and the
more. -/
theorem readAll_append {tokens tokens' rest rest' : List Token}
    {statements statements' : List Statement}
    (first : readAll tokens = .ok (statements, rest))
    (last : readAll tokens' = .ok (statements', rest')) :
    readAll (tokens ++ tokens') = .ok (statements ++ statements', rest') := by
  induction count : tokens.length using Nat.strongRecOn generalizing tokens statements with
  | ind count ih =>
    cases tokens with
    | nil =>
      cases first.symm.trans readAll_nil
      exact last
    | cons token tokens =>
      obtain ⟨statement, others, between, read, following, rfl⟩ := readAll_ok first
      have reads : Extends tokens' (Separate tokens') Statement.read Statement.read := extends_read
      have goesOn := (reads _ _ _ read).2 (.inr (separate_of_readAll last))
      have whole := ih between.length (count ▸ length_of_read read) following rfl
      rw [List.cons_append] at goesOn ⊢
      rw [readAll_cons, goesOn]
      simp only [whole, List.cons_append]

end Treecode.Statement
