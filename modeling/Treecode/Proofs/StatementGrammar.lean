import Treecode.Proofs.Grammar

set_option autoImplicit false

namespace Treecode

open Reader

variable {spelling : Spelling}

namespace Statement

theorem gives_expression (literals : spelling.LiteralsFrom) :
    Gives spelling.token expression (Expression.Regular spelling) :=
  Expression.gives_read literals

theorem gives_semicolon : Gives spelling.token semicolon fun _ => True :=
  (Gives.expectMark .semicolon ";").mono fun _ _ => trivial

theorem gives_expressionOrEnd (literals : spelling.LiteralsFrom) :
    Gives spelling.token expressionOrEnd (Expression.OptionRegular spelling) := by
  refine Gives.peekKind.bind fun kind _ => Gives.ite (fun _ => .pure trivial) fun _ => ?_
  exact (gives_expression literals).bind fun value regular => .pure regular

theorem gives_name (expected : Expectation) :
    Gives spelling.token (expect .identifier expected) spelling.Name :=
  Gives.expect .identifier expected

section Parts

variable {self : Reader Statement}

theorem gives_blockOf (gives : Gives spelling.token self (Statement.Regular spelling)) :
    Gives spelling.token (blockOf self) (Block.Regular spelling) := by
  intro tokens
  cases tokens with
  | nil => exact Gives.fail _ []
  | cons token tokens =>
    intro a rest all success
    have others : ∀ t ∈ tokens, spelling.token t := fun t member =>
      all t (List.mem_cons_of_mem _ member)
    unfold blockOf at success
    dsimp only at success
    split at success
    · cases success
      exact ⟨trivial, others⟩
    · refine Gives.bind (Gives.many (Statement.Regular spelling) ?_) ?_ tokens a rest others
        success
      · refine Gives.peek.bind fun next _ => ?_
        cases next with
        | none => exact .fail _
        | some next =>
          refine Gives.ite (fun _ => ?_) fun _ => ?_
          · refine .pure fun s missing => ?_
            cases missing
          · refine gives.bind fun s regular => .pure fun t same => ?_
            cases same
            exact regular
      · intro statements regular
        refine (Gives.expectMark .rightBrace "\x7d").bind fun _ _ => .pure ?_
        exact allRegular_iff.2 regular
    · exact Gives.fail _ (token :: tokens) a rest all success

theorem gives_clause (literals : spelling.LiteralsFrom)
    (gives : Gives spelling.token self (Statement.Regular spelling)) (word : Token) :
    Gives spelling.token (clause self word) (Clause.Regular spelling) := by
  refine (gives_expression literals).bind fun condition regular => ?_
  exact (gives_blockOf gives).bind fun body bodyRegular => .pure ⟨regular, bodyRegular⟩

theorem gives_ifRest (literals : spelling.LiteralsFrom)
    (gives : Gives spelling.token self (Statement.Regular spelling)) (word : Token) :
    Gives spelling.token (ifRest self word) (Statement.Regular spelling) := by
  refine (gives_expression literals).bind fun condition regular => ?_
  refine (gives_blockOf gives).bind fun body bodyRegular => ?_
  refine Gives.bind (Gives.many (Clause.Regular spelling) ?_) fun elifs elifsRegular => ?_
  · refine (Gives.take .elifStatement).bind fun elifWord _ => ?_
    cases elifWord with
    | none =>
      refine .pure fun c missing => ?_
      cases missing
    | some elifWord =>
      refine (gives_clause literals gives elifWord).bind fun c clauseRegular =>
        .pure fun d same => ?_
      cases same
      exact clauseRegular
  · have elifsAll := Clause.allRegular_iff.2 elifsRegular
    refine (Gives.take .elseStatement).bind fun elseWord _ => ?_
    cases elseWord with
    | none => exact .pure ⟨regular, bodyRegular, elifsAll, trivial⟩
    | some elseWord =>
      refine (gives_blockOf gives).bind fun last lastRegular => .pure ?_
      exact ⟨regular, bodyRegular, elifsAll, lastRegular⟩

theorem gives_caseRest (literals : spelling.LiteralsFrom)
    (gives : Gives spelling.token self (Statement.Regular spelling)) (word : Token) :
    Gives spelling.token (caseRest self word) (Clause.Regular spelling) := by
  refine (gives_expression literals).bind fun guard regular => ?_
  cases guard with
  | literal token value =>
    refine (Gives.expectMark .colon ":").bind fun _ _ => ?_
    exact (gives_blockOf gives).bind fun body bodyRegular => .pure ⟨regular, bodyRegular⟩
  | _ => exact .failAt _ _ _

theorem gives_switchRest (literals : spelling.LiteralsFrom)
    (gives : Gives spelling.token self (Statement.Regular spelling)) (word : Token) :
    Gives spelling.token (switchRest self word) (Statement.Regular spelling) := by
  refine (gives_expression literals).bind fun head regular => ?_
  refine Gives.ite (fun _ => .failAt _ _ _) fun shaped => ?_
  have shaped : head.isCallOrVariable = true := by
    simpa only [Bool.not_eq_true', Bool.not_eq_false] using shaped
  refine (Gives.eat .newRecord).bind fun empty _ => Gives.ite (fun _ => ?_) fun _ => ?_
  · exact .pure ⟨shaped, regular, trivial, trivial⟩
  · refine (Gives.expectMark .leftBrace "\x7b").bind fun _ _ => ?_
    refine Gives.bind (Gives.many (Clause.Regular spelling) ?_) fun clauses casesRegular => ?_
    · refine (Gives.take .caseStatement).bind fun caseWord _ => ?_
      cases caseWord with
      | none =>
        refine .pure fun c missing => ?_
        cases missing
      | some caseWord =>
        refine (gives_caseRest literals gives caseWord).bind fun c clauseRegular =>
          .pure fun d same => ?_
        cases same
        exact clauseRegular
    · have ending : ∀ last : Option LastClause, LastClause.OptionRegular spelling last →
          Gives spelling.token (do
            let _ ← expect .rightBrace .caseOrEnd
            return .switch word head clauses last : Reader Statement)
                (Statement.Regular spelling) :=
        fun last lastRegular => (Gives.expect .rightBrace .caseOrEnd).bind fun _ _ =>
          .pure ⟨shaped, regular, Clause.allRegular_iff.2 casesRegular, lastRegular⟩
      refine (Gives.take .defaultStatement).bind fun defaultWord _ => ?_
      cases defaultWord with
      | none => exact ending none trivial
      | some defaultWord =>
        refine (Gives.expectMark .colon ":").bind fun _ _ => ?_
        exact (gives_blockOf gives).bind fun body bodyRegular =>
          ending (some (.mk defaultWord body)) bodyRegular

theorem gives_field : Gives spelling.token field fun field =>
    spelling.Name field.name ∧ ∀ newName ∈ field.newName, spelling.Name newName := by
  refine (gives_name .selectField).bind fun name named => ?_
  refine (Gives.eat .asStatement).bind fun renamed _ => Gives.ite (fun _ => ?_) fun _ => ?_
  · refine (gives_name .fieldAlias).bind fun newName newNamed => .pure ⟨named, fun n same => ?_⟩
    cases same
    exact newNamed
  · refine .pure ⟨named, fun n missing => ?_⟩
    cases missing

theorem gives_selectEnd (literals : spelling.LiteralsFrom) (word : Token) (distinct : Bool)
    {fields : List Field} {source : Expression} (filter : Option Expression)
    (fieldsRegular : Field.ListRegular spelling fields) (sourceRegular : source.Regular spelling)
    (filterRegular : Expression.OptionRegular spelling filter) :
    Gives spelling.token (do
      let merge ← eat .mergeStatement
      let _ ← expectMark .intoStatement "into"
      let target ← expression
      if !target.isVariable then failAt (some target.token) target.kind .intoTarget
      else
        let _ ← semicolon
        return .select word distinct fields source filter merge target : Reader Statement)
      (Statement.Regular spelling) := by
  refine (Gives.eat .mergeStatement).bind fun merge _ => ?_
  refine (Gives.expectMark .intoStatement "into").bind fun _ _ => ?_
  refine (gives_expression literals).bind fun target targetRegular => ?_
  refine Gives.ite (fun _ => .failAt _ _ _) fun shaped => ?_
  refine gives_semicolon.bind fun _ _ => .pure ?_
  refine ⟨fieldsRegular, sourceRegular, filterRegular, ?_, targetRegular⟩
  simpa only [Bool.not_eq_true', Bool.not_eq_false] using shaped

theorem gives_selectSource (literals : spelling.LiteralsFrom) (word : Token) (distinct : Bool)
    {fields : List Field} (fieldsRegular : Field.ListRegular spelling fields) :
    Gives spelling.token (do
      let _ ← expectMark .fromStatement "from"
      let source ← expression
      let filter ← do
        if ← eat .whereStatement then pure (some (← expression)) else pure none
      let merge ← eat .mergeStatement
      let _ ← expectMark .intoStatement "into"
      let target ← expression
      if !target.isVariable then failAt (some target.token) target.kind .intoTarget
      else
        let _ ← semicolon
        return .select word distinct fields source filter merge target : Reader Statement)
      (Statement.Regular spelling) := by
  refine (Gives.expectMark .fromStatement "from").bind fun _ _ => ?_
  refine (gives_expression literals).bind fun source sourceRegular => ?_
  refine (Gives.eat .whereStatement).bind fun filtered _ => Gives.ite (fun _ => ?_) fun _ => ?_
  · refine (gives_expression literals).bind fun condition regular => ?_
    exact gives_selectEnd literals word distinct
      (some condition) fieldsRegular sourceRegular regular
  · exact gives_selectEnd literals word distinct none fieldsRegular sourceRegular trivial

theorem gives_selectRest (literals : spelling.LiteralsFrom) (word : Token) :
    Gives spelling.token (selectRest word) (Statement.Regular spelling) := by
  refine (Gives.eat .distinctStatement).bind fun distinct _ => ?_
  refine (Gives.take .operatorMultiplication).bind fun star found => ?_
  cases star with
  | some star =>
    exact gives_selectSource literals word distinct (.inl ⟨star, rfl, found star rfl⟩)
  | none =>
    refine (Gives.separated gives_field).bind fun fields regular => ?_
    exact gives_selectSource literals word distinct (.inr regular)

theorem gives_includeRest (word : Token) :
    Gives spelling.token (includeRest word) (Statement.Regular spelling) := by
  refine (Gives.separated (gives_name .libraryName)).bind fun libraries named => ?_
  exact gives_semicolon.bind fun _ _ => .pure named.2

theorem gives_printRest (literals : spelling.LiteralsFrom) (word : Token) :
    Gives spelling.token (printRest word) (Statement.Regular spelling) := by
  refine (Gives.expectMark .leftParen "(").bind fun _ _ => ?_
  refine (Expression.gives_arguments (gives_expression literals)).bind fun args regular => ?_
  exact gives_semicolon.bind fun _ _ => .pure regular

theorem gives_typeTag : Gives spelling.token typeTag fun _ => True := by
  intro tokens
  cases tokens with
  | nil => exact Gives.fail _ []
  | cons token tokens =>
    intro a rest all success
    unfold typeTag at success
    dsimp only at success
    split at success
    · cases success
      exact ⟨trivial, fun t member => all t (List.mem_cons_of_mem _ member)⟩
    · have fails : Gives spelling.token (fail .typeName : Reader Kind) fun _ => True := .fail _
      exact fails (token :: tokens) a rest all success

theorem gives_typeTagOr (otherwise : Kind) :
    Gives spelling.token (typeTagOr otherwise) fun _ => True :=
  Gives.peekKind.bind fun _ _ => Gives.ite (fun _ => gives_typeTag) fun _ => .pure trivial

theorem gives_parameter :
    Gives spelling.token parameter fun param => spelling.Name param.name := by
  refine (gives_typeTagOr .any).bind fun declared _ => ?_
  exact (gives_name .parameterName).bind fun name named => .pure named

theorem gives_parameters :
    Gives spelling.token parameters fun params => ∀ param ∈ params, spelling.Name param.name := by
  refine (Gives.expectMark .leftParen "(").bind fun _ _ => ?_
  refine (Gives.eat .rightParen).bind fun empty _ => Gives.ite (fun _ => ?_) fun _ => ?_
  · refine .pure fun param member => ?_
    cases member
  · refine gives_parameter.bind fun first named => ?_
    refine Gives.bind (Gives.many (fun param : Parameter => spelling.Name param.name) ?_)
      fun others othersNamed => ?_
    · refine (Gives.eat .comma).bind fun more _ => Gives.ite (fun _ => ?_) fun _ => ?_
      · refine Gives.peekKind.bind fun kind _ => Gives.ite (fun _ => ?_) fun _ => ?_
        · refine .pure fun p missing => ?_
          cases missing
        · refine gives_parameter.bind fun param named => .pure fun p same => ?_
          cases same
          exact named
      · refine .pure fun p missing => ?_
        cases missing
    · refine (Gives.expectMark .rightParen ")").bind fun _ _ => .pure fun param member => ?_
      rcases List.mem_cons.1 member with same | later
      · exact same ▸ named
      · exact othersNamed param later

theorem gives_stringLiteral (expected : Expectation) :
    Gives spelling.token (stringLiteral expected) fun _ => True := by
  refine (Gives.expect .string expected).bind fun token _ => ?_
  split
  · exact .pure trivial
  · exact .failAt _ _ _

theorem gives_functionBody (gives : Gives spelling.token self (Statement.Regular spelling)) :
    Gives spelling.token (functionBody self) (FunctionBody.Regular spelling) := by
  refine (Gives.eat .externalStatement).bind fun external _ => Gives.ite (fun _ => ?_) fun _ => ?_
  · refine (gives_stringLiteral .moduleName).bind fun module _ => ?_
    refine (Gives.expectMark .comma ",").bind fun _ _ => ?_
    refine (gives_stringLiteral .functionName).bind fun function _ => ?_
    exact gives_semicolon.bind fun _ _ => .pure trivial
  · refine (gives_blockOf gives).bind fun body regular => ?_
    exact (Gives.eat .semicolon).bind fun _ _ => .pure regular

theorem gives_definitionRest (gives : Gives spelling.token self (Statement.Regular spelling))
    {name : Token} (named : spelling.Name name) (arrowLater : Bool) :
    Gives spelling.token (definitionRest self name arrowLater) (Statement.Regular spelling) := by
  refine gives_parameters.bind fun params paramsNamed => ?_
  have following : Gives spelling.token (do
      let result ← typeTagOr .nil
      return .define name params result (← functionBody self) : Reader Statement)
      (Statement.Regular spelling) := by
    refine (gives_typeTagOr .nil).bind fun result _ => ?_
    exact (gives_functionBody gives).bind fun body regular => .pure ⟨named, paramsNamed, regular⟩
  exact Gives.ite (fun _ => (Gives.expectMark .operatorArrow "=>").bind fun _ _ => following)
    fun _ => following

/-- The target that is read has the shape of one. -/
theorem regular_target {name : Token} {index : List Expression} (named : spelling.Name name)
    (regular : Expression.AllRegular spelling index) :
    (if index.isEmpty then Expression.plain name else .indexed name index).isVariable ∧
      (if index.isEmpty then Expression.plain name else .indexed name index).Regular spelling := by
  cases index with
  | nil => exact ⟨rfl, named⟩
  | cons key keys => exact ⟨rfl, named, List.cons_ne_nil _ _, regular⟩

theorem gives_assignmentRest (literals : spelling.LiteralsFrom) {name operator : Token}
    {index : List Expression} (named : spelling.Name name)
    (regular : Expression.AllRegular spelling index) (sign : operator.kind.isAssignment)
    (append constant : Bool) :
    Gives spelling.token (assignmentRest name index operator append constant)
      (Statement.Regular spelling) := by
  refine (gives_expression literals).bind fun value valueRegular => ?_
  refine gives_semicolon.bind fun _ _ => .pure ?_
  obtain ⟨shaped, targetRegular⟩ := regular_target named regular
  exact ⟨shaped, targetRegular, sign, valueRegular⟩

theorem gives_signRest (literals : spelling.LiteralsFrom)
    (gives : Gives spelling.token self (Statement.Regular spelling)) {name : Token}
    {index : List Expression} (named : spelling.Name name)
    (regular : Expression.AllRegular spelling index) (append constant : Bool) :
    Gives spelling.token (signRest self name index append constant)
      (Statement.Regular spelling) := by
  intro tokens
  cases tokens with
  | nil => exact Gives.fail _ []
  | cons sign tokens =>
    intro a rest all success
    have others : ∀ t ∈ tokens, spelling.token t := fun t member =>
      all t (List.mem_cons_of_mem _ member)
    unfold signRest at success
    dsimp only at success
    split at success
    · exact Gives.fail _ (sign :: tokens) a rest all success
    · rename_i assigns
      split at success
      · split at success
        · exact Gives.failAt _ _ _ tokens a rest others success
        · exact gives_definitionRest gives named _ tokens a rest others success
      · refine gives_assignmentRest literals named regular ?_ append constant tokens a rest
          others success
        simpa only [Bool.not_eq_true', Bool.not_eq_false] using assigns

theorem gives_nameStatement (literals : spelling.LiteralsFrom)
    (gives : Gives spelling.token self (Statement.Regular spelling)) (constant : Bool) :
    Gives spelling.token (nameStatement self constant) (Statement.Regular spelling) := by
  refine (gives_name .identifier).bind fun name named => ?_
  refine (Expression.gives_indexChain (gives_expression literals)).bind fun index regular => ?_
  refine Gives.peekKind.bind fun kind _ => Gives.ite (fun _ => ?_) fun _ => ?_
  · refine Gives.ite (fun _ => .fail _) fun _ => ?_
    refine (Gives.expectMark .leftParen "(").bind fun _ _ => ?_
    refine (Expression.gives_arguments (gives_expression literals)).bind fun args argsRegular => ?_
    refine gives_semicolon.bind fun _ _ => .pure ?_
    cases index with
    | nil => exact ⟨named, argsRegular⟩
    | cons key keys => trivial
  · exact (Gives.eat .newArray).bind fun append _ =>
      gives_signRest literals gives named regular append constant

theorem gives_fromParts (literals : spelling.LiteralsFrom)
    (gives : Gives spelling.token self (Statement.Regular spelling)) :
    Gives spelling.token (fromParts self) (Statement.Regular spelling) := by
  intro tokens
  cases tokens with
  | nil => exact Gives.fail _ []
  | cons token tokens =>
    intro a rest all success
    have others : ∀ t ∈ tokens, spelling.token t := fun t member =>
      all t (List.mem_cons_of_mem _ member)
    have head := gives_expression literals
    have body := gives_blockOf gives
    unfold fromParts at success
    dsimp only at success
    split at success
    case h_1 => exact gives_ifRest literals gives token tokens a rest others success
    case h_2 =>
      exact Gives.bind head (fun condition regular => body.bind fun block bodyRegular =>
        .pure ⟨regular, bodyRegular⟩) tokens a rest others success
    case h_3 =>
      exact Gives.bind head (fun iterable regular => body.bind fun block bodyRegular =>
        .pure ⟨regular, bodyRegular⟩) tokens a rest others success
    case h_4 => exact gives_selectRest literals token tokens a rest others success
    case h_5 =>
      exact Gives.bind gives_semicolon (fun _ _ => .pure trivial) tokens a rest others success
    case h_6 =>
      exact Gives.bind gives_semicolon (fun _ _ => .pure trivial) tokens a rest others success
    case h_7 =>
      refine Gives.bind (gives_expressionOrEnd literals)
        (fun value regular => ?_) tokens a rest others success
      exact gives_semicolon.bind fun _ _ => .pure regular
    case h_8 =>
      refine Gives.bind (gives_expressionOrEnd literals)
        (fun value regular => ?_) tokens a rest others success
      exact gives_semicolon.bind fun _ _ => .pure regular
    case h_9 => exact gives_printRest literals token tokens a rest others success
    case h_10 => exact gives_includeRest token tokens a rest others success
    case h_11 => exact gives_switchRest literals gives token tokens a rest others success
    case h_12 => exact gives_nameStatement literals gives true tokens a rest others success
    case h_13 => exact gives_nameStatement literals gives false (token :: tokens) a rest all success
    case h_16 => exact Gives.fail _ (token :: tokens) a rest all success
    all_goals
      refine Gives.bind body (fun block regular => ?_) (token :: tokens) a rest all success
      exact .pure regular

end Parts

theorem gives_read (literals : spelling.LiteralsFrom) :
    Gives spelling.token read (Statement.Regular spelling) := by
  intro tokens
  induction count : tokens.length using Nat.strongRecOn generalizing tokens with
  | ind count ih =>
    intro a rest all success
    unfold read at success
    refine gives_fromParts literals ?_ tokens a rest all success
    exact Gives.shorterThan fun inner shorter => ih inner.length (count ▸ shorter) inner rfl

theorem gives_readAll (literals : spelling.LiteralsFrom) :
    Gives spelling.token readAll (Statement.AllRegular spelling) := by
  refine Gives.mono (Gives.many (Statement.Regular spelling) ?_) fun _ regular =>
    allRegular_iff.2 regular
  refine Gives.peek.bind fun next _ => ?_
  cases next with
  | none =>
    refine .pure fun s missing => ?_
    cases missing
  | some next =>
    refine (gives_read literals).bind fun s regular => .pure fun t same => ?_
    cases same
    exact regular

end Statement

theorem Program.regular_ofTokens (literals : spelling.LiteralsFrom) {tokens : List Token}
    {file : String} {program : Program} (known : ∀ token ∈ tokens, spelling.token token)
    (read : Program.ofTokens tokens file = .ok program) :
    program.file = file ∧ Statement.AllRegular spelling program.statements := by
  unfold Program.ofTokens TokenList.read at read
  have inside : ∀ token ∈ (TokenList.ofTokens tokens).tokens, spelling.token token := by
    intro token member
    have kept := (List.takeWhile_sublist _).subset member
    exact known token (List.mem_filter.1 kept).1
  cases found : Statement.readAll (TokenList.ofTokens tokens).tokens with
  | error unexpected =>
    rw [found] at read
    cases read
  | ok result =>
    obtain ⟨statements, rest⟩ := result
    rw [found] at read
    cases read
    exact ⟨rfl, (Statement.gives_readAll literals _ statements rest inside found).1⟩

theorem Program.regular_ofSource {source file : String} {program : Program}
    (read : Program.ofSource source file = .ok program) :
    program.file = file ∧ Statement.AllRegular .any program.statements := by
  unfold Program.ofSource at read
  split at read
  · exact Program.regular_ofTokens Spelling.any_literalsFrom (fun _ _ => trivial) read
  · cases read

end Treecode
