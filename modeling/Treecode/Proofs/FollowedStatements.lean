import Treecode.Proofs.FollowedExpressions

set_option autoImplicit false

namespace Treecode.Cursor

open Reader

variable {s : Script} {bound position : Nat}

theorem peekKind_runFrom (distance : Nat) (tokens : List Token) (position : Nat) :
    (peekKind distance).runFrom tokens position =
      some (.ok (((tokens[position + distance]?).map (·.kind)).getD .eof, position)) := rfl

/-- The tokens behind the one under the cursor. -/
theorem drop_tokens {sign : Token} {left : List Token} (here : s.rest position = sign :: left) :
    s.tokens.drop (position + 1) = left ++ s.stop :: s.after := by
  rw [(Script.rest_succ here).1]
  unfold Script.tokens Script.rest
  exact List.drop_append_of_le_length (Script.lt_of_rest here)

theorem runFrom_behind {sign : Token} {left : List Token} (here : s.rest position = sign :: left) :
    behind.runFrom s.tokens position = some (.ok (left ++ s.stop :: s.after, position)) := by
  have within := Script.lt_of_rest here
  have longer := Script.length_tokens (s := s)
  have inside : ¬ s.tokens.length < position + 1 := by omega
  have looked : behind.runFrom s.tokens position =
      (if s.tokens.length < position + 1 then throw (.fault .slice)
        else pure (s.tokens.drop (position + 1)) :
        Walk (List Token)).runFrom s.tokens position := rfl
  rw [looked, if_neg inside, drop_tokens here]
  rfl

theorem getElem?_ahead {sign : Token} {left : List Token} (here : s.rest position = sign :: left)
    (distance : Nat) :
    s.tokens[position + (distance + 1)]? = (left ++ s.stop :: s.after)[distance]? := by
  rw [← drop_tokens here, List.getElem?_drop]
  congr 1
  omega

def arrowBehind (tokens : List Token) (place : Nat) : Bool :=
  decide (((tokens[place + 1]?).map (·.kind)).getD .eof = .operatorArrow)

/-- The parenthesis that closes those in front of it is followed by an arrow exactly where a reader
says so. The count stays above zero: it is one more than that of the reader. -/
theorem closing?_eq {left : List Token} (unended : ∀ token ∈ left, token.kind ≠ .eof) {stop : Token}
    (ended : stop.kind = .eof) (after : List Token) (depth offset : Nat) :
    ∃ place : Option Nat, closing? (depth + 1) offset (left ++ stop :: after) =
      .ok (place.map (offset + ·)) ∧
      Statement.arrowAfterClose depth left = place.any (arrowBehind (left ++ stop :: after)) := by
  induction left generalizing depth offset with
  | nil =>
    refine ⟨none, ?_, rfl⟩
    rw [List.nil_append, closing?.eq_def]
    simp only [ended]
    rfl
  | cons token left ih =>
    have goesOn : ∀ depth', ∃ place : Option Nat,
        closing? (depth' + 1) (offset + 1) (left ++ stop :: after) = .ok (place.map (offset + ·)) ∧
          Statement.arrowAfterClose depth' left =
              place.any (arrowBehind (token :: left ++ stop :: after)) := by
      intro depth'
      obtain ⟨place, closes, arrow⟩ :=
        ih (fun token member => unended token (List.mem_cons_of_mem _ member)) depth' (offset + 1)
      refine ⟨place.map (· + 1), ?_, ?_⟩
      · rw [closes, Option.map_map]
        congr 2
        funext place
        show offset + 1 + place = offset + (place + 1)
        omega
      · rw [arrow]
        cases place <;> rfl
    have here := unended token List.mem_cons_self
    rw [List.cons_append, closing?.eq_def, Statement.arrowAfterClose.eq_def]
    dsimp only
    cases kind : token.kind with
    | leftParen => exact goesOn (depth + 1)
    | rightParen =>
      cases depth with
      | zero =>
        refine ⟨some 0, rfl, ?_⟩
        cases left with
        | nil =>
          simp [arrowBehind, ended]
        | cons next left => rfl
      | succ depth => exact goesOn depth
    | semicolon => exact ⟨none, rfl, rfl⟩
    | eof => exact absurd kind here
    | _ => exact goesOn depth

/-- Looking ahead for the arrow of a definition. -/
theorem runFrom_arrow {sign : Token} {left : List Token} (here : s.rest position = sign :: left) :
    arrowFollowsParameters.runFrom s.tokens position =
      some (.ok (Statement.arrowAfterParameters left, position)) := by
  have unended : ∀ token ∈ left, token.kind ≠ .eof := by
    intro token member
    rw [(Script.rest_succ here).1] at member
    exact s.unended token (List.mem_of_mem_drop member)
  unfold arrowFollowsParameters
  rw [runFrom_bind, peekKind_runFrom, getElem?_ahead here 0]
  cases left with
  | nil =>
    have mark : s.stop.kind ≠ .leftParen := by
      rw [s.ended]
      decide
    show (if s.stop.kind ≠ .leftParen then pure false else _ : Walk Bool).runFrom
      s.tokens position = _
    rw [if_pos mark]
    rfl
  | cons next left =>
    show (if next.kind ≠ .leftParen then pure false else _ : Walk Bool).runFrom s.tokens position =
      some (.ok (next.kind == .leftParen && Statement.arrowAfterClose 0 left, position))
    by_cases opens : next.kind = .leftParen
    · obtain ⟨place, closes, arrow⟩ :=
        closing?_eq (fun token member => unended token (List.mem_cons_of_mem _ member))
          s.ended s.after 0 1
      have begun : closing? 0 0 (next :: left ++ s.stop :: s.after) = .ok (place.map (1 + ·)) := by
        rw [List.cons_append, closing?.eq_def, ← closes]
        simp only [opens]
      rw [if_neg (not_not_intro opens), runFrom_bind, runFrom_behind here]
      dsimp only
      rw [begun, opens, beq_self_eq_true, Bool.true_and, arrow]
      cases place with
      | none => rfl
      | some place =>
        dsimp only [Option.map_some]
        rw [runFrom_bind, peekKind_runFrom, show 1 + place + 2 = place + 2 + 1 by omega,
          getElem?_ahead here]
        rfl
    · rw [if_pos opens, beq_eq_false_iff_ne.2 opens]
      rfl

theorem runFrom_defines {sign : Token} {left : List Token} (here : s.rest position = sign :: left) :
    (defines sign.kind).runFrom s.tokens position =
      some (.ok (decide (sign.kind = .operatorArrow ∨
        sign.kind = .operatorAssignment ∧ Statement.arrowAfterParameters left), position)) := by
  unfold defines
  by_cases arrow : sign.kind = .operatorArrow
  · rw [if_pos arrow, decide_eq_true (.inl arrow)]
    rfl
  · rw [if_neg arrow]
    by_cases sets : sign.kind = .operatorAssignment
    · rw [if_pos sets, runFrom_arrow here]
      simp [sets]
    · rw [if_neg sets]
      simp [arrow, sets, runFrom_pure]

theorem follows_semicolon : Follows s bound semicolon Statement.semicolon :=
  .expectMark (by decide) _

theorem follows_expressionOrEnd :
    Follows s bound language.expressionOrEnd Statement.expressionOrEnd :=
  Follows.check (.pure none) (follows_expression.map some)

/-- The name of a type, which is looked for only at a token of that kind and so never in the mark of
the end. -/
theorem follows_typeTagOr (otherwise : Kind) :
    Follows s bound (typeTagOr otherwise) (Statement.typeTagOr otherwise) := by
  intro position within short
  apply Script.Agree.check within
  · intro fits
    obtain ⟨token, left, here, _⟩ := cons_of_nextKind fits (by decide)
    have after := Script.rest_succ here
    have inside := Script.lt_of_rest here
    have unfit := (Follows.misfit .typeName : Follows s bound (misfit .typeName : Walk Kind) _)
      position within short
    rw [if_pos rfl, typeTag, runFrom_bind, runFrom_current within, Script.ahead_eq here]
    rw [here] at unfit ⊢
    unfold Statement.typeTag
    dsimp only
    cases Kind.ofTypeName? token.text with
    | none => exact unfit
    | some named =>
      rw [after.1]
      exact ⟨position + 1, Nat.le_succ _, inside,
        rfl, by rw [runFrom_bind, runFrom_advance here]; rfl⟩
  · intro _
    exact Follows.pure otherwise position within short

theorem follows_parameter : Follows s bound parameter Statement.parameter :=
  (follows_typeTagOr .any).bind fun _ => (Follows.expect (by decide) .parameterName).map _

theorem follows_stringLiteral (expected : Expectation) :
    Follows s bound (stringLiteral expected) (Statement.stringLiteral expected) := by
  refine (Follows.expect (by decide) expected).bind fun token => ?_
  simp only [value_eq, pure_bind]
  cases token.value with
  | error fault => exact .misfitAt _ _ _
  | ok value =>
    cases value with
    | string text => exact .pure _
    | _ => exact .misfitAt _ _ _

theorem follows_assignment (name : Token) (index : List Expression) (sign : Token)
    (append constant : Bool) : Follows s bound (language.assignment name index sign append constant)
      (Statement.assignmentRest name index sign append constant) :=
  follows_expression.bind fun _ => follows_semicolon.bind fun _ => .pure _

theorem follows_separated {α : Type} {item : Walk α} {item' : Reader α}
    (follows : Follows s bound item item') :
    Follows s bound (item.separated []) (Reader.separated item') := by
  refine Follows.collectItems (fun items => ?_) follows
  rw [Walk.separated]
  rfl

theorem follows_field : Follows s bound field Statement.field := by
  refine (Follows.expect (by decide) _).bind fun name => (Follows.eat (by decide)).bind fun _ =>
    Follows.ite ?_ (.pure _)
  exact (Follows.expect (by decide) _).map _

theorem follows_select (word : Token) :
    Follows s bound (language.select word) (Statement.selectRest word) := by
  refine (Follows.eat (by decide)).bind fun distinct => (Follows.take (by decide)).bind fun star =>
    ?_
  -- After the fields, and again after the condition, every select goes on alike.
  cases star
  case' none => refine (follows_separated follows_field).bind fun fields => ?_
  case' some => refine Follows.bind (.pure _) fun fields => ?_
  all_goals
    refine (Follows.expectMark (by decide) _).bind fun _ => follows_expression.bind fun source => ?_
    refine (Follows.eat (by decide)).bind fun filtered =>
      Follows.ite (follows_expression.bind fun condition => ?_) ?_
    all_goals
      refine Follows.bind (.pure _) fun filter => (Follows.eat (by decide)).bind fun merge => ?_
      refine (Follows.expectMark (by decide) _).bind fun _ => follows_expression.bind fun target =>
        ?_
      exact Follows.ite (.misfitAt _ _ _) (follows_semicolon.map _)

theorem follows_includes (word : Token) :
    Follows s bound (includes word) (Statement.includeRest word) :=
  (follows_separated (Follows.expect (by decide) _)).bind fun _ => follows_semicolon.map _

theorem follows_print (word : Token) :
    Follows s bound (language.print word) (Statement.printRest word) :=
  (Follows.expectMark (by decide) _).bind fun _ =>
    (follows_arguments follows_expression).bind fun _ =>
    follows_semicolon.map _

def nextParameter : Walk (Option Parameter) := do
  if ← eat .comma then
    if ← check .rightParen then return none else return some (← parameter)
  else return none

def readNextParameter : Reader (Option Parameter) := do
  if ← Reader.eat .comma then
    if (← Reader.peekKind) = .rightParen then return none else return some (← Statement.parameter)
  else return none

theorem turns_parameter : Turns s bound nextParameter readNextParameter :=
  Turns.eat (by decide) (Follows.check (.pure none) (follows_parameter.map some))

theorem separatedUpTo_eq (params : List Parameter) :
    (check .rightParen >>= fun closed => if closed then pure params else
      parameter >>= fun param =>
        afterItem (parameter.separatedUpTo .rightParen) (params ++ [param])) =
      parameter.separatedUpTo .rightParen params := by
  rw [Walk.separatedUpTo]
  rfl

theorem afterItem_separatedUpTo (params : List Parameter) :
    afterItem (parameter.separatedUpTo .rightParen) params = nextParameter >>= fun item =>
      item.elim (pure params) fun param =>
        afterItem (parameter.separatedUpTo .rightParen) (params ++ [param]) := by
  unfold nextParameter
  rw [afterItem, bind_assoc]
  congr
  funext more
  cases more with
  | false => rfl
  | true =>
    show parameter.separatedUpTo .rightParen params = _
    rw [← separatedUpTo_eq, if_pos rfl, bind_assoc]
    congr
    funext closed
    cases closed with
    | false =>
      rw [if_neg Bool.false_ne_true, if_neg Bool.false_ne_true, bind_assoc]
      rfl
    | true => rfl

theorem follows_parametersRest (first : Parameter) : Follows s bound
    (do
      let params ← afterItem (parameter.separatedUpTo .rightParen) [first]
      let _ ← expectMark .rightParen ")"
      return params)
    (do
      let others ← many readNextParameter
      let _ ← Reader.expectMark .rightParen ")"
      return first :: others) := by
  refine Follows.then (Follows.loop afterItem_separatedUpTo turns_parameter
      (fun acc _ position within short _ => Follows.pure acc position within short) [first])
    fun others => ?_
  rw [foldl_concat]
  exact (Follows.expectMark (by decide) ")").map _

/-- A mark that is looked at first and then taken, or taken at once. -/
theorem eat_or {α : Type} {kind : Kind} (mark : kind ≠ .eof) (spelling : String) (a : α)
    (other : Reader α) (tokens : List Token) :
    (Reader.peekKind >>= fun found =>
        if found = kind then do
          let _ ← Reader.expectMark kind spelling
          return a
        else other) tokens =
      (do if ← Reader.eat kind then return a else other : Reader α) tokens := by
  cases tokens with
  | nil =>
    show (if Kind.eof = kind then _ else other : Reader α) [] = other []
    rw [if_neg mark.symm]
  | cons token left =>
    show (if token.kind = kind then _ else other : Reader α) (token :: left) = _
    rw [reader_eat_bind, bind_apply]
    by_cases fits : token.kind = kind
    · have taken : Reader.take kind (token :: left) = .ok (some token, left) :=
        if_pos (List.mem_singleton.2 fits)
      have expected : Reader.expectMark kind spelling (token :: left) = .ok (token, left) :=
        if_pos fits
      rw [if_pos fits, taken, bind_of_ok expected]
      rfl
    · have untaken : Reader.take kind (token :: left) = .ok (none, token :: left) :=
        if_neg fun member => fits (List.mem_singleton.1 member)
      rw [if_neg fits, untaken]
      rfl

theorem follows_parameters : Follows s bound parameters Statement.parameters := by
  refine (Follows.expectMark (by decide) "(").bind fun _ => ?_
  refine Follows.of_eq ?_ (eat_or (by decide) ")" [] _)
  rw [← separatedUpTo_eq, bind_assoc]
  refine Follows.check ?_ ?_
  · exact (Follows.expectMark (by decide) ")").map _
  · rw [if_neg Bool.false_ne_true, bind_assoc]
    exact follows_parameter.bind follows_parametersRest

theorem blockLoop_eq (brace : Token) (statements : List Statement) :
    language.blockLoop brace statements = language.blockTurn >>= fun item =>
      item.elim (do
        let _ ← advance
        return .mk brace statements) fun next =>
          language.blockLoop brace (statements ++ [next]) := by
  rw [Grammar.blockLoop]
  congr
  funext item
  cases item <;> rfl

theorem elifLoop_eq (elifs : List Clause) :
    language.elifLoop elifs = language.elifTurn >>= fun item =>
      item.elim (pure elifs) fun next => language.elifLoop (elifs ++ [next]) := by
  rw [Grammar.elifLoop]
  congr
  funext item
  cases item <;> rfl

theorem caseLoop_eq (clauses : List Clause) :
    language.caseLoop clauses = language.caseTurn >>= fun item =>
      item.elim (pure clauses) fun next => language.caseLoop (clauses ++ [next]) := by
  rw [Grammar.caseLoop]
  congr
  funext item
  cases item <;> rfl

def readBlockItem (self : Reader Statement) : Reader (Option Statement) := do
  match ← peek with
  | none => fail (.mark "\x7d")
  | some next => if next.kind = .rightBrace then return none else return some (← self)

theorem readBlockItem_cons (self : Reader Statement) (token : Token) (left : List Token) :
    readBlockItem self (token :: left) =
      (if token.kind = .rightBrace then pure none else do return some (← self) :
        Reader (Option Statement)) (token :: left) := rfl

/-- A block without a further statement is closed. -/
theorem readBlockItem_none {self : Reader Statement} {tokens left : List Token}
    (read : readBlockItem self tokens = .ok (none, left)) : nextKind left = .rightBrace := by
  cases tokens with
  | nil => cases read
  | cons token others =>
    rw [readBlockItem_cons] at read
    by_cases closes : token.kind = .rightBrace
    · rw [if_pos closes] at read
      cases read
      exact closes
    · rw [if_neg closes] at read
      obtain ⟨next, between, first, last⟩ := bind_ok read
      cases last

def closeBlock (brace : Token) (statements : List Statement) : Reader Block := do
  let _ ← Reader.expectMark .rightBrace "\x7d"
  return .mk brace statements

/-- A block, with its opening brace taken first. -/
theorem blockOf_eq (self : Reader Statement) (tokens : List Token) :
    (do
      match ← Reader.take .newRecord with
      | some brace => return .mk brace []
      | none =>
        let brace ← Reader.expectMark .leftBrace "\x7b"
        many (readBlockItem self) >>= closeBlock brace : Reader Block) tokens =
          Statement.blockOf self tokens := by
  cases tokens with
  | nil => rfl
  | cons token left =>
    unfold Statement.blockOf
    by_cases empty : token.kind = .newRecord
    · have taken : Reader.take .newRecord (token :: left) = .ok (some token, left) :=
        if_pos (List.mem_singleton.2 empty)
      rw [bind_of_ok taken]
      simp only [empty]
      rfl
    · have untaken : Reader.take .newRecord (token :: left) = .ok (none, token :: left) :=
        if_neg fun member => empty (List.mem_singleton.1 member)
      rw [bind_of_ok untaken]
      dsimp only
      by_cases opens : token.kind = .leftBrace
      · have expected : Reader.expectMark .leftBrace "\x7b" (token :: left) = .ok (token, left) :=
          if_pos opens
        rw [bind_of_ok expected]
        simp only [opens]
        rfl
      · have expected : Reader.expectMark .leftBrace "\x7b" (token :: left) =
            .error ⟨some token, token.kind, .mark "\x7b"⟩ := if_neg opens
        rw [bind_of_error expected]
        split
        · contradiction
        · contradiction
        · rfl

section Parts

variable {self : Reader Statement} (parts : Follows s bound language.statement self)
  (takes : ∀ tokens statement rest, self tokens = .ok (statement, rest) →
    rest.length < tokens.length)

include parts takes

theorem turns_block : Turns s bound language.blockTurn (readBlockItem self) := by
  constructor
  · intro position within short
    have unfit := (Follows.misfit (.mark "\x7d") :
      Follows s bound (misfit _ : Walk (Option Statement)) _) position within short
    have next := parts.map some position within short
    have noStatement := (Follows.pure none : Follows s bound _ (pure (none : Option Statement)))
      position within short
    rw [Grammar.blockTurn, runFrom_bind, runFrom_check within, Script.kind_ahead]
    dsimp only
    cases here : s.rest position with
    | nil =>
      rw [here] at unfit
      rw [show nextKind [] = .eof from rfl, decide_eq_false (by decide), if_neg Bool.false_ne_true,
        runFrom_bind, runFrom_check within, Script.kind_ahead, here]
      exact unfit
    | cons token left =>
      have mark := (Script.rest_succ here).2
      rw [here] at next noStatement
      rw [show nextKind (token :: left) = token.kind from rfl, readBlockItem_cons]
      by_cases closes : token.kind = .rightBrace
      · rw [decide_eq_true closes, if_pos rfl, if_pos closes]
        exact noStatement
      · rw [decide_eq_false closes, if_neg Bool.false_ne_true, if_neg closes, runFrom_bind,
          runFrom_check within,
          Script.kind_ahead, here, show nextKind (token :: left) = token.kind from rfl,
            decide_eq_false mark]
        exact next
  · intro position short item left read
    cases here : s.rest position with
    | nil =>
      rw [here] at read
      cases read
    | cons token others =>
      rw [here, readBlockItem_cons] at read
      by_cases closes : token.kind = .rightBrace
      · rw [if_pos closes] at read
        cases read
      · rw [if_neg closes] at read
        obtain ⟨next, between, first, last⟩ := bind_ok read
        cases last
        exact takes _ _ _ first

theorem follows_block : Follows s (bound + 1) language.block (Statement.blockOf self) := by
  rw [Grammar.block]
  refine Follows.of_eq (Follows.taking (by decide) (fun brace => .pure _) ?_) (blockOf_eq self)
  refine Follows.expecting (by decide) fun brace => ?_
  have loop : Follows s bound (language.blockLoop brace [])
      (many (readBlockItem self) >>= fun statements =>
        closeBlock brace (statements.foldl (fun acc next => acc ++ [next]) [])) := by
    refine Follows.loop (blockLoop_eq brace) (turns_block parts takes) ?_ []
    intro statements earlier position within _ read
    obtain ⟨stop, left, here, fits⟩ := cons_of_nextKind (readBlockItem_none read) (by decide)
    have after := Script.rest_succ here
    have inside := Script.lt_of_rest here
    apply Script.Agree.expect here fits
    rw [after.1]
    exact ⟨position + 1, Nat.le_refl _, inside, rfl, rfl⟩
  simp only [foldl_concat, List.nil_append] at loop
  exact loop

theorem follows_body : Follows s bound language.block (Statement.blockOf self) :=
  (follows_block parts takes).mono (Nat.le_succ bound)

theorem follows_clause (word : Token) :
    Follows s bound (language.clause word) (Statement.clause self word) := by
  rw [Grammar.clause]
  exact follows_expression.bind fun _ => (follows_body parts takes).map _

theorem follows_ifElse (word : Token) :
    Follows s bound (language.ifElse word) (Statement.ifRest self word) := by
  rw [Grammar.ifElse]
  refine follows_expression.bind fun condition => (follows_body parts takes).bind fun body =>
    Follows.bind ?elifs ?otherwise
  case elifs =>
    refine Follows.collect elifLoop_eq ?_
    rw [Grammar.elifTurn]
    exact Turns.takeAny (by decide) fun word => (follows_clause parts takes word).map some
  case otherwise =>
    intro elifs
    refine (Follows.take (by decide)).bind fun elseWord => ?_
    cases elseWord with
    | some elseWord => exact (follows_body parts takes).map _
    | none => exact .pure _

theorem follows_caseClause (word : Token) :
    Follows s bound (language.caseClause word) (Statement.caseRest self word) := by
  rw [Grammar.caseClause]
  refine follows_expression.bind fun guard => ?_
  cases guard with
  | literal token value =>
    exact (Follows.expectMark (by decide) _).bind fun _ => (follows_body parts takes).map _
  | _ => exact .misfitAt _ _ _

theorem follows_switch (word : Token) :
    Follows s bound (language.switch word) (Statement.switchRest self word) := by
  rw [Grammar.switch]
  refine follows_expression.bind fun head => Follows.ite (.misfitAt _ _ _) ?_
  refine (Follows.eat (by decide)).bind fun _ => Follows.ite (.pure _) ?_
  refine (Follows.expectMark (by decide) _).bind fun _ => Follows.bind ?clauses ?defaultBlock
  case clauses =>
    refine Follows.collect caseLoop_eq ?_
    rw [Grammar.caseTurn]
    exact Turns.takeAny (by decide) fun word => (follows_caseClause parts takes word).map some
  case defaultBlock =>
    intro clauses
    refine (Follows.take (by decide)).bind fun defaultWord => ?_
    cases defaultWord with
    | some defaultWord =>
      refine (Follows.expectMark (by decide) _).bind fun _ =>
        (follows_body parts takes).bind fun body => ?_
      exact Follows.bind (.pure _) fun default => (Follows.expect (by decide) _).map _
    | none => exact Follows.bind (.pure _) fun default => (Follows.expect (by decide) _).map _

theorem follows_functionBody :
    Follows s bound language.functionBody (Statement.functionBody self) := by
  rw [Grammar.functionBody]
  refine (Follows.eat (by decide)).bind fun _ => Follows.ite ?_ ?_
  · exact (follows_stringLiteral _).bind fun module =>
      (Follows.expectMark (by decide) _).bind fun _ =>
      (follows_stringLiteral _).bind fun function => follows_semicolon.map _
  · exact (follows_body parts takes).bind fun body => (Follows.eat (by decide)).map _

theorem follows_definition (name : Token) (arrowLater : Bool) :
    Follows s bound (language.definition name arrowLater)
      (Statement.definitionRest self name arrowLater) := by
  rw [Grammar.definition]
  refine follows_parameters.bind fun params => ?_
  cases arrowLater with
  | false => exact (follows_typeTagOr .nil).bind fun _ => (follows_functionBody parts takes).map _
  | true =>
    exact (Follows.expectMark (by decide) _).bind fun _ => (follows_typeTagOr .nil).bind fun _ =>
      (follows_functionBody parts takes).map _

/-- A sign that is looked at first, and then the rest of an assignment or a definition. -/
theorem follows_signRest (name : Token) (index : List Expression) (append constant : Bool) :
    Follows s bound (language.signRest name index append constant)
      (Statement.signRest self name index append constant) := by
  intro position within short
  have unfit := (Follows.misfit .assignmentOperator : Follows s bound (misfit _ : Walk Statement) _)
    position within short
  rw [Grammar.signRest, runFrom_bind, runFrom_current within]
  dsimp only
  cases here : s.rest position with
  | nil =>
    rw [here] at unfit
    have atEnd : (s.ahead position).kind = .eof := by
      rw [Script.kind_ahead, here]
      rfl
    rw [atEnd]
    exact unfit
  | cons sign left =>
    have after := Script.rest_succ here
    have inside := Script.lt_of_rest here
    have shorter : (s.rest (position + 1)).length < bound := by
      rw [Script.length_rest] at short ⊢
      omega
    rw [here] at unfit
    rw [Script.ahead_eq here, Statement.signRest]
    by_cases assigns : sign.kind.isAssignment
    · simp only [assigns, Bool.not_true, Bool.false_eq_true, ↓reduceIte]
      rw [runFrom_bind, runFrom_defines here]
      dsimp only
      by_cases arrow : sign.kind = .operatorArrow ∨
        sign.kind = .operatorAssignment ∧ Statement.arrowAfterParameters left
      · rw [decide_eq_true arrow, if_pos rfl, if_pos arrow]
        by_cases plain : (append || !index.isEmpty) = true
        · rw [if_pos plain, if_pos plain]
          rfl
        · rw [if_neg plain, if_neg plain]
          apply Script.Agree.advance here
          rw [after.1]
          exact follows_definition parts takes name _ (position + 1) inside shorter
      · rw [decide_eq_false arrow, if_neg Bool.false_ne_true, if_neg arrow]
        apply Script.Agree.advance here
        rw [after.1]
        exact follows_assignment name index sign append constant (position + 1) inside shorter
    · simp only [assigns, Bool.not_false, ↓reduceIte]
      exact unfit

theorem follows_nameStatement (constant : Bool) :
    Follows s (bound + 1) (language.nameStatement constant)
      (Statement.nameStatement self constant) := by
  rw [Grammar.nameStatement]
  refine Follows.expecting (by decide) fun name =>
    (follows_indexChain follows_expression).bind fun index => ?_
  intro position within short
  apply Script.Agree.check within
  · intro fits
    obtain ⟨token, left, here, kind⟩ := cons_of_nextKind fits (by decide)
    rw [if_pos rfl]
    cases constant with
    | true => exact Follows.misfit .assignmentAfterConst position within short
    | false =>
      have after := Script.rest_succ here
      have inside := Script.lt_of_rest here
      have shorter : (s.rest (position + 1)).length < bound := by
        rw [Script.length_rest] at short ⊢
        omega
      have args := (follows_arguments follows_expression :
        Follows s bound _ (Expression.arguments _))
      apply Script.Agree.expect here kind
      rw [after.1]
      exact (args.bind fun args => follows_semicolon.map fun _ =>
        if index.isEmpty then Statement.call name args else .indexedCall name index args)
          (position + 1) inside shorter
  · intro _
    exact ((Follows.eat (by decide)).bind fun append =>
      follows_signRest parts takes name index append constant) position within short

def statementKinds : List Kind :=
  [.ifStatement, .whileStatement, .foreachStatement, .selectStatement, .breakStatement,
    .continueStatement,
    .returnStatement, .haltStatement, .printStatement, .includeStatement, .switchStatement,
      .constStatement,
    .identifier, .leftBrace, .newRecord]

omit parts takes in
/-- Nothing else starts a statement. -/
theorem runFrom_statement_other {position : Nat} (within : position ≤ s.front.length)
    (other : (s.ahead position).kind ∉ statementKinds) :
    language.statement.runFrom s.tokens position =
      (misfit .statement : Walk Statement).runFrom s.tokens position := by
  simp only [statementKinds, List.mem_cons, List.not_mem_nil, or_false, not_or] at other
  rw [Grammar.statement, runFrom_bind, runFrom_current within]
  dsimp only
  split
  case h_16 => rfl
  all_goals next kind => exact absurd kind (by simp only [other, not_false_eq_true])

omit parts takes in
theorem fromParts_other {token : Token} (other : token.kind ∉ statementKinds) (left : List Token) :
    Statement.fromParts self (token :: left) = fail .statement (token :: left) := by
  simp only [statementKinds, List.mem_cons, List.not_mem_nil, or_false, not_or] at other
  unfold Statement.fromParts
  dsimp only
  split
  case h_16 => rfl
  all_goals next kind => exact absurd kind (by simp only [other, not_false_eq_true])

/-- A statement, where the grammar refers to itself after a token. -/
theorem follows_fromParts :
    Follows s (bound + 1) language.statement (Statement.fromParts self) := by
  intro position within short
  have unfit := (Follows.misfit .statement : Follows s (bound + 1) (misfit _ : Walk Statement) _)
    position within short
  cases here : s.rest position with
  | nil =>
    rw [here] at unfit
    have atEnd : (s.ahead position).kind = .eof := by
      rw [Script.kind_ahead, here]
      rfl
    rw [runFrom_statement_other within (by rw [atEnd]; decide)]
    exact unfit
  | cons token left =>
    have after := Script.rest_succ here
    have inside := Script.lt_of_rest here
    have ahead := Script.ahead_eq here
    have shorter : (s.rest (position + 1)).length < bound := by
      rw [Script.length_rest] at short ⊢
      omega
    have rest : ∀ {walk : Walk Statement} {reader : Reader Statement}, Follows s bound walk reader →
        s.Agree position ((do let _ ← advance; walk : Walk Statement).runFrom s.tokens position)
            (reader left) := by
      intro walk reader follows
      apply Script.Agree.advance here
      rw [after.1]
      exact follows (position + 1) inside shorter
    have whole : ∀ {walk : Walk Statement} {reader : Reader Statement},
      Follows s (bound + 1) walk reader →
        s.Agree position (walk.runFrom s.tokens position) (reader (token :: left)) := by
      intro walk reader follows
      rw [← here]
      exact follows position within short
    have body := follows_body parts takes
    have block := (follows_block parts takes).map Statement.block
    rw [here] at unfit
    by_cases special : token.kind ∈ statementKinds
    · simp only [statementKinds, List.mem_cons, List.not_mem_nil, or_false] at special
      rw [Grammar.statement, runFrom_bind, runFrom_current within, ahead]
      unfold Statement.fromParts
      dsimp only
      rcases special with kind | kind | kind | kind | kind | kind | kind | kind | kind | kind |
        kind | kind | kind | kind | kind
      all_goals simp only [kind]
      · exact rest (follows_ifElse parts takes token)
      · exact rest (follows_expression.bind fun condition => body.map _)
      · exact rest (follows_expression.bind fun iterable => body.map _)
      · exact rest (follows_select token)
      · exact rest (follows_semicolon.map _)
      · exact rest (follows_semicolon.map _)
      · exact rest (follows_expressionOrEnd.bind fun value => follows_semicolon.map _)
      · exact rest (follows_expressionOrEnd.bind fun value => follows_semicolon.map _)
      · exact rest (follows_print token)
      · exact rest (follows_includes token)
      · exact rest (follows_switch parts takes token)
      · exact rest ((follows_nameStatement parts takes true).mono (Nat.le_succ bound))
      · exact whole (follows_nameStatement parts takes false)
      · exact whole block
      · exact whole block
    · rw [runFrom_statement_other within (by rw [ahead]; exact special), fromParts_other special]
      exact unfit

end Parts

/-- A cursor reads a statement as a reader does. -/
theorem follows_statement : Follows s bound language.statement Statement.read := by
  induction bound with
  | zero => exact fun _ _ short => absurd short (Nat.not_lt_zero _)
  | succ bound ih =>
    intro position within short
    rw [Statement.read]
    exact follows_fromParts (ih.shorterThan (Nat.le_of_lt_succ short))
      (fun _ _ _ => length_of_shorterThan fun _ _ _ => Statement.length_of_read) position within
        (Nat.lt_succ_self _)

end Treecode.Cursor
