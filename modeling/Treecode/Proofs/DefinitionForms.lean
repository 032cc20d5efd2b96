import Treecode.Proofs.Lookahead
import Treecode.Proofs.StatementExtension
import Treecode.Proofs.StatementMovement

set_option autoImplicit false

namespace Treecode

open Reader

/-- A type that may be missing. -/
inductive TypeTag (otherwise : Kind) : Kind → List Token → Prop where
  | none : TypeTag otherwise otherwise []
  | some {tag : Token} {declared : Kind} (tagged : tag.kind = .typeName)
    (names : Kind.ofTypeName? tag.text = some declared) : TypeTag otherwise declared [tag]

/-- A parameter: a name, perhaps with its type before it. -/
inductive Parameter.Written : Parameter → List Token → Prop where
  | mk {name : Token} {declared : Kind} {tag : List Token} (tagged : TypeTag .any declared tag)
    (named : name.kind = .identifier) : Written ⟨name, declared⟩ (tag ++ [name])

/-- Further parameters, each after a comma. A comma may follow the last one. -/
inductive MoreParameters : List Parameter → List Token → Prop where
  | nil : MoreParameters [] []
  | comma {mark : Token} (separates : mark.kind = .comma) : MoreParameters [] [mark]
  | cons {mark : Token} {param : Parameter} {params : List Parameter} {tokens rest : List Token}
    (separates : mark.kind = .comma) (first : param.Written tokens)
    (others : MoreParameters params rest) :
    MoreParameters (param :: params) (mark :: (tokens ++ rest))

inductive ParameterList : List Parameter → List Token → Prop where
  | nil {opening closing : Token} (opens : opening.kind = .leftParen)
      (closes : closing.kind = .rightParen) : ParameterList [] [opening, closing]
  | cons {opening closing : Token} {param : Parameter} {params : List Parameter}
      {tokens rest : List Token}
    (opens : opening.kind = .leftParen) (first : param.Written tokens)
    (others : MoreParameters params rest)
    (closes : closing.kind = .rightParen) :
    ParameterList (param :: params) (opening :: (tokens ++ (rest ++ [closing])))

namespace Statement

variable {more : List Token}

/-- A type, or none in front of another kind of token. -/
theorem typeTagOr_of_tag {otherwise declared : Kind} {tag : List Token}
    (tagged : TypeTag otherwise declared tag)
    (other : nextKind more ≠ .typeName) :
    typeTagOr otherwise (tag ++ more) = .ok (declared, more) := by
  cases tagged with
  | none =>
    show (if nextKind more = .typeName then typeTag else Pure.pure otherwise : Reader Kind) more = _
    rw [if_neg other]
    rfl
  | @some tag _ tagged names =>
    show (if tag.kind = .typeName then typeTag else Pure.pure otherwise : Reader Kind)
      (tag :: more) = _
    rw [if_pos tagged, typeTag, names]

theorem parameter_of_written {param : Parameter} {tokens : List Token}
    (written : param.Written tokens) : parameter (tokens ++ more) = .ok (param, more) := by
  cases written with
  | @mk name declared tag tagged named =>
    have other : nextKind (name :: more) ≠ .typeName := by
      show name.kind ≠ _
      rw [named]
      decide
    rw [List.append_assoc]
    exact (bind_of_ok (typeTagOr_of_tag tagged other)).trans (bind_of_ok (expect_of_kind named))

theorem nextKind_of_written {param : Parameter} {tokens : List Token}
    (written : param.Written tokens) :
    nextKind (tokens ++ more) = .typeName ∨ nextKind (tokens ++ more) = .identifier := by
  cases written with
  | mk tagged named =>
    cases tagged with
    | none => exact .inr named
    | some tagged names => exact .inl tagged

def nextParameter : Reader (Option Parameter) := do
  if ← eat .comma then
    if (← peekKind) = .rightParen then return none else return some (← parameter)
  else return none

def parametersRest : Reader (List Parameter) := do
  if ← eat .rightParen then return []
  else
    let first ← parameter
    let others ← many nextParameter
    let _ ← expectMark .rightParen ")"
    return first :: others

/-- After a comma stands a parameter or the mark that closes them. -/
theorem nextParameter_comma {mark : Token} {tokens : List Token} (separates : mark.kind = .comma) :
    nextParameter (mark :: tokens) =
      if nextKind tokens = .rightParen then .ok (none, tokens)
      else (do return some (← parameter) : Reader (Option Parameter)) tokens := by
  refine (bind_of_ok (eat_of_kind separates)).trans ?_
  show (if nextKind tokens = .rightParen then Pure.pure none else _ :
    Reader (Option Parameter)) tokens = _
  split <;> rfl

theorem nextParameter_other {tokens : List Token} (other : nextKind tokens ≠ .comma) :
    nextParameter tokens = .ok (none, tokens) := bind_of_ok (eat_of_ne other)

/-- Further parameters are read up to the mark that closes them. -/
theorem many_of_moreParameters {params : List Parameter} {tokens : List Token} {closing : Token}
    (written : MoreParameters params tokens) (closes : closing.kind = .rightParen) :
    many nextParameter (tokens ++ closing :: more) = .ok (params, closing :: more) := by
  have next : nextKind (closing :: more) = .rightParen := closes
  induction written with
  | nil => exact many_of_none (nextParameter_other (by rw [List.nil_append, next]; decide))
  | comma separates => exact many_of_none ((nextParameter_comma separates).trans (if_pos next))
  | @cons mark param params tokens rest separates first others ih =>
    have other : nextKind (tokens ++ (rest ++ closing :: more)) ≠ .rightParen := by
      rcases nextKind_of_written first with kind | kind <;> rw [kind] <;> decide
    have step : nextParameter (mark :: (tokens ++ (rest ++ closing :: more))) =
        .ok (some param, rest ++ closing :: more) := by
      rw [nextParameter_comma separates, if_neg other]
      exact bind_of_ok (parameter_of_written first)
    have shorter : (rest ++ closing :: more).length <
        (mark :: (tokens ++ (rest ++ closing :: more))).length := by
      simp only [List.length_cons, List.length_append]
      omega
    rw [List.cons_append, List.append_assoc, many_of_some step shorter, ih]

theorem parameters_of_list {params : List Parameter} {tokens : List Token}
    (written : ParameterList params tokens) : parameters (tokens ++ more) = .ok (params, more) := by
  have opened : ∀ {opening : Token} {rest : List Token}, opening.kind = .leftParen →
      parameters (opening :: rest) = parametersRest rest := fun opens =>
        bind_of_ok (expect_of_kind opens)
  cases written with
  | nil opens closes =>
    rw [List.cons_append, opened opens]
    exact bind_of_ok (eat_of_kind closes)
  | @cons opening closing param params tokens rest opens first others closes =>
    have other : nextKind (tokens ++ (rest ++ closing :: more)) ≠ .rightParen := by
      rcases nextKind_of_written first with kind | kind <;> rw [kind] <;> decide
    rw [List.cons_append, opened opens, List.append_assoc, List.append_assoc]
    refine (bind_of_ok (eat_of_ne other)).trans ?_
    refine (bind_of_ok (parameter_of_written first)).trans ?_
    refine (bind_of_ok (many_of_moreParameters others closes)).trans ?_
    exact bind_of_ok (expect_of_kind closes)

theorem kind_of_written {param : Parameter} {tokens : List Token} (written : param.Written tokens) :
    ∀ token ∈ tokens, token.kind ∈ [Kind.typeName, .identifier, .comma] := by
  cases written with
  | mk tagged named =>
    cases tagged with
    | none => simp [named]
    | some tagged names => simp [named, tagged]

theorem kind_of_more {params : List Parameter} {tokens : List Token}
    (written : MoreParameters params tokens) :
    ∀ token ∈ tokens, token.kind ∈ [Kind.typeName, .identifier, .comma] := by
  induction written with
  | nil => exact List.forall_mem_nil _
  | comma separates => simp [separates]
  | cons separates first others ih =>
    exact List.forall_mem_cons.2
      ⟨by simp [separates], List.forall_mem_append.2 ⟨kind_of_written first, ih⟩⟩

/-- Tokens that are no parentheses and no semicolons keep the look ahead inside its parentheses. -/
theorem arrowAfterClose_inside {tokens : List Token}
    (inside : ∀ token ∈ tokens, token.kind ∈ [Kind.typeName, .identifier, .comma]) (depth : Nat) :
    arrowAfterClose depth (tokens ++ more) = arrowAfterClose depth more := by
  induction tokens with
  | nil => rfl
  | cons token tokens ih =>
    obtain ⟨here, others⟩ := List.forall_mem_cons.1 inside
    have same : arrowAfterClose depth (token :: (tokens ++ more)) =
        arrowAfterClose depth (tokens ++ more) := by
      simp only [List.mem_cons, List.not_mem_nil, or_false] at here
      rcases here with kind | kind | kind <;> simp only [arrowAfterClose, kind]
    rw [List.cons_append, same, ih others]

theorem arrowAfterParameters_of_list {params : List Parameter} {tokens : List Token} {arrow : Token}
    (written : ParameterList params tokens) (defines : arrow.kind = .operatorArrow) :
    arrowAfterParameters (tokens ++ arrow :: more) = true := by
  have found : ∀ {opening closing : Token} {inner : List Token}, opening.kind = .leftParen →
      closing.kind = .rightParen →
        (∀ token ∈ inner, token.kind ∈ [Kind.typeName, .identifier, .comma]) →
      arrowAfterParameters (opening :: (inner ++ closing :: arrow :: more)) = true := by
    intro opening closing inner opens closes inside
    rw [arrowAfterParameters, arrowAfterClose_inside inside]
    simp only [opens, arrowAfterClose, closes, List.head?_cons, Option.any_some, defines,
      beq_self_eq_true, Bool.and_self]
  cases written with
  | nil opens closes => exact @found _ _ [] opens closes (List.forall_mem_nil _)
  | cons opens first others closes =>
    have whole := found opens closes
      (List.forall_mem_append.2 ⟨kind_of_written first, kind_of_more others⟩)
    simpa using whole

theorem read_named {name sign : Token} {tokens : List Token} (named : name.kind = .identifier)
    (signs : sign.kind ∉ [Kind.leftBracket, .leftParen, .newArray]) :
    read (name :: sign :: tokens) =
      signRest (shorterThan (name :: sign :: tokens) (fun rest _ => read rest) .statement) name
        [] false false (sign :: tokens) := by
  simp only [List.mem_cons, List.not_mem_nil, or_false, not_or] at signs
  obtain ⟨noIndex, noCall, noAppend⟩ := signs
  have index : Expression.indexChain expression (sign :: tokens) = .ok ([], sign :: tokens) :=
    many_of_none (bind_of_ok (eat_of_ne (show nextKind (sign :: tokens) ≠ _ from noIndex)))
  rw [read, fromParts, named]
  refine (bind_of_ok (expect_of_kind named)).trans ((bind_of_ok index).trans ?_)
  show (if sign.kind = .leftParen then _ else _ : Reader Statement) (sign :: tokens) = _
  rw [if_neg noCall]
  exact bind_of_ok (eat_of_ne (show nextKind (sign :: tokens) ≠ _ from noAppend))

/-- An assignment of an expression is read as that, whatever stands behind its semicolon: the
expression holds no arrow. -/
theorem read_assignment {name sign stop : Token} {value rest : List Token} {e : Expression}
    (named : name.kind = .identifier) (assigns : sign.kind = .operatorAssignment)
    (stops : stop.kind = .semicolon)
    (reads : Expression.read (value ++ [stop]) = .ok (e, [stop])) :
    read (name :: sign :: (value ++ stop :: rest)) =
      .ok (.assign (.plain name) sign e false false, rest) := by
  have locally : Local [] 0 0 Expression.read Expression.read := Expression.local_read
  obtain ⟨taken, split, spans, _⟩ := locally _ e _ reads
  obtain rfl := List.append_cancel_right split
  have goesOn : Expression.read (value ++ stop :: rest) = .ok (e, stop :: rest) := by
    have extending : Extends rest False Expression.read Expression.read := Expression.extends_read
    have found := (extending _ e _ reads).2 (.inl (List.cons_ne_nil _ _))
    rwa [List.append_assoc] at found
  have noArrow : arrowAfterParameters (value ++ stop :: rest) = false :=
    arrowAfterParameters_before
      (fun token member kind => spans.inside token member (by rw [kind]; decide)) stops
  rw [read_named named (by rw [assigns]; decide), signRest, assigns, noArrow]
  exact (bind_of_ok goesOn).trans (bind_of_ok (expect_of_kind stops))

end Statement

/-- What a function does: a block, after which a semicolon may stand, or a module and a function
outside. -/
inductive FunctionBody.Written : FunctionBody → List Token → Prop where
  | block {body : Block} {tokens : List Token}
      (opens : nextKind tokens ∈ [Kind.leftBrace, .newRecord])
    (reads : Statement.read tokens = .ok (.block body, [])) : Written (.block body) tokens
  | ended {body : Block} {tokens : List Token} {stop : Token}
      (opens : nextKind tokens ∈ [Kind.leftBrace, .newRecord])
    (reads : Statement.read tokens = .ok (.block body, [])) (stops : stop.kind = .semicolon) :
    Written (.block body) (tokens ++ [stop])
  | external {word module comma function stop : Token} {text text' : String}
    (outside : word.kind = .externalStatement) (named : module.kind = .string)
    (spells : module.value = .ok (.string text)) (separates : comma.kind = .comma)
    (named' : function.kind = .string)
    (spells' : function.value = .ok (.string text')) (stops : stop.kind = .semicolon) :
    Written (.external text text') [word, module, comma, function, stop]

/-- The parts of a definition as they are written. -/
structure DefinitionParts where
  name : Token
  params : List Token
  result : List Token
  body : List Token

namespace DefinitionParts

/-- The parts are a name, parameters, perhaps a type, and a body. -/
structure Define (parts : DefinitionParts) (params : List Parameter) (result : Kind)
    (body : FunctionBody) : Prop where
  named : parts.name.kind = .identifier
  params : ParameterList params parts.params
  result : TypeTag .nil result parts.result
  body : body.Written parts.body

/-- The definition with the arrow in front of its parameters. -/
def arrowFirst (parts : DefinitionParts) (arrow : Token) : List Token :=
  parts.name :: arrow :: (parts.params ++ (parts.result ++ parts.body))

/-- The definition with the arrow behind its parameters. -/
def arrowLater (parts : DefinitionParts) (sign arrow : Token) : List Token :=
  parts.name :: sign :: (parts.params ++ arrow :: (parts.result ++ parts.body))

/-- The parts at other places. -/
def moved (move : Position → Position) (parts : DefinitionParts) : DefinitionParts where
  name := parts.name.moved move
  params := parts.params.map (Token.moved move)
  result := parts.result.map (Token.moved move)
  body := parts.body.map (Token.moved move)

/-- Parts that are the same once they are moved make definitions that are. -/
theorem map_arrowLater {move : Position → Position} {parts parts' : DefinitionParts}
    (same : parts'.moved move = parts.moved move) (sign arrow : Token) :
    (parts'.arrowLater sign arrow).map (Token.moved move) = (parts.arrowLater sign arrow).map
    (Token.moved move) := by
  obtain ⟨name, params, result, body⟩ := DefinitionParts.mk.inj same
  simp only [arrowLater, List.map_cons, List.map_append, name, params, result, body]

end DefinitionParts

namespace Statement

variable {whole more : List Token}

/-- A reader of statements inside a list reads what it reads from a shorter one, and leaves more. -/
theorem extends_shorter {tokens : List Token} (room : tokens.length + more.length ≤ whole.length) :
    Extends more (Separate more) (shorterThan tokens (fun rest _ => read rest) .statement)
      (shorterThan whole (fun rest _ => read rest) .statement) := by
  intro rest statement left success
  unfold Reader.shorterThan at success
  split at success
  · next shorter =>
    have shorter' : (rest ++ more).length < whole.length := by
      rw [List.length_append]
      omega
    rw [shorterThan_of_lt shorter']
    exact extends_read rest statement left success
  · exact absurd success (by cases rest <;> nofun)

/-- A block that is a statement of its own is the same block inside a statement. -/
theorem blockOf_of_read {tokens : List Token} {body : Block}
    (opens : nextKind tokens ∈ [Kind.leftBrace, .newRecord])
    (reads : read tokens = .ok (.block body, []))
    (room : tokens.length + more.length ≤ whole.length) :
    blockOf (shorterThan whole (fun rest _ => read rest) .statement) (tokens ++ more) =
      .ok (body, more) := by
  have found : blockOf (shorterThan tokens (fun rest _ => read rest) .statement) tokens =
      .ok (body, []) := by
    rw [read] at reads
    cases tokens with
    | nil => cases reads
    | cons token tokens =>
      have block :
          (do
            let inside := shorterThan (token :: tokens) (fun rest _ => read rest) .statement
            return .block (← blockOf inside) : Reader Statement) (token :: tokens) =
              .ok (.block body, []) := by
        simp only [List.mem_cons, List.not_mem_nil, or_false] at opens
        rcases opens with kind | kind <;>
          · change token.kind = _ at kind
            rwa [fromParts, kind] at reads
      obtain ⟨body', left, inner, made⟩ := bind_ok block
      cases made
      exact inner
  have extending : Consumes more True _ _ := extends_blockOf (extends_shorter room)
  exact (extending.extension tokens body [] found).2 (.inr trivial)

/-- A string that names something outside. -/
theorem stringLiteral_of_value {expected : Expectation} {token : Token} {text : String}
    (named : token.kind = .string) (spells : token.value = .ok (.string text)) :
    stringLiteral expected (token :: more) = .ok (text, more) := by
  refine (bind_of_ok (expect_of_kind named)).trans ?_
  rw [spells]
  rfl

/-- What a function does starts with no type, and it is read up to its end. -/
theorem functionBody_of_written {body : FunctionBody} {tokens : List Token}
    (written : body.Written tokens)
    (room : tokens.length + more.length ≤ whole.length) (separate : nextKind more ≠ .semicolon) :
    functionBody (shorterThan whole (fun rest _ => read rest) .statement) (tokens ++ more) =
      .ok (body, more) ∧ nextKind (tokens ++ more) ≠ .typeName := by
  have inside : ∀ {tokens left : List Token}, nextKind tokens ∈ [Kind.leftBrace, .newRecord] →
      nextKind (tokens ++ left) ≠ .externalStatement ∧ nextKind (tokens ++ left) ≠ .typeName := by
    intro tokens left opens
    cases tokens with
    | nil => exact absurd opens (by decide)
    | cons token tokens =>
      show token.kind ≠ _ ∧ token.kind ≠ _
      simp only [List.mem_cons, List.not_mem_nil, or_false] at opens
      rcases opens with kind | kind <;>
        · change token.kind = _ at kind
          rw [kind]
          decide
  cases written with
  | block opens reads =>
    refine ⟨?_, (inside opens).2⟩
    refine (bind_of_ok (eat_of_ne (inside opens).1)).trans ?_
    refine (bind_of_ok (blockOf_of_read opens reads room)).trans ?_
    exact bind_of_ok (eat_of_ne separate)
  | @ended body tokens stop opens reads stops =>
    have room' : tokens.length + (stop :: more).length ≤ whole.length := by
      rw [List.length_append, List.length_singleton] at room
      rw [List.length_cons]
      omega
    rw [List.append_assoc, List.singleton_append]
    refine ⟨?_, (inside opens).2⟩
    refine (bind_of_ok (eat_of_ne (inside opens).1)).trans ?_
    refine (bind_of_ok (blockOf_of_read opens reads room')).trans ?_
    exact bind_of_ok (eat_of_kind stops)
  | @external word module comma function stop text text' outside named spells separates named'
      spells' stops =>
    refine ⟨?_, ?_⟩
    · refine (bind_of_ok (eat_of_kind outside)).trans ?_
      refine (bind_of_ok (stringLiteral_of_value named spells)).trans ?_
      refine (bind_of_ok (expect_of_kind separates)).trans ?_
      refine (bind_of_ok (stringLiteral_of_value named' spells')).trans ?_
      exact bind_of_ok (expect_of_kind stops)
    · show word.kind ≠ _
      rw [outside]
      decide

section Forms

variable {parts : DefinitionParts} {params : List Parameter} {result : Kind} {body : FunctionBody}
  {arrow sign : Token} (defines : parts.Define params result body)
  (separate : nextKind more ≠ .semicolon)

include defines separate

theorem read_resultAndBody (room : parts.body.length + more.length ≤ whole.length) :
    (do
      let result ← typeTagOr .nil
      return Statement.define parts.name params result
        (← functionBody (shorterThan whole (fun rest _ => read rest) .statement)) :
        Reader Statement)
      (parts.result ++ (parts.body ++ more)) = .ok
      (.define parts.name params result body, more) := by
  obtain ⟨reads, other⟩ := functionBody_of_written defines.body room separate
  exact (bind_of_ok (typeTagOr_of_tag defines.result other)).trans (bind_of_ok reads)

theorem read_arrowFirst (arrows : arrow.kind = .operatorArrow) :
    read (parts.arrowFirst arrow ++ more) = .ok (.define parts.name params result body, more) := by
  simp only [DefinitionParts.arrowFirst, List.cons_append, List.append_assoc]
  rw [read_named defines.named (by rw [arrows]; decide), signRest, arrows]
  refine (bind_of_ok (parameters_of_list defines.params)).trans ?_
  exact read_resultAndBody defines separate
    (by simp only [List.length_cons, List.length_append]; omega)

theorem read_arrowLater (assigns : sign.kind = .operatorAssignment)
    (arrows : arrow.kind = .operatorArrow) :
    read (parts.arrowLater sign arrow ++ more) =
      .ok (.define parts.name params result body, more) := by
  simp only [DefinitionParts.arrowLater, List.cons_append, List.append_assoc]
  rw [read_named defines.named (by rw [assigns]; decide), signRest, assigns,
    arrowAfterParameters_of_list defines.params arrows]
  refine (bind_of_ok (parameters_of_list defines.params)).trans ?_
  refine (bind_of_ok (expect_of_kind arrows)).trans ?_
  exact read_resultAndBody defines separate
    (by simp only [List.length_cons, List.length_append]; omega)

end Forms

/-- Tokens that are the same once they are moved are read as statements that are. -/
theorem read_moved {move : Position → Position} {front front' rest : List Token}
    {statement : Statement} (same : front'.map (Token.moved move) = front.map (Token.moved move))
    (reads : read (front ++ rest) = .ok (statement, rest)) :
    ∃ other, read (front' ++ rest) = .ok (other, rest) ∧
      other.moved move = statement.moved move := by
  have moves : Moves move (Statement.moved move) read read := moves_read
  have one := moves (front ++ rest)
  have other := moves (front' ++ rest)
  rw [List.map_append, ← same, ← List.map_append, other, reads] at one
  cases found : read (front' ++ rest) with
  | error unexpected =>
    rw [found] at one
    cases one
  | ok result =>
    obtain ⟨statement', left⟩ := result
    rw [found] at one
    obtain ⟨agree, lefts⟩ := Prod.mk.inj (Except.ok.inj one)
    have length : left.length = rest.length := by simpa using congrArg List.length lefts
    have extending : Extends [] (Separate []) read read := extends_read
    have suffix := (extending _ statement' left found).1
    obtain rfl := (List.suffix_of_suffix_length_le suffix (List.suffix_append front' rest)
      (Nat.le_of_eq length)).eq_of_length length
    exact ⟨statement', rfl, agree⟩

/-- A definition with the arrow in front of its parameters and one with the arrow behind them, of
the same parts at any places, are read as the same function; and where an expression stands behind
the sign, however it is bracketed, an assignment of the expression is read. -/
theorem definition_forms {move : Position → Position} :
    (∀ {parts parts' : DefinitionParts} {params : List Parameter} {result : Kind}
        {body : FunctionBody} {arrow sign arrow' : Token} {rest rest' : List Token},
      parts.Define params result body → parts'.moved move = parts.moved move →
      arrow.kind = .operatorArrow → sign.kind = .operatorAssignment →
      arrow'.kind = .operatorArrow → nextKind rest ≠ .semicolon → nextKind rest' ≠ .semicolon →
      read (parts.arrowFirst arrow ++ rest) = .ok (.define parts.name params result body, rest) ∧
        ∃ other, read (parts'.arrowLater sign arrow' ++ rest') = .ok (other, rest') ∧
          other.moved move = (Statement.define parts.name params result body).moved move) ∧
    ∀ {name sign stop : Token} {value rest : List Token} {e : Expression}, name.kind = .identifier →
      sign.kind = .operatorAssignment → stop.kind = .semicolon →
      Expression.read (value ++ [stop]) = .ok (e, [stop]) →
      read (name :: sign :: (value ++ stop :: rest)) =
        .ok (.assign (.plain name) sign e false false, rest) := by
  refine ⟨?_, read_assignment⟩
  intro parts parts' params result body arrow sign arrow' rest rest' defines same arrows assigns
    arrows' next next'
  exact ⟨read_arrowFirst defines next arrows,
    read_moved (DefinitionParts.map_arrowLater same sign arrow')
      (read_arrowLater defines next' assigns arrows')⟩

/-- A function of two parameters, one of them with a type, in both forms; and a product of two
groups. -/
theorem definition_forms_parameters :
    (∃ (parts parts' : DefinitionParts) (other : Statement),
      read (parts.arrowFirst ⟨.operatorArrow, some "=>", ⟨1, 3, 2⟩⟩ ++ []) =
        .ok (.define parts.name [⟨⟨.identifier, some "a", ⟨1, 15, 14⟩⟩, .integer⟩,
          ⟨⟨.identifier, some "b", ⟨1, 18, 17⟩⟩, .any⟩] .nil
          (.block (.mk ⟨.newRecord, some "\x7b\x7d", ⟨1, 21, 20⟩⟩ [])), []) ∧
      read (parts'.arrowLater ⟨.operatorAssignment, some "=", ⟨2, 3, 25⟩⟩
        ⟨.operatorArrow, some "=>", ⟨2, 18, 40⟩⟩ ++ []) = .ok (other, []) ∧
      other.moved (fun _ => .start) =
        (Statement.define parts.name [⟨⟨.identifier, some "a", ⟨1, 15, 14⟩⟩, .integer⟩,
          ⟨⟨.identifier, some "b", ⟨1, 18, 17⟩⟩, .any⟩] .nil
          (.block (.mk ⟨.newRecord, some "\x7b\x7d", ⟨1, 21, 20⟩⟩ []))).moved fun _ => .start) ∧
    ∃ (value : List Token) (e : Expression), nextKind value = .leftParen ∧
      read (⟨.identifier, some "x", ⟨3, 1, 46⟩⟩ :: ⟨.operatorAssignment, some "=", ⟨3, 3, 48⟩⟩ ::
        (value ++ ⟨.semicolon, some ";", ⟨3, 14, 59⟩⟩ :: [])) =
        .ok (.assign (.plain ⟨.identifier, some "x", ⟨3, 1, 46⟩⟩)
          ⟨.operatorAssignment, some "=", ⟨3, 3, 48⟩⟩ e false false, []) := by
  have body : read [⟨.newRecord, some "\x7b\x7d", ⟨1, 21, 20⟩⟩] =
      .ok (.block (.mk ⟨.newRecord, some "\x7b\x7d", ⟨1, 21, 20⟩⟩ []), []) := by
    rw [read]
    rfl
  have params : ParameterList [⟨⟨.identifier, some "a", ⟨1, 15, 14⟩⟩, .integer⟩,
      ⟨⟨.identifier, some "b", ⟨1, 18, 17⟩⟩, .any⟩]
      [⟨.leftParen, some "(", ⟨1, 6, 5⟩⟩, ⟨.typeName, some "integer", ⟨1, 7, 6⟩⟩,
        ⟨.identifier, some "a", ⟨1, 15, 14⟩⟩, ⟨.comma, some ",", ⟨1, 16, 15⟩⟩,
        ⟨.identifier, some "b", ⟨1, 18, 17⟩⟩, ⟨.rightParen, some ")", ⟨1, 19, 18⟩⟩] :=
    .cons rfl (.mk (.some rfl rfl) rfl) (.cons rfl (.mk .none rfl) .nil) rfl
  have defines : DefinitionParts.Define ⟨⟨.identifier, some "f", ⟨1, 1, 0⟩⟩, _, [], _⟩ _ .nil _ :=
    ⟨rfl, params, .none, .block (by decide) body⟩
  have product : ∃ e, Expression.read
    ([⟨.leftParen, some "(", ⟨3, 5, 50⟩⟩, ⟨.identifier, some "y", ⟨3, 6, 51⟩⟩,
      ⟨.rightParen, some ")", ⟨3, 7, 52⟩⟩, ⟨.operatorMultiplication, some "*", ⟨3, 9, 54⟩⟩,
      ⟨.leftParen, some "(", ⟨3, 11, 56⟩⟩, ⟨.identifier, some "z", ⟨3, 12, 57⟩⟩,
      ⟨.rightParen, some ")", ⟨3, 13, 58⟩⟩] ++ [⟨.semicolon, some ";", ⟨3, 14, 59⟩⟩]) =
      .ok (e, [⟨.semicolon, some ";", ⟨3, 14, 59⟩⟩]) := ⟨_, by cbv⟩
  obtain ⟨e, product⟩ := product
  have none : nextKind [] ≠ .semicolon := by decide
  have moves {parts : DefinitionParts} :
    (parts.moved fun position => ⟨2, position.column, position.offset + 22⟩).moved
      (fun _ => .start) = parts.moved fun _ => .start := by
        simp [DefinitionParts.moved, Token.moved]
  have arrow : Token.kind ⟨.operatorArrow, some "=>", ⟨1, 3, 2⟩⟩ = .operatorArrow := rfl
  have sign : Token.kind ⟨.operatorAssignment, some "=", ⟨2, 3, 25⟩⟩ = .operatorAssignment := rfl
  have arrow' : Token.kind ⟨.operatorArrow, some "=>", ⟨2, 18, 40⟩⟩ = .operatorArrow := rfl
  obtain ⟨first, other, later⟩ :=
    (@definition_forms (fun _ => .start)).1 defines moves arrow sign arrow' none none
  exact ⟨⟨_, _, other, first, later⟩, _, e, rfl,
    (@definition_forms (fun _ => .start)).2 rfl rfl rfl product⟩

end Statement

end Treecode
