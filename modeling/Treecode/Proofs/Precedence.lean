import Treecode.Proofs.ExpressionWords
import Treecode.Proofs.FollowedPrograms

set_option autoImplicit false

namespace Treecode.Expression

open Reader

/-- How tight a binary operator binds, from the loosest ones on. -/
def strength? : Kind → Option Nat
  | .orStatement | .xorStatement => some 0
  | .andStatement => some 1
  | .comparatorEqual | .comparatorNotEqual => some 2
  | .comparatorLessThan | .comparatorLessThanEqual | .comparatorGreaterThan
  | .comparatorGreaterThanEqual => some 3
  | .operatorAddition | .operatorSubtraction => some 4
  | .operatorMultiplication | .operatorDivision | .operatorModulus => some 5
  | .operatorPower => some 6
  | _ => none

def signStrength : Nat := 7

/-- What may be written: an expression where what binds looser than a bound needs parentheses, the
keys of an index, arguments, or further arguments. -/
inductive Phrase where
  | operand (bound : Nat) (e : Expression)
  | keys (index : List Expression)
  | args (list : List Expression)
  | moreArgs (list : List Expression)

/-- Tokens that write a phrase. -/
inductive Written : Phrase → List Token → Prop where
  | plain {bound : Nat} {name : Token} (named : name.kind = .identifier) :
    Written (.operand bound (.plain name)) [name]
  | indexed {bound : Nat} {name : Token} {index : List Expression} {keys : List Token}
    (named : name.kind = .identifier) (nonempty : index ≠ [])
    (inside : Written (.keys index) keys) :
    Written (.operand bound (.indexed name index)) (name :: keys)
  | call {bound : Nat} {name opening closing : Token} {args : List Expression} {items : List Token}
    (named : name.kind = .identifier) (opens : opening.kind = .leftParen)
    (inside : Written (.args args) items)
    (closes : closing.kind = .rightParen) :
    Written (.operand bound (.call name args)) (name :: opening :: (items ++ [closing]))
  | indexedCall {bound : Nat} {name opening closing : Token} {index args : List Expression}
    {keys items : List Token} (named : name.kind = .identifier) (nonempty : index ≠ [])
    (inside : Written (.keys index) keys) (opens : opening.kind = .leftParen)
    (between : Written (.args args) items)
    (closes : closing.kind = .rightParen) :
    Written (.operand bound (.indexedCall name index args))
      (name :: (keys ++ opening :: (items ++ [closing])))
  | literal {bound : Nat} {token : Token} {value : Value}
    (scalar : token.kind ∈ [Kind.integer, .float, .string, .boolean, .nil])
    (spells : token.value = .ok value) :
    Written (.operand bound (.literal token value)) [token]
  | isType {bound : Nat} {word opening closing : Token} {e : Expression} {inner : List Token}
      {target : Kind}
    (tests : word.kind.testedType? = some target) (opens : opening.kind = .leftParen)
    (inside : Written (.operand 0 e) inner) (closes : closing.kind = .rightParen) :
    Written (.operand bound (.isType word e target)) (word :: opening :: (inner ++ [closing]))
  | typeOf {bound : Nat} {word opening closing : Token} {e : Expression} {inner : List Token}
    (asks : word.kind = .typeStatement) (opens : opening.kind = .leftParen)
    (inside : Written (.operand 0 e) inner)
    (closes : closing.kind = .rightParen) :
    Written (.operand bound (.typeOf word e)) (word :: opening :: (inner ++ [closing]))
  | unary {bound : Nat} {operator : Token} {e : Expression} {inner : List Token}
    (sign : operator.kind ∈ [Kind.operatorSubtraction, .operatorAddition,
      .notStatement, .bitwiseNot])
    (tight : bound ≤ signStrength) (inside : Written (.operand signStrength e) inner) :
    Written (.operand bound (.unary operator e)) (operator :: inner)
  | binary {bound strength : Nat} {operator : Token} {left right : Expression}
      {before behind : List Token}
    (known : strength? operator.kind = some strength) (tight : bound ≤ strength)
    (first : Written (.operand strength left) before)
    (last : Written (.operand (strength + 1) right) behind) :
    Written (.operand bound (.binary operator left right)) (before ++ operator :: behind)
  | parens {bound : Nat} {opening closing : Token} {e : Expression} {inner : List Token}
    (opens : opening.kind = .leftParen) (inside : Written (.operand 0 e) inner)
    (closes : closing.kind = .rightParen) :
    Written (.operand bound e) (opening :: (inner ++ [closing]))
  | noKeys : Written (.keys []) []
  | key {opening closing : Token} {key : Expression} {index : List Expression}
      {inner keys : List Token}
    (opens : opening.kind = .leftBracket) (inside : Written (.operand 0 key) inner)
    (closes : closing.kind = .rightBracket) (others : Written (.keys index) keys) :
    Written (.keys (key :: index)) (opening :: (inner ++ closing :: keys))
  | noArgs : Written (.args []) []
  | arg {arg : Expression} {args : List Expression} {inner items : List Token}
    (first : Written (.operand 0 arg) inner) (others : Written (.moreArgs args) items) :
    Written (.args (arg :: args)) (inner ++ items)
  | noMoreArgs : Written (.moreArgs []) []
  | moreArg {comma : Token} {arg : Expression} {args : List Expression} {inner items : List Token}
    (separates : comma.kind = .comma) (first : Written (.operand 0 arg) inner)
    (others : Written (.moreArgs args) items) :
    Written (.moreArgs (arg :: args)) (comma :: (inner ++ items))

mutual

/-- The expressions that can be written so: of names, indexes, calls, scalar literals, type tests
and operators, each with a token of its kind. -/
def Writable : Expression → Prop
  | .plain name => name.kind = .identifier
  | .indexed name index => name.kind = .identifier ∧ index ≠ [] ∧ AllWritable index
  | .call name args => name.kind = .identifier ∧ AllWritable args
  | .indexedCall name index args =>
    name.kind = .identifier ∧ index ≠ [] ∧ AllWritable index ∧ AllWritable args
  | .literal token value =>
    token.kind ∈ [Kind.integer, .float, .string, .boolean, .nil] ∧ token.value = .ok value
  | .unary operator e =>
    operator.kind ∈ [Kind.operatorSubtraction, .operatorAddition, .notStatement, .bitwiseNot] ∧
      Writable e
  | .binary operator left right => (strength? operator.kind).isSome ∧ Writable left ∧ Writable right
  | .isType word e target => word.kind.testedType? = some target ∧ Writable e
  | .typeOf word e => word.kind = .typeStatement ∧ Writable e

def AllWritable : List Expression → Prop
  | [] => True
  | first :: rest => Writable first ∧ AllWritable rest

end

/-- A punctuation mark. -/
def mark (kind : Kind) (text : String) : Token := ⟨kind, some text, .start⟩

/-- In parentheses an expression may stand anywhere. -/
theorem Written.enclosed {e : Expression} (written : ∃ tokens, Written (.operand 0 e) tokens)
    (bound : Nat) : ∃ tokens, Written (.operand bound e) tokens := by
  obtain ⟨tokens, written⟩ := written
  exact ⟨mark .leftParen "(" :: (tokens ++ [mark .rightParen ")"]), .parens rfl written rfl⟩

mutual

/-- Every expression of this kind has a writing. -/
theorem exists_written (e : Expression) (writable : e.Writable) :
    ∃ tokens, Written (.operand 0 e) tokens := by
  cases e with
  | plain name => exact ⟨_, .plain writable⟩
  | indexed name index =>
    obtain ⟨keys, inside⟩ := (exists_written_all index writable.2.2).1
    exact ⟨_, .indexed writable.1 writable.2.1 inside⟩
  | call name args =>
    obtain ⟨items, inside⟩ := (exists_written_all args writable.2).2.1
    exact ⟨name :: mark .leftParen "(" :: (items ++ [mark .rightParen ")"]),
      .call writable.1 rfl inside rfl⟩
  | indexedCall name index args =>
    obtain ⟨keys, inside⟩ := (exists_written_all index writable.2.2.1).1
    obtain ⟨items, between⟩ := (exists_written_all args writable.2.2.2).2.1
    exact ⟨name :: (keys ++ mark .leftParen "(" :: (items ++ [mark .rightParen ")"])),
      .indexedCall writable.1 writable.2.1 inside rfl between rfl⟩
  | literal token value => exact ⟨_, .literal writable.1 writable.2⟩
  | unary operator e =>
    obtain ⟨inner, inside⟩ := Written.enclosed (exists_written e writable.2) signStrength
    exact ⟨_, .unary writable.1 (Nat.zero_le _) inside⟩
  | binary operator left right =>
    obtain ⟨strength, known⟩ := Option.isSome_iff_exists.1 writable.1
    obtain ⟨before, first⟩ := Written.enclosed (exists_written left writable.2.1) strength
    obtain ⟨behind, last⟩ := Written.enclosed (exists_written right writable.2.2) (strength + 1)
    exact ⟨_, .binary known (Nat.zero_le _) first last⟩
  | isType word e target =>
    obtain ⟨inner, inside⟩ := exists_written e writable.2
    exact ⟨word :: mark .leftParen "(" :: (inner ++ [mark .rightParen ")"]),
      .isType writable.1 rfl inside rfl⟩
  | typeOf word e =>
    obtain ⟨inner, inside⟩ := exists_written e writable.2
    exact ⟨word :: mark .leftParen "(" :: (inner ++ [mark .rightParen ")"]),
      .typeOf writable.1 rfl inside rfl⟩

theorem exists_written_all (list : List Expression) (writable : AllWritable list) :
    (∃ tokens, Written (.keys list) tokens) ∧ (∃ tokens, Written (.args list) tokens) ∧
      ∃ tokens, Written (.moreArgs list) tokens := by
  cases list with
  | nil => exact ⟨⟨_, .noKeys⟩, ⟨_, .noArgs⟩, ⟨_, .noMoreArgs⟩⟩
  | cons e rest =>
    obtain ⟨inner, first⟩ := exists_written e writable.1
    obtain ⟨⟨keys, asKeys⟩, _, ⟨items, asItems⟩⟩ := exists_written_all rest writable.2
    exact ⟨⟨mark .leftBracket "[" :: (inner ++ mark .rightBracket "]" :: keys),
      .key rfl first rfl asKeys⟩,
      ⟨_, .arg first asItems⟩, ⟨mark .comma "," :: (inner ++ items), .moreArg rfl first asItems⟩⟩

end

def Phrase.Writable : Phrase → Prop
  | .operand _ e => e.Writable
  | .keys list | .args list | .moreArgs list => AllWritable list

theorem Written.writable {phrase : Phrase} {tokens : List Token} (written : Written phrase tokens) :
    phrase.Writable := by
  induction written with
  | plain named => exact named
  | indexed named nonempty _ inside => exact ⟨named, nonempty, inside⟩
  | call named _ _ _ inside => exact ⟨named, inside⟩
  | indexedCall named nonempty _ _ _ _ inside between => exact ⟨named, nonempty, inside, between⟩
  | literal scalar spells => exact ⟨scalar, spells⟩
  | isType tests _ _ _ inside => exact ⟨tests, inside⟩
  | typeOf asks _ _ _ inside => exact ⟨asks, inside⟩
  | unary sign _ _ inside => exact ⟨sign, inside⟩
  | binary known _ _ _ first last => exact ⟨by rw [known]; rfl, first, last⟩
  | parens _ _ _ inside => exact inside
  | noKeys | noArgs | noMoreArgs => trivial
  | key _ _ _ _ inside others => exact ⟨inside, others⟩
  | arg _ _ first others => exact ⟨first, others⟩
  | moreArg _ _ _ first others => exact ⟨first, others⟩

/-- The expressions of this kind are those that have a writing. -/
theorem exists_written_iff (e : Expression) :
    (∃ tokens, Written (.operand 0 e) tokens) ↔ e.Writable := by
  constructor
  · intro written
    obtain ⟨tokens, written⟩ := written
    exact written.writable
  · exact exists_written e

theorem mem_level {kind : Kind} {strength : Nat} (known : strength? kind = some strength) :
    ∃ operators, levels[strength]? = some operators ∧ kind ∈ operators := by
  cases kind
  all_goals first
    | (cases known; exact ⟨_, rfl, by decide⟩)
    | cases known

theorem not_mem_tighter {kind : Kind} {strength : Nat} (known : strength? kind = some strength) :
    AfterOperand kind ∧ kind ∉ (levels.drop (strength + 1)).flatten := by
  cases kind
  all_goals first
    | (cases known; decide)
    | cases known

/-- What may follow an operand of the operators that bind tighter than a bound. -/
def Stops (bound : Nat) (kind : Kind) : Prop :=
  AfterOperand kind ∧ kind ∉ (levels.drop bound).flatten

theorem Stops.mono {bound tighter : Nat} {kind : Kind} (stops : Stops bound kind)
    (le : bound ≤ tighter) : Stops tighter kind := by
  refine ⟨stops.1, fun inside => stops.2 ?_⟩
  obtain ⟨operators, level, member⟩ := List.mem_flatten.1 inside
  obtain ⟨more, rfl⟩ := Nat.exists_eq_add_of_le le
  rw [← List.drop_drop] at level
  exact List.mem_flatten.2 ⟨operators, List.mem_of_mem_drop level, member⟩

/-- The part of the grammar that reads the operators from a strength on. -/
def tier (self : Reader Expression) (bound : Nat) : Reader Expression :=
  (levels.drop bound).foldr level (signed (operand self))

def resume (operators : List Kind) (operand : Reader Expression) (left : Expression) :
    Reader Expression := do
  let others ← many (further operators operand)
  return chain left others

/-- What the part of the grammar from a strength on does after its first operand. -/
def resumed (self : Reader Expression) (bound : Nat) (left : Expression) : Reader Expression :=
  match levels[bound]? with
  | some operators => resume operators (tier self (bound + 1)) left
  | none => pure left

section Levels

variable {self : Reader Expression} {bound : Nat} {e : Expression} {more : List Token}

theorem tier_of_lt {operators : List Kind} (atLevel : levels[bound]? = some operators)
    (tokens : List Token) :
    tier self bound tokens = (tier self (bound + 1) >>= resume operators (tier self (bound + 1)))
      tokens := by
  obtain ⟨inside, rfl⟩ := List.getElem?_eq_some_iff.1 atLevel
  unfold tier
  rw [List.drop_eq_getElem_cons inside, List.foldr_cons, level_eq]
  rfl

/-- Past the last level there is no loop. -/
theorem tier_of_ge (empty : levels[bound]? = none) : tier self bound = tier self (bound + 1) := by
  have past := List.getElem?_eq_none_iff.1 empty
  unfold tier
  rw [List.drop_eq_nil_of_le past, List.drop_eq_nil_of_le (Nat.le_succ_of_le past)]

/-- A loop ends at what is no operator of its level. -/
theorem resume_stop {operators : List Kind} {operand : Reader Expression}
    (other : nextKind more ∉ operators) : resume operators operand e more = .ok (e, more) := by
  have stops : further operators operand more = .ok (none, more) := by
    unfold further
    rw [bind_of_ok (takeAny_of_not_mem other)]
    rfl
  unfold resume
  rw [bind_of_ok (many_of_none stops)]
  rfl

theorem resume_operator {operators : List Kind} {operand : Reader Expression} {operator : Token}
    {right : Expression} {tokens : List Token} (known : operator.kind ∈ operators)
    (read : operand tokens = .ok (right, more)) (shorter : more.length ≤ tokens.length) :
    resume operators operand e (operator :: tokens) =
      resume operators operand (.binary operator e right) more := by
  have step : further operators operand (operator :: tokens) =
      .ok (some (operator, right), more) := by
    unfold further
    rw [bind_of_ok (takeAny_of_mem known)]
    show (operand >>= fun right => pure (some (operator, right)) : Reader _) tokens = _
    rw [bind_of_ok read]
    rfl
  unfold resume
  rw [bind_many_of_some step (Nat.lt_succ_of_le shorter)]
  rfl

/-- Where no operator of its level follows, what is read goes on with nothing. -/
theorem resumed_stop (stops : Stops bound (nextKind more)) :
    resumed self bound e more = .ok (e, more) := by
  unfold resumed
  cases atLevel : levels[bound]? with
  | none => rfl
  | some operators =>
    apply resume_stop
    intro member
    obtain ⟨inside, rfl⟩ := List.getElem?_eq_some_iff.1 atLevel
    apply stops.2
    rw [List.drop_eq_getElem_cons inside, List.flatten_cons]
    exact List.mem_append_left _ member

/-- A tighter operand is the first operand of each looser level. -/
theorem tier_of_tighter {tighter : Nat} {tokens : List Token} (le : bound ≤ tighter)
    (read : tier self tighter tokens = resumed self tighter e more)
    (stops : Stops (bound + 1) (nextKind more)) :
    tier self bound tokens = resumed self bound e more := by
  induction le using Nat.decreasingInduction with
  | self => exact read
  | of_succ bound _ ih =>
    have first : tier self (bound + 1) tokens = .ok (e, more) := by
      rw [ih (stops.mono (Nat.le_succ _)), resumed_stop stops]
    cases atLevel : levels[bound]? with
    | none =>
      unfold resumed
      rw [tier_of_ge atLevel, first, atLevel]
      rfl
    | some operators =>
      unfold resumed
      rw [tier_of_lt atLevel, bind_of_ok first, atLevel]

end Levels

/-- Before what may follow an operand of a strength, the part of the grammar from there on comes to
where it is after that operand. -/
def Tiers (bound : Nat) (e : Expression) (tokens : List Token) : Prop :=
  ∀ size self, Agrees size self → ∀ more, (tokens ++ more).length ≤ size →
    Stops (bound + 1) (nextKind more) → tier self bound (tokens ++ more) = resumed self bound e more

/-- How a phrase starts: an expression with one of some tokens, further arguments with a comma. -/
def Phrase.Starts : Phrase → List Token → Prop
  | .operand _ _, tokens => ∃ token rest, tokens = token :: rest ∧ token.kind ∈ Word.expressionHeads
  | .moreArgs _, tokens => ∀ more, Ends (nextKind more) → Ends (nextKind (tokens ++ more))
  | _, _ => True

theorem Written.starts {phrase : Phrase} {tokens : List Token} (written : Written phrase tokens) :
    phrase.Starts tokens := by
  induction written with
  | plain named | indexed named | call named | indexedCall named =>
    exact ⟨_, _, rfl, by rw [named]; decide⟩
  | literal scalar =>
    refine ⟨_, _, rfl, ?_⟩
    revert scalar
    generalize Token.kind _ = kind
    revert kind
    decide
  | isType tests =>
    refine ⟨_, _, rfl, ?_⟩
    revert tests
    generalize Token.kind _ = kind
    cases kind
    all_goals first
      | exact fun _ => by decide
      | exact fun empty => by cases empty
  | typeOf asks => exact ⟨_, _, rfl, by rw [asks]; decide⟩
  | unary sign => exact ⟨_, _, rfl, List.mem_append_right _ sign⟩
  | binary known tight first last starts =>
    obtain ⟨token, rest, rfl, fits⟩ := starts
    exact ⟨token, rest ++ _, rfl, fits⟩
  | parens opens => exact ⟨_, _, rfl, by rw [opens]; decide⟩
  | noMoreArgs => exact fun more ends => ends
  | moreArg separates =>
    intro more ends
    show Ends (Token.kind _)
    rw [separates]
    decide
  | _ => trivial

section Tiers

variable {bound size : Nat} {self : Reader Expression} {e : Expression} {tokens more : List Token}

/-- What is read where the grammar refers to itself. -/
theorem Tiers.read_self (tiers : Tiers 0 e tokens) (agree : Agrees size self)
    (short : (tokens ++ more).length < size)
    (ends : Ends (nextKind more)) : self (tokens ++ more) = .ok (e, more) := by
  have agree' : Agrees (tokens ++ more).length
      (shorterThan (tokens ++ more) (fun rest _ => read rest) .expression) := by
    intro rest shorter
    rw [shorterThan_of_lt shorter]
  have stops : Stops 0 (nextKind more) := ends
  have first := tiers _ _ agree' more (Nat.le_refl _) (stops.mono (Nat.zero_le _))
  rw [agree _ short, read]
  exact first.trans (resumed_stop ends)

/-- What the tightest part of the grammar reads, which binds no operators. -/
theorem Tiers.of_signed
    (reads : ∀ size self, Agrees size self → ∀ more, (tokens ++ more).length ≤ size →
      AfterOperand (nextKind more) →
      signed (operand self) (tokens ++ more) = .ok (e, more)) : Tiers bound e tokens := by
  intro size self agree more short stops
  have read := reads size self agree more short stops.1
  rcases Nat.le_total bound signStrength with tight | past
  · exact tier_of_tighter tight read stops
  · have empty : levels.length ≤ bound := past
    unfold Expression.tier resumed
    rw [List.drop_eq_nil_of_le empty, List.getElem?_eq_none empty]
    exact read

theorem Tiers.of_operand {first : Token} (plain : first.kind ∉ signs)
    (reads : ∀ size self, Agrees size self → ∀ more, (tokens ++ more).length < size →
      AfterOperand (nextKind more) →
      operand self (first :: (tokens ++ more)) = .ok (e, more)) :
        Tiers bound e (first :: tokens) := by
  apply Tiers.of_signed
  intro size self agree more short follow
  rw [List.cons_append, signed, if_neg plain]
  exact reads size self agree more short follow

/-- An expression that the grammar refers to itself for, up to a closing mark. -/
theorem Tiers.read_closed {β : Type} (tiers : Tiers 0 e tokens) (agree : Agrees size self)
    {close : Kind}
    {spelling : String} {closing : Token} {next : Expression → Reader β} (ends : Ends close)
    (closes : closing.kind = close) (short : (tokens ++ closing :: more).length < size) :
    (do let inner ← self
        let _ ← expectMark close spelling
        next inner : Reader β) (tokens ++ closing :: more) = next e more := by
  rw [← closes] at ends
  rw [bind_of_ok (tiers.read_self agree short ends)]
  exact bind_of_ok (expect_of_kind closes)

/-- The one expression that a type test or a type query takes. -/
theorem Tiers.read_argument (tiers : Tiers 0 e tokens) (agree : Agrees size self)
    {opening closing : Token}
    (opens : opening.kind = .leftParen) (closes : closing.kind = .rightParen)
    (short : (opening :: (tokens ++ closing :: more)).length ≤ size) :
    argument self (opening :: (tokens ++ closing :: more)) = .ok (e, more) := by
  unfold argument expectMark
  rw [bind_of_ok (expect_of_kind opens)]
  exact tiers.read_closed agree (by decide) closes short

end Tiers

def nextKey (self : Reader Expression) : Reader (Option Expression) := do
  if ← eat .leftBracket then
    let index ← self
    let _ ← expectMark .rightBracket "]"
    return some index
  else return none

def KeysRead (index : List Expression) (tokens : List Token) : Prop :=
  ∀ size self, Agrees size self → ∀ more, (tokens ++ more).length < size →
    nextKind more ≠ .leftBracket → indexChain self (tokens ++ more) = .ok (index, more)

def ArgsRead (args : List Expression) (tokens : List Token) : Prop :=
  ∀ size self, Agrees size self → ∀ (closing : Token) (more : List Token),
    (tokens ++ closing :: more).length < size → closing.kind = .rightParen →
    arguments self (tokens ++ closing :: more) = .ok (args, more)

def MoreArgsRead (args : List Expression) (tokens : List Token) : Prop :=
  ∀ size self, Agrees size self → ∀ more, (tokens ++ more).length < size → Ends (nextKind more) →
    nextKind more ≠ .comma → many (Cursor.readNextItem self) (tokens ++ more) = .ok (args, more)

theorem keysRead_nil : KeysRead [] [] := by
  intro size self agree more short stops
  apply many_of_none
  rw [List.nil_append, bind_of_ok (eat_of_ne stops)]
  rfl

theorem keysRead_cons {opening closing : Token} {key : Expression} {index : List Expression}
    {inner keys : List Token}
    (opens : opening.kind = .leftBracket) (first : Tiers 0 key inner)
    (closes : closing.kind = .rightBracket)
    (others : KeysRead index keys) :
    KeysRead (key :: index) (opening :: (inner ++ closing :: keys)) := by
  intro size self agree more short stops
  simp only [List.cons_append, List.append_assoc, List.length_cons, List.length_append] at short ⊢
  have length : (inner ++ closing :: (keys ++ more)).length =
      inner.length + (keys.length + more.length + 1) := by
    simp only [List.length_append, List.length_cons]
  have step : nextKey self (opening :: (inner ++ closing :: (keys ++ more))) =
      .ok (some key, keys ++ more) := by
    unfold nextKey
    rw [bind_of_ok (eat_of_kind opens), if_pos rfl]
    exact first.read_closed agree (by decide) closes (by omega)
  have rest := others size self agree more (by rw [List.length_append]; omega) stops
  have shorter : (keys ++ more).length <
      (opening :: (inner ++ closing :: (keys ++ more))).length := by
    rw [List.length_cons, length, List.length_append]
    omega
  show many (nextKey self) _ = _
  rw [many_of_some step shorter, show many (nextKey self) _ = _ from rest]

theorem moreArgsRead_nil : MoreArgsRead [] [] := by
  intro size self agree more short ends other
  apply many_of_none
  unfold Cursor.readNextItem
  rw [List.nil_append, bind_of_ok (eat_of_ne other)]
  rfl

theorem moreArgsRead_cons {comma : Token} {arg : Expression} {args : List Expression}
    {inner items : List Token}
    (separates : comma.kind = .comma) (first : Tiers 0 arg inner) (others : MoreArgsRead args items)
    (between : ∀ more, Ends (nextKind more) → Ends (nextKind (items ++ more))) :
    MoreArgsRead (arg :: args) (comma :: (inner ++ items)) := by
  intro size self agree more short ends other
  simp only [List.cons_append, List.append_assoc, List.length_cons, List.length_append] at short ⊢
  have length : (inner ++ (items ++ more)).length =
      inner.length + (items.length + more.length) := by
    simp only [List.length_append]
  have step : Cursor.readNextItem self (comma :: (inner ++ (items ++ more))) =
      .ok (some arg, items ++ more) := by
    unfold Cursor.readNextItem
    rw [bind_of_ok (eat_of_kind separates), if_pos rfl,
      bind_of_ok (first.read_self agree (by omega) (between more ends))]
    rfl
  have rest := others size self agree more (by rw [List.length_append]; omega) ends other
  have shorter : (items ++ more).length < (comma :: (inner ++ (items ++ more))).length := by
    rw [List.length_cons, length, List.length_append]
    omega
  rw [many_of_some step shorter, rest]

theorem argsRead_nil : ArgsRead [] [] := by
  intro size self agree closing more short closes
  have empty : listUpTo .rightParen self (closing :: more) = .ok ([], closing :: more) := by
    unfold listUpTo
    rw [bind_of_ok (show peekKind (closing :: more) = .ok (closing.kind, closing :: more) from rfl),
      if_pos closes]
    rfl
  unfold arguments
  rw [List.nil_append, bind_of_ok empty]
  exact bind_of_ok (expect_of_kind closes)

theorem argsRead_cons {arg : Expression} {args : List Expression} {inner items : List Token}
    (starts : ∃ token rest, inner = token :: rest ∧ token.kind ∈ Word.expressionHeads)
    (first : Tiers 0 arg inner)
    (others : MoreArgsRead args items)
    (between : ∀ more, Ends (nextKind more) → Ends (nextKind (items ++ more))) :
    ArgsRead (arg :: args) (inner ++ items) := by
  intro size self agree closing more short closes
  obtain ⟨token, rest, rfl, head⟩ := starts
  have unclosed : token.kind ≠ .rightParen := by
    rintro same
    rw [same] at head
    revert head
    decide
  have ends : Ends (nextKind (closing :: more)) := by
    show Ends closing.kind
    rw [closes]
    decide
  have other : nextKind (closing :: more) ≠ .comma := by
    show closing.kind ≠ .comma
    rw [closes]
    decide
  rw [List.append_assoc] at short ⊢
  have read := first.read_self agree short (between _ ends)
  have fewer : (items ++ closing :: more).length < size := by
    rw [List.length_append] at short
    omega
  have restRead := others size self agree (closing :: more) fewer ends other
  have nonempty : listUpTo .rightParen self (token :: rest ++ (items ++ closing :: more)) =
      .ok (arg :: args, closing :: more) := by
    unfold listUpTo
    rw [bind_of_ok (show peekKind (token :: rest ++ (items ++ closing :: more)) =
      .ok (token.kind, _) from rfl), if_neg unclosed]
    rw [Cursor.separated_eq, bind_of_ok read]
    exact bind_of_ok restRead
  unfold arguments
  rw [bind_of_ok nonempty]
  exact bind_of_ok (expect_of_kind closes)

section Kinds

variable {bound : Nat}

theorem tiers_variable {name : Token} {index : List Expression} {keys : List Token}
    (named : name.kind = .identifier) (inside : KeysRead index keys) :
    Tiers bound (if index.isEmpty then .plain name else .indexed name index) (name :: keys) := by
  apply Tiers.of_operand (by rw [named]; decide)
  intro size self agree more short follow
  have read := inside size self agree more short follow.1
  simp only [operand, named]
  unfold Expression.named
  rw [bind_of_ok read, bind_of_ok (eat_of_ne follow.2)]
  rfl

theorem tiers_call {name opening closing : Token} {index args : List Expression}
    {keys items : List Token}
    (named : name.kind = .identifier) (inside : KeysRead index keys)
    (opens : opening.kind = .leftParen)
    (between : ArgsRead args items) (closes : closing.kind = .rightParen) :
    Tiers bound (if index.isEmpty then .call name args else .indexedCall name index args)
      (name :: (keys ++ opening :: (items ++ [closing]))) := by
  apply Tiers.of_operand (by rw [named]; decide)
  intro size self agree more short follow
  have regroup : keys ++ opening :: (items ++ [closing]) ++ more = keys ++ opening ::
      (items ++ closing :: more) := by
    simp
  rw [regroup] at short ⊢
  have other : nextKind (opening :: (items ++ closing :: more)) ≠ .leftBracket := by
    show opening.kind ≠ .leftBracket
    rw [opens]
    decide
  have read := inside size self agree _ short other
  rw [List.length_append, List.length_cons] at short
  have read' := between size self agree closing more (by omega) closes
  simp only [operand, named]
  unfold Expression.named
  rw [bind_of_ok read, bind_of_ok (eat_of_kind opens), if_pos rfl, bind_of_ok read']
  rfl

theorem tiers_literal {token : Token} {value : Value}
    (scalar : token.kind ∈ [Kind.integer, .float, .string, .boolean, .nil])
    (spells : token.value = .ok value) :
    Tiers bound (.literal token value) [token] := by
  apply Tiers.of_operand
  · revert scalar
    generalize token.kind = kind
    revert kind
    decide
  · intro size self agree more short follow
    have literal : operand self (token :: ([] ++ more)) = literalOf token more := by
      simp only [List.mem_cons, List.not_mem_nil, or_false] at scalar
      rcases scalar with kind | kind | kind | kind | kind <;>
        simp only [operand, kind, List.nil_append]
    rw [literal]
    unfold literalOf
    rw [spells]
    rfl

theorem tiers_argument (make : Token → Expression → Expression) {word opening closing : Token}
    {e : Expression} {inner : List Token} (plain : word.kind ∉ signs)
    (known : ∀ self rest, operand self (word :: rest) =
      (do return make word (← argument self) : Reader Expression) rest)
    (opens : opening.kind = .leftParen) (inside : Tiers 0 e inner)
    (closes : closing.kind = .rightParen) :
    Tiers bound (make word e) (word :: opening :: (inner ++ [closing])) := by
  apply Tiers.of_operand plain
  intro size self agree more short follow
  have regroup : opening :: (inner ++ [closing]) ++ more =
    opening :: (inner ++ closing :: more) := by simp
  rw [regroup] at short ⊢
  rw [known, bind_of_ok (inside.read_argument agree opens closes (Nat.le_of_lt short))]
  rfl

theorem tiers_isType {word opening closing : Token} {e : Expression} {inner : List Token}
    {target : Kind}
    (tests : word.kind.testedType? = some target) (opens : opening.kind = .leftParen)
    (inside : Tiers 0 e inner)
    (closes : closing.kind = .rightParen) :
    Tiers bound (.isType word e target) (word :: opening :: (inner ++ [closing])) := by
  have known : word.kind ∉ signs ∧ ∀ self rest, operand self (word :: rest) =
      (do return .isType word (← argument self) target : Reader Expression) rest := by
    cases kind : word.kind
    all_goals first
      | (rw [kind] at tests; cases tests
         refine ⟨by decide, fun self rest => ?_⟩
         simp only [operand, kind]
         rfl)
      | (rw [kind] at tests; cases tests)
  exact tiers_argument (fun word e => .isType word e target) known.1 known.2 opens inside closes

theorem tiers_typeOf {word opening closing : Token} {e : Expression} {inner : List Token}
    (asks : word.kind = .typeStatement) (opens : opening.kind = .leftParen)
    (inside : Tiers 0 e inner)
    (closes : closing.kind = .rightParen) :
    Tiers bound (.typeOf word e) (word :: opening :: (inner ++ [closing])) := by
  apply tiers_argument Expression.typeOf (by rw [asks]; decide) _ opens inside closes
  intro self rest
  simp only [operand, asks]

theorem tiers_parens {opening closing : Token} {e : Expression} {inner : List Token}
    (opens : opening.kind = .leftParen) (inside : Tiers 0 e inner)
    (closes : closing.kind = .rightParen) :
    Tiers bound e (opening :: (inner ++ [closing])) := by
  apply Tiers.of_operand (by rw [opens]; decide)
  intro size self agree more short follow
  have regroup : inner ++ [closing] ++ more = inner ++ closing :: more := by simp
  rw [regroup] at short ⊢
  simp only [operand, opens]
  rw [inside.read_closed agree (by decide) closes short]
  rfl

theorem tiers_unary {operator : Token} {e : Expression} {inner : List Token}
    (sign : operator.kind ∈ signs)
    (inside : Tiers signStrength e inner) :
    Tiers bound (.unary operator e) (operator :: inner) := by
  apply Tiers.of_signed
  intro size self agree more short follow
  have read : signed (operand self) (inner ++ more) = .ok (e, more) :=
    inside size self agree more (Nat.le_of_succ_le short) ⟨follow, List.not_mem_nil⟩
  rw [List.cons_append, signed, if_pos sign, read]

/-- An operator after what its level has read so far. The loop of the level goes on with both of
them. -/
theorem tiers_binary {strength : Nat} {operator : Token} {left right : Expression}
    {before behind : List Token}
    (known : strength? operator.kind = some strength) (tight : bound ≤ strength)
    (first : Tiers strength left before)
    (last : Tiers (strength + 1) right behind) :
    Tiers bound (.binary operator left right) (before ++ operator :: behind) := by
  intro size self agree more short stops
  rw [List.append_assoc, List.cons_append] at short ⊢
  apply tier_of_tighter tight _ stops
  obtain ⟨operators, atLevel, member⟩ := mem_level known
  have stops' := stops.mono (Nat.succ_le_succ tight)
  have leftRead := first size self agree (operator :: (behind ++ more)) short
    (not_mem_tighter known)
  have fewer : (behind ++ more).length ≤ size := by
    rw [List.length_append, List.length_cons] at short
    omega
  have rightRead : tier self (strength + 1) (behind ++ more) = .ok (right, more) := by
    rw [last size self agree more fewer (stops'.mono (Nat.le_succ _)), resumed_stop stops']
  rw [leftRead]
  unfold resumed
  rw [atLevel]
  apply resume_operator member rightRead
  rw [List.length_append]
  exact Nat.le_add_left ..

end Kinds

theorem ite_isEmpty {index : List Expression} (nonempty : index ≠ []) (one other : Expression) :
    (if index.isEmpty then one else other) = other :=
  if_neg fun empty => nonempty (List.isEmpty_iff.1 empty)

def Phrase.Read : Phrase → List Token → Prop
  | .operand bound e => Tiers bound e
  | .keys index => KeysRead index
  | .args list => ArgsRead list
  | .moreArgs list => MoreArgsRead list

/-- A writing is read as what was written. -/
theorem Written.read {phrase : Phrase} {tokens : List Token} (written : Written phrase tokens) :
    phrase.Read tokens := by
  induction written with
  | plain named => exact tiers_variable named keysRead_nil
  | @indexed bound name index keys named nonempty _ inside =>
    have tiers : Tiers bound _ _ := tiers_variable named inside
    rwa [ite_isEmpty nonempty] at tiers
  | call named opens _ closes inside => exact tiers_call named keysRead_nil opens inside closes
  | @indexedCall bound _ _ _ _ _ _ _ named nonempty _ opens _ closes inside between =>
    have tiers : Tiers bound _ _ := tiers_call named inside opens between closes
    rwa [ite_isEmpty nonempty] at tiers
  | literal scalar spells => exact tiers_literal scalar spells
  | isType tests opens _ closes inside => exact tiers_isType tests opens inside closes
  | typeOf asks opens _ closes inside => exact tiers_typeOf asks opens inside closes
  | unary sign tight _ inside => exact tiers_unary sign inside
  | binary known tight _ _ first last => exact tiers_binary known tight first last
  | parens opens _ closes inside => exact tiers_parens opens inside closes
  | noKeys => exact keysRead_nil
  | key opens _ closes _ inside others => exact keysRead_cons opens inside closes others
  | noArgs => exact argsRead_nil
  | arg first others readFirst readOthers =>
    exact argsRead_cons first.starts readFirst readOthers others.starts
  | noMoreArgs => exact moreArgsRead_nil
  | moreArg separates _ others readFirst readOthers =>
    exact moreArgsRead_cons separates readFirst readOthers others.starts

/-- No mark of the end is inside a writing. -/
theorem Written.unended {phrase : Phrase} {tokens : List Token} (written : Written phrase tokens) :
    ∀ token ∈ tokens, token.kind ≠ .eof := by
  induction written with
  | literal scalar =>
    intro token member mark
    rw [List.mem_singleton.1 member] at mark
    rw [mark] at scalar
    revert scalar
    decide
  | @unary _ operator _ _ sign =>
    have word : operator.kind ≠ .eof := by
      rintro mark
      rw [mark] at sign
      revert sign
      decide
    simp_all
  | @binary _ _ operator _ _ _ _ known =>
    have word : operator.kind ≠ .eof := by
      rintro mark
      rw [mark] at known
      cases known
    simp_all [or_imp]
  | @isType _ word _ _ _ _ _ tests =>
    have word : word.kind ≠ .eof := by
      rintro mark
      rw [mark] at tests
      cases tests
    simp_all [or_imp]
  | _ => simp_all [or_imp]

theorem Written.read_front {e : Expression} {writing more : List Token}
    (written : Written (.operand 0 e) writing)
    (ends : Ends (nextKind more)) : Expression.read (writing ++ more) = .ok (e, more) := by
  have tiers : Tiers 0 e writing := written.read
  exact tiers.read_self (fun _ _ => rfl) (Nat.lt_succ_self _) ends

/-- The tokens up to the first mark of the end, where a writing is in front. -/
theorem Written.tokens_eq {phrase : Phrase} {tokens writing more : List Token}
    (written : Written phrase writing) (held : tokens.filter (!·.kind.isTrivia) = writing ++ more) :
    (TokenList.ofTokens tokens).tokens = writing ++ more.takeWhile (·.kind ≠ .eof) := by
  unfold TokenList.ofTokens
  dsimp only
  rw [held]
  apply List.takeWhile_append_of_pos
  intro token member
  simpa using written.unended token member

/-- A parser that comes to an expression is behind the tokens that a reader takes for it. -/
theorem runFrom_of_read {e : Expression} {tokens front left : List Token}
    (held : (TokenList.ofTokens tokens).tokens = front ++ left)
    (reading : Expression.read (front ++ left) = .ok (e, left)) :
    Cursor.expression.runFrom (Cursor.tokensOf tokens) 0 = some (.ok (e, front.length)) := by
  obtain ⟨s, same, frontHeld, _⟩ := Cursor.exists_script tokens
  rw [held] at frontHeld
  have agree := (Cursor.follows_expression : Cursor.Follows s _ _ _) 0 (Nat.zero_le _)
    (Nat.lt_succ_self (s.rest 0).length)
  have start : s.rest 0 = front ++ left := frontHeld
  rw [start, reading] at agree
  obtain ⟨position, _, within, rest, outcome⟩ := agree
  have lengths := congrArg List.length rest
  rw [Cursor.Script.length_rest, frontHeld, List.length_append] at lengths
  rw [frontHeld, List.length_append] at within
  have last : position = front.length := by omega
  rw [← same, outcome, last]

/-- In front of the end or a semicolon a writing is read as the expression that was written, with
the tokens of the writing. A parser at the start of the tokens comes to that expression, and stops
at that mark. -/
theorem read_of_written {e : Expression} {tokens writing more : List Token} {stop : Token}
    (written : Written (.operand 0 e) writing)
    (held : tokens.filter (!·.kind.isTrivia) = writing ++ stop :: more)
    (ends : stop.kind = .eof ∨ stop.kind = .semicolon) :
    Expression.read (TokenList.ofTokens tokens).tokens =
      .ok (e, (stop :: more).takeWhile (·.kind ≠ .eof)) ∧
      Cursor.expression.runFrom (Cursor.tokensOf tokens) 0 = some (.ok (e, writing.length)) ∧
      (Cursor.tokensOf tokens)[writing.length]? = some stop := by
  have front := written.tokens_eq held
  have follow : Ends (nextKind ((stop :: more).takeWhile (·.kind ≠ .eof))) := by
    rcases ends with mark | mark
    · rw [List.takeWhile_cons_of_neg (by simp [mark])]
      decide
    · rw [List.takeWhile_cons_of_pos (by simp [mark])]
      show Ends stop.kind
      rw [mark]
      decide
  have reading := written.read_front follow
  refine ⟨by rw [front, reading], runFrom_of_read front reading, ?_⟩
  unfold Cursor.tokensOf
  dsimp only
  rw [held]
  split <;> simp

/-- The tokens of `-a ^ b - (c - d);`, where the parentheses are needed. -/
theorem read_of_written_grouped :
    Cursor.expression.runFrom (Cursor.tokensOf
      [mark .operatorSubtraction "-", mark .identifier "a", mark .operatorPower "^",
        mark .identifier "b", mark .operatorSubtraction "-", mark .leftParen "(",
        mark .identifier "c", mark .operatorSubtraction "-", mark .identifier "d",
        mark .rightParen ")", mark .semicolon ";"]) 0 =
    some (.ok (.binary (mark .operatorSubtraction "-")
      (.binary (mark .operatorPower "^")
        (.unary (mark .operatorSubtraction "-") (.plain (mark .identifier "a")))
        (.plain (mark .identifier "b")))
      (.binary (mark .operatorSubtraction "-") (.plain (mark .identifier "c"))
        (.plain (mark .identifier "d"))),
      10)) := by
  have power : Written (.operand 4 _)
      ([mark .operatorSubtraction "-", mark .identifier "a"] ++ mark .operatorPower "^" ::
          [mark .identifier "b"]) :=
    .binary rfl (by decide) (.unary (by decide) (by decide) (.plain rfl)) (.plain rfl)
  have difference : Written (.operand 5 _) (mark .leftParen "(" ::
      ([mark .identifier "c"] ++ mark .operatorSubtraction "-" :: [mark .identifier "d"] ++
          [mark .rightParen ")"])) :=
    .parens rfl (.binary rfl (by decide) (.plain rfl) (.plain rfl)) rfl
  exact (read_of_written (.binary rfl (Nat.zero_le _) power difference) rfl (.inr rfl)).2.1

/-- No tokens write two expressions. -/
theorem Written.unique {e other : Expression} {tokens : List Token}
    (written : Written (.operand 0 e) tokens)
    (again : Written (.operand 0 other) tokens) : e = other := by
  have ends : Ends (nextKind []) := by decide
  have one := written.read_front ends
  rw [again.read_front ends] at one
  cases one
  rfl

end Treecode.Expression
