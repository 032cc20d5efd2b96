import Treecode.Proofs.Moved
import Treecode.Reader

set_option autoImplicit false

namespace Treecode

namespace Reader

variable {α β : Type} {move : Position → Position}

/-- What a reader yields and leaves, or where it fails, with everything moved; a change moves the
yield. -/
def outcomeMoved (move : Position → Position) (change : α → α) :
    Except Unexpected (α × List Token) → Except Unexpected (α × List Token)
  | .ok (a, rest) => .ok (change a, rest.map (Token.moved move))
  | .error unexpected => .error (unexpected.moved move)

/-- Outcomes that are the same once they are moved are both successes or both failures. -/
theorem outcomeMoved_cases {change : α → α} {one other : Except Unexpected (α × List Token)}
    (same : outcomeMoved move change one = outcomeMoved move change other) :
    (∃ a rest b rest', one = .ok (a, rest) ∧ other = .ok (b, rest') ∧ change a = change b) ∨
      ∃ unexpected unexpected', one = .error unexpected ∧ other = .error unexpected' ∧
        unexpected.moved move = unexpected'.moved move := by
  cases one with
  | ok result =>
    cases other with
    | ok result' =>
      exact .inl ⟨_, _, _, _, rfl, rfl, congrArg Prod.fst (Except.ok.inj same)⟩
    | error unexpected' => cases same
  | error unexpected =>
    cases other with
    | ok result' => cases same
    | error unexpected' => exact .inr ⟨_, _, rfl, rfl, Except.error.inj same⟩

/-- From moved tokens the second reader does what the first does from the tokens, moved. -/
def Moves (move : Position → Position) (change : α → α) (reader reader' : Reader α) : Prop :=
  ∀ tokens, reader' (tokens.map (Token.moved move)) = outcomeMoved move change (reader tokens)

variable {change : α → α} {change' : β → β}

theorem Moves.pure {a b : α} (same : b = change a) :
    Moves move change (Pure.pure a) (Pure.pure b) := by
  intro tokens
  rw [same]
  rfl

theorem Moves.bind {reader reader' : Reader α} {next next' : α → Reader β}
    (first : Moves move change reader reader')
    (last : ∀ a, Moves move change' (next a) (next' (change a))) :
    Moves move change' (reader >>= next) (reader' >>= next') := by
  intro tokens
  rw [bind_apply, bind_apply, first tokens]
  cases reader tokens with
  | ok result => exact last result.1 result.2
  | error unexpected => rfl

/-- A reader whose result is put to use at the end. -/
theorem Moves.map {reader reader' : Reader α} {f g : α → β}
    (first : Moves move change reader reader') (same : ∀ a, g (change a) = change' (f a)) :
    Moves move change' (do let a ← reader; return f a) (do let a ← reader'; return g a) :=
  first.bind fun a => .pure (same a)

theorem Moves.ite {condition : Prop} [Decidable condition] {first first' second second' : Reader α}
    (yes : Moves move change first first') (no : Moves move change second second') :
    Moves move change (if condition then first else second)
      (if condition then first' else second') := by
  split
  · exact yes
  · exact no

theorem Moves.fail (expected : Expectation) :
    Moves move change (fail expected) (fail expected) := by
  intro tokens
  cases tokens <;> rfl

theorem Moves.failAt (token : Option Token) (found : Kind) (expected : Expectation) :
    Moves move change (failAt token found expected)
      (failAt (token.map (Token.moved move)) found expected) := by
  intro tokens
  rfl

theorem Moves.peek : Moves move (Option.map (Token.moved move)) peek peek := by
  intro tokens
  cases tokens <;> rfl

theorem Moves.peekKind : Moves move id peekKind peekKind := by
  intro tokens
  cases tokens <;> rfl

theorem Moves.takeAny (kinds : List Kind) :
    Moves move (Option.map (Token.moved move)) (takeAny kinds) (takeAny kinds) := by
  intro tokens
  cases tokens with
  | nil => rfl
  | cons token rest =>
    by_cases fits : token.kind ∈ kinds
    · simp only [List.map_cons, Reader.takeAny, Token.kind_moved, fits, ↓reduceIte]
      rfl
    · simp only [List.map_cons, Reader.takeAny, Token.kind_moved, fits, ↓reduceIte]
      rfl

theorem Moves.take (kind : Kind) :
    Moves move (Option.map (Token.moved move)) (take kind) (take kind) :=
  .takeAny [kind]

theorem Moves.eat (kind : Kind) : Moves move id (eat kind) (eat kind) :=
  (Moves.take kind).map fun _ => Option.isSome_map

theorem Moves.expect (kind : Kind) (expected : Expectation) :
    Moves move (Token.moved move) (expect kind expected) (expect kind expected) := by
  intro tokens
  cases tokens with
  | nil => rfl
  | cons token rest =>
    by_cases fits : token.kind = kind
    · simp only [List.map_cons, Reader.expect, Token.kind_moved, fits, ↓reduceIte]
      rfl
    · simp only [List.map_cons, Reader.expect, Token.kind_moved, fits, ↓reduceIte]
      rfl

theorem Moves.expectMark (kind : Kind) (spelling : String) :
    Moves move (Token.moved move) (expectMark kind spelling) (expectMark kind spelling) :=
  .expect kind _

theorem Moves.many (change : α → α) {step step' : Reader (Option α)}
    (moves : Moves move (Option.map change) step step') :
    Moves move (List.map change) (many step) (many step') := by
  intro tokens
  induction count : tokens.length using Nat.strongRecOn generalizing tokens with
  | ind count ih =>
    rw [Reader.many, Reader.many, moves tokens]
    cases found : step tokens with
    | error unexpected => rfl
    | ok result =>
      obtain ⟨item, rest⟩ := result
      cases item with
      | none => rfl
      | some item =>
        simp only [outcomeMoved, Option.map_some, List.length_map]
        by_cases shorter : rest.length < tokens.length
        · simp only [shorter, ↓reduceIte, ih rest.length (count ▸ shorter) rest rfl]
          cases Reader.many step rest <;> rfl
        · simp only [shorter, ↓reduceIte]
          rfl

theorem Moves.separated {item item' : Reader α} (moves : Moves move change item item') :
    Moves move (List.map change) (separated item) (separated item') := by
  refine moves.bind fun first => Moves.bind (Moves.many change ?_) fun others => .pure rfl
  refine (Moves.eat .comma).bind fun more => Moves.ite ?_ (.pure rfl)
  exact moves.map fun _ => rfl

theorem Moves.listUpTo {item item' : Reader α} (close : Kind)
    (moves : Moves move change item item') :
    Moves move (List.map change) (listUpTo close item) (listUpTo close item') :=
  Moves.peekKind.bind fun _ => Moves.ite (.pure rfl) moves.separated

/-- A reader that refers to itself moves where it does so on every shorter list. -/
theorem Moves.shorterThan {tokens : List Token} {expected : Expectation} {reader : Reader α}
    (moves : ∀ rest, rest.length < tokens.length →
      reader (rest.map (Token.moved move)) = outcomeMoved move change (reader rest)) :
    Moves move change (shorterThan tokens (fun rest _ => reader rest) expected)
      (shorterThan (tokens.map (Token.moved move)) (fun rest _ => reader rest) expected) := by
  intro rest
  unfold Reader.shorterThan
  simp only [List.length_map]
  split
  · rename_i shorter
    exact moves rest shorter
  · exact Moves.fail expected rest

end Reader

open Reader

variable {move : Position → Position}

namespace Expression

theorem moved_chain (first : Expression) (others : List (Token × Expression)) :
    chain (first.moved move) (others.map (Prod.map (Token.moved move) (Expression.moved move))) =
      (chain first others).moved move := by
  unfold chain
  induction others generalizing first with
  | nil => rfl
  | cons other others ih => exact ih (.binary other.1 first other.2)

theorem moves_level {operand operand' : Reader Expression} (operators : List Kind)
    (moves : Moves move (Expression.moved move) operand operand') :
    Moves move (Expression.moved move) (level operators operand) (level operators operand') := by
  refine moves.bind fun first => ?_
  refine Moves.bind (Moves.many (Prod.map (Token.moved move) (Expression.moved move)) ?_)
    fun others => .pure (moved_chain first others)
  refine (Moves.takeAny operators).bind fun operator => ?_
  cases operator with
  | none => exact .pure rfl
  | some operator => exact moves.map fun _ => rfl

theorem moves_signed {operand operand' : Reader Expression}
    (moves : Moves move (Expression.moved move) operand operand') :
    Moves move (Expression.moved move) (signed operand) (signed operand') := by
  intro tokens
  induction tokens with
  | nil => exact moves []
  | cons token tokens ih =>
    by_cases sign : token.kind ∈ signs
    · simp only [List.map_cons, signed, Token.kind_moved, sign, ↓reduceIte, ih]
      cases signed operand tokens <;> rfl
    · have plain := moves (token :: tokens)
      rw [List.map_cons] at plain
      simp only [List.map_cons, signed, Token.kind_moved, sign, ↓reduceIte, plain]

theorem moves_literalOf (token : Token) :
    Moves move (Expression.moved move) (literalOf token) (literalOf (token.moved move)) := by
  unfold literalOf
  rw [Token.value_moved]
  split
  · exact .pure rfl
  · exact .failAt _ _ _

section Parts

variable {self self' : Reader Expression} (moves : Moves move (Expression.moved move) self self')

include moves

theorem moves_arguments :
    Moves move (List.map (Expression.moved move)) (arguments self) (arguments self') :=
  (Moves.listUpTo .rightParen moves).bind fun _ => (Moves.expectMark .rightParen ")").bind fun _ =>
    .pure rfl

theorem moves_argument : Moves move (Expression.moved move) (argument self) (argument self') :=
  (Moves.expectMark .leftParen "(").bind fun _ => moves.bind fun _ =>
    (Moves.expectMark .rightParen ")").bind fun _ => .pure rfl

theorem moves_indexChain :
    Moves move (List.map (Expression.moved move)) (indexChain self) (indexChain self') := by
  refine Moves.many _ ((Moves.eat .leftBracket).bind fun opened => Moves.ite ?_ (.pure rfl))
  exact moves.bind fun _ => (Moves.expectMark .rightBracket "]").bind fun _ => .pure rfl

theorem moves_named (name : Token) :
    Moves move (Expression.moved move) (named self name) (named self' (name.moved move)) := by
  refine (moves_indexChain moves).bind fun index => (Moves.eat .leftParen).bind fun opened => ?_
  refine Moves.ite ?_ ?_
  · refine (moves_arguments moves).map fun args => ?_
    cases index <;> simp [Expression.moved, allMoved_eq]
  · apply Moves.pure
    cases index <;> simp [Expression.moved, allMoved_eq]

theorem moves_interpolated (start : Token) :
    Moves move (Expression.moved move) (interpolated self start)
      (interpolated self' (start.moved move)) := by
  refine (Moves.take .stringInterpolationEnd).bind fun stop => ?_
  cases stop with
  | some stop =>
    simp only [Option.map_some, Token.value_moved]
    split
    · exact .pure rfl
    · exact .failAt _ _ _
  | none =>
    refine (moves_literalOf start).bind fun first => ?_
    refine Moves.bind (Moves.many (Prod.map (Token.moved move) (Expression.moved move)) ?_)
      fun middle => ?_
    · refine Moves.peekKind.bind fun kind => ?_
      simp only [id]
      split
      · exact .pure rfl
      · exact (Moves.expect _ _).bind fun part => (moves_literalOf part).map fun _ => rfl
      · exact moves.map fun _ => rfl
    · refine (Moves.expect _ _).bind fun stop => (moves_literalOf stop).map fun last => ?_
      rw [← moved_chain, List.map_append]
      rfl

theorem moves_element (expected : Expectation) :
    Moves move id (element self expected) (element self' expected) := by
  refine moves.bind fun item => ?_
  cases item with
  | literal token value => exact Moves.ite (.failAt _ _ _) (.pure rfl)
  | _ => exact .failAt _ _ _

theorem moves_arrayLiteral (bracket : Token) :
    Moves move (Expression.moved move) (arrayLiteral self bracket)
      (arrayLiteral self' (bracket.moved move)) := by
  refine (Moves.listUpTo .rightBracket (moves_element moves .arrayElement)).bind fun items => ?_
  rw [List.map_id]
  exact (Moves.expectMark .rightBracket "]").bind fun _ => .pure rfl

theorem moves_entry : Moves move id (entry self) (entry self') := by
  refine Moves.peek.bind fun keyToken => (moves_element moves .recordKey).bind fun key => ?_
  refine Moves.ite (.failAt _ _ _) ((Moves.expectMark .colon ":").bind fun _ => ?_)
  exact (moves_element moves .recordValue).map fun _ => rfl

theorem moves_recordLiteral (brace : Token) :
    Moves move (Expression.moved move) (recordLiteral self brace)
      (recordLiteral self' (brace.moved move)) := by
  refine (Moves.listUpTo .rightBrace (moves_entry moves)).bind fun entries => ?_
  rw [List.map_id]
  exact (Moves.expectMark .rightBrace "\x7d").bind fun _ => .pure rfl

theorem moves_operand : Moves move (Expression.moved move) (operand self) (operand self') := by
  intro tokens
  cases tokens with
  | nil => rfl
  | cons token tokens =>
    simp only [List.map_cons, operand, Token.kind_moved, Token.text_moved]
    split
    case h_1 =>
      refine (moves.bind fun inner => ?_ : Moves move (Expression.moved move) _ _) tokens
      exact (Moves.expectMark .rightParen ")").bind fun _ => .pure rfl
    case h_2 => exact moves_named moves token tokens
    case h_8 => exact moves_interpolated moves token tokens
    case h_9 => rfl
    case h_10 => rfl
    case h_11 =>
      by_cases array : token.text = "array"
      · simp only [array, ↓reduceIte]
        rfl
      · by_cases record : token.text = "record"
        · simp only [record, ↓reduceIte]
          rfl
        · simp only [array, record, ↓reduceIte]
          rfl
    case h_12 => exact moves_arrayLiteral moves token tokens
    case h_13 => exact moves_recordLiteral moves token tokens
    case h_14 =>
      have moved : Moves move (Expression.moved move) (do return .typeOf token (← argument self))
          (do return .typeOf (token.moved move) (← argument self')) :=
            (moves_argument moves).map fun _ => rfl
      exact moved tokens
    case h_15 =>
      split
      · rename_i target _
        have moved : Moves move (Expression.moved move)
          (do return .isType token (← argument self) target)
            (do return .isType (token.moved move) (← argument self') target) :=
          (moves_argument moves).map fun _ => rfl
        exact moved tokens
      · rfl
    all_goals exact moves_literalOf token tokens

theorem moves_fromParts :
    Moves move (Expression.moved move) (fromParts self) (fromParts self') := by
  unfold fromParts
  induction levels with
  | nil => exact moves_signed (moves_operand moves)
  | cons operators looser ih => exact moves_level operators ih

end Parts

theorem moves_read : Moves move (Expression.moved move) read read := by
  intro tokens
  induction count : tokens.length using Nat.strongRecOn generalizing tokens with
  | ind count ih =>
    rw [read, read]
    refine moves_fromParts (Moves.shorterThan ?_) tokens
    intro rest shorter
    exact ih rest.length (count ▸ shorter) rest rfl

end Expression

end Treecode
