import Treecode.Proofs.Followed
import Treecode.Proofs.ExpressionWords

set_option autoImplicit false

namespace Treecode.Cursor

open Reader

variable {s : Script} {bound : Nat}

theorem byteLength_cons (c : Char) (text : List Char) :
    byteLength (c :: text) = c.utf8Size + byteLength text := rfl

theorem byteLength_append (front back : List Char) :
    byteLength (front ++ back) = byteLength front + byteLength back := by
  unfold byteLength
  rw [List.map_append, List.sum_append]

/-- The bytes of the first characters are those of whole characters. -/
theorem takeBytes?_append (front back : List Char) :
    takeBytes? (byteLength front) (front ++ back) = some front := by
  induction front with
  | nil =>
    cases back <;> rfl
  | cons c front ih =>
    rw [byteLength_cons, List.cons_append]
    have positive := c.utf8Size_pos
    obtain ⟨bytes, count⟩ : ∃ bytes, c.utf8Size + byteLength front = bytes + 1 :=
      ⟨c.utf8Size + byteLength front - 1, by omega⟩
    have left : bytes + 1 - c.utf8Size = byteLength front := by omega
    have fits : c.utf8Size ≤ bytes + 1 := by omega
    rw [count, takeBytes?, if_pos fits, left, ih]
    rfl

theorem hasQuotes_iff {quote : Char} (single : quote.utf8Size = 1) (text : List Char) :
    hasQuotes text quote = true ↔ ∃ inner, text = quote :: (inner ++ [quote]) := by
  unfold hasQuotes
  rw [decide_eq_true_iff]
  constructor
  · rintro ⟨long, first, last⟩
    obtain ⟨rest, rfl⟩ := List.head?_eq_some_iff.1 first
    cases rest with
    | nil =>
      rw [byteLength_cons, single] at long
      exact absurd long (by decide)
    | cons c rest =>
      rw [List.getLast?_cons_cons] at last
      obtain ⟨inner, same⟩ := List.getLast?_eq_some_iff.1 last
      exact ⟨inner, by rw [same]⟩
  · rintro ⟨inner, rfl⟩
    refine ⟨?_, rfl, ?_⟩
    · rw [byteLength_cons, byteLength_append, byteLength_cons, single]
      omega
    · rw [← List.cons_append, List.getLast?_concat]

/-- What stands between two quotes lies within the bounds of the text. -/
theorem slice?_quoted {quote : Char} (single : quote.utf8Size = 1) (inner : List Char) :
    slice? (quote :: (inner ++ [quote])) 1 (byteLength (quote :: (inner ++ [quote])) - 1) =
      some inner := by
  have length : byteLength (quote :: (inner ++ [quote])) - 1 = 1 + byteLength inner := by
    rw [byteLength_cons, byteLength_append, byteLength_cons, single]
    show 1 + (byteLength inner + (1 + 0)) - 1 = _
    omega
  have dropped : dropBytes? 1 (quote :: (inner ++ [quote])) = some (inner ++ [quote]) := by
    rw [dropBytes?, if_pos (Nat.le_of_eq single), single]
    cases inner <;> rfl
  unfold slice?
  rw [length, if_pos (by omega), dropped, Nat.add_sub_cancel_left, Option.bind_some,
    takeBytes?_append]

theorem between?_quoted (quote : Char) (inner : List Char) :
    Literal.between? (· == quote) (· == quote) (quote :: (inner ++ [quote])) = some inner := by
  simp [Literal.between?]

theorem between?_eq_none {quote : Char} {text : List Char}
    (unquoted : ¬ ∃ inner, text = quote :: (inner ++ [quote])) :
    Literal.between? (· == quote) (· == quote) text = none := by
  cases text with
  | nil => rfl
  | cons c rest =>
    rw [Literal.between?]
    split
    · next last ends =>
      obtain ⟨inner, rfl⟩ := List.getLast?_eq_some_iff.1 ends
      refine if_neg fun both => unquoted ⟨inner, ?_⟩
      rw [Bool.and_eq_true, beq_iff_eq, beq_iff_eq] at both
      rw [both.1, both.2]
    · rfl

/-- The quotes of a text can be taken off without asking for anything outside it. -/
theorem stripQuotes_eq (text : List Char) : stripQuotes text = .ok (Literal.unquoted text) := by
  have doubled := hasQuotes_iff (show '"'.utf8Size = 1 by decide) text
  have single := hasQuotes_iff (show '\''.utf8Size = 1 by decide) text
  unfold stripQuotes Literal.unquoted
  by_cases first : ∃ inner, text = '"' :: (inner ++ ['"'])
  · rw [List.any_cons, doubled.2 first, Bool.true_or, if_pos rfl]
    obtain ⟨inner, rfl⟩ := first
    rw [slice?_quoted (by decide), between?_quoted]
    rfl
  · rw [between?_eq_none first, Option.none_or]
    have noDouble := Bool.eq_false_iff.2 fun has => first (doubled.1 has)
    rw [List.any_cons, noDouble, Bool.false_or, List.any_cons, List.any_nil, Bool.or_false]
    by_cases second : ∃ inner, text = '\'' :: (inner ++ ['\''])
    · rw [single.2 second, if_pos rfl]
      obtain ⟨inner, rfl⟩ := second
      rw [slice?_quoted (by decide), between?_quoted]
      rfl
    · rw [Bool.eq_false_iff.2 fun has => second (single.1 has), if_neg Bool.false_ne_true,
        between?_eq_none second]
      rfl

theorem value_eq (token : Token) : value token = pure token.value := by
  unfold value
  split
  · next kind =>
    rw [stripQuotes_eq]
    unfold Token.value
    rw [kind]
    rfl
  · rfl

theorem follows_literal (token : Token) :
    Follows s bound (literal token) (Expression.literalOf token) := by
  unfold literal Expression.literalOf
  rw [value_eq, pure_bind]
  cases token.value with
  | ok value => exact .pure _
  | error fault => exact .misfitAt _ _ _

theorem follows_valueOf (item : Expression) (expected : Expectation) :
    Follows s bound (valueOf item expected)
      (match item with
        | .literal token value =>
          if token.kind ∈ Expression.pieces then failAt (some token) .literalExpression expected
            else return value
        | other => failAt (some other.token) other.kind expected) := by
  cases item with
  | literal token value => exact Follows.ite (.misfitAt _ _ _) (.pure _)
  | _ => exact .misfitAt _ _ _

/-- A further piece of an interpolated string, or an expression between two pieces. -/
def readPiece (self : Reader Expression) (plus : Token) : Reader (Option (Token × Expression)) := do
  match ← Reader.peekKind with
  | .stringInterpolationEnd => return none
  | .stringInterpolationStringPart =>
    let part ← Reader.expect .stringInterpolationStringPart .expression
    return some (plus, ← Expression.literalOf part)
  | _ => return some (plus, ← self)

theorem readPiece_eq (self : Reader Expression) (plus : Token) (tokens : List Token) :
    readPiece self plus tokens =
      (match nextKind tokens with
        | .stringInterpolationEnd => pure none
        | .stringInterpolationStringPart => do
          let part ← Reader.expect .stringInterpolationStringPart .expression
          return some (plus, ← Expression.literalOf part)
        | _ => do return some (plus, ← self) : Reader (Option (Token × Expression))) tokens := rfl

theorem readPiece_none {self : Reader Expression} {plus : Token} {tokens rest : List Token}
    (read : readPiece self plus tokens = .ok (none, rest)) :
    nextKind rest = .stringInterpolationEnd := by
  rw [readPiece_eq] at read
  obtain ⟨kind, next⟩ : ∃ kind, nextKind tokens = kind := ⟨_, rfl⟩
  rw [next] at read
  split at read
  · cases read
    exact next
  · obtain ⟨part, between, _, last⟩ := bind_ok read
    obtain ⟨e, _, _, last⟩ := bind_ok last
    cases last
  · obtain ⟨e, _, _, last⟩ := bind_ok read
    cases last

def closers : List Kind := [.stringInterpolationStringPart, .stringInterpolationEnd]

/-- Anything else between two pieces is an expression. -/
theorem readPiece_other {self : Reader Expression} {plus : Token} {tokens : List Token}
    (other : nextKind tokens ∉ closers) :
    readPiece self plus tokens =
      (do return some (plus, ← self) : Reader (Option (Token × Expression))) tokens := by
  rw [readPiece_eq]
  obtain ⟨kind, next⟩ : ∃ kind, nextKind tokens = kind := ⟨_, rfl⟩
  rw [next] at other ⊢
  split
  · exact absurd (by decide) other
  · exact absurd (by decide) other
  · rfl

theorem runFrom_pieceTurn_other (plus : Token) {position : Nat} (within : position ≤ s.front.length)
    (other : nextKind (s.rest position) ∉ closers) :
    (language.pieceTurn plus).runFrom s.tokens position =
      (do return some (plus, ← language.expression) :
        Walk (Option (Token × Expression))).runFrom s.tokens position := by
  rw [Grammar.pieceTurn, runFrom_bind, runFrom_current within]
  dsimp only
  rw [Script.kind_ahead]
  split
  · next last => exact absurd (by rw [last]; decide) other
  · next part => exact absurd (by rw [part]; decide) other
  · rfl

def grouped (left : Expression) (item : Token × Expression) : Expression :=
  .binary item.1 left item.2

theorem chain_eq (first : Expression) (others : List (Token × Expression)) :
    Expression.chain first others = others.foldl grouped first := rfl

def readLastPiece (plus : Token) (left : Expression) : Reader Expression := do
  let stop ← Reader.expect .stringInterpolationEnd .expression
  let last ← Expression.literalOf stop
  return .binary plus left last

/-- The two pieces of a string whose only interpolation is empty. -/
theorem follows_joined (start : Token) (first last : Except LiteralFault Value) : Follows s bound
    (match first, last with
      | .ok (.string front), .ok (.string back) => return .literal start (.string (front ++ back))
      | _, _ => misfitAt start start.kind .string : Walk Expression)
    (match first, last with
      | .ok (.string front), .ok (.string back) => return .literal start (.string (front ++ back))
      | _, _ => failAt (some start) start.kind .string : Reader Expression) := by
  split
  · exact .pure _
  · exact .misfitAt _ _ _

theorem indexLoop_eq (index : List Expression) :
    language.indexLoop index = language.indexTurn >>= fun item =>
      item.elim (pure index) fun next => language.indexLoop (index ++ [next]) := by
  rw [Grammar.indexLoop]
  congr
  funext item
  cases item <;> rfl

section Parts

variable {self : Reader Expression} (parts : Follows s bound language.expression self)

include parts

theorem follows_expressions (close : Kind) :
    Follows s bound (language.expressions close) (listUpTo close self) := by
  rw [Grammar.expressions]
  refine Follows.collectUpTo ?_ parts
  intro items
  rw [Grammar.expressionLoop]
  rfl

theorem follows_arguments : Follows s bound language.arguments (Expression.arguments self) := by
  rw [Grammar.arguments]
  exact (follows_expressions parts .rightParen).bind fun _ =>
    (Follows.expectMark (by decide) ")").map _

theorem follows_argument : Follows s bound language.argument (Expression.argument self) := by
  rw [Grammar.argument]
  exact (Follows.expectMark (by decide) "(").bind fun _ => parts.bind fun _ =>
    (Follows.expectMark (by decide) ")").map _

theorem follows_indexChain :
    Follows s bound (language.indexLoop []) (Expression.indexChain self) := by
  refine Follows.collect indexLoop_eq ?_
  rw [Grammar.indexTurn]
  exact Turns.eat (by decide) (parts.bind fun _ => (Follows.expectMark (by decide) "]").map _)

theorem follows_named (name : Token) : Follows s bound
    (do
      let index ← language.indexLoop []
      if ← eat .leftParen then
        let args ← language.arguments
        return if index.isEmpty then .call name args else .indexedCall name index args
      else
        return if index.isEmpty then .plain name else .indexed name index)
    (Expression.named self name) :=
  (follows_indexChain parts).bind fun _ => (Follows.eat (by decide)).bind fun _ =>
    Follows.ite ((follows_arguments parts).map _) (.pure _)

theorem follows_element (expected : Expectation) :
    Follows s bound (language.element expected) (Expression.element self expected) := by
  rw [Grammar.element]
  exact parts.bind fun e => follows_valueOf e expected

theorem follows_items :
    Follows s bound language.items
      (listUpTo .rightBracket (Expression.element self .arrayElement)) := by
  rw [Grammar.items]
  refine Follows.collectUpTo ?_ (follows_element parts .arrayElement)
  intro items
  rw [Grammar.itemLoop]
  rfl

theorem follows_entry : Follows s bound language.entry (Expression.entry self) := by
  rw [Grammar.entry]
  refine Follows.current fun keyToken => (follows_element parts .recordKey).bind fun key =>
    Follows.ite ?_ ?_
  · exact .misfitAhead _ _ _
  · exact (Follows.expectMark (by decide) ":").bind fun _ =>
      (follows_element parts .recordValue).map _

theorem follows_entries : Follows s bound language.entries
    (listUpTo .rightBrace (Expression.entry self) >>= fun entries =>
      pure (entries.foldl (fun known entry => Value.insertEntry entry.1 entry.2 known) [])) := by
  rw [Grammar.entries]
  refine Follows.upTo ?_ (follows_entry parts) []
  intro known
  rw [Grammar.entryLoop]
  rfl

/-- The turns of an interpolated string, where an expression takes a token. -/
theorem turns_piece (plus : Token)
    (takes : ∀ tokens e rest, self tokens = .ok (e, rest) → rest.length < tokens.length) :
    Turns s bound (language.pieceTurn plus) (readPiece self plus) := by
  constructor
  · intro position within short
    by_cases closes : nextKind (s.rest position) ∈ closers
    · rw [Grammar.pieceTurn, runFrom_bind, runFrom_current within]
      dsimp only
      rw [Script.kind_ahead, readPiece_eq]
      simp only [closers, List.mem_cons, List.not_mem_nil, or_false] at closes
      rcases closes with next | next
      · obtain ⟨part, left, here, fits⟩ := cons_of_nextKind next (by decide)
        have after := Script.rest_succ here
        have inside := Script.lt_of_rest here
        rw [next]
        apply Script.Agree.expect here fits
        rw [after.1]
        refine (follows_literal part).map _ (position + 1) inside (?_ : _ < bound)
        rw [Script.length_rest] at short ⊢
        omega
      · rw [next]
        exact Follows.pure none position within short
    · rw [runFrom_pieceTurn_other plus within closes, readPiece_other closes]
      exact parts.map _ position within short
  · intro position short item left read
    rw [readPiece_eq] at read
    obtain ⟨kind, next⟩ : ∃ kind, nextKind (s.rest position) = kind := ⟨_, rfl⟩
    rw [next] at read
    split at read
    · cases read
    · have piece : Consumes [] False (do
            let part ← Reader.expect .stringInterpolationStringPart .expression
            return some (plus, ← Expression.literalOf part)) _ :=
        Extends.after fun part => (Expression.extends_literalOf part).map _
      exact piece.shorter _ _ _ read
    · obtain ⟨e, between, first, last⟩ := bind_ok read
      cases last
      exact takes _ _ _ first

theorem follows_pieceLoop (plus : Token)
    (takes : ∀ tokens e rest, self tokens = .ok (e, rest) → rest.length < tokens.length)
    (first : Expression) :
    Follows s bound (language.pieceLoop plus first) (many (readPiece self plus) >>= fun middle =>
      readLastPiece plus (middle.foldl grouped first)) := by
  have steps : ∀ left, language.pieceLoop plus left = language.pieceTurn plus >>= fun item =>
      item.elim (do
        let stop ← advance
        return .binary plus left (← literal stop)) fun piece =>
          language.pieceLoop plus (grouped left piece) := by
    intro left
    rw [Grammar.pieceLoop]
    congr
    funext item
    cases item <;> rfl
  refine Follows.loop steps (turns_piece parts plus takes) ?_ first
  intro left earlier position within short read
  obtain ⟨stop, left, here, fits⟩ := cons_of_nextKind (readPiece_none read) (by decide)
  have after := Script.rest_succ here
  have inside := Script.lt_of_rest here
  apply Script.Agree.expect here fits
  rw [after.1]
  refine (follows_literal stop).map _ (position + 1) inside (?_ : _ < bound)
  rw [Script.length_rest] at short ⊢
  omega

theorem follows_interpolated (start : Token)
    (takes : ∀ tokens e rest, self tokens = .ok (e, rest) → rest.length < tokens.length) :
    Follows s bound (language.interpolated start) (Expression.interpolated self start) := by
  rw [Grammar.interpolated]
  refine (Follows.take (by decide)).bind fun stop => ?_
  cases stop with
  | some stop =>
    simp only [value_eq, pure_bind]
    exact follows_joined start start.value stop.value
  | none =>
    refine (follows_literal start).bind fun first => ?_
    refine (follows_pieceLoop parts ⟨.operatorAddition, some "+", start.position⟩ takes first).of_eq
      fun tokens => ?_
    have last : ∀ middle : List (Token × Expression),
        readLastPiece ⟨.operatorAddition, some "+", start.position⟩ (middle.foldl grouped first) =
          (do
            let stop ← Reader.expect .stringInterpolationEnd .expression
            let last ← Expression.literalOf stop
            return Expression.chain first
              (middle ++ [(⟨.operatorAddition, some "+", start.position⟩, last)])) := by
      intro middle
      simp only [chain_eq, List.foldl_append]
      rfl
    simp only [last]
    rfl

/-- The kinds of tokens that an operand starts with, words that test for a type apart. -/
def operandKinds : List Kind :=
  [.leftParen, .identifier, .integer, .float, .string, .boolean, .nil, .stringInterpolationStart,
    .newArray, .newRecord, .typeName, .leftBracket, .leftBrace, .typeStatement]

omit parts in
/-- Of the other words only those that test for a type start an operand. -/
theorem operand_other {token : Token} (other : token.kind ∉ operandKinds) :
    language.operand token = token.kind.testedType?.elim (misfit .expression) fun target => do
      let _ ← advance
      return .isType token (← language.argument) target := by
  simp only [operandKinds, List.mem_cons, List.not_mem_nil, or_false, not_or] at other
  rw [Grammar.operand]
  split
  case h_15 => cases token.kind.testedType? <;> rfl
  all_goals next kind => exact absurd kind (by simp only [other, not_false_eq_true])

omit parts in
theorem readOperand_other {token : Token} (other : token.kind ∉ operandKinds) (left : List Token) :
    Expression.operand self (token :: left) =
      token.kind.testedType?.elim (fail .expression (token :: left)) fun target =>
        (do return .isType token (← Expression.argument self) target : Reader Expression) left := by
  simp only [operandKinds, List.mem_cons, List.not_mem_nil, or_false, not_or] at other
  unfold Expression.operand
  dsimp only
  split
  case h_15 => cases token.kind.testedType? <;> rfl
  all_goals next kind => exact absurd kind (by simp only [other, not_false_eq_true])

/-- An operand, where the grammar refers to itself after a token. -/
theorem follows_operand (takes : ∀ tokens e rest, self tokens = .ok (e, rest) →
    rest.length < tokens.length) :
    Follows s (bound + 1) (do language.operand (← current)) (Expression.operand self) := by
  intro position within short
  have unfit := (Follows.misfit .expression :
    Follows s (bound + 1) (misfit .expression : Walk Expression) _) position within short
  rw [runFrom_bind, runFrom_current within]
  dsimp only
  cases here : s.rest position with
  | nil =>
    have atEnd : (s.ahead position).kind = .eof := by
      rw [Script.kind_ahead, here]
      rfl
    rw [here] at unfit
    rw [operand_other (by rw [atEnd]; decide), atEnd]
    exact unfit
  | cons token left =>
    have after := Script.rest_succ here
    have inside := Script.lt_of_rest here
    have shorter : (s.rest (position + 1)).length < bound := by
      rw [Script.length_rest] at short ⊢
      omega
    have rest : ∀ {walk : Walk Expression} {reader : Reader Expression},
      Follows s bound walk reader →
        s.Agree position ((do let _ ← advance; walk : Walk Expression).runFrom s.tokens position)
            (reader left) := by
      intro walk reader follows
      apply Script.Agree.advance here
      rw [after.1]
      exact follows (position + 1) inside shorter
    rw [here] at unfit
    rw [Script.ahead_eq here]
    by_cases special : token.kind ∈ operandKinds
    · simp only [operandKinds, List.mem_cons, List.not_mem_nil, or_false] at special
      rw [Grammar.operand]
      unfold Expression.operand
      rcases special with kind | kind | kind | kind | kind | kind | kind | kind | kind |
        kind | kind | kind | kind | kind
      all_goals simp only [kind]
      · exact rest (parts.bind fun inner => (Follows.expectMark (by decide) ")").map _)
      · exact rest (follows_named parts token)
      · exact rest (follows_literal token)
      · exact rest (follows_literal token)
      · exact rest (follows_literal token)
      · exact rest (follows_literal token)
      · exact rest (follows_literal token)
      · exact rest (follows_interpolated parts token takes)
      · exact rest (.pure _)
      · exact rest (.pure _)
      · by_cases array : token.text = "array"
        · simp only [array, ↓reduceIte]
          exact rest (.pure _)
        · by_cases record : token.text = "record"
          · simp only [record, ↓reduceIte]
            exact rest (.pure _)
          · simp only [array, record, ↓reduceIte]
            exact unfit
      · exact rest ((follows_items parts).bind fun items =>
          (Follows.expectMark (by decide) "]").map _)
      · exact rest ((follows_entries parts).then fun entries =>
          (Follows.expectMark (by decide) "\x7d").map _)
      · exact rest ((follows_argument parts).map _)
    · rw [operand_other special, readOperand_other special]
      cases token.kind.testedType? with
      | none => exact unfit
      | some target => exact rest ((follows_argument parts).map _)

end Parts

theorem signed_eq (operand : Reader Expression) (tokens : List Token) :
    Expression.signed operand tokens =
      (do
        match ← Reader.takeAny Expression.signs with
        | some sign => return .unary sign (← Expression.signed operand)
        | none => operand : Reader Expression) tokens := by
  cases tokens with
  | nil => rfl
  | cons token left =>
    rw [Expression.signed, bind_apply]
    by_cases sign : token.kind ∈ Expression.signs
    · rw [if_pos sign, show Reader.takeAny Expression.signs (token :: left) = _ from if_pos sign]
      dsimp only
      rw [bind_apply]
      cases Expression.signed operand left <;> rfl
    · rw [if_neg sign, show Reader.takeAny Expression.signs (token :: left) = _ from if_neg sign]

/-- Signs before an operand, by induction on the number of tokens left. -/
theorem follows_signed {reader : Reader Expression}
    (parts : Follows s bound (do language.operand (← current)) reader) :
    Follows s bound language.signed (Expression.signed reader) := by
  induction bound with
  | zero => exact fun _ _ short => absurd short (Nat.not_lt_zero _)
  | succ bound ih =>
    rw [Grammar.signed]
    refine Follows.of_eq (Follows.taking (by decide) (fun sign => ?_) parts) fun tokens =>
      (signed_eq reader tokens).symm
    exact (ih (parts.mono (Nat.le_succ bound))).map _

theorem turns_level {operators : List Kind} {tighter : List (List Kind)}
    {reader : Reader Expression}
    (marks : .eof ∉ operators) (parts : Follows s bound (language.level tighter) reader) :
    Turns s bound (language.levelTurn operators tighter) (Expression.further operators reader) := by
  rw [Grammar.levelTurn]
  exact Turns.takeAny marks fun operator => parts.map _

theorem follows_level {reader : Reader Expression} {list : List (List Kind)}
    (marks : .eof ∉ list.flatten) (parts : Follows s bound language.signed reader) :
    Follows s bound (language.level list) (list.foldr Expression.level reader) := by
  induction list with
  | nil =>
    rw [Grammar.level]
    exact parts
  | cons operators tighter ih =>
    rw [List.flatten_cons, List.mem_append, not_or] at marks
    have operands := ih marks.2
    have steps : ∀ left, language.levelLoop operators tighter left =
        language.levelTurn operators tighter >>= fun item =>
          item.elim (pure left) fun item =>
            language.levelLoop operators tighter (grouped left item) := by
      intro left
      rw [Grammar.levelLoop]
      congr
      funext item
      cases item <;> rfl
    rw [Grammar.level]
    refine operands.bind fun first => ?_
    exact Follows.loop steps (turns_level marks.1 operands) (fun acc _ position within short _ =>
      Follows.pure acc position within short) first

/-- A cursor reads an expression as a reader does. -/
theorem follows_expression : Follows s bound language.expression Expression.read := by
  induction bound with
  | zero => exact fun _ _ short => absurd short (Nat.not_lt_zero _)
  | succ bound ih =>
    intro position within short
    have marks : Kind.eof ∉ Expression.levels.flatten := by decide
    rw [Grammar.expression, Expression.read]
    exact follows_level marks
      (follows_signed (follows_operand (ih.shorterThan (Nat.le_of_lt_succ short))
        fun _ _ _ => length_of_shorterThan fun _ _ _ => Expression.length_of_read))
      position within (Nat.lt_succ_self _)

end Treecode.Cursor
