import Treecode.Proofs.Extension

set_option autoImplicit false

namespace Treecode

/-- How many interpolations are open after a token, if it may stand where some are open. -/
def openAfter (count : Nat) (token : Token) : Option Nat :=
  match token.kind with
  | .stringInterpolationStart => some (count + 1)
  | .stringInterpolationStringPart => if 0 < count then some count else none
  | .stringInterpolationEnd => if 0 < count then some (count - 1) else none
  | _ => some count

/-- Tokens that lead from a number of open interpolations to another one. -/
def Nests (tokens : List Token) (before after : Nat) : Prop :=
  tokens.foldlM openAfter before = some after

instance (tokens : List Token) (before after : Nat) : Decidable (Nests tokens before after) :=
  inferInstanceAs (Decidable (_ = _))

variable {tokens more : List Token} {token : Token} {before between after : Nat}

theorem Nests.nil : Nests [] before before := rfl

theorem nests_append :
    Nests (tokens ++ more) before after ↔
      ∃ between, Nests tokens before between ∧ Nests more between after := by
  unfold Nests
  rw [List.foldlM_append]
  exact Option.bind_eq_some_iff

theorem Nests.append (first : Nests tokens before between) (last : Nests more between after) :
    Nests (tokens ++ more) before after := nests_append.2 ⟨between, first, last⟩

theorem nests_cons :
    Nests (token :: tokens) before after ↔
      ∃ between, openAfter before token = some between ∧ Nests tokens between after := by
  unfold Nests
  rw [List.foldlM_cons]
  exact Option.bind_eq_some_iff

/-- A token of another kind than the pieces of strings changes nothing. -/
theorem openAfter_other (count : Nat) (other : token.kind ∉ Expression.pieces) :
    openAfter count token = some count := by
  simp only [Expression.pieces, List.mem_cons, List.not_mem_nil, or_false, not_or] at other
  obtain ⟨noStart, noPart, noEnd⟩ := other
  unfold openAfter
  split
  all_goals first
    | rfl
    | contradiction

theorem openAfter_start (starts : token.kind = .stringInterpolationStart) (count : Nat) :
    openAfter count token = some (count + 1) := by
  simp only [openAfter, starts]

theorem openAfter_part (part : token.kind = .stringInterpolationStringPart) (count : Nat) :
    openAfter count token = if 0 < count then some count else none := by
  simp only [openAfter, part]

theorem openAfter_end (ends : token.kind = .stringInterpolationEnd) (count : Nat) :
    openAfter count token = if 0 < count then some (count - 1) else none := by
  simp only [openAfter, ends]

/-- What may stand where some interpolations are open may stand where more are. -/
theorem openAfter_deeper {next : Nat} (fits : openAfter before token = some next) (outer : Nat) :
    openAfter (before + outer) token = some (next + outer) := by
  unfold openAfter at fits ⊢
  split at fits
  · cases fits
    simp only [Option.some.injEq]
    omega
  · split at fits
    · cases fits
      exact if_pos (by omega)
    · cases fits
  · split at fits
    · cases fits
      rw [if_pos (by omega), Option.some.injEq]
      omega
    · cases fits
  · cases fits
    rfl

theorem Nests.deeper (nests : Nests tokens before after) (outer : Nat) :
    Nests tokens (before + outer) (after + outer) := by
  induction tokens generalizing before with
  | nil =>
    cases nests
    exact .nil
  | cons token tokens ih =>
    obtain ⟨between, first, rest⟩ := nests_cons.1 nests
    exact nests_cons.2 ⟨_, openAfter_deeper first outer, ih rest⟩

/-- The kinds of the tokens that no expression holds: what ends a statement, and what makes it a
definition. -/
def statementMarks : List Kind := [.semicolon, .operatorArrow]

/-- Tokens of an expression that lead from a number of open interpolations to another one. -/
structure Spans (tokens : List Token) (before after : Nat) : Prop where
  nests : Nests tokens before after
  inside : ∀ token ∈ tokens, token.kind ∉ statementMarks

namespace Spans

theorem nil : Spans [] before before := ⟨.nil, List.forall_mem_nil _⟩

theorem append (first : Spans tokens before between) (last : Spans more between after) :
    Spans (tokens ++ more) before after :=
  ⟨first.nests.append last.nests, List.forall_mem_append.2 ⟨first.inside, last.inside⟩⟩

theorem single (fits : openAfter before token = some after) (inside : token.kind ∉ statementMarks) :
    Spans [token] before after :=
  ⟨nests_cons.2 ⟨after, fits, .nil⟩, List.forall_mem_singleton.2 inside⟩

theorem cons (first : Spans [token] before between) (rest : Spans tokens between after) :
    Spans (token :: tokens) before after := first.append rest

/-- A token that is neither a piece of a string nor a mark of a statement. -/
theorem other (other : token.kind ∉ Expression.pieces ++ statementMarks) :
    Spans [token] before before := by
  rw [List.mem_append, not_or] at other
  exact .single (openAfter_other before other.1) other.2

theorem deeper (spans : Spans tokens before after) (outer : Nat) :
    Spans tokens (before + outer) (after + outer) :=
  ⟨spans.nests.deeper outer, spans.inside⟩

end Spans

namespace Reader

variable {α β : Type} {behind : List Token}

/-- What the first reader takes are tokens of an expression that lead from a number of open
interpolations to another one. Where it leaves a token in front of others, the second reader yields
the same without those others. -/
def Local (behind : List Token) (before after : Nat) (reader reader' : Reader α) : Prop :=
  ∀ tokens a rest, reader tokens = .ok (a, rest) → ∃ taken, tokens = taken ++ rest ∧
    Spans taken before after ∧
    ∀ left, left ≠ [] → rest = left ++ behind → reader' (taken ++ left) = .ok (a, left)

theorem Local.pure (a : α) : Local behind before before (Pure.pure a) (Pure.pure a) := by
  intro tokens b rest read
  cases read
  exact ⟨[], rfl, .nil, fun _ _ _ => rfl⟩

theorem Local.failAt (token : Option Token) (found : Kind) (expected : Expectation) :
    Local behind before after (failAt token found expected : Reader α)
      (failAt token found expected) := by
  intro tokens a rest read
  cases read

theorem Local.bind {reader reader' : Reader α} {next next' : α → Reader β}
    (first : Local behind before between reader reader')
    (last : ∀ a, Local behind between after (next a) (next' a)) :
    Local behind before after (reader >>= next) (reader' >>= next') := by
  intro tokens b rest success
  obtain ⟨a, middle, read, read'⟩ := bind_ok success
  obtain ⟨taken, rfl, spans, alone⟩ := first tokens a middle read
  obtain ⟨taken', rfl, spans', alone'⟩ := last a middle b rest read'
  refine ⟨taken ++ taken', (List.append_assoc ..).symm, spans.append spans', ?_⟩
  intro left nonempty same
  have front : taken' ++ left ≠ [] := List.append_ne_nil_of_right_ne_nil _ nonempty
  have split : taken' ++ rest = taken' ++ left ++ behind := by rw [same, List.append_assoc]
  rw [List.append_assoc, bind_of_ok (alone (taken' ++ left) front split)]
  exact alone' left nonempty same

theorem Local.map {reader reader' : Reader α} (f : α → β)
    (first : Local behind before after reader reader') :
    Local behind before after (do let a ← reader; return f a) (do let a ← reader'; return f a) :=
  first.bind fun a => .pure (f a)

theorem Local.ite {condition : Prop} [Decidable condition] {first first' second second' : Reader α}
    (yes : Local behind before after first first') (no : Local behind before after second second') :
    Local behind before after (if condition then first else second)
      (if condition then first' else second') := by
  split
  · exact yes
  · exact no

/-- What stands where some interpolations are open may stand where more are. -/
theorem Local.deeper {reader reader' : Reader α} (first : Local behind before after reader reader')
    (outer : Nat) : Local behind (before + outer) (after + outer) reader reader' := by
  intro tokens a rest read
  obtain ⟨taken, same, spans, alone⟩ := first tokens a rest read
  exact ⟨taken, same, spans.deeper outer, alone⟩

theorem Local.peek : Local behind before before peek peek := by
  intro tokens a rest read
  cases read
  refine ⟨[], rfl, .nil, fun left nonempty same => ?_⟩
  obtain ⟨token, left, rfl⟩ := List.exists_cons_of_ne_nil nonempty
  rw [same]
  rfl

theorem Local.peekKind : Local behind before before peekKind peekKind := by
  intro tokens a rest read
  cases read
  refine ⟨[], rfl, .nil, fun left nonempty same => ?_⟩
  obtain ⟨token, left, rfl⟩ := List.exists_cons_of_ne_nil nonempty
  rw [same]
  rfl

theorem nextKind_append {taken left more : List Token} (nonempty : left ≠ []) :
    nextKind (taken ++ left) = nextKind (taken ++ (left ++ more)) := by
  obtain ⟨token, left, rfl⟩ := List.exists_cons_of_ne_nil nonempty
  cases taken <;> rfl

/-- A token that may be taken, and what follows where it is and where it is not. -/
theorem Local.taking {kinds : List Kind} {next next' : Option Token → Reader β}
    (marks : .eof ∉ kinds)
    (fits : ∀ token : Token, token.kind ∈ kinds → Spans [token] before between)
    (nonempty : ∀ token, Local behind between after (next (some token)) (next' (some token)))
    (absent : Local behind before after (next none) (next' none)) :
    Local behind before after (takeAny kinds >>= next) (takeAny kinds >>= next') := by
  intro tokens b rest success
  by_cases takes : nextKind tokens ∈ kinds
  · cases tokens with
    | nil => exact absurd takes marks
    | cons token tokens =>
      rw [bind_of_ok (takeAny_of_mem takes)] at success
      obtain ⟨taken, rfl, spans, alone⟩ := nonempty token tokens b rest success
      refine ⟨token :: taken, rfl, (fits token takes).cons spans, fun left front same => ?_⟩
      rw [List.cons_append, bind_of_ok (takeAny_of_mem takes)]
      exact alone left front same
  · rw [bind_of_ok (takeAny_of_not_mem takes)] at success
    obtain ⟨taken, rfl, spans, alone⟩ := absent tokens b rest success
    refine ⟨taken, rfl, spans, fun left front same => ?_⟩
    rw [same, ← nextKind_append front] at takes
    rw [bind_of_ok (takeAny_of_not_mem takes)]
    exact alone left front same

theorem Local.eat {kind : Kind} (mark : kind ≠ .eof)
    (other : kind ∉ Expression.pieces ++ statementMarks) :
    Local behind before before (eat kind) (eat kind) := by
  apply Local.taking (fun member => mark (List.mem_singleton.1 member).symm) _ (fun _ => .pure true)
    (.pure false)
  intro token member
  exact .other (List.mem_singleton.1 member ▸ other)

theorem Local.expect {kind : Kind}
    (fits : ∀ token : Token, token.kind = kind → Spans [token] before after)
    (expected : Expectation) :
    Local behind before after (expect kind expected) (expect kind expected) := by
  intro tokens a rest read
  cases tokens with
  | nil => cases read
  | cons token tokens =>
    by_cases same : token.kind = kind
    · cases read.symm.trans (expect_of_kind same)
      exact ⟨[_], rfl, fits _ same, fun _ _ _ => expect_of_kind same⟩
    · cases read.symm.trans (if_neg same)

theorem Local.expectMark {kind : Kind} (other : kind ∉ Expression.pieces ++ statementMarks)
    (spelling : String) :
    Local behind before before (expectMark kind spelling) (expectMark kind spelling) :=
  .expect (fun _ same => .other (by rwa [same])) _

theorem Local.many {step step' : Reader (Option α)}
    (first : Local behind before before step step') :
    Local behind before before (many step) (many step') := by
  intro tokens
  induction count : tokens.length using Nat.strongRecOn generalizing tokens with
  | ind count ih =>
    intro items rest success
    rw [Reader.many] at success
    cases found : step tokens with
    | error unexpected =>
      rw [found] at success
      cases success
    | ok result =>
      obtain ⟨item, middle⟩ := result
      obtain ⟨taken, rfl, spans, alone⟩ := first tokens item middle found
      rw [found] at success
      cases item with
      | none =>
        cases success
        refine ⟨taken, rfl, spans, fun left nonempty same =>
          many_of_none (alone left nonempty same)⟩
      | some item =>
        have lengths : ∀ middle : List Token, middle.length < (taken ++ middle).length ↔
            0 < taken.length := by
          intro middle
          rw [List.length_append]
          omega
        dsimp only at success
        split at success
        · next shorter =>
          have takes := (lengths middle).1 shorter
          split at success
          · cases success
          · next others rest' repeated =>
            cases success
            obtain ⟨taken', rfl, spans', alone'⟩ :=
              ih middle.length (count ▸ shorter) middle rfl others rest repeated
            refine ⟨taken ++ taken', (List.append_assoc ..).symm, spans.append spans',
              fun left nonempty same => ?_⟩
            have front : taken' ++ left ≠ [] := List.append_ne_nil_of_right_ne_nil _ nonempty
            have split : taken' ++ rest = taken' ++ left ++ behind := by
              rw [same, List.append_assoc]
            rw [List.append_assoc, many_of_some (alone _ front split) ((lengths _).2 takes),
              alone' left nonempty same]
        · next longer =>
          cases success
          refine ⟨taken, rfl, spans, fun left nonempty same => ?_⟩
          rw [Reader.many, alone left nonempty same]
          exact if_neg fun takes => longer ((lengths _).2 ((lengths _).1 takes))

theorem Local.separated {item item' : Reader α} (first : Local behind before before item item') :
    Local behind before before (separated item) (separated item') := by
  refine first.bind fun _ => Local.bind (Local.many ?_) fun _ => .pure _
  exact (Local.eat (by decide) (by decide)).bind fun _ => Local.ite (first.map _) (.pure _)

theorem Local.listUpTo {item item' : Reader α} (close : Kind)
    (first : Local behind before before item item') :
    Local behind before before (listUpTo close item) (listUpTo close item') :=
  Local.peekKind.bind fun _ => Local.ite (.pure _) first.separated

/-- A reader that refers to itself on shorter lists does so also without the tokens behind. -/
theorem Local.shorterThan {tokens : List Token} {expected : Expectation} {reader : Reader α}
    (first : ∀ rest : List Token, rest.length < tokens.length →
      ∀ a left, reader rest = .ok (a, left) →
      ∃ taken, rest = taken ++ left ∧ Spans taken before after ∧
        ∀ front, front ≠ [] → left = front ++ behind → reader (taken ++ front) = .ok (a, front))
    (short : List Token) (same : short.length = tokens.length - behind.length) :
    Local behind before after (shorterThan tokens (fun rest _ => reader rest) expected)
      (shorterThan short (fun rest _ => reader rest) expected) := by
  intro rest a left success
  unfold Reader.shorterThan at success
  split at success
  · next shorter =>
    obtain ⟨taken, rfl, spans, alone⟩ := first rest shorter a left success
    refine ⟨taken, rfl, spans, fun front nonempty same' => ?_⟩
    have fewer : (taken ++ front).length < short.length := by
      rw [same'] at shorter
      simp only [List.length_append] at shorter ⊢
      omega
    rw [shorterThan_of_lt fewer]
    exact alone front nonempty same'
  · cases rest <;> cases success

/-- A reader that takes its first token, and then perhaps more. -/
theorem Local.of_cons {reader reader' : Reader α}
    (needs : ∃ unexpected, reader [] = .error unexpected)
    (takes : ∀ token tokens a rest, reader (token :: tokens) = .ok (a, rest) →
      ∃ between taken, Spans [token] before between ∧ tokens = taken ++ rest ∧
        Spans taken between after ∧
        ∀ left, left ≠ [] → rest = left ++ behind →
          reader' (token :: (taken ++ left)) = .ok (a, left)) :
    Local behind before after reader reader' := by
  intro tokens a rest read
  cases tokens with
  | nil =>
    obtain ⟨unexpected, fails⟩ := needs
    cases read.symm.trans fails
  | cons token tokens =>
    obtain ⟨between, taken, opens, rfl, spans, alone⟩ := takes token tokens a rest read
    exact ⟨token :: taken, rfl, opens.cons spans, alone⟩

end Reader

namespace Expression

open Reader

variable {behind : List Token}

theorem local_level {operand operand' : Reader Expression} {operators : List Kind}
    (marks : .eof ∉ operators) (others : ∀ kind ∈ operators, kind ∉ pieces ++ statementMarks)
    (parts : Local behind before before operand operand') :
    Local behind before before (level operators operand) (level operators operand') := by
  refine parts.bind fun _ => Local.bind (Local.many ?_) fun _ => .pure _
  exact Local.taking marks (fun _ member => .other (others _ member))
    (fun operator => parts.map fun right => some (operator, right)) (.pure none)

theorem local_signed {operand operand' : Reader Expression}
    (parts : Local behind before before operand operand') :
    Local behind before before (signed operand) (signed operand') := by
  intro tokens
  induction tokens with
  | nil =>
    intro a rest read
    obtain ⟨taken, same, spans, _⟩ := parts [] a rest read
    refine ⟨taken, same, spans, fun left nonempty same' => ?_⟩
    rw [same', List.nil_eq, List.append_eq_nil_iff, List.append_eq_nil_iff] at same
    exact absurd same.2.1 nonempty
  | cons token tokens ih =>
    intro a rest read
    unfold signed at read
    split at read
    · next sign =>
      have other : token.kind ∉ pieces ++ statementMarks := by
        revert sign
        generalize token.kind = kind
        revert kind
        decide
      split at read
      · next inner rest' inside =>
        cases read
        obtain ⟨taken, rfl, spans, alone⟩ := ih inner rest inside
        refine ⟨token :: taken, rfl, (Spans.other other).cons spans, ?_⟩
        intro left nonempty same
        rw [List.cons_append, signed, if_pos sign, alone left nonempty same]
      · cases read
    · next plain =>
      obtain ⟨taken, same, spans, alone⟩ := parts _ a rest read
      refine ⟨taken, same, spans, fun left nonempty same' => ?_⟩
      have first : nextKind (taken ++ left) = token.kind := by
        rw [nextKind_append nonempty, ← same', ← same]
        rfl
      have read' := alone left nonempty same'
      cases front : taken ++ left with
      | nil => exact absurd (List.append_eq_nil_iff.1 front).2 nonempty
      | cons token' others =>
        rw [front] at first read'
        rw [← show token'.kind = token.kind from first] at plain
        rw [signed, if_neg plain, read']

theorem local_literalOf (token : Token) :
    Local behind before before (literalOf token) (literalOf token) := by
  unfold literalOf
  split
  · exact .pure _
  · exact .failAt _ _ _

section Parts

variable {self self' : Reader Expression} (parts : Local behind 0 0 self self')

include parts

theorem local_arguments : Local behind 0 0 (arguments self) (arguments self') :=
  (Local.listUpTo .rightParen parts).bind fun _ => (Local.expectMark (by decide) ")").map _

theorem local_argument : Local behind 0 0 (argument self) (argument self') :=
  (Local.expectMark (by decide) "(").bind fun _ => parts.bind fun _ =>
    (Local.expectMark (by decide) ")").map _

theorem local_indexChain : Local behind 0 0 (indexChain self) (indexChain self') := by
  refine Local.many ((Local.eat (by decide) (by decide)).bind fun opened => Local.ite ?_ (.pure _))
  exact parts.bind fun _ => (Local.expectMark (by decide) "]").map _

theorem local_named (name : Token) : Local behind 0 0 (named self name) (named self' name) :=
  (local_indexChain parts).bind fun _ => (Local.eat (by decide) (by decide)).bind fun _ =>
    Local.ite ((local_arguments parts).map _) (.pure _)

/-- The rest of a string closes the interpolation that its start opened. -/
theorem local_interpolated (start : Token) :
    Local behind 1 0 (interpolated self start) (interpolated self' start) := by
  have stops : ∀ token : Token, token.kind = .stringInterpolationEnd → Spans [token] 1 0 :=
    fun token last => .single ((openAfter_end last 1).trans (if_pos Nat.one_pos))
      (by rw [last]; decide)
  have goesOn : ∀ token : Token, token.kind = .stringInterpolationStringPart → Spans [token] 1 1 :=
    fun token part => .single ((openAfter_part part 1).trans (if_pos Nat.one_pos))
      (by rw [part]; decide)
  apply Local.taking (by decide) (fun token member => stops token (List.mem_singleton.1 member))
  · intro stop
    dsimp only
    split
    · exact .pure _
    · exact .failAt _ _ _
  · refine (local_literalOf start).bind fun first => Local.bind (Local.many ?_) fun middle => ?_
    · refine Local.peekKind.bind fun kind => ?_
      split
      · exact .pure _
      · exact (Local.expect goesOn _).bind fun part => (local_literalOf part).map _
      · exact (parts.deeper 1).map _
    · exact (Local.expect stops _).bind fun stop => (local_literalOf stop).map _

theorem local_element (expected : Expectation) :
    Local behind 0 0 (element self expected) (element self' expected) := by
  refine parts.bind fun item => ?_
  cases item with
  | literal token value => exact Local.ite (.failAt _ _ _) (.pure _)
  | _ => exact .failAt _ _ _

theorem local_arrayLiteral (bracket : Token) :
    Local behind 0 0 (arrayLiteral self bracket) (arrayLiteral self' bracket) :=
  (Local.listUpTo .rightBracket (local_element parts .arrayElement)).bind fun _ =>
    (Local.expectMark (by decide) "]").map _

theorem local_entry : Local behind 0 0 (entry self) (entry self') := by
  refine Local.peek.bind fun keyToken => (local_element parts .recordKey).bind fun key => ?_
  exact Local.ite (.failAt _ _ _) ((Local.expectMark (by decide) ":").bind fun _ =>
    (local_element parts .recordValue).map _)

theorem local_recordLiteral (brace : Token) :
    Local behind 0 0 (recordLiteral self brace) (recordLiteral self' brace) :=
  (Local.listUpTo .rightBrace (local_entry parts)).bind fun _ =>
    (Local.expectMark (by decide) "\x7d").map _

theorem local_operand : Local behind 0 0 (operand self) (operand self') := by
  refine Local.of_cons ⟨_, rfl⟩ fun token tokens => ?_
  -- After the token every branch is a reader of the rest, or the token is all there is to it.
  have rest : ∀ {between : Nat} {reader reader' : Reader Expression}, Spans [token] 0 between →
      Local behind between 0 reader reader' → ∀ a left, reader tokens = .ok (a, left) →
        ∃ between taken, Spans [token] 0 between ∧ tokens = taken ++ left ∧ Spans taken between 0 ∧
          ∀ front, front ≠ [] → left = front ++ behind →
              reader' (taken ++ front) = .ok (a, front) := by
    intro between reader reader' opens reads a left success
    obtain ⟨taken, same, spans, alone⟩ := reads tokens a left success
    exact ⟨between, taken, opens, same, spans, alone⟩
  have plain : token.kind ∉ pieces ++ statementMarks → Spans [token] 0 0 := .other
  simp only [operand]
  split
  case h_1 kind =>
    exact rest (plain (by rw [kind]; decide))
      (parts.bind fun inner => (Local.expectMark (by decide) ")").map _)
  case h_2 kind => exact rest (plain (by rw [kind]; decide)) (local_named parts token)
  case h_8 kind =>
    exact rest (.single (openAfter_start kind 0) (by rw [kind]; decide))
      (local_interpolated parts token)
  case h_9 kind => exact rest (plain (by rw [kind]; decide)) (.pure _)
  case h_10 kind => exact rest (plain (by rw [kind]; decide)) (.pure _)
  case h_11 kind =>
    by_cases array : token.text = "array"
    · simp only [array, ↓reduceIte]
      exact rest (plain (by rw [kind]; decide)) (.pure _)
    · by_cases record : token.text = "record"
      · simp only [record, ↓reduceIte]
        exact rest (plain (by rw [kind]; decide)) (.pure _)
      · simp only [array, record, ↓reduceIte]
        intro a left success
        cases success
  case h_12 kind => exact rest (plain (by rw [kind]; decide)) (local_arrayLiteral parts token)
  case h_13 kind => exact rest (plain (by rw [kind]; decide)) (local_recordLiteral parts token)
  case h_14 kind => exact rest (plain (by rw [kind]; decide)) ((local_argument parts).map _)
  case h_15 =>
    split
    · next target tests =>
      have absent : ∀ kind ∈ pieces ++ statementMarks, kind.testedType? = none := by decide
      have other : token.kind ∉ pieces ++ statementMarks := by
        intro member
        rw [absent _ member] at tests
        cases tests
      exact rest (plain other) ((local_argument parts).map _)
    · intro a left success
      cases success
  all_goals
    next kind => exact rest (plain (by rw [kind]; decide)) (local_literalOf token)

theorem local_fromParts : Local behind 0 0 (fromParts self) (fromParts self') := by
  have all : ∀ list : List (List Kind), (∀ operators ∈ list,
      .eof ∉ operators ∧ ∀ kind ∈ operators, kind ∉ pieces ++ statementMarks) →
      Local behind 0 0 (list.foldr level (signed (operand self)))
          (list.foldr level (signed (operand self'))) := by
    intro list known
    induction list with
    | nil => exact local_signed (local_operand parts)
    | cons operators looser ih =>
      obtain ⟨here, others⟩ := List.forall_mem_cons.1 known
      exact local_level here.1 here.2 (ih others)
  exact all levels (by decide)

end Parts

/-- An expression nests the interpolations in it and holds no mark of a statement, and it is the
same without the tokens behind the one that follows it. -/
theorem local_read : Local behind 0 0 read read := by
  intro tokens
  induction count : tokens.length using Nat.strongRecOn generalizing tokens with
  | ind count ih =>
    intro e rest success
    have short : (tokens.take (tokens.length - behind.length)).length =
        tokens.length - behind.length := by
      rw [List.length_take]
      omega
    have parts : Local behind 0 0 (shorterThan tokens (fun rest _ => read rest) .expression) _ :=
      Local.shorterThan (fun rest shorter => ih rest.length (count ▸ shorter) rest rfl) _ short
    rw [read] at success
    obtain ⟨taken, same, spans, alone⟩ := local_fromParts parts tokens e rest success
    refine ⟨taken, same, spans, fun left nonempty same' => ?_⟩
    have front : tokens.take (tokens.length - behind.length) = taken ++ left := by
      rw [same, same', ← List.append_assoc, List.length_append, Nat.add_sub_cancel, List.take_left]
    rw [read]
    rw [front] at alone
    exact alone left nonempty same'

end Expression

end Treecode
