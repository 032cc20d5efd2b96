import Treecode.Program.Expressions

set_option autoImplicit false

namespace Treecode

namespace Reader

variable {α β : Type} {more : List Token} {ends : Prop}

/-- The kind of the next token, or the mark of the end. -/
def nextKind (tokens : List Token) : Kind := (tokens.head?.map (·.kind)).getD .eof

/-- What the first reader yields and leaves of some tokens, which is the last of them, the second
one yields in front of more, and leaves that and the more. `ends` tells that it does so also where
nothing is left. -/
def Extends (more : List Token) (ends : Prop) (reader reader' : Reader α) : Prop :=
  ∀ tokens a rest, reader tokens = .ok (a, rest) →
    rest <:+ tokens ∧ (rest ≠ [] ∨ ends → reader' (tokens ++ more) = .ok (a, rest ++ more))

/-- The same of a reader that takes a token. -/
structure Consumes (more : List Token) (ends : Prop) (reader reader' : Reader α) : Prop where
  extension : Extends more ends reader reader'
  shorter : ∀ tokens a rest, reader tokens = .ok (a, rest) → rest.length < tokens.length

/-- A reader that takes its first token, and then perhaps more. -/
theorem Consumes.of_cons {reader reader' : Reader α}
    (needs : ∃ unexpected, reader [] = .error unexpected)
    (takes : ∀ token tokens a rest, reader (token :: tokens) = .ok (a, rest) →
      rest <:+ tokens ∧ (rest ≠ [] ∨ ends →
        reader' (token :: (tokens ++ more)) = .ok (a, rest ++ more))) :
    Consumes more ends reader reader' := by
  obtain ⟨unexpected, fails⟩ := needs
  constructor
  · intro tokens a rest read
    cases tokens with
    | nil => cases read.symm.trans fails
    | cons token tokens =>
      exact (takes token tokens a rest read).imp_left fun suffix =>
        suffix.trans (List.suffix_cons ..)
  · intro tokens a rest read
    cases tokens with
    | nil => cases read.symm.trans fails
    | cons token tokens => exact Nat.lt_succ_of_le (takes token tokens a rest read).1.length_le

theorem Consumes.cons {reader reader' : Reader α} (consumes : Consumes more ends reader reader')
    {token : Token} {tokens rest : List Token} {a : α}
    (read : reader (token :: tokens) = .ok (a, rest)) :
    rest <:+ tokens ∧ (rest ≠ [] ∨ ends →
      reader' (token :: (tokens ++ more)) = .ok (a, rest ++ more)) := by
  obtain ⟨suffix, goesOn⟩ := consumes.extension (token :: tokens) a rest read
  have shorter := consumes.shorter (token :: tokens) a rest read
  refine ⟨(List.suffix_cons_iff.1 suffix).resolve_left ?_, goesOn⟩
  rintro rfl
  exact Nat.lt_irrefl _ shorter

/-- What a sequence yields its two parts yield. -/
theorem bind_ok {reader : Reader α} {next : α → Reader β} {tokens rest : List Token} {b : β}
    (success : (reader >>= next) tokens = .ok (b, rest)) :
    ∃ a between, reader tokens = .ok (a, between) ∧ next a between = .ok (b, rest) := by
  rw [bind_apply] at success
  split at success
  · next a between read => exact ⟨a, between, read, success⟩
  · cases success

theorem bind_of_ok {reader : Reader α} {next : α → Reader β} {tokens left : List Token} {a : α}
    (read : reader tokens = .ok (a, left)) : (reader >>= next) tokens = next a left := by
  rw [bind_apply, read]

theorem bind_of_error {reader : Reader α} {next : α → Reader β} {tokens : List Token}
    {unexpected : Unexpected}
    (read : reader tokens = .error unexpected) : (reader >>= next) tokens = .error unexpected := by
  rw [bind_apply, read]

theorem bind_many_of_some {step : Reader (Option α)} {next : List α → Reader β}
    {tokens left : List Token} {a : α}
    (read : step tokens = .ok (some a, left)) (shorter : left.length < tokens.length) :
    (many step >>= next) tokens = (many step >>= fun items => next (a :: items)) left := by
  cases repeated : many step left with
  | error unexpected =>
    have whole : many step tokens = .error unexpected := by rw [many_of_some read shorter, repeated]
    rw [bind_of_error whole, bind_of_error repeated]
  | ok result =>
    have whole : many step tokens = .ok (a :: result.1, result.2) := by
      rw [many_of_some read shorter, repeated]
    rw [bind_of_ok whole, bind_of_ok repeated]

theorem takeAny_of_mem {kinds : List Kind} {token : Token} {rest : List Token}
    (fits : token.kind ∈ kinds) :
    takeAny kinds (token :: rest) = .ok (some token, rest) := if_pos fits

theorem takeAny_of_not_mem {kinds : List Kind} {tokens : List Token}
    (other : nextKind tokens ∉ kinds) : takeAny kinds tokens = .ok (none, tokens) := by
  cases tokens with
  | nil => rfl
  | cons token rest => exact if_neg other

theorem eat_of_kind {kind : Kind} {token : Token} {rest : List Token} (fits : token.kind = kind) :
    eat kind (token :: rest) = .ok (true, rest) := by
  unfold eat take
  rw [bind_of_ok (takeAny_of_mem (List.mem_singleton.2 fits))]
  rfl

theorem eat_of_ne {kind : Kind} {tokens : List Token} (other : nextKind tokens ≠ kind) :
    eat kind tokens = .ok (false, tokens) := by
  unfold eat take
  rw [bind_of_ok (takeAny_of_not_mem fun fits => other (List.mem_singleton.1 fits))]
  rfl

theorem expect_of_kind {kind : Kind} {expected : Expectation} {token : Token} {rest : List Token}
    (fits : token.kind = kind) : expect kind expected (token :: rest) = .ok (token, rest) :=
  if_pos fits

theorem cons_of_nextKind {tokens : List Token} {kind : Kind} (next : nextKind tokens = kind)
    (mark : kind ≠ .eof) : ∃ token left, tokens = token :: left ∧ token.kind = kind := by
  cases tokens with
  | nil => exact absurd next.symm mark
  | cons token left => exact ⟨token, left, rfl, next⟩

theorem cons_of_expect {kind : Kind} {expected : Expectation} {token : Token}
    {tokens rest : List Token}
    (read : expect kind expected tokens = .ok (token, rest)) :
    tokens = token :: rest ∧ token.kind = kind := by
  cases tokens with
  | nil => cases read
  | cons first tokens =>
    rw [expect] at read
    split at read
    · next fits =>
      cases read
      exact ⟨rfl, fits⟩
    · cases read

theorem ne_nil_of_suffix {rest tokens : List Token} (suffix : rest <:+ tokens)
    (nonempty : rest ≠ []) : tokens ≠ [] := by
  rintro rfl
  exact nonempty (List.suffix_nil.1 suffix)

theorem Extends.weaken {reader reader' : Reader α} {weaker : Prop}
    (extending : Extends more ends reader reader')
    (imp : weaker → ends) : Extends more weaker reader reader' :=
  fun tokens a rest read =>
    (extending tokens a rest read).imp_right fun goesOn free => goesOn (free.imp_right imp)

theorem Extends.pure (a : α) : Extends more ends (Pure.pure a) (Pure.pure a) := by
  intro tokens b rest read
  cases read
  exact ⟨List.suffix_rfl, fun _ => rfl⟩

theorem Extends.fail (expected : Expectation) :
    Extends more ends (fail expected : Reader α) (fail expected) := by
  intro tokens a rest read
  cases tokens <;> cases read

theorem Extends.failAt (token : Option Token) (found : Kind) (expected : Expectation) :
    Extends more ends (failAt token found expected : Reader α) (failAt token found expected) := by
  intro tokens a rest read
  cases read

/-- Readers one after another. Where nothing is left, either the first one may leave nothing or the
second one takes a token. -/
theorem Extends.seq {starts : Prop} {reader reader' : Reader α} {next next' : α → Reader β}
    (first : Extends more starts reader reader') (last : ∀ a, Extends more ends (next a) (next' a))
    (link : ends → starts ∨ ∀ a b rest, next a [] ≠ .ok (b, rest)) :
    Extends more ends (reader >>= next) (reader' >>= next') := by
  intro tokens b rest success
  obtain ⟨a, between, read, read'⟩ := bind_ok success
  obtain ⟨suffix, goesOn⟩ := first tokens a between read
  obtain ⟨suffix', goesOn'⟩ := last a between b rest read'
  refine ⟨suffix'.trans suffix, fun free => ?_⟩
  have reached : between ≠ [] ∨ starts := by
    rcases free with left | holds
    · exact .inl (ne_nil_of_suffix suffix' left)
    · refine (link holds).symm.imp_left fun takes => ?_
      rintro rfl
      exact takes a b rest read'
  rw [bind_apply, goesOn reached]
  exact goesOn' free

/-- Readers one after another that may all leave nothing, or all may not. -/
theorem Extends.bind {reader reader' : Reader α} {next next' : α → Reader β}
    (first : Extends more ends reader reader') (last : ∀ a, Extends more ends (next a) (next' a)) :
    Extends more ends (reader >>= next) (reader' >>= next') :=
  first.seq last .inl

/-- A reader before one that takes a token leaves something. -/
theorem Extends.before {reader reader' : Reader α} {next next' : α → Reader β}
    (first : Extends more False reader reader')
    (last : ∀ a, Consumes more ends (next a) (next' a)) :
    Consumes more ends (reader >>= next) (reader' >>= next') where
  extension := first.seq (fun a => (last a).extension) fun _ => .inr fun a b rest read =>
    absurd ((last a).shorter [] b rest read) (Nat.not_lt_zero _)
  shorter := by
    intro tokens b rest success
    obtain ⟨a, between, read, read'⟩ := bind_ok success
    exact Nat.lt_of_lt_of_le ((last a).shorter between b rest read')
      (first tokens a between read).1.length_le

/-- A reader whose result is put to use at the end. -/
theorem Extends.map {reader reader' : Reader α} (f : α → β)
    (first : Extends more ends reader reader') :
    Extends more ends (do let a ← reader; return f a) (do let a ← reader'; return f a) :=
  first.bind fun a => .pure (f a)

theorem Extends.ite {condition : Prop} [Decidable condition]
    {first first' second second' : Reader α}
    (yes : Extends more ends first first') (no : Extends more ends second second') :
    Extends more ends (if condition then first else second)
      (if condition then first' else second') := by
  split
  · exact yes
  · exact no

theorem Extends.peek : Extends more False peek peek := by
  intro tokens a rest read
  cases read
  refine ⟨List.suffix_rfl, fun free => ?_⟩
  cases tokens with
  | nil => exact absurd rfl (free.resolve_right id)
  | cons token rest => rfl

theorem Extends.peekKind : Extends more False peekKind peekKind := by
  intro tokens a rest read
  cases read
  refine ⟨List.suffix_rfl, fun free => ?_⟩
  cases tokens with
  | nil => exact absurd rfl (free.resolve_right id)
  | cons token rest => rfl

/-- Where no token is left one of what follows may be taken. -/
theorem Extends.takeAny {kinds : List Kind} (other : ends → nextKind more ∉ kinds) :
    Extends more ends (takeAny kinds) (takeAny kinds) := by
  intro tokens a rest read
  cases tokens with
  | nil =>
    cases read
    refine ⟨List.suffix_rfl, fun free => ?_⟩
    have unfit := other (free.resolve_left fun left => left rfl)
    cases more with
    | nil => rfl
    | cons token more => exact if_neg unfit
  | cons token tokens =>
    by_cases fits : token.kind ∈ kinds
    · cases read.symm.trans (if_pos fits)
      exact ⟨List.suffix_cons .., fun _ => if_pos fits⟩
    · cases read.symm.trans (if_neg fits)
      exact ⟨List.suffix_rfl, fun _ => if_neg fits⟩

theorem Extends.take {kind : Kind} (other : ends → nextKind more ≠ kind) :
    Extends more ends (take kind) (take kind) :=
  .takeAny fun holds member => other holds (List.mem_singleton.1 member)

theorem Extends.eat {kind : Kind} (other : ends → nextKind more ≠ kind) :
    Extends more ends (eat kind) (eat kind) := (Extends.take other).map _

/-- A choice by the next token, where a token is taken if there is none of the kind. -/
theorem Extends.eatElse {kind : Kind} {next next' : Bool → Reader β}
    (yes : Extends more ends (next true) (next' true))
    (no : Consumes more ends (next false) (next' false)) :
    Consumes more ends (Reader.eat kind >>= next) (Reader.eat kind >>= next') := by
  have needs : ∃ unexpected, next false [] = .error unexpected := by
    cases read : next false [] with
    | error unexpected => exact ⟨unexpected, rfl⟩
    | ok result => exact absurd (no.shorter [] result.1 result.2 read) (Nat.not_lt_zero _)
  refine Consumes.of_cons needs fun token tokens b rest success => ?_
  by_cases fits : token.kind ∈ [kind]
  · have eats : ∀ tokens, Reader.eat kind (token :: tokens) = .ok (true, tokens) := by
      intro tokens
      simp only [Reader.eat, Reader.take, bind_apply, Reader.takeAny, fits, ↓reduceIte]
      rfl
    rw [bind_apply, eats] at success ⊢
    exact yes tokens b rest success
  · have leaves : ∀ tokens, Reader.eat kind (token :: tokens) = .ok (false, token :: tokens) := by
      intro tokens
      simp only [Reader.eat, Reader.take, bind_apply, Reader.takeAny, fits, ↓reduceIte]
      rfl
    rw [bind_apply, leaves] at success ⊢
    exact no.cons success

theorem Extends.expect (kind : Kind) (expected : Expectation) :
    Extends more ends (expect kind expected) (expect kind expected) := by
  intro tokens a rest read
  cases tokens with
  | nil => cases read
  | cons token tokens =>
    by_cases fits : token.kind = kind
    · cases read.symm.trans (if_pos fits)
      exact ⟨List.suffix_cons .., fun _ => if_pos fits⟩
    · cases read.symm.trans (if_neg fits)

theorem Extends.expectMark (kind : Kind) (spelling : String) :
    Extends more ends (expectMark kind spelling) (expectMark kind spelling) := .expect kind _

/-- A token that has to stand here, and then a reader. -/
theorem Extends.after {kind : Kind} {expected : Expectation} {next next' : Token → Reader β}
    (last : ∀ token, Extends more ends (next token) (next' token)) :
    Consumes more ends (Reader.expect kind expected >>= next)
      (Reader.expect kind expected >>= next') := by
  refine Consumes.of_cons ⟨_, rfl⟩ fun token tokens b rest success => ?_
  rw [bind_apply] at success ⊢
  by_cases fits : token.kind = kind
  · have taken : ∀ tokens, Reader.expect kind expected (token :: tokens) = .ok (token, tokens) :=
      fun _ => if_pos fits
    rw [taken] at success ⊢
    exact last token tokens b rest success
  · rw [show Reader.expect kind expected (token :: tokens) = _ from if_neg fits] at success
    cases success

theorem Consumes.fail (expected : Expectation) :
    Consumes more ends (Reader.fail expected : Reader α) (Reader.fail expected) :=
  ⟨.fail expected, fun tokens a rest read => by cases tokens <;> cases read⟩

theorem Consumes.failAt (token : Option Token) (found : Kind) (expected : Expectation) :
    Consumes more ends (Reader.failAt token found expected : Reader α)
      (Reader.failAt token found expected) :=
  ⟨.failAt token found expected, fun tokens a rest read => by cases read⟩

theorem Consumes.ite {condition : Prop} [Decidable condition]
    {first first' second second' : Reader α}
    (yes : Consumes more ends first first') (no : Consumes more ends second second') :
    Consumes more ends (if condition then first else second)
      (if condition then first' else second') := by
  split
  · exact yes
  · exact no

theorem Consumes.bind {reader reader' : Reader α} {next next' : α → Reader β}
    (first : Consumes more ends reader reader') (last : ∀ a, Extends more ends (next a) (next' a)) :
    Consumes more ends (reader >>= next) (reader' >>= next') where
  extension := first.extension.bind last
  shorter := by
    intro tokens b rest success
    obtain ⟨a, between, read, read'⟩ := bind_ok success
    exact Nat.lt_of_le_of_lt (last a between b rest read').1.length_le
      (first.shorter tokens a between read)

/-- A repetition whose step may leave nothing may do so, too. -/
theorem Extends.many {step step' : Reader (Option α)} (extending : Extends more ends step step') :
    Extends more ends (many step) (many step') := by
  intro tokens
  induction count : tokens.length using Nat.strongRecOn generalizing tokens with
  | ind count ih =>
    intro items rest success
    rw [Reader.many] at success
    cases found : step tokens with
    | error unexpected =>
      rw [found] at success
      cases success
    | ok result =>
      obtain ⟨item, between⟩ := result
      obtain ⟨suffix, goesOn⟩ := extending tokens item between found
      rw [found] at success
      cases item with
      | none =>
        cases success
        refine ⟨suffix, fun free => ?_⟩
        rw [Reader.many, goesOn free]
      | some item =>
        dsimp only at success
        have lengths : (between ++ more).length < (tokens ++ more).length ↔
            between.length < tokens.length := by
          simp
        split at success
        · next shorter =>
          split at success
          · cases success
          · next others rest' repeated =>
            cases success
            obtain ⟨suffix', goesOn'⟩ :=
              ih between.length (count ▸ shorter) between rfl others rest repeated
            refine ⟨suffix'.trans suffix, fun free => ?_⟩
            rw [Reader.many, goesOn (free.imp_left (ne_nil_of_suffix suffix'))]
            simp only [lengths, shorter, ↓reduceIte, goesOn' free]
        · next longer =>
          cases success
          refine ⟨suffix, fun free => ?_⟩
          rw [Reader.many, goesOn free]
          simp only [lengths, longer, ↓reduceIte]

theorem Extends.separated {item item' : Reader α} (extending : Extends more False item item') :
    Extends more False (separated item) (separated item') := by
  refine extending.bind fun first => Extends.bind (Extends.many ?_) fun others => .pure _
  exact (Extends.eat False.elim).bind fun more => Extends.ite (extending.map _) (.pure _)

theorem Extends.listUpTo {item item' : Reader α} (close : Kind)
    (extending : Extends more False item item') :
    Extends more False (listUpTo close item) (listUpTo close item') :=
  Extends.peekKind.bind fun _ => Extends.ite (.pure _) extending.separated

/-- A reader that refers to itself reads on where it does so from every shorter list. -/
theorem Extends.shorterThan {tokens : List Token} {expected : Expectation} {reader : Reader α}
    (extending : ∀ rest : List Token, rest.length < tokens.length →
      ∀ a left, reader rest = .ok (a, left) →
      left <:+ rest ∧ (left ≠ [] ∨ ends → reader (rest ++ more) = .ok (a, left ++ more))) :
    Extends more ends (shorterThan tokens (fun rest _ => reader rest) expected)
      (shorterThan (tokens ++ more) (fun rest _ => reader rest) expected) := by
  intro rest a left success
  unfold Reader.shorterThan at success ⊢
  split at success
  · next shorter =>
    have shorter' : (rest ++ more).length < (tokens ++ more).length := by
      simp only [List.length_append]
      omega
    rw [dif_pos shorter']
    exact extending rest shorter a left success
  · exact absurd success (by cases rest <;> nofun)

end Reader

open Reader

variable {more : List Token}

namespace Expression

theorem consumes_level {operand operand' : Reader Expression} (operators : List Kind)
    (parts : Consumes more False operand operand') :
    Consumes more False (level operators operand) (level operators operand') := by
  refine parts.bind fun first => Extends.bind (Extends.many ?_) fun others => .pure _
  refine (Extends.takeAny False.elim).bind fun operator => ?_
  cases operator with
  | none => exact .pure _
  | some operator => exact parts.extension.map _

theorem consumes_signed {operand operand' : Reader Expression}
    (needs : ∃ unexpected, operand [] = .error unexpected)
    (parts : Consumes more False operand operand') :
    Consumes more False (signed operand) (signed operand') := by
  refine Consumes.of_cons needs fun token tokens a rest success => ?_
  induction tokens generalizing token a rest with
  | nil =>
    unfold signed at success ⊢
    split at success
    · obtain ⟨unexpected, fails⟩ := needs
      rw [show signed operand [] = _ from fails] at success
      cases success
    · next plain =>
      rw [if_neg plain]
      exact parts.cons success
  | cons second tokens ih =>
    unfold signed at success ⊢
    split at success
    · next sign =>
      rw [if_pos sign]
      split at success
      · next inner rest' read =>
        cases success
        obtain ⟨suffix, goesOn⟩ := ih second inner rest read
        refine ⟨suffix.trans (List.suffix_cons ..), fun free => ?_⟩
        rw [List.cons_append, goesOn free]
      · cases success
    · next plain =>
      rw [if_neg plain]
      exact parts.cons success

theorem extends_literalOf (token : Token) :
    Extends more False (literalOf token) (literalOf token) := by
  unfold literalOf
  split
  · exact .pure _
  · exact .failAt _ _ _

section Parts

variable {self self' : Reader Expression} (parts : Extends more False self self')

include parts

theorem extends_arguments : Extends more False (arguments self) (arguments self') :=
  (Extends.listUpTo .rightParen parts).bind fun _ => (Extends.expectMark .rightParen ")").map _

theorem extends_argument : Extends more False (argument self) (argument self') :=
  (Extends.expectMark .leftParen "(").bind fun _ => parts.bind fun _ =>
    (Extends.expectMark .rightParen ")").map _

theorem extends_indexChain : Extends more False (indexChain self) (indexChain self') := by
  refine Extends.many ((Extends.eat False.elim).bind fun opened => Extends.ite ?_ (.pure _))
  exact parts.bind fun _ => (Extends.expectMark .rightBracket "]").map _

theorem extends_named (name : Token) : Extends more False (named self name) (named self' name) :=
  (extends_indexChain parts).bind fun _ => (Extends.eat False.elim).bind fun _ =>
    Extends.ite ((extends_arguments parts).map _) (.pure _)

theorem extends_interpolated (start : Token) :
    Extends more False (interpolated self start) (interpolated self' start) := by
  refine (Extends.take False.elim).bind fun stop => ?_
  cases stop with
  | some stop =>
    dsimp only
    split
    · exact .pure _
    · exact .failAt _ _ _
  | none =>
    refine (extends_literalOf start).bind fun first => Extends.bind (Extends.many ?_) fun middle =>
      ?_
    · refine Extends.peekKind.bind fun kind => ?_
      split
      · exact .pure _
      · exact (Extends.expect _ _).bind fun part => (extends_literalOf part).map _
      · exact parts.map _
    · exact (Extends.expect _ _).bind fun stop => (extends_literalOf stop).map _

theorem extends_element (expected : Expectation) :
    Extends more False (element self expected) (element self' expected) := by
  refine parts.bind fun item => ?_
  cases item with
  | literal token value => exact Extends.ite (.failAt _ _ _) (.pure _)
  | _ => exact .failAt _ _ _

theorem extends_arrayLiteral (bracket : Token) :
    Extends more False (arrayLiteral self bracket) (arrayLiteral self' bracket) :=
  (Extends.listUpTo .rightBracket (extends_element parts .arrayElement)).bind fun _ =>
    (Extends.expectMark .rightBracket "]").map _

theorem extends_entry : Extends more False (entry self) (entry self') := by
  refine Extends.peek.bind fun keyToken => (extends_element parts .recordKey).bind fun key => ?_
  exact Extends.ite (.failAt _ _ _) ((Extends.expectMark .colon ":").bind fun _ =>
    (extends_element parts .recordValue).map _)

theorem extends_recordLiteral (brace : Token) :
    Extends more False (recordLiteral self brace) (recordLiteral self' brace) :=
  (Extends.listUpTo .rightBrace (extends_entry parts)).bind fun _ =>
    (Extends.expectMark .rightBrace "\x7d").map _

theorem consumes_operand : Consumes more False (operand self) (operand self') := by
  refine Consumes.of_cons ⟨_, rfl⟩ fun token tokens => ?_
  -- After the token every branch is a reader of the rest, or the token is all there is to it.
  have rest : ∀ {reader reader' : Reader Expression}, Extends more False reader reader' →
      ∀ a left, reader tokens = .ok (a, left) → left <:+ tokens ∧
        (left ≠ [] ∨ False → reader' (tokens ++ more) = .ok (a, left ++ more)) :=
    fun reads a left success => reads tokens a left success
  simp only [operand]
  split
  case h_1 => exact rest (parts.bind fun inner => (Extends.expectMark .rightParen ")").map _)
  case h_2 => exact rest (extends_named parts token)
  case h_8 => exact rest (extends_interpolated parts token)
  case h_9 => exact rest (.pure _)
  case h_10 => exact rest (.pure _)
  case h_11 =>
    by_cases array : token.text = "array"
    · simp only [array, ↓reduceIte]
      exact rest (.pure _)
    · by_cases record : token.text = "record"
      · simp only [record, ↓reduceIte]
        exact rest (.pure _)
      · simp only [array, record, ↓reduceIte]
        nofun
  case h_12 => exact rest (extends_arrayLiteral parts token)
  case h_13 => exact rest (extends_recordLiteral parts token)
  case h_14 => exact rest ((extends_argument parts).map _)
  case h_15 =>
    split
    · exact rest ((extends_argument parts).map _)
    · nofun
  all_goals exact rest (extends_literalOf token)

theorem consumes_fromParts : Consumes more False (fromParts self) (fromParts self') := by
  unfold fromParts
  induction levels with
  | nil => exact consumes_signed ⟨_, rfl⟩ (consumes_operand parts)
  | cons operators looser ih => exact consumes_level operators ih

end Parts

/-- An expression before a token is the same whatever stands behind that token. -/
theorem extends_read : Extends more False read read := by
  intro tokens
  induction count : tokens.length using Nat.strongRecOn generalizing tokens with
  | ind count ih =>
    rw [read, read]
    refine (consumes_fromParts (Extends.shorterThan ?_)).extension tokens
    intro rest shorter
    exact ih rest.length (count ▸ shorter) rest rfl

theorem length_of_read {tokens rest : List Token} {e : Expression}
    (success : read tokens = .ok (e, rest)) : rest.length < tokens.length := by
  have parts : Extends [] False (shorterThan tokens (fun rest _ => read rest) .expression)
      (shorterThan (tokens ++ []) (fun rest _ => read rest) .expression) :=
    Extends.shorterThan fun rest _ => extends_read rest
  rw [read] at success
  exact (consumes_fromParts parts).shorter tokens e rest success

end Expression

end Treecode
