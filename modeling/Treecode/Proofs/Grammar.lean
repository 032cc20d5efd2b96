import Treecode.Proofs.Regular

set_option autoImplicit false

namespace Treecode

namespace Reader

variable {α β : Type} {known : Token → Prop}

/-- Whatever the reader yields from known tokens has a property, and the tokens left are known. -/
def Gives (known : Token → Prop) (reader : Reader α) (property : α → Prop) : Prop :=
  ∀ tokens a rest, (∀ token ∈ tokens, known token) → reader tokens = .ok (a, rest) →
    property a ∧ ∀ token ∈ rest, known token

variable {property : α → Prop} {property' : β → Prop}

theorem Gives.mono {reader : Reader α} {weaker : α → Prop} (gives : Gives known reader property)
    (imp : ∀ a, property a → weaker a) : Gives known reader weaker := by
  intro tokens a rest all success
  obtain ⟨holds, left⟩ := gives tokens a rest all success
  exact ⟨imp a holds, left⟩

theorem Gives.pure {a : α} (holds : property a) : Gives known (pure a) property := by
  intro tokens b rest all success
  cases success
  exact ⟨holds, all⟩

theorem Gives.bind {reader : Reader α} {next : α → Reader β} (first : Gives known reader property)
    (last : ∀ a, property a → Gives known (next a) property') :
    Gives known (reader >>= next) property' := by
  intro tokens b rest all success
  rw [bind_apply] at success
  split at success
  · rename_i a middle front
    obtain ⟨holds, left⟩ := first tokens a middle all front
    exact last a holds middle b rest left success
  · cases success

theorem Gives.fail (expected : Expectation) : Gives known (fail expected) property := by
  intro tokens a rest _ success
  cases tokens <;> cases success

theorem Gives.failAt (token : Option Token) (found : Kind) (expected : Expectation) :
    Gives known (failAt token found expected) property := by
  intro tokens a rest _ success
  cases success

theorem Gives.ite {condition : Prop} [Decidable condition] {first second : Reader α}
    (yes : condition → Gives known first property)
    (no : ¬ condition → Gives known second property) :
    Gives known (if condition then first else second) property := by
  split
  · rename_i holds
    exact yes holds
  · rename_i fails
    exact no fails

theorem Gives.peek : Gives known peek fun token => ∀ t ∈ token, known t := by
  intro tokens a rest all success
  cases success
  exact ⟨fun t member => all t (List.mem_of_mem_head? member), all⟩

theorem Gives.peekKind : Gives known peekKind fun _ => True := by
  intro tokens a rest all success
  cases success
  exact ⟨trivial, all⟩

theorem Gives.takeAny (kinds : List Kind) :
    Gives known (takeAny kinds) fun token => ∀ t ∈ token, t.kind ∈ kinds ∧ known t := by
  intro tokens a rest all success
  have nothing : ∀ t ∈ (none : Option Token), t.kind ∈ kinds ∧ known t := by
    intro t member
    cases member
  cases tokens with
  | nil =>
    cases success
    exact ⟨nothing, all⟩
  | cons first others =>
    by_cases member : first.kind ∈ kinds
    · simp only [Reader.takeAny, member, ↓reduceIte] at success
      cases success
      refine ⟨?_, fun t inside => all t (List.mem_cons_of_mem _ inside)⟩
      intro t same
      cases same
      exact ⟨member, all first (List.mem_cons_self ..)⟩
    · simp only [Reader.takeAny, member, ↓reduceIte] at success
      cases success
      exact ⟨nothing, all⟩

theorem Gives.take (kind : Kind) :
    Gives known (take kind) fun token => ∀ t ∈ token, t.kind = kind ∧ known t :=
  (Gives.takeAny [kind]).mono fun _ holds t member =>
    ⟨List.mem_singleton.1 (holds t member).1, (holds t member).2⟩

theorem Gives.eat (kind : Kind) : Gives known (eat kind) fun _ => True :=
  (Gives.take kind).bind fun _ _ => .pure trivial

theorem Gives.expect (kind : Kind) (expected : Expectation) :
    Gives known (expect kind expected) fun token => token.kind = kind ∧ known token := by
  intro tokens a rest all success
  cases tokens with
  | nil => cases success
  | cons first others =>
    by_cases same : first.kind = kind
    · simp only [Reader.expect, same, ↓reduceIte] at success
      cases success
      exact ⟨⟨same, all _ (List.mem_cons_self ..)⟩,
        fun t inside => all t (List.mem_cons_of_mem _ inside)⟩
    · simp only [Reader.expect, same, ↓reduceIte] at success
      cases success

theorem Gives.expectMark (kind : Kind) (spelling : String) :
    Gives known (expectMark kind spelling) fun token => token.kind = kind ∧ known token :=
  Gives.expect kind _

theorem Gives.many {step : Reader (Option α)} (property : α → Prop)
    (gives : Gives known step fun item => ∀ a ∈ item, property a) :
    Gives known (many step) fun items => ∀ a ∈ items, property a := by
  intro tokens items rest all success
  induction count : tokens.length using Nat.strongRecOn generalizing tokens items rest with
  | ind count ih =>
    unfold Reader.many at success
    split at success
    · cases success
    · rename_i stopped left
      cases success
      refine ⟨?_, (gives tokens none _ all left).2⟩
      intro a member
      cases member
    · rename_i item middle front
      obtain ⟨holds, left⟩ := gives tokens (some item) middle all front
      split at success
      · rename_i shorter
        split at success
        · cases success
        · rename_i others final following
          cases success
          obtain ⟨others, last⟩ := ih middle.length (count ▸ shorter) middle _ _ left following rfl
          refine ⟨?_, last⟩
          intro a member
          rcases List.mem_cons.1 member with rfl | later
          · exact holds a rfl
          · exact others a later
      · cases success
        refine ⟨?_, left⟩
        intro a member
        rw [List.mem_singleton.1 member]
        exact holds item rfl

theorem Gives.separated {item : Reader α} (gives : Gives known item property) :
    Gives known (separated item) fun items => items ≠ [] ∧ ∀ a ∈ items, property a := by
  refine gives.bind fun first holds => ?_
  refine Gives.bind (Gives.many property ?_) fun others rest => .pure ?_
  · refine (Gives.eat .comma).bind fun more _ => Gives.ite (fun _ => ?_) fun _ => ?_
    · refine gives.bind fun a holds => .pure ?_
      intro b same
      cases same
      exact holds
    · refine .pure fun b missing => ?_
      cases missing
  · refine ⟨List.cons_ne_nil _ _, fun a member => ?_⟩
    rcases List.mem_cons.1 member with rfl | later
    · exact holds
    · exact rest a later

theorem Gives.listUpTo {item : Reader α} (close : Kind) (gives : Gives known item property) :
    Gives known (listUpTo close item) fun items => ∀ a ∈ items, property a := by
  refine Gives.peekKind.bind fun kind _ => Gives.ite (fun _ => ?_) fun _ => ?_
  · refine .pure fun a member => ?_
    cases member
  · exact gives.separated.mono fun _ both => both.2

theorem Gives.shorterThan {tokens : List Token} {expected : Expectation}
    {reader : (rest : List Token) → rest.length < tokens.length →
      Except Unexpected (α × List Token)}
    (gives : ∀ rest (shorter : rest.length < tokens.length) a left, (∀ token ∈ rest, known token) →
      reader rest shorter = .ok (a, left) → property a ∧ ∀ token ∈ left, known token) :
    Gives known (shorterThan tokens reader expected) property := by
  intro rest a left all success
  unfold Reader.shorterThan at success
  split at success
  · rename_i shorter
    exact gives rest shorter a left all success
  · have fails : Gives known (Reader.fail expected) property := .fail expected
    exact fails rest a left all success

end Reader

open Reader

variable {spelling : Spelling}

namespace Expression

theorem gives_literalOf (literals : spelling.LiteralsFrom) {token : Token}
    (known : spelling.token token) :
    Gives spelling.token (literalOf token) (Expression.Regular spelling) := by
  unfold literalOf
  split
  · rename_i value spelled
    exact .pure (literals.ofToken token value known spelled)
  · exact .failAt _ _ _

theorem regular_chain {left : Expression} {others : List (Token × Expression)}
    (first : left.Regular spelling)
    (rest : ∀ other ∈ others, other.1.kind ∈ levels.flatten ∧ other.2.Regular spelling) :
    (chain left others).Regular spelling := by
  unfold chain
  induction others generalizing left with
  | nil => exact first
  | cons other others ih =>
    have here := rest other (List.mem_cons_self ..)
    exact ih ⟨here.1, first, here.2⟩ fun next member => rest next (List.mem_cons_of_mem _ member)

theorem gives_level {operators : List Kind} {operand : Reader Expression}
    (inside : ∀ kind ∈ operators, kind ∈ levels.flatten)
    (gives : Gives spelling.token operand (Expression.Regular spelling)) :
    Gives spelling.token (level operators operand) (Expression.Regular spelling) := by
  refine gives.bind fun first regular => ?_
  refine Gives.bind (Gives.many (fun other : Token × Expression =>
    other.1.kind ∈ levels.flatten ∧ other.2.Regular spelling) ?_) fun others rest =>
      .pure (regular_chain regular rest)
  refine (Gives.takeAny operators).bind fun operator found => ?_
  cases operator with
  | none =>
    refine .pure fun a missing => ?_
    cases missing
  | some operator =>
    refine gives.bind fun right regular => .pure fun a same => ?_
    cases same
    exact ⟨inside _ (found operator rfl).1, regular⟩

theorem gives_signed {operand : Reader Expression}
    (gives : Gives spelling.token operand (Expression.Regular spelling)) :
    Gives spelling.token (signed operand) (Expression.Regular spelling) := by
  intro tokens
  induction tokens with
  | nil => exact gives []
  | cons token tokens ih =>
    intro a rest all success
    by_cases sign : token.kind ∈ signs
    · simp only [signed, sign, ↓reduceIte] at success
      split at success
      · rename_i inner left found
        cases success
        obtain ⟨regular, left⟩ :=
          ih inner _ (fun t member => all t (List.mem_cons_of_mem _ member)) found
        exact ⟨⟨sign, regular⟩, left⟩
      · cases success
    · simp only [signed, sign, ↓reduceIte] at success
      exact gives (token :: tokens) a rest all success

section Parts

variable {self : Reader Expression}

theorem gives_arguments (gives : Gives spelling.token self (Expression.Regular spelling)) :
    Gives spelling.token (arguments self) (Expression.AllRegular spelling) := by
  refine (Gives.listUpTo .rightParen gives).bind fun args regular => ?_
  refine (Gives.expectMark .rightParen ")").bind fun _ _ => .pure ?_
  exact allRegular_iff.2 regular

theorem gives_argument (gives : Gives spelling.token self (Expression.Regular spelling)) :
    Gives spelling.token (argument self) (Expression.Regular spelling) := by
  refine (Gives.expectMark .leftParen "(").bind fun _ _ => ?_
  refine gives.bind fun operand regular => ?_
  exact (Gives.expectMark .rightParen ")").bind fun _ _ => .pure regular

theorem gives_indexChain (gives : Gives spelling.token self (Expression.Regular spelling)) :
    Gives spelling.token (indexChain self) (Expression.AllRegular spelling) := by
  refine Gives.mono (Gives.many _ ?_) fun _ regular => allRegular_iff.2 regular
  refine (Gives.eat .leftBracket).bind fun opened _ => Gives.ite (fun _ => ?_) fun _ => ?_
  · refine gives.bind fun index regular => ?_
    refine (Gives.expectMark .rightBracket "]").bind fun _ _ => .pure fun a same => ?_
    cases same
    exact regular
  · refine .pure fun a missing => ?_
    cases missing

theorem gives_named (gives : Gives spelling.token self (Expression.Regular spelling)) {name : Token}
    (isNamed : spelling.Name name) :
    Gives spelling.token (named self name) (Expression.Regular spelling) := by
  refine (gives_indexChain gives).bind fun index regular => ?_
  refine (Gives.eat .leftParen).bind fun opened _ => Gives.ite (fun _ => ?_) fun _ => ?_
  · refine (gives_arguments gives).bind fun args argsRegular => .pure ?_
    cases index with
    | nil => exact ⟨isNamed, argsRegular⟩
    | cons key keys => trivial
  · refine .pure ?_
    cases index with
    | nil => exact isNamed
    | cons key keys => exact ⟨isNamed, List.cons_ne_nil _ _, regular⟩

theorem plus_mem_levels : Kind.operatorAddition ∈ levels.flatten := by decide

theorem gives_interpolated (literals : spelling.LiteralsFrom)
    (gives : Gives spelling.token self (Expression.Regular spelling)) {start : Token}
    (known : spelling.token start) :
    Gives spelling.token (interpolated self start) (Expression.Regular spelling) := by
  refine (Gives.take .stringInterpolationEnd).bind fun stop _ => ?_
  cases stop with
  | some stop =>
    dsimp only
    split
    · exact .pure (literals.string _)
    · exact .failAt _ _ _
  | none =>
    refine (gives_literalOf literals known).bind fun first regular => ?_
    refine Gives.bind (Gives.many (fun other : Token × Expression =>
      other.1.kind ∈ levels.flatten ∧ other.2.Regular spelling) ?_) fun middle rest => ?_
    · refine Gives.peekKind.bind fun kind _ => ?_
      split
      · refine .pure fun a missing => ?_
        cases missing
      · refine (Gives.expect _ _).bind fun part found => ?_
        refine (gives_literalOf literals found.2).bind fun piece regular => .pure fun a same => ?_
        cases same
        exact ⟨plus_mem_levels, regular⟩
      · refine gives.bind fun hole regular => .pure fun a same => ?_
        cases same
        exact ⟨plus_mem_levels, regular⟩
    · refine (Gives.expect _ _).bind fun stop found => ?_
      refine (gives_literalOf literals found.2).bind fun last lastRegular => .pure ?_
      refine regular_chain regular fun other member => ?_
      rcases List.mem_append.1 member with inner | final
      · exact rest other inner
      · rw [List.mem_singleton.1 final]
        exact ⟨plus_mem_levels, lastRegular⟩

theorem gives_element (gives : Gives spelling.token self (Expression.Regular spelling))
    (expected : Expectation) : Gives spelling.token (element self expected) spelling.value := by
  refine gives.bind fun item regular => ?_
  cases item with
  | literal token value => exact Gives.ite (fun _ => .failAt _ _ _) fun _ => .pure regular
  | _ => exact .failAt _ _ _

theorem gives_arrayLiteral (literals : spelling.LiteralsFrom)
    (gives : Gives spelling.token self (Expression.Regular spelling)) (bracket : Token) :
    Gives spelling.token (arrayLiteral self bracket) (Expression.Regular spelling) := by
  refine (Gives.listUpTo .rightBracket (gives_element gives .arrayElement)).bind fun items all => ?_
  refine (Gives.expectMark .rightBracket "]").bind fun _ _ => .pure ?_
  exact literals.array items all

theorem gives_entry (gives : Gives spelling.token self (Expression.Regular spelling)) :
    Gives spelling.token (entry self) fun entry =>
      entry.1.isScalar ∧ spelling.value entry.1 ∧ spelling.value entry.2 := by
  refine Gives.peek.bind fun keyToken _ => ?_
  refine (gives_element gives .recordKey).bind fun key known => ?_
  refine Gives.ite (fun _ => .failAt _ _ _) fun scalar => ?_
  refine (Gives.expectMark .colon ":").bind fun _ _ => ?_
  refine (gives_element gives .recordValue).bind fun value valueKnown => .pure ?_
  refine ⟨?_, known, valueKnown⟩
  simpa only [Bool.not_eq_true', Bool.not_eq_false] using scalar

theorem gives_recordLiteral (literals : spelling.LiteralsFrom)
    (gives : Gives spelling.token self (Expression.Regular spelling)) (brace : Token) :
    Gives spelling.token (recordLiteral self brace) (Expression.Regular spelling) := by
  refine (Gives.listUpTo .rightBrace (gives_entry gives)).bind fun entries all => ?_
  refine (Gives.expectMark .rightBrace "\x7d").bind fun _ _ => .pure ?_
  exact literals.record entries all

theorem testWord?_of_testedType? {kind target : Kind} (tested : kind.testedType? = some target) :
    target.testWord?.isSome := by
  cases kind <;> cases tested <;> rfl

theorem gives_operand (literals : spelling.LiteralsFrom)
    (gives : Gives spelling.token self (Expression.Regular spelling)) :
    Gives spelling.token (operand self) (Expression.Regular spelling) := by
  intro tokens
  cases tokens with
  | nil => exact Gives.fail _ []
  | cons token tokens =>
    intro a rest all success
    have known := all token (List.mem_cons_self ..)
    have others : ∀ t ∈ tokens, spelling.token t := fun t member =>
      all t (List.mem_cons_of_mem _ member)
    have constant : ∀ {value : Value}, spelling.value value →
        (Except.ok (Expression.literal token value, tokens) : Except Unexpected _) = .ok (a, rest) →
        a.Regular spelling ∧ ∀ t ∈ rest, spelling.token t := by
      intro value holds same
      cases same
      exact ⟨holds, others⟩
    have array : spelling.value (.array []) := literals.array [] fun item member => nomatch member
    have record : spelling.value (.record []) := literals.record [] fun entry member =>
      nomatch member
    have readsLiteral : literalOf token tokens = .ok (a, rest) →
        a.Regular spelling ∧ ∀ t ∈ rest, spelling.token t :=
      gives_literalOf literals known tokens a rest others
    unfold operand at success
    dsimp only at success
    split at success
    case h_1 =>
      refine Gives.bind gives (fun inner regular => ?_) tokens a rest others success
      exact (Gives.expectMark .rightParen ")").bind fun _ _ => .pure regular
    case h_2 same => exact gives_named gives ⟨same, known⟩ tokens a rest others success
    case h_8 => exact gives_interpolated literals gives known tokens a rest others success
    case h_9 => exact constant array success
    case h_10 => exact constant record success
    case h_11 =>
      split at success
      · exact constant array success
      · split at success
        · exact constant record success
        · exact Gives.fail _ (token :: tokens) a rest all success
    case h_12 => exact gives_arrayLiteral literals gives token tokens a rest others success
    case h_13 => exact gives_recordLiteral literals gives token tokens a rest others success
    case h_14 =>
      refine Gives.bind (gives_argument gives)
        (fun inner regular => ?_) tokens a rest others success
      exact .pure regular
    case h_15 =>
      split at success
      · rename_i target tested
        refine Gives.bind (gives_argument gives)
          (fun inner regular => ?_) tokens a rest others success
        exact .pure ⟨testWord?_of_testedType? tested, regular⟩
      · exact Gives.fail _ (token :: tokens) a rest all success
    all_goals exact readsLiteral success

theorem gives_fromParts (literals : spelling.LiteralsFrom)
    (gives : Gives spelling.token self (Expression.Regular spelling)) :
    Gives spelling.token (fromParts self) (Expression.Regular spelling) := by
  have every : ∀ chosen : List (List Kind), (∀ operators ∈ chosen, operators ∈ levels) →
      Gives spelling.token (chosen.foldr level (signed (operand self)))
        (Expression.Regular spelling) := by
    intro chosen
    induction chosen with
    | nil => exact fun _ => gives_signed (gives_operand literals gives)
    | cons operators looser ih =>
      intro inside
      refine gives_level (fun kind member => ?_)
        (ih fun other member => inside other (List.mem_cons_of_mem _ member))
      exact List.mem_flatten.2 ⟨operators, inside operators (List.mem_cons_self ..), member⟩
  exact every levels fun _ member => member

end Parts

theorem gives_read (literals : spelling.LiteralsFrom) :
    Gives spelling.token read (Expression.Regular spelling) := by
  intro tokens
  induction count : tokens.length using Nat.strongRecOn generalizing tokens with
  | ind count ih =>
    intro a rest all success
    unfold read at success
    refine gives_fromParts literals ?_ tokens a rest all success
    exact Gives.shorterThan fun inner shorter => ih inner.length (count ▸ shorter) inner rfl

end Expression

end Treecode
