import Treecode.Proofs.Boundaries
import Treecode.Proofs.Moved
import Treecode.Proofs.Tiling

set_option autoImplicit false

namespace Treecode.Lexer

open Text TokenList

/-- The open interpolation in a text that starts at another place. -/
def Opening.moved (move : Position → Position) (opening : Opening) : Opening :=
  { opening with start := move opening.start }

/-- The token in a text that starts at another place. -/
def Lexeme.moved (move : Position → Position) (lexeme : Lexeme) : Lexeme :=
  { lexeme with openings := lexeme.openings.map (Opening.moved move) }

variable {move : Position → Position}

theorem deepen_moved (change : Nat → Nat) (openings : List Opening) :
    deepen change (openings.map (Opening.moved move)) = (deepen change openings).map
      (Opening.moved move) := by
  cases openings <;> rfl

/-- What starts at a place is told by the text there and by the interpolations that are open. -/
theorem lexemeAt_moved {openings : List Opening} {p : Position} {c : Char} {rest : List Char}
    {lexeme : Lexeme} (found : lexemeAt openings p c rest = .ok lexeme) :
    lexemeAt (openings.map (Opening.moved move)) (move p) c rest = .ok (lexeme.moved move) := by
  unfold lexemeAt at found
  split at found
  · simp only [List.map_cons, Opening.moved, lexemeAt]
    split at found
    · cases found
    all_goals
      cases found
      rfl
  · next closes =>
    rw [lexemeAt.eq_2]
    · split at found
      · next quoted =>
        rw [if_pos quoted]
        split at found
        · cases found
        all_goals
          cases found
          rfl
      · next unquoted =>
        rw [if_neg unquoted]
        split at found
        · cases found
        all_goals
          cases found
          simp [Lexeme.moved, deepen_moved]
    · intro quote start outer brace opened
      cases openings with
      | nil => cases opened
      | cons opening openings =>
        obtain ⟨quote', depth, start'⟩ := opening
        simp only [List.map_cons, Opening.moved, List.cons.injEq, Opening.mk.injEq] at opened
        obtain ⟨⟨rfl, rfl, _⟩, _⟩ := opened
        exact closes _ _ _ brace rfl

theorem after_moved (steps : ∀ p c, move (p.next c) = (move p).next c) (p : Position)
    (text : List Char) : (move p).after text = move (p.after text) := by
  induction text generalizing p with
  | nil => rfl
  | cons c text ih => rw [Position.after_cons, Position.after_cons, ← steps, ih]

/-- A text that starts at another place has the same tokens at other places. -/
theorem tokensFrom_moved (steps : ∀ p c, move (p.next c) = (move p).next c)
    {openings : List Opening}
    {p : Position} {text : List Char} {tokens : List Token}
    (success : tokensFrom openings p text = .ok tokens) :
    tokensFrom (openings.map (Opening.moved move)) (move p) text =
      .ok (tokens.map (Token.moved move)) := by
  induction openings, p, text, tokens, success using tokensFrom_induct with
  | stop p =>
    rw [List.map_nil, tokensFrom]
    rfl
  | lexeme openings p c rest lexeme tokens found _ _ tail =>
    rw [← after_moved steps] at tail
    rw [tokensFrom, lexemeAt_moved found]
    simp only [Lexeme.moved, tail]
    rfl

/-- A token ends before a new line, unless it is the white space at the end of the text. -/
theorem lexemeAt_append {openings : List Opening} {p : Position} {c : Char} {body more : List Char}
    {lexeme : Lexeme} (back : List Char) (length : lexeme.more = body.length)
    (stops : isBlank c → more ≠ [])
    (found : lexemeAt openings p c (body ++ more) = .ok lexeme) :
    lexemeAt openings p c (body ++ (more ++ '\n' :: back)) = .ok lexeme := by
  refine lexemeAt_alike ?_ length found
  cases more with
  | nil =>
    refine .blank (by decide) ?_
    rintro (blank | ⟨_, other⟩)
    · exact stops blank rfl
    · exact other rfl
  | cons d more =>
    refine .same fun e member solid => ?_
    cases more with
    | nil =>
      cases Option.mem_some.1 member
      exact absurd solid (by decide)
    | cons f more => exact member

/-- The tokens of two texts with a new line between them: those that carry meaning are those of the
first text and then those of the second one. -/
theorem tokensFrom_append {openings : List Opening} {p : Position} {front back : List Char}
    {tokens others : List Token} (first : tokensFrom openings p front = .ok tokens)
    (last : tokensFrom [] ((p.after front).next '\n') back = .ok others) :
    ∃ whole, tokensFrom openings p (front ++ '\n' :: back) = .ok whole ∧
      (ofTokens whole).tokens = (ofTokens tokens).tokens ++ (ofTokens others).tokens := by
  induction openings, p, front, tokens, first using tokensFrom_induct with
  | stop p => exact tokensFrom_cons_blank (by decide) last
  | lexeme openings p c rest lexeme tokens found following _ ih =>
    obtain ⟨body, more, rfl, cut⟩ := exists_cut found
    rw [cut, List.take_left, List.drop_left] at following ih
    rw [cut, List.take_left]
    by_cases stops : isBlank c → more ≠ []
    · rw [← List.cons_append, Position.after_append] at last
      obtain ⟨whole, lexed, same⟩ := ih last
      refine ⟨⟨lexeme.kind, some (String.ofList (c :: body)), p⟩ :: whole, ?_, ?_⟩
      · rw [List.cons_append, List.append_assoc]
        exact tokensFrom_lexeme (by rw [← cut]; exact lexemeAt_append back cut stops found) lexed
      · by_cases trivia : lexeme.kind.isTrivia = true
        · rw [tokens_trivia _ trivia, tokens_trivia _ trivia, same]
        · have meaningful := Bool.eq_false_iff.2 trivia
          rw [tokens_cons _ meaningful (lexeme_ne_eof found),
            tokens_cons _ meaningful (lexeme_ne_eof found), same, List.cons_append]
    · -- The white space at the end of the first text goes on into the new line.
      obtain ⟨blank, nothing⟩ := Classical.not_imp.1 stops
      cases Classical.not_not.1 nothing
      rw [lexemeAt_blank _ _ blank] at found
      cases found
      obtain ⟨rfl, rfl⟩ := tokensFrom_nil_ok following
      have blanks := (takeWhile_eq_iff.1 (takeWhile_of_length cut)).1
      obtain ⟨middle, lexed, same⟩ := tokensFrom_cons_blank (by decide : isBlank '\n') last
      obtain ⟨whole, lexed', same'⟩ := tokensFrom_append_blank
        (List.forall_mem_cons.2 ⟨blank, by simpa using blanks⟩) lexed
      refine ⟨whole, lexed', same'.trans (same.trans ?_)⟩
      rw [tokens_trivia _ rfl]
      rfl

end Treecode.Lexer
