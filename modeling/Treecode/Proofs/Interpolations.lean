import Mathlib
import Treecode.Proofs.Spelled

set_option autoImplicit false

namespace Treecode

/-- An interpolation that is open between tokens: the first character of its string, and how many
braces in it are open. -/
structure Hole where
  quote : Char
  depth : Nat
  deriving DecidableEq, Repr

/-- The open interpolations after a token, innermost first, and nothing where the token does not fit
them. A closing brace needs an open one where an interpolation is open, a further piece and an end
need an interpolation without an open brace, and an end has to end with the quote of its string. -/
def nest (holes : List Hole) (token : Token) : Option (List Hole) :=
  match token.kind, holes with
  | .stringInterpolationStart, outer => token.text.toList.head?.map fun quote => ⟨quote, 0⟩ :: outer
  | .stringInterpolationStringPart, ⟨quote, 0⟩ :: outer => some (⟨quote, 0⟩ :: outer)
  | .stringInterpolationStringPart, _ => none
  | .stringInterpolationEnd, ⟨quote, 0⟩ :: outer =>
    if token.text.toList.getLast? = some quote then some outer else none
  | .stringInterpolationEnd, _ => none
  | .leftBrace, ⟨quote, depth⟩ :: outer => some (⟨quote, depth + 1⟩ :: outer)
  | .rightBrace, ⟨quote, depth + 1⟩ :: outer => some (⟨quote, depth⟩ :: outer)
  | .rightBrace, _ :: _ => none
  | _, outer => some outer

/-- The kinds of tokens that open, continue or close an interpolation or a brace. -/
def nestingKinds : List Kind := Expression.pieces ++ [.leftBrace, .rightBrace]

/-- A token of any other kind leaves the interpolations as they are. -/
theorem nest_other {token : Token} (holes : List Hole) (other : token.kind ∉ nestingKinds) :
    nest holes token = some holes := by
  simp only [nestingKinds, Expression.pieces, List.cons_append, List.nil_append, List.mem_cons,
    List.not_mem_nil, or_false, not_or] at other
  obtain ⟨noStart, noPart, noEnd, noLeft, noRight⟩ := other
  unfold nest
  split
  all_goals first
    | rfl
    | contradiction

namespace Lexer

/-- The open interpolations as a scan of the tokens knows them. -/
def holes (openings : List Opening) : List Hole :=
  openings.map fun opening => ⟨opening.quote, opening.depth⟩

/-- A piece that ends at a quote ends with the quote that was asked for. -/
theorem piece?_quote {quote : Char} {text : List Char} {length : Nat}
    (found : piece? quote text = some (.quote, length)) :
    (text.take length).getLast? = some quote := by
  fun_induction piece? quote text generalizing length with
  | case1 | case2 | case5 => cases found
  | case3 c rest ih | case4 rest ih | case7 c rest _ _ _ _ _ ih =>
    -- the characters skipped stand before a piece that ends with the quote
    obtain ⟨⟨stop, shorter⟩, inner, same⟩ := Option.map_eq_some_iff.1 found
    cases same
    simp [List.getLast?_cons, ih inner]
  | case6 rest =>
    cases found
    rfl

/-- Of the kinds that matter here a plain token can only be a brace. -/
theorem plain_nesting {c : Char} {rest : List Char} {kind : Kind} {more : Nat}
    (found : plain c rest = .ok (kind, more)) (nesting : kind ∈ nestingKinds) :
    kind = .leftBrace ∨ kind = .rightBrace ∧ c = '\x7d' := by
  rcases plain_cases found with trivia | ⟨_, number⟩ | ⟨_, word, _⟩ | ⟨spelling, mark, fits, _⟩
  · have apart : ∀ kind ∈ nestingKinds, kind.isTrivia = false := by decide
    rw [apart kind nesting] at trivia
    cases trivia
  · have kinds := number_kind rest
    rw [number] at kinds
    rcases kinds with integer | float
    · dsimp only at integer
      rw [integer] at nesting
      exact absurd nesting (by decide)
    · dsimp only at float
      rw [float] at nesting
      exact absurd nesting (by decide)
  · have others : nameKind (c :: rest.takeWhile continuesName) ∉ nestingKinds := by
      unfold nameKind Kind.ofWord?
      split <;> decide
    exact absurd (word ▸ nesting) others
  · have braces : ∀ mark ∈ marks, mark.2 ∈ nestingKinds →
        mark.2 = .leftBrace ∨ mark.2 = .rightBrace ∧ mark.1 = ['\x7d'] := by decide
    refine (braces _ mark nesting).imp_right ?_
    rintro ⟨right, rfl⟩
    simp only [List.isPrefixOf, Bool.and_true, beq_iff_eq] at fits
    exact ⟨right, fits.symm⟩

/-- A token changes the open interpolations as the reading of the text does. -/
theorem nest_lexeme {openings : List Opening} {p : Position} {c : Char} {rest : List Char}
    {lexeme : Lexeme} (found : lexemeAt openings p c rest = .ok lexeme) :
    nest (holes openings) ⟨lexeme.kind, some (String.ofList (c :: rest.take lexeme.more)), p⟩ =
      some (holes lexeme.openings) := by
  have text : ∀ kind more, (Token.text
    ⟨kind, some (String.ofList (c :: rest.take more)), p⟩).toList =
      c :: rest.take more := fun _ _ => String.toList_ofList
  unfold lexemeAt at found
  split at found
  · -- a closing brace where the innermost interpolation has none open
    split at found
    · cases found
    · cases found
      rfl
    · rename_i closes
      cases found
      have last := piece?_quote closes
      simp only [nest, holes, List.map_cons, text, List.getLast?_cons, last,
        Option.getD_some, ↓reduceIte]
  · rename_i notClosing
    split at found
    · split at found
      · cases found
      · cases found
        simp only [nest, holes, List.map_cons, text, List.head?_cons, Option.map_some]
      · cases found
        exact nest_other _ (by decide : Kind.string ∉ nestingKinds)
    · split at found
      · cases found
      · cases found
        cases openings <;> rfl
      · rename_i plainly
        cases found
        cases openings with
        | nil => rfl
        | cons opening outer =>
          obtain ⟨quote, depth, start⟩ := opening
          cases depth with
          | zero =>
            rcases plain_nesting plainly (by decide) with left | ⟨_, brace⟩
            · cases left
            · exact absurd rfl (notClosing quote start outer brace)
          | succ depth => rfl
      · rename_i kind more noLeft noRight plainly
        cases found
        refine nest_other _ fun nesting => ?_
        rcases plain_nesting plainly nesting with rfl | ⟨rfl, _⟩
        · exact noLeft rfl
        · exact noRight rfl

/-- From the interpolations that are open where a text starts, its tokens lead to none. -/
theorem nest_tokensFrom {openings : List Opening} {p : Position} {text : List Char}
    {tokens : List Token} (success : tokensFrom openings p text = .ok tokens) :
    tokens.foldlM nest (holes openings) = some [] := by
  induction openings, p, text, tokens, success using tokensFrom_induct with
  | stop p => rfl
  | lexeme openings p c rest lexeme tokens found _ _ tail =>
    rw [List.foldlM_cons, nest_lexeme found]
    exact tail

end Lexer

/-- In every text the interpolations nest: each token fits those that are open before it, and none
is open at the end. -/
theorem tokenize_nests {source file : String} {tokens : List Token}
    (success : tokenize source file = .ok tokens) : tokens.foldlM nest [] = some [] := by
  unfold tokenize at success
  split at success
  · rename_i found
    cases success
    exact Lexer.nest_tokensFrom found
  · cases success

/-- A string in a record inside an interpolation of another string, with the other quote. -/
theorem tokenize_nests_inside :
    ∃ tokens, tokenize "\"a\x7b(\x7b1:'\x7b2\x7d'\x7d)\x7dc\"" "main.mcl" = .ok tokens ∧
      tokens.foldlM nest [] = some [] := by
  have success : tokenize "\"a\x7b(\x7b1:'\x7b2\x7d'\x7d)\x7dc\"" "main.mcl" = .ok
      [⟨.stringInterpolationStart, some "\"a\x7b", ⟨1, 1, 0⟩⟩, ⟨.leftParen, some "(", ⟨1, 4, 3⟩⟩,
        ⟨.leftBrace, some "\x7b", ⟨1, 5, 4⟩⟩, ⟨.integer, some "1", ⟨1, 6, 5⟩⟩,
          ⟨.colon, some ":", ⟨1, 7, 6⟩⟩,
        ⟨.stringInterpolationStart, some "'\x7b", ⟨1, 8, 7⟩⟩, ⟨.integer, some "2", ⟨1, 10, 9⟩⟩,
        ⟨.stringInterpolationEnd, some "\x7d'", ⟨1, 11, 10⟩⟩,
          ⟨.rightBrace, some "\x7d", ⟨1, 13, 12⟩⟩,
        ⟨.rightParen, some ")", ⟨1, 14, 13⟩⟩,
          ⟨.stringInterpolationEnd, some "\x7dc\"", ⟨1, 15, 14⟩⟩,
        ⟨.eof, none, ⟨1, 18, 17⟩⟩] := by cbv
  exact ⟨_, success, tokenize_nests success⟩

end Treecode
