import Mathlib
import Treecode.Proofs.Spelled

set_option autoImplicit false

namespace Treecode

namespace Position

/-- The place at the end of a text, counted from its start: lines and columns from one, and
bytes. -/
def counted (text : String) : Position where
  line := 1 + text.toList.count '\n'
  column := 1 + (text.toList.reverse.takeWhile (· ≠ '\n')).length
  offset := text.utf8ByteSize

/-- One more character moves the counted place as it moves the kept one. -/
theorem next_counted (text : List Char) (c : Char) :
    (counted (String.ofList text)).next c = counted (String.ofList (text ++ [c])) := by
  have bytes : (String.ofList (text ++ [c])).utf8ByteSize =
      (String.ofList text).utf8ByteSize + c.utf8Size := by
    rw [String.ofList_append, String.utf8ByteSize_append, ← String.utf8ByteSize_singleton]
    rfl
  unfold counted next
  rw [bytes]
  simp only [String.toList_ofList, List.count_append, List.reverse_append, List.reverse_singleton,
    List.singleton_append]
  by_cases newline : c = '\n'
  · subst newline
    simp [Nat.add_assoc]
  · simp [newline, Nat.add_comm]

theorem after_start (text : List Char) : start.after text = counted (String.ofList text) := by
  induction text using List.reverseRecOn with
  | nil => rfl
  | append_singleton text c ih =>
    rw [after_append, ih, after_cons, after_nil, next_counted]

end Position

/-- The texts of tokens, one after another. -/
def Token.joined (tokens : List Token) : String := String.join (tokens.map Token.text)

theorem Token.toList_joined (tokens : List Token) :
    (joined tokens).toList = tokens.flatMap (·.text.toList) := by
  rw [joined, String.toList_join, List.flatMap_map]

namespace Lexer

/-- No token that is read off a text is the mark of the end. -/
theorem lexeme_ne_eof {openings : List Opening} {p : Position} {c : Char} {rest : List Char}
    {lexeme : Lexeme} (found : lexemeAt openings p c rest = .ok lexeme) : lexeme.kind ≠ .eof := by
  rcases lexemeAt_cases found with string | plainly
  · intro atEnd
    rw [atEnd] at string
    exact absurd string (by decide)
  · refine plain_kind (· ≠ .eof) (fun kind => ?_) ⟨by decide, by decide⟩ (fun text => ?_)
      (by decide) plainly
    · cases kind <;> decide
    · unfold nameKind Kind.ofWord?
      split <;> decide

/-- A token that is read off a text has a text. -/
theorem text_ne_empty (kind : Kind) (c : Char) (text : List Char) (p : Position) :
    Token.text ⟨kind, some (String.ofList (c :: text)), p⟩ ≠ "" := by
  intro empty
  have characters := congrArg String.toList empty
  simp [Token.text] at characters

/-- Before the mark of the end there are only tokens with a text. -/
theorem pieces_of_tokensFrom {openings : List Opening} {p : Position} {text : List Char}
    {tokens : List Token} (success : tokensFrom openings p text = .ok tokens) :
    ∃ pieces, tokens = pieces ++ [⟨.eof, none, p.after text⟩] ∧
      ∀ piece ∈ pieces, piece.kind ≠ .eof ∧ piece.text ≠ "" := by
  induction openings, p, text, tokens, success using tokensFrom_induct with
  | stop p => exact ⟨[], rfl, fun piece member => by cases member⟩
  | lexeme openings p c rest lexeme tokens found _ _ ih =>
    obtain ⟨pieces, rfl, each⟩ := ih
    rw [← Position.after_append, List.cons_append, List.take_append_drop]
    refine ⟨_ :: pieces, rfl, ?_⟩
    intro piece member
    rcases List.mem_cons.1 member with rfl | later
    · exact ⟨lexeme_ne_eof found, text_ne_empty _ _ _ _⟩
    · exact each piece later

/-- A token stands where the texts of the tokens before it end. -/
theorem position_of_tokensFrom {openings : List Opening} {p : Position} {text : List Char}
    {tokens before after : List Token} {token : Token}
    (success : tokensFrom openings p text = .ok tokens)
    (split : tokens = before ++ token :: after) :
    token.position = p.after (Token.joined before).toList := by
  rw [Token.toList_joined]
  induction before generalizing openings p text tokens with
  | nil =>
    cases text with
    | nil =>
      rw [(tokensFrom_nil_ok success).2] at split
      cases split
      rfl
    | cons c rest =>
      obtain ⟨lexeme, more, _, _, rfl⟩ := tokensFrom_cons_ok success
      cases split
      rfl
  | cons first before ih =>
    cases text with
    | nil =>
      rw [(tokensFrom_nil_ok success).2] at split
      simp at split
    | cons c rest =>
      obtain ⟨lexeme, more, _, following, rfl⟩ := tokensFrom_cons_ok success
      rw [List.cons_append, List.cons.injEq] at split
      obtain ⟨rfl, split⟩ := split
      rw [ih following split, List.flatMap_cons, Position.after_append]
      simp [Token.text]

end Lexer

/-- Tokens before one mark of the end are read without those that carry no meaning. -/
theorem TokenList.ofTokens_append {pieces : List Token} {stop : Token}
    (inner : ∀ piece ∈ pieces, piece.kind ≠ .eof) (last : stop.kind = .eof) :
    TokenList.ofTokens (pieces ++ [stop]) = ⟨pieces.filter (!·.kind.isTrivia), stop⟩ := by
  have kept : (pieces ++ [stop]).filter (!·.kind.isTrivia) =
      pieces.filter (!·.kind.isTrivia) ++ [stop] := by
    rw [List.filter_append, List.filter_singleton, last]
    rfl
  have others : ∀ piece ∈ pieces.filter (!·.kind.isTrivia), piece.kind ≠ .eof :=
    fun piece member => inner piece (List.mem_filter.1 member).1
  have front : (pieces.filter (!·.kind.isTrivia) ++ [stop]).takeWhile (·.kind ≠ .eof) =
      pieces.filter (!·.kind.isTrivia) := by
    rw [List.takeWhile_append_of_pos (by simpa using others)]
    simp [last]
  have found : (pieces.filter (!·.kind.isTrivia) ++ [stop]).find? (·.kind = .eof) = some stop := by
    rw [List.find?_append, List.find?_eq_none.2 (by simpa using others)]
    simp [last]
  unfold TokenList.ofTokens
  simp only [kept, front, found, Option.getD_some]

/-- The tokens of a text that carry meaning are those that a program is read from, each with its
text, and one mark of the end without a text. -/
theorem TokenList.meaningful_tokenize {source file : String} {tokens : List Token}
    (success : tokenize source file = .ok tokens) :
    tokens.filter (!·.kind.isTrivia) = (ofTokens tokens).tokens ++ [(ofTokens tokens).stop] ∧
      (∀ token ∈ (ofTokens tokens).tokens, token.spelling = some token.text) ∧
      (ofTokens tokens).stop.kind = .eof ∧ (ofTokens tokens).stop.spelling = none := by
  unfold tokenize at success
  split at success
  · rename_i found
    cases success
    obtain ⟨pieces, rfl, each⟩ := Lexer.pieces_of_tokensFrom found
    rw [ofTokens_append (fun piece member => (each piece member).1) rfl]
    refine ⟨?_, ?_, rfl, rfl⟩
    · rw [List.filter_append]
      rfl
    · intro token member
      have written := (each token (List.mem_filter.1 member).1).2
      unfold Token.text at written ⊢
      cases spelled : token.spelling with
      | none => exact absurd (by rw [spelled]; rfl) written
      | some text => rfl
  · cases success

/-- The tokens of a text tile it. The texts of all but the last make up the text, and none of these
is empty or the mark of the end; the last one is that mark and has no text. Each token, the mark
included, stands at the place that one counts in the text before it. -/
theorem tokenize_tiles {source file : String} {tokens : List Token}
    (success : tokenize source file = .ok tokens) :
    ∃ pieces stop, tokens = pieces ++ [stop] ∧ Token.joined pieces = source ∧
      (∀ piece ∈ pieces, piece.kind ≠ .eof ∧ piece.text ≠ "") ∧
      stop.kind = .eof ∧ stop.spelling = none ∧ stop.position = .counted source ∧
      ∀ before token after, tokens = before ++ token :: after →
        token.position = .counted (Token.joined before) := by
  unfold tokenize at success
  split at success
  · rename_i found
    cases success
    obtain ⟨pieces, split, each⟩ := Lexer.pieces_of_tokensFrom found
    have whole : Token.joined pieces = source := by
      have texts := Lexer.flatMap_text_of_tokensFrom found
      rw [split, List.flatMap_append] at texts
      rw [← String.toList_inj, Token.toList_joined]
      simpa [Token.text] using texts
    refine ⟨pieces, _, split, whole, each, rfl, rfl, ?_, ?_⟩
    · rw [Position.after_start, String.ofList_toList]
    · intro before token after cut
      rw [Lexer.position_of_tokensFrom found cut, Position.after_start, String.ofList_toList]
  · cases success

/-- A string with an interpolation, over two lines and with a letter of two bytes. -/
theorem tokenize_tiles_interpolated :
    ∃ tokens, tokenize "a=\"é\x7bb\x7d\nc\";" "main.mcl" = .ok tokens ∧
      ∃ pieces stop, tokens = pieces ++ [stop] ∧ Token.joined pieces = "a=\"é\x7bb\x7d\nc\";" ∧
        (∀ piece ∈ pieces, piece.kind ≠ .eof ∧ piece.text ≠ "") ∧
        stop.kind = .eof ∧ stop.spelling = none ∧ stop.position = .counted "a=\"é\x7bb\x7d\nc\";" ∧
        ∀ before token after, tokens = before ++ token :: after →
          token.position = .counted (Token.joined before) := by
  have success : tokenize "a=\"é\x7bb\x7d\nc\";" "main.mcl" = .ok
      [⟨.identifier, some "a", ⟨1, 1, 0⟩⟩, ⟨.operatorAssignment, some "=", ⟨1, 2, 1⟩⟩,
        ⟨.stringInterpolationStart, some "\"é\x7b", ⟨1, 3, 2⟩⟩, ⟨.identifier, some "b", ⟨1, 6, 6⟩⟩,
        ⟨.stringInterpolationEnd, some "\x7d\nc\"", ⟨1, 7, 7⟩⟩, ⟨.semicolon, some ";", ⟨2, 3, 11⟩⟩,
        ⟨.eof, none, ⟨2, 4, 12⟩⟩] := by cbv
  exact ⟨_, success, tokenize_tiles success⟩

end Treecode
