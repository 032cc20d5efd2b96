import Treecode.Program.Reading
import Treecode.Proofs.JoinedTexts
import Treecode.Proofs.StatementExtension
import Treecode.Proofs.StatementMovement

set_option autoImplicit false

namespace Treecode

open TokenList

namespace Position

/-- The place in a script that stands below a text: as many lines and bytes further down as the text
and the new line after it take up, and in the same column. -/
def below (text : String) (p : Position) : Position :=
  ⟨p.line + (text.toList.count '\n' + 1), p.column, p.offset + (text.utf8ByteSize + 1)⟩

theorem below_next (text : String) (p : Position) (c : Char) :
    (p.next c).below text = (p.below text).next c := by
  unfold next below
  by_cases newline : c = '\n'
  · simp only [newline, ↓reduceIte, mk.injEq, true_and]
    omega
  · simp only [newline, ↓reduceIte, mk.injEq, true_and]
    omega

/-- The script below a text starts after the new line that ends the text. -/
theorem next_after_start (text : String) :
    (start.after text.toList).next '\n' = start.below text := by
  rw [after_start, String.ofList_toList]
  unfold counted next below start
  have width : ('\n' : Char).utf8Size = 1 := rfl
  simp only [↓reduceIte, width, mk.injEq, true_and]
  omega

end Position

/-- A move keeps what carries meaning and what marks the end. -/
theorem TokenList.tokens_moved (move : Position → Position) (tokens : List Token) :
    (ofTokens (tokens.map (Token.moved move))).tokens = (ofTokens tokens).tokens.map
    (Token.moved move) := by
  unfold ofTokens
  dsimp only
  rw [List.filter_map, List.takeWhile_map]
  rfl

theorem Program.ofSource_iff {source file : String} {program : Program} :
    Program.ofSource source file = .ok program ↔
      ∃ tokens rest, Lexer.tokensFrom [] .start source.toList = .ok tokens ∧
        Statement.readAll (TokenList.ofTokens tokens).tokens = .ok (program.statements, rest) ∧
        program.file = file := by
  obtain ⟨name, statements⟩ := program
  unfold Program.ofSource tokenize
  cases lexed : Lexer.tokensFrom [] .start source.toList with
  | error fault => simp
  | ok tokens =>
    unfold Program.ofTokens TokenList.read
    cases spelled : Statement.readAll (TokenList.ofTokens tokens).tokens with
    | error unexpected => simp [spelled]
    | ok result =>
      obtain ⟨statements', rest⟩ := result
      simp [spelled, and_comm, eq_comm]

/-- Scripts concatenate. Where two texts spell programs, the texts with a new line between them
spell the program with the statements of the first and then those of the second, all whose tokens
stand below the first text. -/
theorem Program.ofSource_append {one other file : String} {first last : Program}
    (read : Program.ofSource one file = .ok first)
    (read' : Program.ofSource other file = .ok last) :
    Program.ofSource (one ++ "\n" ++ other) file =
      .ok ⟨file, first.statements ++ last.statements.map
        (Statement.moved (Position.below one))⟩ := by
  obtain ⟨tokens, rest, lexed, spelled, _⟩ := Program.ofSource_iff.1 read
  obtain ⟨tokens', rest', lexed', spelled', _⟩ := Program.ofSource_iff.1 read'
  have below := Lexer.tokensFrom_moved (Position.below_next one) lexed'
  rw [← Position.next_after_start, List.map_nil] at below
  obtain ⟨whole, lexedWhole, same⟩ := Lexer.tokensFrom_append lexed below
  have moved := Statement.moves_readAll (Position.below one) (TokenList.ofTokens tokens').tokens
  rw [spelled', ← TokenList.tokens_moved] at moved
  refine Program.ofSource_iff.2 ⟨whole, rest'.map (Token.moved (Position.below one)), ?_, ?_, rfl⟩
  · simpa using lexedWhole
  · rw [same]
    exact Statement.readAll_append spelled moved

/-- A definition without a semicolon and a comment, and an assignment that looks ahead. -/
theorem Program.ofSource_append_definition :
    ∃ first last, Program.ofSource "f=()=>\x7b\x7d#" "main.mcl" = .ok first ∧
      Program.ofSource "a=(1);" "main.mcl" = .ok last ∧
      Program.ofSource ("f=()=>\x7b\x7d#" ++ "\n" ++ "a=(1);") "main.mcl" =
        .ok ⟨"main.mcl", first.statements ++
          last.statements.map (Statement.moved (Position.below "f=()=>\x7b\x7d#"))⟩ := by
  have read : Program.ofSource "f=()=>\x7b\x7d#" "main.mcl" = .ok ⟨"main.mcl",
      [.define ⟨.identifier, some "f", ⟨1, 1, 0⟩⟩ [] .nil
        (.block (.mk ⟨.newRecord, some "\x7b\x7d", ⟨1, 7, 6⟩⟩ []))]⟩ := by cbv
  have read' : Program.ofSource "a=(1);" "main.mcl" = .ok ⟨"main.mcl",
      [.assign (.plain ⟨.identifier, some "a", ⟨1, 1, 0⟩⟩)
        ⟨.operatorAssignment, some "=", ⟨1, 2, 1⟩⟩
        (.literal ⟨.integer, some "1", ⟨1, 4, 3⟩⟩ (.integer 1)) false false]⟩ := by cbv
  exact ⟨_, _, read, read', ofSource_append read read'⟩

end Treecode
