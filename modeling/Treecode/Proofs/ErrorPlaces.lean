import Treecode.CommandLine.Run
import Treecode.Proofs.WellFormed

set_option autoImplicit false

namespace Treecode

/-- The characters that stand on a line of a text, its end left out, where the text starts at a
place. -/
def Position.onLine (line : Nat) : Position → List Char → List Char
  | _, [] => []
  | p, c :: rest =>
    if p.line = line ∧ c ≠ '\n' then c :: onLine line (p.next c) rest
      else onLine line (p.next c) rest

/-- The text of a line of a text, lines counted as positions count them. -/
def lineOf (text : String) (line : Nat) : String :=
  String.ofList (Position.onLine line .start text.toList)

/-- The lines between ends of lines are those that positions count. -/
theorem Position.onLine_eq (line : Nat) (p : Position) (text : List Char) :
    onLine line p text =
      if line < p.line then [] else ((text.splitOn '\n')[line - p.line]?).getD [] := by
  induction text generalizing p with
  | nil =>
    rw [onLine, List.splitOn_nil]
    split
    · rfl
    · cases line - p.line <;> rfl
  | cons c rest ih =>
    rw [onLine, ih, List.splitOn_cons_eq_if_modifyHead]
    by_cases ends : c = '\n'
    · subst ends
      have next : (p.next '\n').line = p.line + 1 := rfl
      simp only [next, ne_eq, not_true_eq_false, and_false, ↓reduceIte, beq_self_eq_true]
      by_cases before : line < p.line
      · have later : line < p.line + 1 := by omega
        simp only [before, later, ↓reduceIte]
      · by_cases here : line = p.line
        · simp only [here, Nat.lt_succ_self, Nat.lt_irrefl, ↓reduceIte, Nat.sub_self,
            List.getElem?_cons_zero, Option.getD_some]
        · have later : ¬ line < p.line + 1 := by omega
          have shifted : line - p.line = line - (p.line + 1) + 1 := by omega
          simp only [before, later, ↓reduceIte, shifted, List.getElem?_cons_succ]
    · have next : (p.next c).line = p.line := by
        unfold Position.next
        simp only [ends, ↓reduceIte]
      have other : (c == '\n') = false := beq_eq_false_iff_ne.2 ends
      simp only [next, ends, ne_eq, not_false_eq_true, and_true, other,
        Bool.false_eq_true, ↓reduceIte]
      by_cases before : line < p.line
      · have apart : ¬ p.line = line := by omega
        simp only [before, apart, ↓reduceIte]
      · obtain ⟨first, lines, split⟩ := List.exists_cons_of_ne_nil (List.splitOn_ne_nil '\n' rest)
        rw [split, List.modifyHead_cons]
        by_cases here : p.line = line
        · subst here
          simp only [Nat.lt_irrefl, ↓reduceIte, Nat.sub_self, List.getElem?_cons_zero,
            Option.getD_some]
        · obtain ⟨more, later⟩ : ∃ more, line - p.line = more + 1 := ⟨line - p.line - 1, by omega⟩
          simp only [before, here, ↓reduceIte, later, List.getElem?_cons_succ]

/-- A place in a text is on its first line or on a later one. -/
theorem PointsInto.line_pos {text file : String} {error : Error} {place : Location}
    (points : PointsInto text file error place) : 1 ≤ place.line := by
  obtain ⟨p, ⟨front, _, _, counted⟩, line, _⟩ := points.inside
  rw [← line, counted]
  exact Nat.le_add_right 1 _

namespace CommandLine

/-- The line that is shown is the line that positions count, without the white space around it. -/
theorem excerpt_eq (text : String) {line : Nat} (counted : 1 ≤ line) :
    excerpt text line = Text.trim (lineOf text line) := by
  have started : ¬ line < Position.start.line := Nat.not_lt.2 counted
  unfold excerpt lineOf
  rw [Position.onLine_eq]
  simp only [started, ↓reduceIte]
  rfl

end CommandLine

namespace Compile

open Step ScopeTree

variable {setting : Setting} {text file : String} {reserved : List String} {error : Error}
    {place : Location}

/-- The texts that are lexed when a script is compiled, each under a file name: that of the script,
and those of the libraries whose scopes are there in the end. -/
inductive Lexes (setting : Setting) (text file : String) (reserved : List String) :
    String → String → Prop
  | script : Lexes setting text file reserved file text
  | library {source path library} (read : Program.ofSource text file = .ok source)
      (opened : Opened setting (program setting source reserved .initial).2.tree path library) :
      Lexes setting text file reserved path library

/-- An error at a place points into a text that is lexed under the file name of that place. -/
theorem pointsInto_sourceText (failed : sourceText setting text file reserved = .error error)
    (located : error.location? = some place) :
    ∃ lexed, Lexes setting text file reserved place.file lexed ∧
      PointsInto lexed place.file error place := by
  unfold sourceText at failed
  split at failed
  · rename_i error' unread
    cases failed
    have points := pointsInto_ofSource unread located
    have named := points.named
    subst named
    exact ⟨text, .script, points⟩
  · rename_i source read
    obtain ⟨tokens, success⟩ : ∃ tokens, tokenize text file = .ok tokens := by
      cases success : tokenize text file with
      | ok tokens => exact ⟨tokens, rfl⟩
      | error error =>
        unfold Program.ofSource at read
        rw [success] at read
        cases read
    obtain ⟨named, still⟩ := moved_ofSource success read
    have fits : AllFit setting (fun _ => True) source := fun _ _ _ _ => trivial
    have outcome := outcome_begin still fits reserved
    have apply : program setting source reserved .initial = _ :=
      program_apply_begin source reserved .initial
    cases ran : statements (library setting setting.depth) ScopeTree.root source.statements
        (Session.begin reserved source.file) with
    | mk result after =>
      rw [ran] at outcome apply
      cases result with
      | ok code =>
        rw [apply] at failed
        cases failed
      | error error' =>
        rw [apply] at failed
        cases failed
        have tree : (program setting source reserved .initial).2.tree = after.tree := by rw [apply]
        cases outcome.2 with
        | nothing unlocated =>
          rw [unlocated] at located
          cases located
        | @token p located' still' read' =>
          obtain rfl : _ = place := Option.some.inj (located'.symm.trans located)
          obtain ⟨token, member, same⟩ := List.mem_map.1 (Position.leaving_eq.1 still')
          have sameFile : (Session.begin reserved source.file).file = file := named
          refine ⟨text, ?_, pointsInto_of_token (sameFile ▸ success) rfl
            ⟨token, member, congrArg Position.line same, congrArg Position.column same⟩⟩
          dsimp only
          rw [sameFile]
          exact .script
        | @library path library opened into =>
          have points := into place located
          have named' := points.named
          subst named'
          exact ⟨library, .library read (tree ▸ opened), points⟩

/-- An error at a place points into a text that was lexed under the file name of that place: the
script, or a library that was found on the search path, loaded and opened. If it names the file of
the script, that line of the script is shown with it; and unless another text was lexed under that
name, it points into the script. -/
theorem sourceText_error_place (failed : sourceText setting text file reserved = .error error)
    (located : error.location? = some place) :
    (∃ lexed, Lexes setting text file reserved place.file lexed ∧
      PointsInto lexed place.file error place) ∧ (place.file = file →
        (CommandLine.compileFailure error text file).context =
            "failed to compile " ++ place.text ++ " `" ++ Text.trim (lineOf text place.line) ++
              "`" ∧
          ((∀ lexed, Lexes setting text file reserved file lexed → lexed = text) →
            PointsInto text file error place)) := by
  obtain ⟨lexed, lexes, points⟩ := pointsInto_sourceText failed located
  refine ⟨⟨lexed, lexes, points⟩, fun named => ⟨?_, fun alone => ?_⟩⟩
  · unfold CommandLine.compileFailure
    rw [located]
    simp only [named, ↓reduceIte, CommandLine.excerpt_eq text points.line_pos]
  · subst named
    exact alone lexed lexes ▸ points

/-- A library that reads an unknown variable, and a script with a stray parenthesis on its second
line: the first error points into the library, and the second one into the script. -/
theorem sourceText_error_place_second_line :
    (∃ lexed,
      Lexes ⟨⟨[(["l.mcl"], .file "x=y;".toByteArray)]⟩, [""]⟩ "include l;" "main.mcl" [] "l.mcl"
        lexed ∧
      PointsInto lexed "l.mcl" (.rejected ⟨"l.mcl", 1, 3⟩ (.unknownVariable "y")) ⟨"l.mcl", 1, 3⟩) ∧
    ((∃ lexed, Lexes ⟨.empty, []⟩ "\n(" "main.mcl" [] "main.mcl" lexed ∧
        PointsInto lexed "main.mcl" (.unexpected ⟨"main.mcl", 2, 1⟩ .leftParen "(" .statement)
          ⟨"main.mcl", 2, 1⟩) ∧
      (CommandLine.compileFailure (.unexpected ⟨"main.mcl", 2, 1⟩ .leftParen "(" .statement) "\n("
        "main.mcl").context = "failed to compile main.mcl at 2:1 `(`") := by
  have rejected : sourceText ⟨⟨[(["l.mcl"], .file "x=y;".toByteArray)]⟩,
    [""]⟩ "include l;" "main.mcl" [] =
      .error (.rejected ⟨"l.mcl", 1, 3⟩ (.unknownVariable "y")) := by cbv
  have unexpected : sourceText ⟨.empty, []⟩ "\n(" "main.mcl" [] =
      .error (.unexpected ⟨"main.mcl", 2, 1⟩ .leftParen "(" .statement) := by cbv
  obtain ⟨library, _⟩ := sourceText_error_place rejected rfl
  obtain ⟨script, shown⟩ := sourceText_error_place unexpected rfl
  exact ⟨library, script, (shown rfl).1.trans (by cbv)⟩

end Compile

end Treecode
