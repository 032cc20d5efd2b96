import Mathlib
import Treecode.Proofs.Completeness
import Treecode.Proofs.Recompiled
import Treecode.Proofs.Writable

set_option autoImplicit false

namespace Treecode.Compile

open ScopeTree Instruction

theorem not_fixes_begin (reserved : List String) (file x : String) :
    ¬ (Session.begin reserved file).tree.Fixes root x := by
  rintro ⟨other, _, v, listed, _, constant⟩
  exact absurd (constant.symm.trans (plain_reservedTree listed).1) (by decide)

/-- The bytecode of a source, where no block of an `if` or a `switch` includes anything, is printed
as a script that compiles to it with the same reserved names, wherever libraries are then. -/
theorem sourceText_roundTrip {setting : Setting} {text file : String} {reserved : List String}
    {code : List Instruction} (success : sourceText setting text file reserved = .ok code)
    (plain : ∀ program, Program.ofSource text file = .ok program →
      ∀ used, Uses setting program used → used.plainBranches)
    (setting' : Setting) (file' : String) :
    ∃ printed, programScript code = .ok printed ∧
      sourceText setting' printed file' reserved = .ok code := by
  obtain ⟨source, body, after, read, compiles, rfl⟩ := Compiles.of_sourceText success
  have written : AllStatements body := compiles.writable (Program.lexed_ofSource read)
  obtain ⟨printed, script, reads⟩ := programScript_reads written
  obtain ⟨statements, read', spelled⟩ := Program.ofSource_reads written reads file'
  have bodyPlain : Scoping.Plain setting (.statements source.statements body) :=
    .of_uses (plain source read) body
  have start : Matches root (Session.begin reserved source.file) root
    (Session.begin reserved file') := ⟨rfl, rfl⟩
  obtain ⟨after', compiles', _⟩ := compiles.recompiles setting' setting'.depth bodyPlain
    (ready_begin reserved file') start (not_fixes_begin reserved file') statements spelled
  exact ⟨printed, script, Compiles.sourceText_eq read' compiles'⟩

/-- A constant, an operation in an assignment, a string with a brace and a last block without
code. -/
theorem sourceText_roundTrip_constant :
    ∃ code printed,
      sourceText ⟨.empty, []⟩
        "const k = 2; if c \x7b x = \"\x7b\x7b\"; \x7d else \x7b \x7d c += k - x;"
        "main.mcl" ["c"] = .ok code ∧
      programScript code = .ok printed ∧
        sourceText ⟨.empty, []⟩ printed "other.mcl" ["c"] = .ok code := by
  have success : sourceText ⟨.empty, []⟩
      "const k = 2; if c \x7b x = \"\x7b\x7b\"; \x7d else \x7b \x7d c += k - x;"
      "main.mcl" ["c"] =
      .ok [.newVariable "k", .storeVariable (.loadVariable "k" [])
        (.loadConstant (.integer 2)) false, .ifElse (.loadVariable "c" [])
          [.newVariable "x", .storeVariable (.loadVariable "x" [])
            (.loadConstant (.string "\x7b")) false] [] [],
        .storeVariable (.loadVariable "c" []) (.binary .add (.loadVariable "c" [])
          (.binary .sub (.loadVariable "k" []) (.loadVariable "x" []))) false, .finalHalt] := by cbv
  have plain : ∀ program,
      Program.ofSource
        "const k = 2; if c \x7b x = \"\x7b\x7b\"; \x7d else \x7b \x7d c += k - x;"
        "main.mcl" = .ok program → ∀ used, Uses ⟨.empty, []⟩ program used → used.plainBranches := by
    intro program read used uses
    have nothing : (Program.ofSource
        "const k = 2; if c \x7b x = \"\x7b\x7b\"; \x7d else \x7b \x7d c += k - x;"
        "main.mcl").map (Statement.allIncluded ·.statements) = .ok [] := by cbv
    rw [read] at nothing
    exact uses.plainBranches (Except.ok.inj nothing)
  obtain ⟨printed, script, again⟩ := sourceText_roundTrip success plain ⟨.empty, []⟩ "other.mcl"
  exact ⟨_, printed, success, script, again⟩

end Treecode.Compile
