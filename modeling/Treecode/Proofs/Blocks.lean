import Treecode.Proofs.Arrival

set_option autoImplicit false

namespace Treecode

/-- The statements of the block of a clause. -/
def Clause.body : Clause → List Statement
  | .mk _ _ body => body.statements

def LastClause.body : LastClause → List Statement
  | .mk _ body => body.statements

/-- The block of a last clause, if there is one. -/
def LastClause.bodies (clause : Option LastClause) : List (List Statement) :=
  (clause.map body).toList

namespace Statement

/-- Whether a statement is an `if` or a `switch`. -/
def isBranching : Statement → Bool
  | .ifElse _ _ _ _ _ | .switch _ _ _ _ => true
  | _ => false

/-- The blocks of an `if` or a `switch`, in source order. -/
def blocks : Statement → List (List Statement)
  | .ifElse _ _ body elifs otherwise =>
    body.statements :: (elifs.map Clause.body ++ LastClause.bodies otherwise)
  | .switch _ _ cases default => cases.map Clause.body ++ LastClause.bodies default
  | _ => []

end Statement

namespace Compile

open ScopeTree

variable {setting : Setting} {depth scope mark : Nat}

/-- A session without the variables that a scope lists since a mark. -/
def Session.without (ended : Session) (scope mark : Nat) : Session :=
  ended.withTree (ended.tree.dropVariablesSince scope mark)

/-- Blocks compile in turn, from a session to another. Each ends in a session of its own, and the
next one starts where the variables that it declared are taken away. -/
inductive InTurn (setting : Setting) (depth scope mark : Nat) :
    List (List Statement) → Session → List Session → Session → Prop
  | nil {start} : InTurn setting depth scope mark [] start [] start
  | cons {source rest start code ended ends after}
      (compiled : statements (library setting depth) scope source start = (.ok code, ended))
      (others : InTurn setting depth scope mark rest (ended.without scope mark) ends after) :
      InTurn setting depth scope mark (source :: rest) start (ended :: ends) after

theorem InTurn.append {front back : List (List Statement)} {start middle after : Session}
    {ends ends' : List Session} (first : InTurn setting depth scope mark front start ends middle)
    (last : InTurn setting depth scope mark back middle ends' after) :
    InTurn setting depth scope mark (front ++ back) start (ends ++ ends') after := by
  induction first with
  | nil => exact last
  | cons compiled _ ih => exact .cons compiled (ih last)

theorem InTurn.front {front back : List (List Statement)} {start after : Session}
    {ends : List Session}
    (turn : InTurn setting depth scope mark (front ++ back) start ends after) :
    ∃ before middle, InTurn setting depth scope mark front start before middle := by
  induction front generalizing start ends with
  | nil => exact ⟨[], start, .nil⟩
  | cons source rest ih =>
    cases turn with
    | @cons _ _ _ code ended _ _ compiled others =>
      obtain ⟨before, middle, inner⟩ := ih others
      exact ⟨ended :: before, middle, .cons compiled inner⟩

/-- What blocks that end in given sessions declare, added to what was declared before. -/
def gatherEnds (scope mark : Nat) (declared : List Variable) (ends : List Session) :
    List Variable :=
  ends.foldl (fun known ended => gather known (ended.tree.variablesSince scope mark)) declared

theorem gatherEnds_append (declared : List Variable) (ends ends' : List Session) :
    gatherEnds scope mark declared (ends ++ ends') =
      gatherEnds scope mark (gatherEnds scope mark declared ends) ends' :=
  List.foldl_append

section Turns

variable {declared gathered : List Variable} {start after : Session}

theorem inTurn_branch {source : List Statement} {code : List Instruction}
    (compiles : Compiles setting depth scope (.branch mark declared source code gathered)
      start after) :
    ∃ ended, InTurn setting depth scope mark [source] start [ended] after ∧
      gathered = gatherEnds scope mark declared [ended] := by
  cases compiles with
  | branch _ _ inner => exact ⟨_, .cons inner.runs .nil, rfl⟩

theorem inTurn_elifs {elifs : List Clause} {code : List (Instruction × List Instruction)}
    (compiles : Compiles setting depth scope (.elifs mark declared elifs code gathered)
      start after) :
    ∃ ends, InTurn setting depth scope mark (elifs.map Clause.body) start ends after ∧
      gathered = gatherEnds scope mark declared ends := by
  induction elifs generalizing declared code start with
  | nil =>
    cases compiles with
    | noElif => exact ⟨[], .nil, rfl⟩
  | cons clause rest ih =>
    cases compiles with
    | moreElifs _ _ _ head tail =>
      obtain ⟨ended, first, rfl⟩ := inTurn_branch head
      obtain ⟨ends, others, rfl⟩ := ih tail
      exact ⟨ended :: ends, first.append others, rfl⟩

theorem inTurn_cases {labels : List Value} {cases : List Clause}
    {code : List (Value × List Instruction)}
    (compiles : Compiles setting depth scope (.cases mark declared labels cases code gathered)
      start after) :
    ∃ ends, InTurn setting depth scope mark (cases.map Clause.body) start ends after ∧
      gathered = gatherEnds scope mark declared ends := by
  induction cases generalizing declared labels code start with
  | nil =>
    cases compiles with
    | noCase => exact ⟨[], .nil, rfl⟩
  | cons clause rest ih =>
    cases compiles with
    | moreCases _ _ _ head tail =>
      obtain ⟨ended, first, rfl⟩ := inTurn_branch head
      obtain ⟨ends, others, rfl⟩ := ih tail
      exact ⟨ended :: ends, first.append others, rfl⟩

theorem inTurn_last {clause : Option LastClause} {code : List Instruction}
    (compiles : Compiles setting depth scope (.last mark declared clause code gathered)
      start after) :
    ∃ ends, InTurn setting depth scope mark (LastClause.bodies clause) start ends after ∧
      gathered = gatherEnds scope mark declared ends := by
  cases compiles with
  | noLast => exact ⟨[], .nil, rfl⟩
  | someLast _ _ inner =>
    obtain ⟨ended, turn, gathered⟩ := inTurn_branch inner
    exact ⟨[ended], turn, gathered⟩

/-- An `if` or a `switch` compiles its blocks in turn, and then its scope lists what they
declare. -/
theorem inTurn_branching {source : Statement} {code : List Instruction}
    (compiles : Compiles setting depth scope (.statement source code) start after)
    (branching : source.isBranching) :
    ∃ ends last, InTurn setting depth scope (start.tree.variableCount scope) source.blocks
      start ends last ∧ after = last.withTree (last.tree.addVariables scope
        (gatherEnds scope (start.tree.variableCount scope) [] ends)) := by
  cases source with
  | ifElse word condition body elifs otherwise =>
    cases compiles with
    | ifElse _ _ first further final =>
      obtain ⟨ended, turn, rfl⟩ := inTurn_branch first
      obtain ⟨ends, turns, rfl⟩ := inTurn_elifs further
      obtain ⟨ends', turns', rfl⟩ := inTurn_last final
      refine ⟨ended :: (ends ++ ends'), _, turn.append (turns.append turns'), ?_⟩
      rw [← List.cons_append, gatherEnds_append]
      rfl
    | simple _ translated _ => cases translated
  | switch word head cases default =>
    cases compiles with
    | switch _ _ first final =>
      obtain ⟨ends, turns, rfl⟩ := inTurn_cases first
      obtain ⟨ends', turns', rfl⟩ := inTurn_last final
      refine ⟨ends ++ ends', _, turns.append turns', ?_⟩
      rw [gatherEnds_append]
    | simple _ translated _ => cases translated
  | _ => cases branching

end Turns

/-- Blocks in turn stay in their scope and leave its names. -/
theorem InTurn.frame {spelling : Spelling} {sources : List (List Statement)} {start after : Session}
    {ends : List Session} (turn : InTurn setting depth scope mark sources start ends after)
    (regular : ∀ source ∈ sources, Statement.AllRegular spelling source) (ready : Ready scope start)
    (since : mark = start.tree.variableCount scope) :
    Frame scope start after ∧ after.tree.names scope = start.tree.names scope := by
  induction turn with
  | nil => exact ⟨.refl scope ready.ordered, rfl⟩
  | @cons source rest start code ended ends after compiled others ih =>
    have inner : Compiles setting depth scope (.statements source code) start ended :=
      .of_statements (regular source (List.mem_cons_self ..)) ready compiled
    have block : Compiles setting depth scope (.branch mark [] source code _) start
        (ended.without scope mark) :=
      .branch ready since inner
    obtain ⟨frame, names⟩ := ih (fun other member => regular other (List.mem_cons_of_mem _ member))
      block.ready_after (block.since_after rfl since)
    exact ⟨block.frame.trans frame, names.trans (block.names_branch rfl)⟩

theorem regular_elifs {spelling : Spelling} {clauses : List Clause}
    (regular : Clause.AllRegular spelling clauses) :
    ∀ source ∈ clauses.map Clause.body, Statement.AllRegular spelling source := by
  intro source member
  obtain ⟨clause, listed, rfl⟩ := List.mem_map.1 member
  have own := Clause.allRegular_iff.1 regular clause listed
  cases clause with
  | mk word guard body =>
    cases body with
    | mk brace body => exact own.2

theorem regular_bodies {spelling : Spelling} {clause : Option LastClause}
    (regular : LastClause.OptionRegular spelling clause) :
    ∀ source ∈ LastClause.bodies clause, Statement.AllRegular spelling source := by
  intro source member
  cases clause with
  | none => cases member
  | some clause =>
    rw [List.mem_singleton.1 member]
    cases clause with
    | mk word body =>
      cases body with
      | mk brace body => exact regular

theorem regular_blocks {spelling : Spelling} {branching : Statement}
    (regular : branching.Regular spelling) :
    ∀ source ∈ branching.blocks, Statement.AllRegular spelling source := by
  intro source member
  cases branching with
  | ifElse word condition body elifs otherwise =>
    obtain ⟨_, first, further, final⟩ := regular
    simp only [Statement.blocks, List.mem_cons, List.mem_append] at member
    rcases member with rfl | inner | inner
    · cases body with
      | mk brace body => exact first
    · exact regular_elifs further source inner
    · exact regular_bodies final source inner
  | switch word head cases default =>
    obtain ⟨_, _, further, final⟩ := regular
    simp only [Statement.blocks, List.mem_append] at member
    rcases member with inner | inner
    · exact regular_elifs further source inner
    · exact regular_bodies final source inner
  | _ => cases member

end Compile

end Treecode
