import Mathlib
import Treecode.Proofs.RoundTrip

set_option autoImplicit false

namespace Treecode

open Instruction Compile

namespace IsName

variable {name : String}

theorem not_isBlank (named : IsName name) : ∀ c ∈ name.toList, Text.isBlank c = false := by
  obtain ⟨word, _⟩ := named
  intro c member
  rw [Bool.eq_false_iff]
  intro blank
  cases spelled : name.toList with
  | nil =>
    rw [spelled] at member
    cases member
  | cons first more =>
    rw [spelled] at word member
    simp only [Lexer.isWord, Bool.and_eq_true, Bool.not_eq_true', List.all_eq_true] at word
    obtain ⟨⟨⟨notBlank, _⟩, _⟩, continues⟩ := word
    rcases List.mem_cons.1 member with rfl | later
    · rw [notBlank] at blank
      cases blank
    · have goes := continues c later
      rw [Lexer.not_continuesName_of_isBlank blank] at goes
      cases goes

theorem ne_empty (named : IsName name) : name ≠ "" := by
  rintro rfl
  exact Bool.false_ne_true named.1

theorem trim_eq (named : IsName name) : Text.trim name = name := by
  have kept : ∀ text : List Char, (∀ c ∈ text, Text.isBlank c = false) →
      text.dropWhile Text.isBlank = text := by
    intro text solid
    cases text with
    | nil => rfl
    | cons c rest =>
      rw [List.dropWhile_cons, solid c (List.mem_cons_self ..), if_neg Bool.false_ne_true]
  unfold Text.trim
  rw [kept _ named.not_isBlank, kept _ fun c member =>
    named.not_isBlank c (List.mem_reverse.1 member), List.reverse_reverse, String.ofList_toList]

end IsName

theorem Compile.reservedNames_eq {names : List String} (named : ∀ name ∈ names, IsName name) :
    reservedNames names = names := by
  have trimmed : names.map Text.trim = names :=
    (List.map_congr_left fun name member => (named name member).trim_eq).trans (List.map_id _)
  unfold reservedNames
  rw [trimmed, List.filter_eq_self]
  intro name member
  exact decide_eq_true (named name member).ne_empty

namespace Instruction

mutual

/-- Whether an instruction is a tree of operators over given names and numbers. Between operands
stands any operator that has a text, except the two that stand before an operand only. -/
def IsOperatorTree (names : List String) : Instruction → Prop
  | .binary opcode left right =>
    (opcode.operatorText?.isSome ∧ opcode ≠ .not ∧ opcode ≠ .bitwiseNot) ∧
      left.IsOperatorTree names ∧ right.IsOperatorTree names
  | .unary opcode operand => opcode ∈ [.add, .sub, .not, .bitwiseNot] ∧ operand.IsOperatorTree names
  | .loadConstant (.integer n) => 0 ≤ n.toInt
  | .loadVariable name index => name ∈ names ∧ AllOperatorTrees names index
  | _ => False

def AllOperatorTrees (names : List String) : List Instruction → Prop
  | [] => True
  | first :: rest => first.IsOperatorTree names ∧ AllOperatorTrees names rest

end

def bitJoins : List Opcode := [.bitwiseAnd, .bitwiseOr]

mutual

/-- Whether `&` or `|` stands somewhere in an expression. -/
def joinsBits : Instruction → Bool
  | .binary opcode left right => opcode ∈ bitJoins || (left.joinsBits || right.joinsBits)
  | .unary _ operand => operand.joinsBits
  | .loadVariable _ index => anyJoinsBits index
  | _ => false

def anyJoinsBits : List Instruction → Bool
  | [] => false
  | first :: rest => first.joinsBits || anyJoinsBits rest

end

variable {names : List String}

/-- The levels of the grammar have the operators of trees except `&` and `|`. -/
theorem between?_isSome_iff {opcode : Opcode} (text : opcode.operatorText?.isSome)
    (notNot : opcode ≠ .not)
    (notFlip : opcode ≠ .bitwiseNot) : opcode.between?.isSome ↔ opcode ∉ bitJoins := by
  revert text notNot notFlip
  cases opcode <;> decide

theorem before?_isSome_of_mem {opcode : Opcode}
    (sign : opcode ∈ [Opcode.add, .sub, .not, .bitwiseNot]) : opcode.before?.isSome := by
  revert opcode
  decide

mutual

/-- A tree can be read where no bits are joined. -/
theorem isExpression_iff (named : ∀ name ∈ names, IsName name) (i : Instruction)
    (tree : i.IsOperatorTree names) : i.IsExpression ↔ i.joinsBits = false := by
  cases i with
  | binary opcode left right =>
    obtain ⟨⟨text, notNot, notFlip⟩, first, second⟩ := tree
    simp only [IsExpression, joinsBits, Bool.or_eq_false_iff, decide_eq_false_iff_not,
      between?_isSome_iff text notNot notFlip, isExpression_iff named left first,
      isExpression_iff named right second]
  | unary opcode operand =>
    obtain ⟨sign, inner⟩ := tree
    simp only [IsExpression, joinsBits, before?_isSome_of_mem sign, true_and,
      isExpression_iff named operand inner]
  | loadConstant value =>
    cases value with
    | integer n => exact iff_of_true tree rfl
    | _ => cases tree
  | loadVariable name index =>
    obtain ⟨listed, inner⟩ := tree
    simp only [IsExpression, joinsBits, named name listed, true_and,
      allExpressions_iff_joins named index inner]
  | _ => cases tree

theorem allExpressions_iff_joins (named : ∀ name ∈ names, IsName name) (is : List Instruction)
    (trees : AllOperatorTrees names is) : AllExpressions is ↔ anyJoinsBits is = false := by
  cases is with
  | nil => exact iff_of_true trivial rfl
  | cons first rest =>
    obtain ⟨here, others⟩ := trees
    simp only [AllExpressions, anyJoinsBits, Bool.or_eq_false_iff,
      isExpression_iff named first here, allExpressions_iff_joins named rest others]

end

mutual

theorem reads_of_tree {seen called : String → Bool} (sees : ∀ name ∈ names, seen name)
    (i : Instruction) (tree : i.IsOperatorTree names) : i.reads seen called := by
  cases i with
  | binary opcode left right =>
    rw [reads, reads_of_tree sees left tree.2.1, reads_of_tree sees right tree.2.2]
    rfl
  | unary opcode operand => exact reads_of_tree sees operand tree.2
  | loadConstant value => rfl
  | loadVariable name index =>
    rw [reads, sees name tree.1, readsAll_of_trees sees index tree.2]
    rfl
  | _ => cases tree

theorem readsAll_of_trees {seen called : String → Bool} (sees : ∀ name ∈ names, seen name)
    (is : List Instruction) (trees : AllOperatorTrees names is) : readsAll seen called is := by
  cases is with
  | nil => rfl
  | cons first rest =>
    rw [readsAll, reads_of_tree sees first trees.1, readsAll_of_trees sees rest trees.2]
    rfl

end

mutual

theorem exists_text_of_tree (i : Instruction) (tree : i.IsOperatorTree names) :
    ∃ text, i.expression = .ok text := by
  cases i with
  | binary opcode left right =>
    obtain ⟨⟨known, _⟩, first, second⟩ := tree
    obtain ⟨leftText, front⟩ := exists_text_of_tree left first
    obtain ⟨rightText, back⟩ := exists_text_of_tree right second
    obtain ⟨sign, spelled⟩ := Option.isSome_iff_exists.1 known
    refine ⟨operandText left leftText ++ " " ++ sign ++ " " ++ operandText right rightText, ?_⟩
    simp only [expression, front, back, operatorText, spelled]
    rfl
  | unary opcode operand =>
    obtain ⟨sign, inner⟩ := tree
    obtain ⟨text, printed⟩ := exists_text_of_tree operand inner
    have known : opcode.operatorText?.isSome := by
      revert opcode
      decide
    obtain ⟨word, spelled⟩ := Option.isSome_iff_exists.1 known
    refine ⟨word ++ (if opcode = .not then " " else "") ++ operandText operand text, ?_⟩
    simp only [expression, printed, operatorText, spelled]
    rfl
  | loadConstant value => exact ⟨value.text, rfl⟩
  | loadVariable name index =>
    obtain ⟨texts, printed⟩ := exists_texts_of_trees index tree.2
    refine ⟨name ++ String.join (texts.map fun text => "[" ++ text ++ "]"), ?_⟩
    simp only [expression, printed]
    rfl
  | _ => cases tree

theorem exists_texts_of_trees (is : List Instruction) (trees : AllOperatorTrees names is) :
    ∃ texts, expressions is = .ok texts := by
  cases is with
  | nil => exact ⟨[], rfl⟩
  | cons first rest =>
    obtain ⟨text, here⟩ := exists_text_of_tree first trees.1
    obtain ⟨texts, others⟩ := exists_texts_of_trees rest trees.2
    refine ⟨text :: texts, ?_⟩
    simp only [expressions, here, others]
    rfl

end

end Instruction

namespace Compile

variable {setting : Setting} {names : List String} {x : String} {tree : Instruction}

/-- The code of an assignment of a value to a variable where given names are declared. -/
def assigningCode (names : List String) (x : String) (value : Instruction) : List Instruction :=
  assignmentCode (!names.contains x) x none (.loadVariable x []) value false

theorem allStatements_assigningCode (target : IsName x) (value : Instruction) :
    AllStatements (assigningCode names x value) ↔ value.IsExpression := by
  unfold assigningCode assignmentCode
  rw [allStatements_append, allStatements_single]
  constructor
  · intro written
    exact written.2.2.2
  · intro written
    refine ⟨?_, rfl, ⟨target, trivial⟩, written⟩
    cases names.contains x with
    | false => exact ⟨target, trivial⟩
    | true => trivial

theorem exists_script_of_tree (written : tree.IsOperatorTree names) :
    ∃ text, programScript (assigningCode names x tree ++ [.finalHalt]) = .ok text := by
  obtain ⟨value, printed⟩ := exists_text_of_tree tree written
  have target : (loadVariable x []).expression = .ok (x ++ "") := rfl
  have lines : ∃ texts, bodyLines 0 (assigningCode names x tree) = .ok texts := by
    unfold assigningCode assignmentCode
    cases names.contains x <;>
      simp [bodyLines, statementLines, target, storedValue, printed, pure, Except.pure,
        bind, Except.bind]
  obtain ⟨texts, lines⟩ := lines
  refine ⟨String.join (texts.map (· ++ "\n")), ?_⟩
  rw [programScript, withoutFinalHalt_append, script, lines]
  rfl

/-- A store that stands in the code of a source stores an expression that can be written. -/
theorem isExpression_of_stored {text file : String} {reserved : List String}
    {code : List Instruction}
    {target value : Instruction} {append : Bool}
    (success : sourceText setting text file reserved = .ok code)
    (stored : .storeVariable target value append ∈ code) : value.IsExpression := by
  obtain ⟨source, body, after, read, compiles, rfl⟩ := Compiles.of_sourceText success
  have written : AllStatements body := compiles.writable (Program.lexed_ofSource read)
  have inside : .storeVariable target value append ∈ body := by
    simpa [finalHalt] using stored
  obtain ⟨front, back, rfl⟩ := List.append_of_mem inside
  exact (allStatements_append.1 written).2.1.2.2

/-- Statements that an assignment is printed as compile to it where the names are declared. -/
theorem compiles_assigningCode {start : Session} {s : Statement}
    (ready : Ready ScopeTree.root start)
    (spells : (Instruction.storeVariable (.loadVariable x []) tree false).Spells s)
    (plain : ∀ y, ¬ start.tree.Fixes ScopeTree.root y)
    (sees : ∀ y, start.tree.Sees ScopeTree.root y ↔ y ∈ names) (written : tree.IsOperatorTree names)
    (includeOne : Including) :
    ∃ after, statement includeOne ScopeTree.root s start =
      (.ok (assigningCode names x tree), after) := by
  obtain ⟨place, sign, stored, rfl, signed, shaped, placed, storedAs⟩ := spells
  have named : place.token.text = x := by
    obtain ⟨_, same⟩ := Expression.code?_target shaped placed
    injection same with same _
    exact same.symm
  have seen : start.tree.sees ScopeTree.root place.token.text = names.contains x := by
    rw [Bool.eq_iff_iff, List.contains_iff_mem, named]
    exact sees x
  have later : ∀ y, y ∈ names ∨ y = x →
      (start.tree.assigned ScopeTree.root place.token.text false stored).sees ScopeTree.root y := by
    intro y known
    refine (sees_assigned _ ready.inside _ _ _).2 ?_
    rw [named]
    exact known.imp_left (sees y).2
  have assigns : Assigns start ScopeTree.root place sign stored false false none
      (.loadVariable x []) tree := by
    refine ⟨?_, if_pos signed, nofun, placed, storedAs, ?_, ?_⟩
    · intro known found
      refine ⟨?_, rfl⟩
      rw [Bool.eq_false_iff]
      exact fun fixed => plain _ (ScopeTree.fixes_of_findVariable found fixed)
    · rw [reads, later x (.inr rfl)]
      rfl
    · exact reads_of_tree (fun y listed => later y (.inl listed)) tree written
  refine ⟨_, assignment_ok.2 ⟨none, _, _, assigns, rfl, ?_⟩⟩
  rw [seen, named]
  rfl

/-- The script of an assignment of an operator tree over declared names compiles to that assignment
exactly where the tree joins no bits. A tree that does is stored by the code of no source. -/
theorem operatorTree_reads_back (setting : Setting) (names : List String) (x : String)
    (tree : Instruction) (named : ∀ name ∈ names, IsName name) (target : IsName x)
    (written : tree.IsOperatorTree names) (file : String) :
    ∃ text, programScript (assigningCode names x tree ++ [.finalHalt]) = .ok text ∧
      (sourceText setting text file names = .ok (assigningCode names x tree ++ [.finalHalt]) ↔
        tree.joinsBits = false) ∧
      (tree.joinsBits = true → ∀ setting source file reserved code,
        sourceText setting source file reserved = .ok code →
          .storeVariable (.loadVariable x []) tree false ∉ code) := by
  have unread : tree.joinsBits = true → ∀ setting source file reserved code,
      sourceText setting source file reserved = .ok code →
        .storeVariable (.loadVariable x []) tree false ∉ code := by
    intro joins setting source file reserved code success stored
    have plain := (isExpression_iff named tree written).1 (isExpression_of_stored success stored)
    rw [joins] at plain
    cases plain
  obtain ⟨text, printed⟩ := exists_script_of_tree (x := x) written
  refine ⟨text, printed, ⟨?_, ?_⟩, unread⟩
  · intro success
    rw [Bool.eq_false_iff]
    intro joins
    refine unread joins setting text file names _ success ?_
    simp [assigningCode, assignmentCode, storedValue]
  · intro plain
    have areStatements : AllStatements (assigningCode names x tree) :=
      (allStatements_assigningCode target tree).2 ((isExpression_iff named tree written).2 plain)
    obtain ⟨_, printed', reads⟩ := programScript_reads areStatements
    obtain rfl := Except.ok.inj (printed.symm.trans printed')
    obtain ⟨statements, read, spelled⟩ := Program.ofSource_reads areStatements reads file
    obtain ⟨s, rfl, spells⟩ := allSpell_assignmentCode spelled
    have sees : ∀ y, (Session.begin names file).tree.Sees ScopeTree.root y ↔ y ∈ names := by
      intro y
      refine (sees_reservedTree names y).trans ?_
      rw [reservedNames_eq named]
    obtain ⟨after, done⟩ := compiles_assigningCode (ready_begin names file) spells
      (not_fixes_begin names file) sees written (library setting setting.depth)
    refine sourceText_ok.2 ⟨_, assigningCode names x tree, after, read, ?_, rfl⟩
    simp only [statements, Step.bind_ok, Step.pure_ok]
    exact ⟨_, _, done, [], _, ⟨rfl, rfl⟩, (List.append_nil _).symm, rfl⟩

/-- `(a - 1) * (not b)` is read back. -/
theorem operatorTree_reads_back_signs :
    ∃ text, programScript
        [.newVariable "x", .storeVariable (.loadVariable "x" []) (.binary .mul
          (.binary .sub (.loadVariable "a" []) (.loadConstant (.integer 1)))
          (.unary .not (.loadVariable "b" []))) false, .finalHalt] = .ok text ∧
      sourceText ⟨.empty, []⟩ text "main.mcl" ["a", "b"] = .ok
        [.newVariable "x", .storeVariable (.loadVariable "x" []) (.binary .mul
          (.binary .sub (.loadVariable "a" []) (.loadConstant (.integer 1)))
          (.unary .not (.loadVariable "b" []))) false, .finalHalt] := by
  have named : ∀ name ∈ ["a", "b"], IsName name := by
    simp only [List.forall_mem_cons, List.not_mem_nil, false_implies, implies_true,
      and_true, IsName]
    decide +kernel
  obtain ⟨text, printed, compiles, _⟩ := operatorTree_reads_back ⟨.empty, []⟩ ["a", "b"] "x"
    (.binary .mul (.binary .sub (.loadVariable "a" []) (.loadConstant (.integer 1)))
      (.unary .not (.loadVariable "b" []))) named (by unfold IsName; decide +kernel)
    (by simp [IsOperatorTree, AllOperatorTrees, Opcode.operatorText?]) "main.mcl"
  exact ⟨text, printed, compiles.2 rfl⟩

/-- `x = a & b;` is not read, although `&` is how the operation is printed. -/
example : programScript [.storeVariable (.loadVariable "x" [])
      (.binary .bitwiseAnd (.loadVariable "a" []) (.loadVariable "b" [])) false] =
      .ok "x = a & b;\n" ∧
    sourceText ⟨.empty, []⟩ "x = a & b;\n" "main.mcl" ["a", "b"] =
      .error (.unexpected ⟨"main.mcl", 1, 7⟩ .bitwiseAnd "&" (.mark ";")) := by
  constructor <;> cbv

end Compile

end Treecode
