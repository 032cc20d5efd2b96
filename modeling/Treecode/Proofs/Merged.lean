import Mathlib
import Treecode.Proofs.Blocks

set_option autoImplicit false

namespace Treecode.Compile

open ScopeTree

variable {setting : Setting} {depth scope mark : Nat}

/-- One more variable counts for its name if none of the name did so far. -/
theorem filter_gather_one {x : String} {declared : List Variable} {known : Option Variable}
    (v : Variable) (single : declared.filter (·.name == x) = known.toList) :
    (if declared.any (·.name == v.name) then declared else declared ++ [v]).filter (·.name == x) =
      (known.or (if v.name == x then some v else none)).toList := by
  by_cases named : v.name == x
  · obtain rfl := eq_of_beq named
    rw [if_pos named]
    cases known with
    | none =>
      have unknown : declared.any (·.name == v.name) = false := by
        rw [← Bool.not_eq_true, List.any_eq_true]
        intro found
        obtain ⟨w, member, same⟩ := found
        have listed : w ∈ declared.filter (·.name == v.name) := List.mem_filter.2 ⟨member, same⟩
        rw [single] at listed
        cases listed
      rw [unknown, if_neg Bool.false_ne_true, List.filter_append, single, List.filter_cons, named]
      rfl
    | some w =>
      have member : w ∈ declared.filter (·.name == v.name) := by
        rw [single]
        exact List.mem_singleton.2 rfl
      have found : declared.any (·.name == v.name) = true :=
        List.any_eq_true.2 ⟨w, List.mem_filter.1 member⟩
      rw [found, if_pos rfl, single]
      rfl
  · rw [if_neg named, Option.or_none, ← single]
    split
    · rfl
    · rw [List.filter_append, List.filter_cons, if_neg named, List.filter_nil, List.append_nil]

/-- Gathering adds a variable for a name that was not declared before: the first one of that
name. -/
theorem filter_gather {x : String} {declared taken : List Variable} {known : Option Variable}
    (single : declared.filter (·.name == x) = known.toList) :
    (gather declared taken).filter
    (·.name == x) = (known.or (taken.find? (·.name == x))).toList := by
  induction taken generalizing declared known with
  | nil => rw [List.find?_nil, Option.or_none, ← single, gather, List.foldl_nil]
  | cons v rest ih =>
    have step : gather declared (v :: rest) =
        gather (if declared.any (·.name == v.name) then declared else declared ++ [v]) rest := rfl
    rw [step, ih (filter_gather_one v single), Option.or_assoc, List.find?_cons]
    cases v.name == x <;> rfl

/-- A constant of a later block is not gathered. -/
example : gather [.fresh "x" root] [{ Variable.fresh "x" root with constant := true }] =
    [.fresh "x" root] := rfl

/-- The variable that a block declares for a name, as the block leaves it. -/
def Session.declared? (ended : Session) (scope mark : Nat) (x : String) : Option Variable :=
  (ended.tree.variablesSince scope mark).find? (·.name == x)

/-- Of each name the variable of the first block that declares it is gathered. -/
theorem filter_gatherEnds {x : String} {declared : List Variable} {known : Option Variable}
    (ends : List Session) (single : declared.filter (·.name == x) = known.toList) :
    (gatherEnds scope mark declared ends).filter (·.name == x) =
      (known.or (ends.findSome? (·.declared? scope mark x))).toList := by
  induction ends generalizing declared known with
  | nil => rw [List.findSome?_nil, Option.or_none, ← single, gatherEnds, List.foldl_nil]
  | cons ended rest ih =>
    have step : gatherEnds scope mark declared (ended :: rest) =
        gatherEnds scope mark (gather declared (ended.tree.variablesSince scope mark)) rest := rfl
    rw [step, ih (filter_gather single), Option.or_assoc, List.findSome?_cons, Session.declared?]
    cases (ended.tree.variablesSince scope mark).find? (·.name == x) <;> rfl

/-- Variables that are listed when a scope lists so many are all that it lists since then. -/
theorem declared_addVariables {tree : ScopeTree} (inside : scope < tree.size)
    (since : mark = tree.variableCount scope) (more : List Variable) :
    ((tree.addVariables scope more).get scope).declared.take mark = (tree.get scope).declared ∧
      (tree.addVariables scope more).variablesSince scope mark = more := by
  have listed : ((tree.addVariables scope more).get scope).declared =
      (tree.get scope).declared ++ more := by
    unfold ScopeTree.addVariables
    rw [get_modify_self _ inside]
  subst since
  unfold ScopeTree.variablesSince ScopeTree.variableCount
  rw [listed]
  exact ⟨List.take_left, List.drop_left⟩

/-- When an `if` or a `switch` that a compilation arrives at has compiled, its scope lists the
variables from before it, changed in nothing but their known keys, and behind them one variable for
each name that a block declares. It is the variable of the first block that declares the name, as
that block left it: constant if that block declares a constant, and with the keys known in that
block. -/
theorem merged_from_first {text file : String} {reserved : List String} {branching : Statement}
    {start after : Session} {code : List Instruction}
    (reaches : Reaches setting text file reserved ⟨depth, scope, .statement branching, start⟩)
    (splits : branching.isBranching)
    (done : statement (library setting depth) scope branching start = (.ok code, after)) :
    ∃ ends last,
      InTurn setting depth scope (start.tree.variableCount scope) branching.blocks start ends last ∧
      ((after.tree.get scope).declared.take (start.tree.variableCount scope)).map
          Variable.withoutKeys =
        (start.tree.get scope).declared.map Variable.withoutKeys ∧
      ∀ x, (after.tree.variablesSince scope (start.tree.variableCount scope)).filter (·.name == x) =
        (ends.findSome? (·.declared? scope (start.tree.variableCount scope) x)).toList := by
  have ready : Ready scope start := reaches.ready
  have compiles := compiles_statement
    (derives_library setting depth) branching reaches.regular ready done
  obtain ⟨ends, last, turn, rfl⟩ := inTurn_branching compiles splits
  obtain ⟨frame, names⟩ := turn.frame (regular_blocks reaches.regular) ready rfl
  have since : start.tree.variableCount scope = last.tree.variableCount scope := by
    rw [variableCount_eq, variableCount_eq, names]
  obtain ⟨front, back⟩ := declared_addVariables (frame.inside ready.inside) since
    (gatherEnds scope (start.tree.variableCount scope) [] ends)
  refine ⟨ends, last, turn, ?_, ?_⟩
  · rw [Session.withTree, front]
    refine (frame.growth.own.declared.eq_of_length ?_).symm
    rw [List.length_map, List.length_map]
    exact since
  · intro x
    rw [Session.withTree, back]
    have nothing : ([] : List Variable).filter (·.name == x) = (none : Option Variable).toList :=
      rfl
    exact filter_gatherEnds ends nothing

/-- Two blocks of which the second one declares a constant. -/
def constantLast : Statement :=
  .ifElse ⟨.ifStatement, some "if", ⟨1, 1, 0⟩⟩ (.plain ⟨.identifier, some "c", ⟨1, 4, 3⟩⟩)
    (.mk ⟨.leftBrace, some "\x7b", ⟨1, 6, 5⟩⟩
      [.assign (.plain ⟨.identifier, some "x", ⟨1, 7, 6⟩⟩)
        ⟨.operatorAssignment, some "=", ⟨1, 8, 7⟩⟩
        (.literal ⟨.integer, some "1", ⟨1, 9, 8⟩⟩ (.integer 1)) false false])
    []
    (some (.mk ⟨.elseStatement, some "else", ⟨1, 13, 12⟩⟩
      (.mk ⟨.leftBrace, some "\x7b", ⟨1, 18, 17⟩⟩
        [.assign (.plain ⟨.identifier, some "x", ⟨1, 25, 24⟩⟩)
          ⟨.operatorAssignment, some "=", ⟨1, 26, 25⟩⟩
          (.literal ⟨.integer, some "2", ⟨1, 27, 26⟩⟩ (.integer 2)) false true])))

/-- A name that one block declares as a variable and another one as a constant. -/
theorem merged_from_first_else :
    ∃ branching code after ends last,
      statement (library ⟨.empty, []⟩ 2) root branching (Session.begin ["c"] "main.mcl") =
        (.ok code, after) ∧
      InTurn ⟨.empty, []⟩ 2 root 1 branching.blocks (Session.begin ["c"] "main.mcl") ends last ∧
      ∀ x, (after.tree.variablesSince root 1).filter (·.name == x) =
        (ends.findSome? (·.declared? root 1 x)).toList := by
  have read : Program.ofSource "if c \x7bx=1;\x7d else \x7bconst x=2;\x7d" "main.mcl" =
      .ok ⟨"main.mcl", [constantLast]⟩ := by cbv
  have done : statement (library ⟨.empty, []⟩ 2) root constantLast
    (Session.begin ["c"] "main.mcl") = (.ok [.ifElse (.loadVariable "c" [])
        [.newVariable "x", .storeVariable (.loadVariable "x" []) (.loadConstant (.integer 1)) false]
          []
        [.newVariable "x", .storeVariable (.loadVariable "x" [])
            (.loadConstant (.integer 2)) false]], _) :=
    Prod.ext (by cbv) rfl
  obtain ⟨ends, last, turn, _, listed⟩ := merged_from_first ⟨_, read, .single .first⟩ rfl done
  exact ⟨_, _, _, ends, last, done, turn, listed⟩

end Treecode.Compile
