import Mathlib
import Treecode.Proofs.Blocks
import Treecode.Proofs.Nearest

set_option autoImplicit false

namespace Treecode

/-- Whether two labels stand for the same case: equal values, or an integer and the double nearest
to it. -/
def Value.Collides : Value → Value → Prop
  | .integer n, .float x | .float x, .integer n => x.Nearest n.toInt
  | v, w => v.equals w = true

theorem Value.sameLabel_iff (v w : Value) : v.sameLabel w = true ↔ v.Collides w := by
  have room : ∀ n : Int64, n.toInt.natAbs ≤ 2 ^ 63 := by
    intro n
    have low := n.le_toInt
    have high := n.toInt_lt
    omega
  cases v with
  | integer n =>
    cases w with
    | float x => exact Double.equals_ofInt_iff (room n) x
    | _ => exact Iff.rfl
  | float x =>
    cases w with
    | integer n => exact Double.equals_ofInt_iff (room n) x
    | _ => exact Iff.rfl
  | _ => exact Iff.rfl

/-- The odd number above 2 ^ 53 is not a double, and its nearest double is 2 ^ 53. -/
example : Value.sameLabel (.integer 9007199254740993) (.float (Double.ofInt 9007199254740992)) =
    true := by
  decide +kernel

namespace Clause

def word : Clause → Token
  | .mk word _ _ => word

def guard : Clause → Expression
  | .mk _ guard _ => guard

/-- The label of a case, if it has a literal. -/
def label? : Clause → Option Value
  | .mk _ (.literal _ label) _ => some label
  | _ => none

def labels (cases : List Clause) : List Value := cases.filterMap label?

def Apart (labels : List Value) : Prop := labels.Pairwise fun v w => ¬ v.Collides w

theorem labels_concat {clause : Clause} {label : Value} (front : List Clause)
    (found : clause.label? = some label) :
    labels (front ++ [clause]) = labels front ++ [label] := by
  unfold labels
  rw [List.filterMap_append, List.filterMap_cons_some found, List.filterMap_nil]

theorem append_labels (known : List Value) (cases : List Clause) (word token : Token)
    (label : Value) (body : Block) :
    known ++ labels (.mk word (.literal token label) body :: cases) = known ++ [label] ++
      labels cases :=
  List.append_cons known label (labels cases)

theorem apart_concat {known : List Value} {label : Value} :
    Apart (known ++ [label]) ↔ Apart known ∧ ∀ other ∈ known, ¬ other.Collides label := by
  unfold Apart
  rw [List.pairwise_append]
  simp only [List.pairwise_singleton, List.mem_singleton, forall_eq, true_and]

/-- Cases with labels, no two of which collide. -/
structure Distinct (cases : List Clause) : Prop where
  labelled : ∀ clause ∈ cases, clause.label?.isSome
  apart : Apart (labels cases)

/-- What is objected to a case behind others, and at which token. -/
inductive Objects (front : List Clause) (clause : Clause) : Token → Objection → Prop
  | unlabelled (missing : clause.label? = none) :
      Objects front clause clause.guard.token .caseNotConstant
  | repeated {label other} (found : clause.label? = some label) (earlier : other ∈ labels front)
      (collides : other.Collides label) : Objects front clause clause.word (.duplicateCase label)

/-- The first case that is objected to: those before it are distinct. -/
structure FirstObjected (cases front : List Clause) (token : Token) (objection : Objection) :
    Prop where
  distinct : Distinct front
  objected : ∃ clause back, cases = front ++ clause :: back ∧ Objects front clause token objection

theorem exists_firstObjected {cases : List Clause} (together : ¬ Distinct cases) :
    ∃ front token objection, FirstObjected cases front token objection := by
  induction cases using List.reverseRecOn with
  | nil =>
    exact absurd ⟨fun clause member => absurd member List.not_mem_nil, List.Pairwise.nil⟩ together
  | append_singleton front clause ih =>
    by_cases distinct : Distinct front
    · cases found : clause.label? with
      | none => exact ⟨front, _, _, distinct, clause, [], rfl, .unlabelled found⟩
      | some label =>
        obtain ⟨other, earlier, collides⟩ : ∃ other ∈ labels front, other.Collides label := by
          by_contra fresh
          refine together ⟨fun c member => ?_, ?_⟩
          · rcases List.mem_append.1 member with inside | last
            · exact distinct.labelled c inside
            · rw [List.mem_singleton.1 last, found]
              rfl
          · rw [labels_concat front found, apart_concat]
            exact ⟨distinct.apart, fun other member collides => fresh ⟨other, member, collides⟩⟩
        exact ⟨front, _, _, distinct, clause, [], rfl, .repeated found earlier collides⟩
    · obtain ⟨before, token, objection, shorter, first, back, rfl, objects⟩ := ih distinct
      exact ⟨before, token, objection, shorter, first, back ++ [clause], by simp, objects⟩

theorem FirstObjected.repeats {cases front : List Clause} {token : Token} {objection : Objection}
    (first : FirstObjected cases front token objection)
    (labelled : ∀ clause ∈ cases, clause.label?.isSome) :
    ∃ label, objection = .duplicateCase label := by
  obtain ⟨clause, back, rfl, objects⟩ := first.objected
  cases objects with
  | unlabelled missing =>
    have found := labelled clause (List.mem_append_right _ (List.mem_cons_self ..))
    rw [missing] at found
    cases found
  | repeated => exact ⟨_, rfl⟩

end Clause

namespace Compile

open Step ScopeTree Clause

variable {setting : Setting} {depth scope mark : Nat}

theorem any_sameLabel_eq_false {known : List Value} {label : Value} :
    known.any (·.sameLabel label) = false ↔ ∀ other ∈ known, ¬ other.Collides label := by
  rw [List.any_eq_false]
  exact forall₂_congr fun other _ => not_congr (Value.sameLabel_iff other label)

section Cases

variable {known : List Value} {front : List Clause} {start last : Session}

theorem InTurn.compiles_cases {spelling : Spelling} {ends : List Session}
    (turn : InTurn setting depth scope mark (front.map Clause.body) start ends last)
    (labelled : ∀ clause ∈ front, clause.label?.isSome) (apart : Apart (known ++ labels front))
    (regular : Clause.AllRegular spelling front) (ready : Ready scope start)
    (since : mark = start.tree.variableCount scope) (declared : List Variable) :
    ∃ code gathered, Compiles setting depth scope (.cases mark declared known front code gathered)
      start last := by
  induction front generalizing known start ends declared with
  | nil =>
    cases turn
    exact ⟨[], declared, .noCase ready since⟩
  | cons clause rest ih =>
    obtain ⟨label, found⟩ := Option.isSome_iff_exists.1 (labelled clause (List.mem_cons_self ..))
    obtain ⟨word, guard, brace, body⟩ := clause
    cases guard with
    | literal token value =>
      cases found
      cases turn with
      | cons compiled others =>
        rw [append_labels] at apart
        have fresh := (apart_concat.1 (List.pairwise_append.1 apart).1).2
        have block : Compiles setting depth scope (.branch mark declared body _ _) start _ :=
          .branch ready since (.of_statements regular.1.2 ready compiled)
        obtain ⟨code, gathered, more⟩ := ih others
          (fun other member => labelled other (List.mem_cons_of_mem _ member)) apart regular.2
          block.ready_after (block.since_after rfl since) _
        exact ⟨_, gathered, .moreCases ready since (any_sameLabel_eq_false.2 fresh) block more⟩
    | _ => cases found

/-- Compiling cases comes to the rest of them when those in front have compiled. -/
theorem arrives_cases {declared gathered : List Variable} {code : List (Value × List Instruction)}
    (compiles : Compiles setting depth scope
      (.cases mark declared known front code gathered) start last)
    (rest : List Clause) :
    Arrives setting ⟨depth, scope, .cases mark declared known (front ++ rest), start⟩
      ⟨depth, scope, .cases mark gathered (known ++ labels front) rest, last⟩ := by
  induction front generalizing known start declared code with
  | nil =>
    cases compiles
    rw [labels, List.filterMap_nil, List.append_nil]
    exact .refl
  | cons clause others ih =>
    cases compiles with
    | moreCases _ _ apart first more =>
      rw [append_labels]
      exact .head (.moreCases apart first) (ih more)

theorem fails_objected {declared : List Variable} {clause : Clause} {back : List Clause}
    {token : Token} {objection : Objection} (objects : Objects front clause token objection) :
    Fails setting (.rejected (start.place token) objection)
      ⟨depth, scope, .cases mark declared (labels front) (clause :: back), start⟩ := by
  obtain ⟨word, guard, body⟩ := clause
  simp only [Fails]
  cases objects with
  | unlabelled missing =>
    rw [caseClauses]
    · rfl
    · intro token label shape
      rw [shape] at missing
      cases missing
  | @repeated label other found earlier collides =>
    cases guard with
    | literal token value =>
      cases found
      have clash : (labels front).any (·.sameLabel label) = true :=
        List.any_eq_true.2 ⟨other, earlier, (Value.sameLabel_iff other label).2 collides⟩
      unfold caseClauses
      dsimp only
      rw [if_pos clash]
      rfl
    | _ => cases found

end Cases

section Switch

/-- Behind a step that succeeds, a sequence fails as what follows does. -/
theorem bind_error_iff_next {α β : Type} {step : Step α} {next : α → Step β}
    {start middle : Session} {a : α} {error : Error} (done : step start = (.ok a, middle)) :
    ((step >>= next) start).1 = .error error ↔ (next a middle).1 = .error error := by
  rw [bind_apply, done]

/-- Before steps that cannot fail, a sequence fails as its first step does. -/
theorem bind_error_iff_first {α β : Type} {step : Step α} {next : α → Step β} {start : Session}
    {error : Error} (total : ∀ a middle, ∃ b, (next a middle).1 = .ok b) :
    ((step >>= next) start).1 = .error error ↔ (step start).1 = .error error := by
  refine ⟨fun failed => ?_, bind_error_of_first⟩
  rw [bind_apply] at failed
  split at failed
  · rename_i a middle done
    obtain ⟨b, ends⟩ := total a middle
    rw [ends] at failed
    cases failed
  · rename_i other middle done
    rw [done]
    cases failed
    rfl

variable {word : Token} {head : Expression} {headCode : Instruction} {cases : List Clause}
  {default : Option LastClause} {start last : Session} {ends : List Session}

theorem lastClause_error_iff {declared : List Variable} {error : Error} :
    (lastClause (library setting depth) scope mark declared default start).1 = .error error ↔
      ∃ source ∈ LastClause.bodies default,
        (statements (library setting depth) scope source start).1 = .error error := by
  cases default with
  | none =>
    rw [lastClause]
    simp [LastClause.bodies, pure_apply]
  | some clause =>
    obtain ⟨word, brace, body⟩ := clause
    rw [lastClause, block_eq]
    unfold branch
    rw [bind_error_iff_first fun _ _ => ⟨_, rfl⟩]
    simp [LastClause.bodies, LastClause.body]

/-- A `switch` whose cases compile fails as its default block fails. -/
theorem switch_error_iff {caseCode : List (Value × List Instruction)} {declared : List Variable}
    (evaluates : Evaluates start scope head headCode)
    (compiles : Compiles setting depth scope
      (.cases (start.tree.variableCount scope) [] [] cases caseCode declared) start last)
      {error : Error} :
    (statement (library setting depth) scope (.switch word head cases default) start).1 =
    .error error ↔
      ∃ source ∈ LastClause.bodies default,
        (statements (library setting depth) scope source last).1 = .error error := by
  unfold statement
  rw [bind_error_iff_next evaluates.runs, bind_error_iff_next (tree_ok.2 ⟨rfl, rfl⟩),
    bind_error_iff_next compiles.runs, bind_error_iff_first fun _ _ => ⟨_, rfl⟩]
  exact lastClause_error_iff

/-- A `switch` that a compilation arrives at, whose head and case blocks compile. With distinct
labels it fails as its default block fails. Otherwise the source is rejected at the first case that
repeats an earlier label, or that has none. An integer and a float repeat each other if the float is
the double nearest to the integer: so they do if they are the same number, and up to 2 ^ 53 only
then. -/
theorem switch_rejects_repeated {text file : String} {reserved : List String}
    (reaches : Reaches setting text file reserved
      ⟨depth, scope, .statement (.switch word head cases default), start⟩)
    (evaluates : Evaluates start scope head headCode)
    (turn : InTurn setting depth scope (start.tree.variableCount scope)
      (cases.map Clause.body) start ends last) :
    (Distinct cases → ∀ error,
      (statement (library setting depth) scope (.switch word head cases default) start).1 =
          .error error ↔
        ∃ source ∈ LastClause.bodies default,
          (statements (library setting depth) scope source last).1 = .error error) ∧
    (¬ Distinct cases → ∃ front token objection, FirstObjected cases front token objection ∧
      sourceText setting text file reserved = .error (.rejected (start.place token) objection) ∧
      ((∀ clause ∈ cases, clause.label?.isSome) → ∃ label, objection = .duplicateCase label)) ∧
    ∀ (n : Int64) (x : Double),
      (x.isFinite ∧ x.number = n.toInt → (Value.integer n).Collides (.float x)) ∧
      (n.toInt.natAbs ≤ 2 ^ 53 →
        ((Value.integer n).Collides (.float x) ↔ x.isFinite ∧ x.number = n.toInt)) := by
  have ready : Ready scope start := reaches.ready
  have regular : Clause.AllRegular .any cases := reaches.regular.2.2.1
  refine ⟨?_, ?_, ?_⟩
  · intro distinct error
    have apart : Apart ([] ++ labels cases) := distinct.apart
    obtain ⟨code, gathered, compiles⟩ :=
      turn.compiles_cases distinct.labelled apart regular ready rfl []
    exact switch_error_iff evaluates compiles
  · intro together
    obtain ⟨front, token, objection, first⟩ := exists_firstObjected together
    obtain ⟨clause, back, rfl, objects⟩ := first.objected
    have apart : Apart ([] ++ labels front) := first.distinct.apart
    have regular' : Clause.AllRegular .any front := Clause.allRegular_iff.2 fun clause member =>
      Clause.allRegular_iff.1 regular clause (List.mem_append_left _ member)
    rw [List.map_append] at turn
    obtain ⟨before, middle, turn⟩ := turn.front
    obtain ⟨code, gathered, compiles⟩ :=
      turn.compiles_cases first.distinct.labelled apart regular' ready rfl []
    have there := (arrives_cases compiles (clause :: back)).fails (fails_objected objects)
    rw [Session.place, compiles.frame.file] at there
    exact ⟨front, token, objection, first,
      reaches.sourceText_error ((Comes.caseBlocks evaluates).fails there), first.repeats⟩
  · intro n x
    exact ⟨fun same => .of_eq same.1 same.2, fun small => Double.nearest_iff_number_eq small x⟩

/-- An integer label and the float label of the same number. -/
theorem switch_rejects_repeated_number :
    ∃ cases front token label,
      cases.map label? = [some (.integer 1), some (.float ⟨0x3FF0000000000000⟩)] ∧
      FirstObjected cases front token (.duplicateCase label) ∧
      sourceText ⟨.empty, []⟩ "switch v\x7bcase 1:\x7b\x7dcase 1.0:\x7b\x7d\x7d" "main.mcl" ["v"] =
        .error (.rejected ((Session.begin ["v"] "main.mcl").place token)
          (.duplicateCase label)) := by
  have read : Program.ofSource "switch v\x7bcase 1:\x7b\x7dcase 1.0:\x7b\x7d\x7d" "main.mcl" =
    .ok ⟨"main.mcl",
      [.switch ⟨.switchStatement, some "switch", ⟨1, 1, 0⟩⟩
        (.plain ⟨.identifier, some "v", ⟨1, 8, 7⟩⟩)
        [.mk ⟨.caseStatement, some "case", ⟨1, 10, 9⟩⟩
          (.literal ⟨.integer, some "1", ⟨1, 15, 14⟩⟩ (.integer 1))
            (.mk ⟨.newRecord, some "\x7b\x7d", ⟨1, 17, 16⟩⟩ []),
          .mk ⟨.caseStatement, some "case", ⟨1, 19, 18⟩⟩
            (.literal ⟨.float, some "1.0", ⟨1, 24, 23⟩⟩ (.float ⟨0x3FF0000000000000⟩))
            (.mk ⟨.newRecord, some "\x7b\x7d", ⟨1, 28, 27⟩⟩ [])] none]⟩ := by cbv
  have evaluates : Evaluates (Session.begin ["v"] "main.mcl") root
    (.plain ⟨.identifier, some "v", ⟨1, 8, 7⟩⟩) (.loadVariable "v" []) := ⟨rfl, by cbv⟩
  have collides : (Value.integer 1).Collides (.float ⟨0x3FF0000000000000⟩) :=
    (Value.sameLabel_iff _ _).1 (by decide +kernel)
  have empty : ∀ start, statements (library ⟨.empty, []⟩ 2) root [] start = (.ok [], start) := by
    intro start
    rw [statements]
    rfl
  obtain ⟨_, repeats, _⟩ := switch_rejects_repeated ⟨_, read, .single .first⟩ evaluates
    (.cons (empty _) (.cons (empty _) .nil))
  obtain ⟨front, token, objection, objected, rejected, duplicate⟩ := repeats fun distinct =>
    (List.pairwise_cons.1 distinct.apart).1 _ (List.mem_singleton.2 rfl) collides
  obtain ⟨label, rfl⟩ := duplicate (by simp [label?])
  exact ⟨_, front, token, label, rfl, objected, rejected⟩

end Switch

end Compile

end Treecode
