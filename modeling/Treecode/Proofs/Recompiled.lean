import Treecode.Proofs.Cycles
import Treecode.Proofs.Declared
import Treecode.Proofs.Scoping
import Treecode.Proofs.StatementWords

set_option autoImplicit false

namespace Treecode

open Instruction

/-- Source that declares no constant and includes nothing. -/
structure Free (names : List (String × Bool)) (libraries : List Token) : Prop where
  assigned : ∀ entry ∈ names, entry.2 = false
  included : libraries = []

theorem Free.nil : Free [] [] := ⟨fun _ member => (List.not_mem_nil member).elim, rfl⟩

theorem Free.append {first last : List (String × Bool)} {front back : List Token}
    (free : Free first front) (free' : Free last back) : Free (first ++ last) (front ++ back) := by
  refine ⟨?_, ?_⟩
  · intro entry member
    exact (List.mem_append.1 member).elim (free.assigned entry) (free'.assigned entry)
  · rw [free.included, free'.included]
    rfl

theorem Free.simple {i : Instruction} {s : Statement}
    (translated : Compile.simpleCode? s = some i) : Free s.assigned s.included := by
  cases s with
  | breakLoop | continueLoop | returnValue | halt | print | call => exact .nil
  | _ => cases translated

theorem Free.last {code : List Instruction} {clause : Option LastClause}
    (spells : Statement.LastSpells code clause)
    (free : ∀ list, AllSpell code list →
      Free (Statement.allAssigned list) (Statement.allIncluded list)) :
    Free (LastClause.optionAssigned clause) (LastClause.optionIncluded clause) := by
  unfold Statement.LastSpells at spells
  split at spells
  · rw [spells]
    exact .nil
  · obtain ⟨_, _, _, rfl, all⟩ := spells
    exact free _ all

mutual

theorem free_of_spells (i : Instruction) {s : Statement} (spells : i.Spells s) :
    Free s.assigned s.included := by
  cases i with
  | storeVariable target value append =>
    obtain ⟨place, sign, stored, rfl, _⟩ := spells
    exact ⟨fun entry member => by rw [List.mem_singleton.1 member], rfl⟩
  | ifElse condition body elifs otherwise =>
    obtain ⟨word, guard, brace, inner, further, last, rfl, _, first, between, final⟩ := spells
    have lastFree := Free.last final fun _ => free_of_allSpell otherwise
    exact ((free_of_allSpell body first).append (free_of_elifs elifs between)).append lastFree
  | whileLoop condition body =>
    obtain ⟨word, guard, brace, inner, rfl, _, all⟩ := spells
    exact free_of_allSpell body all
  | foreach iterable body =>
    obtain ⟨word, guard, brace, inner, rfl, _, all⟩ := spells
    exact free_of_allSpell body all
  | switch head cases default =>
    obtain ⟨word, guard, clauses, last, rfl, _, first, final⟩ := spells
    have lastFree := Free.last final fun _ => free_of_allSpell default
    exact (free_of_cases cases first).append lastFree
  | define name params body =>
    obtain ⟨token, list, result, brace, inner, rfl, _, _, all⟩ := spells
    exact free_of_allSpell body all
  | defineExternal name params module function =>
    obtain ⟨token, list, result, rfl, _⟩ := spells
    exact .nil
  | select fields source filter distinct merge target =>
    obtain ⟨word, list, origin, condition, place, rfl, _⟩ := spells
    exact .nil
  | _ => exact .simple spells

theorem free_of_allSpell (code : List Instruction) {list : List Statement}
    (all : AllSpell code list) :
    Free (Statement.allAssigned list) (Statement.allIncluded list) := by
  cases code with
  | nil =>
    have nothing : list = [] := all
    rw [nothing]
    exact .nil
  | cons first rest =>
    unfold AllSpell at all
    split at all
    · exact free_of_allSpell rest all
    · obtain ⟨s, others, rfl, spells, more⟩ := all
      exact (free_of_spells first spells).append (free_of_allSpell rest more)

theorem free_of_elifs (elifs : List (Instruction × List Instruction)) {list : List Clause}
    (all : ElifsSpell elifs list) : Free (Clause.allAssigned list) (Clause.allIncluded list) := by
  match elifs with
  | [] =>
    have nothing : list = [] := all
    rw [nothing]
    exact .nil
  | (condition, body) :: rest =>
    obtain ⟨word, guard, brace, inner, others, rfl, _, spells, more⟩ := all
    exact (free_of_allSpell body spells).append (free_of_elifs rest more)

theorem free_of_cases (cases : List (Value × List Instruction)) {list : List Clause}
    (all : CasesSpell cases list) : Free (Clause.allAssigned list) (Clause.allIncluded list) := by
  match cases with
  | [] =>
    have nothing : list = [] := all
    rw [nothing]
    exact .nil
  | (label, body) :: rest =>
    obtain ⟨word, token, brace, inner, others, rfl, spells, more⟩ := all
    exact (free_of_allSpell body spells).append (free_of_cases rest more)

end

/-- Code of two pieces is written as their statements one after the other. -/
theorem Instruction.allSpell_append {first second : List Instruction} {list : List Statement}
    (all : AllSpell (first ++ second) list) :
    ∃ front back, list = front ++ back ∧ AllSpell first front ∧ AllSpell second back := by
  induction first generalizing list with
  | nil => exact ⟨[], list, rfl, rfl, all⟩
  | cons i rest ih =>
    rw [List.cons_append] at all
    unfold AllSpell at all
    split at all
    · rename_i declares
      obtain ⟨front, back, rfl, spells, more⟩ := ih all
      refine ⟨front, back, rfl, ?_, more⟩
      unfold AllSpell
      rw [if_pos declares]
      exact spells
    · rename_i declares
      obtain ⟨s, others, rfl, here, further⟩ := all
      obtain ⟨front, back, rfl, spells, more⟩ := ih further
      refine ⟨s :: front, back, rfl, ?_, more⟩
      unfold AllSpell
      rw [if_neg declares]
      exact ⟨s, front, rfl, here, spells⟩

theorem Instruction.allSpell_single {i : Instruction} {list : List Statement}
    (notDeclaration : i.isDeclaration = false) (all : AllSpell [i] list) :
    ∃ s, list = [s] ∧ i.Spells s := by
  unfold AllSpell at all
  rw [notDeclaration, if_neg Bool.false_ne_true] at all
  obtain ⟨s, others, rfl, spells, nothing⟩ := all
  have empty : others = [] := nothing
  rw [empty]
  exact ⟨s, rfl, spells⟩

namespace Compile

open ScopeTree

variable {setting setting' : Setting} {depth depth' scope scope' : Nat}
    {start start' after after' : Session}

/-- An assignment is written as one statement, whether it declares or not. -/
theorem allSpell_assignmentCode {isNew : Bool} {name : String} {operation : Option Opcode}
    {target value : Instruction} {append : Bool} {list : List Statement}
    (all : AllSpell (assignmentCode isNew name operation target value append) list) :
    ∃ s, list = [s] ∧ (Instruction.storeVariable target
      (storedValue operation target value) append).Spells s := by
  unfold assignmentCode at all
  obtain ⟨front, back, rfl, declared, stored⟩ := allSpell_append all
  have nothing : front = [] := by
    cases isNew <;> exact declared
  rw [nothing]
  exact allSpell_single rfl stored

/-- What a statement that changes no scopes compiles to is written as such a statement. -/
theorem spells_simple {source : Statement} {code : Instruction}
    (translated : simpleCode? source = some code) :
    code.isDeclaration = false ∧ ∀ s, code.Spells s → simpleCode? s = some code := by
  cases source with
  | breakLoop | continueLoop =>
    cases translated
    exact ⟨rfl, fun _ spells => spells⟩
  | returnValue | halt | print | call =>
    obtain ⟨_, _, rfl⟩ := Option.map_eq_some_iff.1 translated
    exact ⟨rfl, fun _ spells => spells⟩
  | _ => cases translated

theorem name_eq_of_code {target place : Expression} {code : Instruction}
    (shaped : target.isVariable)
    (shaped' : place.isVariable) (translated : target.code? = some code)
    (placed : place.code? = some code) :
    place.token.text = target.token.text := by
  obtain ⟨_, first⟩ := Expression.code?_target shaped translated
  obtain ⟨_, second⟩ := Expression.code?_target shaped' placed
  rw [first] at second
  injection second with same _
  exact same.symm

/-- Scopes that see the same names and can call the same functions. -/
structure Matches (scope : Nat) (start : Session) (scope' : Nat) (start' : Session) : Prop where
  sees : start'.tree.sees scope' = start.tree.sees scope
  calls : start'.tree.calls scope' = start.tree.calls scope

theorem Matches.of_iff (sees : ∀ x, start'.tree.Sees scope' x ↔ start.tree.Sees scope x)
    (calls : ∀ x, start'.tree.Calls scope' x ↔ start.tree.Calls scope x) :
    Matches scope start scope' start' :=
  ⟨sees_eq sees, calls_eq calls⟩

theorem Matches.sees_iff (alike : Matches scope start scope' start') (x : String) :
    start'.tree.Sees scope' x ↔ start.tree.Sees scope x :=
  Bool.eq_iff_iff.1 (congrFun alike.sees x)

theorem Matches.calls_iff (alike : Matches scope start scope' start') (x : String) :
    start'.tree.Calls scope' x ↔ start.tree.Calls scope x :=
  Bool.eq_iff_iff.1 (congrFun alike.calls x)

theorem Matches.trans {scope'' : Nat} {start'' : Session}
    (alike : Matches scope start scope' start')
    (alike' : Matches scope' start' scope'' start'') : Matches scope start scope'' start'' :=
  ⟨alike'.sees.trans alike.sees, alike'.calls.trans alike.calls⟩

theorem Matches.evaluates (alike : Matches scope start scope' start') {e e' : Expression}
    {code : Instruction}
    (evaluates : Evaluates start scope e code) (translated : e'.code? = some code) :
    Evaluates start' scope' e' code :=
  ⟨translated, by rw [alike.sees, alike.calls]; exact evaluates.reads⟩

section Turns

variable (alike : Matches scope start scope' start') (ready : Ready scope start)
    (ready' : Ready scope' start')

include alike ready ready'

theorem Matches.assigned {name name' : String} (named : name' = name) (constant constant' : Bool)
    (value value' : Expression) :
    (start'.tree.assigned scope' name' constant' value').sees scope' =
        (start.tree.assigned scope name constant value).sees scope ∧
      (start'.tree.assigned scope' name' constant' value').calls scope' =
        (start.tree.assigned scope name constant value).calls scope := by
  subst named
  refine ⟨sees_eq fun x => ?_, calls_eq fun x => ?_⟩
  · exact (sees_assigned _ ready'.inside _ _ _).trans
      ((or_congr_left (alike.sees_iff x)).trans (sees_assigned _ ready.inside _ _ _).symm)
  · exact (calls_assigned _ _ _ _).trans ((alike.calls_iff x).trans (calls_assigned _ _ _ _).symm)

theorem Matches.afterAssignment {target place : Expression}
    (named : place.token.text = target.token.text)
    (value value' : Expression) (append append' constant constant' : Bool) :
    Matches scope (start.afterAssignment scope target value append constant) scope'
      (start'.afterAssignment scope' place value' append' constant') := by
  apply Matches.of_iff
  · intro x
    rw [sees_afterAssignment ready', sees_afterAssignment ready, alike.sees_iff, named]
  · intro x
    rw [calls_afterAssignment, calls_afterAssignment, alike.calls_iff]

theorem Matches.opening (opened : List String) :
    Matches scope (start.opening scope opened) scope' (start'.opening scope' opened) := by
  have titles : ∀ (id : Nat), (opened.map (Variable.fresh · id)).map (·.name) = opened := by
    intro id
    rw [List.map_map]
    exact List.map_id opened
  apply Matches.of_iff
  · intro x
    unfold Session.opening
    rw [sees_given ready', sees_given ready, alike.sees_iff, titles, titles]
  · intro x
    exact (calls_given _).trans ((alike.calls_iff x).trans (calls_given _).symm)

theorem Matches.function {name name' : Token} {params params' : List Parameter}
    (named : name'.text = name.text) (same : params'.map (·.name.text) = params.map (·.name.text)) :
    Matches start.tree.size (start.function scope name params) start'.tree.size
      (start'.function scope' name' params') := by
  apply Matches.of_iff
  · intro x
    rw [sees_function ready', sees_function ready, alike.sees_iff, same]
  · intro x
    rw [calls_function ready', calls_function ready, alike.calls_iff, named]

theorem Matches.define {name name' : Token} {params params' : List Parameter}
    (named : name'.text = name.text)
    (inner : Frame start.tree.size (start.function scope name params) after)
    (inner' : Frame start'.tree.size (start'.function scope' name' params') after')
    (definition definition' : Instruction) :
    Matches scope (after.defined start.tree.size definition) scope'
      (after'.defined start'.tree.size definition') := by
  apply Matches.of_iff
  · intro x
    rw [sees_define ready' inner', sees_define ready inner, alike.sees_iff]
  · intro x
    rw [calls_define ready' inner', calls_define ready inner, alike.calls_iff, named]

theorem Matches.defineExternal {name name' : Token} (params params' : List Parameter)
    (named : name'.text = name.text) (definition definition' : Instruction) :
    Matches scope
      (((start.function scope name params).external start.tree.size).defined start.tree.size
        definition) scope'
      (((start'.function scope' name' params').external start'.tree.size).defined start'.tree.size
        definition') := by
  apply Matches.of_iff
  · intro x
    rw [sees_external ready', sees_external ready, alike.sees_iff]
  · intro x
    rw [calls_external ready', calls_external ready, alike.calls_iff, named]

/-- Inside a loop over items. -/
theorem Matches.loop :
    Matches start.tree.size (start.loop scope) start'.tree.size (start'.loop scope') := by
  apply Matches.of_iff
  · intro x
    rw [sees_loop ready', sees_loop ready, alike.sees_iff]
  · intro x
    rw [calls_loop ready', calls_loop ready, alike.calls_iff]

theorem Matches.afterLoop (inner : Frame start.tree.size (start.loop scope) after)
    (inner' : Frame start'.tree.size (start'.loop scope') after') :
    Matches scope (after.withTree (after.tree.discardChild scope start.tree.size)) scope'
      (after'.withTree (after'.tree.discardChild scope' start'.tree.size)) := by
  apply Matches.of_iff
  · intro x
    rw [sees_afterLoop ready' inner', sees_afterLoop ready inner, alike.sees_iff]
  · intro x
    rw [calls_afterLoop ready' inner', calls_afterLoop ready inner, alike.calls_iff]

end Turns

/-- Inside a library, whose statements are put in place. -/
theorem Matches.inLibrary (alike : Matches scope start scope' start') (ready : Ready scope start)
    (name : Token) (path file : String) :
    Matches start.tree.size (start.inLibrary scope name path file) scope' start' :=
  .of_iff (fun x => (alike.sees_iff x).trans (sees_inLibrary ready _ _ _).symm)
    fun x => (alike.calls_iff x).trans (calls_inLibrary ready _ _ _).symm

theorem Matches.library {name : Token} {path file : String} (ready : Ready scope start)
    (inner : Frame start.tree.size (start.inLibrary scope name path file) after)
    (done : Matches start.tree.size after scope' after') :
    Matches scope ⟨after.tree, start.file, after.including.tail⟩ scope' after' :=
  .of_iff (fun x => (done.sees_iff x).trans (sees_library ready inner).symm)
    fun x => (done.calls_iff x).trans (calls_library ready inner).symm

def SameNames (seen : String → Bool) (declared declared' : List Variable) : Prop :=
  ∀ x, seen x = false → (x ∈ declared'.map (·.name) ↔ x ∈ declared.map (·.name))

theorem SameNames.nil {seen : String → Bool} : SameNames seen [] [] := fun _ _ => Iff.rfl

theorem Matches.given (alike : Matches scope start scope' start') (ready : Ready scope start)
    (ready' : Ready scope' start') {declared declared' : List Variable}
    (same : SameNames (start.tree.sees scope) declared declared') :
    Matches scope (start.withTree (start.tree.addVariables scope declared)) scope'
      (start'.withTree (start'.tree.addVariables scope' declared')) := by
  apply Matches.of_iff
  · intro x
    rw [sees_given ready', sees_given ready, alike.sees_iff]
    cases seen : start.tree.sees scope x with
    | true =>
      have known : start.tree.Sees scope x := seen
      simp only [known, true_or]
    | false => rw [same x seen]
  · intro x
    exact (calls_given _).trans ((alike.calls_iff x).trans (calls_given _).symm)

theorem SameNames.gather {body body' : List Statement} {code code' : List Instruction}
    {mark mark' : Nat}
    {declared declared' : List Variable}
    (same : SameNames (start.tree.sees scope) declared declared')
    (alike : Matches scope start scope' start') (done : Matches scope after scope' after')
    (inner : Compiles setting depth scope (.statements body code) start after)
    (inner' : Compiles setting' depth' scope' (.statements body' code') start' after')
    (nothing : Statement.allIncluded body = []) (nothing' : Statement.allIncluded body' = [])
    (since : mark = start.tree.variableCount scope)
    (since' : mark' = start'.tree.variableCount scope') :
    SameNames (start.tree.sees scope)
      (Compile.gather declared (after.tree.variablesSince scope mark))
      (Compile.gather declared' (after'.tree.variablesSince scope' mark')) := by
  intro x unseen
  have unseen₁ : ¬ start.tree.Sees scope x := by
    intro seen
    rw [show start.tree.sees scope x = true from seen] at unseen
    cases unseen
  have unseen₂ : ¬ start'.tree.Sees scope' x := fun seen => unseen₁ ((alike.sees_iff x).1 seen)
  have taken : x ∈ (after.tree.variablesSince scope mark).map (·.name) ↔
      after.tree.Sees scope x := by
    rw [Scoping.sees_since since inner nothing]
    exact ⟨.inr, fun either => either.resolve_left unseen₁⟩
  have taken' : x ∈ (after'.tree.variablesSince scope' mark').map (·.name) ↔
      after'.tree.Sees scope' x := by
    rw [Scoping.sees_since since' inner' nothing']
    exact ⟨.inr, fun either => either.resolve_left unseen₂⟩
  rw [names_gather, names_gather, taken, taken', same x unseen, done.sees_iff]

/-- After blocks without includes the scopes see what they saw. -/
theorem Matches.branch {job job' : Job} {mark mark' : Nat}
    (alike : Matches scope start scope' start') (done : Matches scope after scope' after')
    (compiles : Compiles setting depth scope job start
      (after.withTree (after.tree.dropVariablesSince scope mark)))
    (compiles' : Compiles setting' depth' scope' job' start'
      (after'.withTree (after'.tree.dropVariablesSince scope' mark')))
    (isBranch : job.isBranch) (isBranch' : job'.isBranch) (nothing : job.included = [])
    (nothing' : job'.included = []) :
    Matches scope (after.withTree (after.tree.dropVariablesSince scope mark)) scope'
      (after'.withTree (after'.tree.dropVariablesSince scope' mark')) := by
  apply Matches.of_iff
  · intro x
    rw [Scoping.sees_forgotten compiles' isBranch' nothing',
      Scoping.sees_forgotten compiles isBranch nothing, alike.sees_iff]
  · intro x
    rw [calls_branch, calls_branch, done.calls_iff]

theorem Compiles.append {first second : List Statement} {code code' : List Instruction}
    {middle : Session} (front : Compiles setting depth scope (.statements first code) start middle)
    (back : Compiles setting depth scope (.statements second code') middle after) :
    Compiles setting depth scope (.statements (first ++ second) (code ++ code')) start after := by
  induction first generalizing start code with
  | nil =>
    cases front
    exact back
  | cons s rest ih =>
    cases front with
    | moreStatements ready head tail =>
      rw [List.append_assoc]
      exact .moreStatements ready head (ih tail)

theorem Compiles.single {s : Statement} {code : List Instruction}
    (compiles : Compiles setting depth scope (.statement s code) start after) :
    Compiles setting depth scope (.statements [s] code) start after := by
  rw [← List.append_nil code]
  exact .moreStatements compiles.ready compiles (.noStatement compiles.ready_after)

/-- Source that declares no constant and includes nothing leaves no constant to come upon. -/
theorem Compiles.staysFree {job : Job} (compiles : Compiles setting depth scope job start after)
    (free : Free job.assigned job.included) (unfixed : ∀ x, ¬ start.tree.Fixes scope x)
    (x : String) :
    ¬ after.tree.Fixes scope x := by
  intro fixed
  refine unfixed x (compiles.fixes ⟨free.assigned, ?_⟩ fixed)
  intro token member
  rw [free.included] at member
  cases member

/-- An assignment that a store was written as compiles where the first one did. -/
theorem Matches.assigns (alike : Matches scope start scope' start') (ready : Ready scope start)
    (ready' : Ready scope' start') (unfixed : ∀ x, ¬ start'.tree.Fixes scope' x)
    {target place value stored : Expression} {operator sign : Token} {append constant : Bool}
    {operation : Option Opcode} {targetCode valueCode : Instruction}
    (named : place.token.text = target.token.text) (signed : sign.kind = .operatorAssignment)
    (placed : place.code? = some targetCode)
    (storedAs : stored.code? = some (storedValue operation targetCode valueCode))
    (assigns : Assigns start scope target operator value append constant operation
      targetCode valueCode) :
    Assigns start' scope' place sign stored append false none targetCode
      (storedValue operation targetCode valueCode) := by
  obtain ⟨sees, calls⟩ := alike.assigned ready ready' named constant false value stored
  have targetReads := assigns.targetReads
  have valueReads := assigns.valueReads
  rw [← sees, ← calls] at targetReads valueReads
  refine ⟨?_, if_pos signed, nofun, placed, storedAs, targetReads, ?_⟩
  · intro found lookup
    refine ⟨?_, rfl⟩
    rw [Bool.eq_false_iff]
    intro fixed
    exact unfixed _ (fixes_of_findVariable lookup fixed)
  · cases operation with
    | none => exact valueReads
    | some opcode =>
      unfold storedValue
      simp only [Instruction.reads, Bool.and_eq_true]
      exact ⟨targetReads, valueReads⟩

/-- The code of a piece of source is what the statements compile to that it is written as. -/
def Job.Recompiles (setting : Setting) (depth scope : Nat) (start after : Session) (scope' : Nat)
    (start' : Session) : Job → Prop
  | .statement _ code | .statements _ code | .libraries _ code | .library _ code =>
    ∀ list, AllSpell code list →
      ∃ after', Compiles setting depth scope' (.statements list code) start' after' ∧
      Matches scope after scope' after'
  | .branch _ declared _ code gathered =>
    ∀ list mark declared', AllSpell code list → mark = start'.tree.variableCount scope' →
      SameNames (start.tree.sees scope) declared declared' → ∃ gathered' after',
      Compiles setting depth scope' (.branch mark declared' list code gathered') start' after' ∧
        Matches scope after scope' after' ∧ SameNames (start.tree.sees scope) gathered gathered'
  | .elifs _ declared _ code gathered =>
    ∀ list mark declared', ElifsSpell code list → mark = start'.tree.variableCount scope' →
      SameNames (start.tree.sees scope) declared declared' → ∃ gathered' after',
      Compiles setting depth scope' (.elifs mark declared' list code gathered') start' after' ∧
        Matches scope after scope' after' ∧ SameNames (start.tree.sees scope) gathered gathered'
  | .cases _ declared labels _ code gathered =>
    ∀ list mark declared', CasesSpell code list → mark = start'.tree.variableCount scope' →
      SameNames (start.tree.sees scope) declared declared' → ∃ gathered' after',
      Compiles setting depth scope' (.cases mark declared' labels list code gathered')
        start' after' ∧
        Matches scope after scope' after' ∧ SameNames (start.tree.sees scope) gathered gathered'
  | .last _ declared _ code gathered =>
    ∀ clause mark declared', Statement.LastSpells code clause →
      mark = start'.tree.variableCount scope' →
      SameNames (start.tree.sees scope) declared declared' → ∃ gathered' after',
      Compiles setting depth scope' (.last mark declared' clause code gathered') start' after' ∧
        Matches scope after scope' after' ∧ SameNames (start.tree.sees scope) gathered gathered'

theorem Compiles.seen_after {job : Job} (compiles : Compiles setting depth scope job start after)
    (branch : job.isBranch) (nothing : job.included = []) :
    after.tree.sees scope = start.tree.sees scope :=
  sees_eq fun _ => Scoping.sees_forgotten compiles branch nothing

theorem Compiles.sameNames_after {job : Job}
    (compiles : Compiles setting depth scope job start after)
    (branch : job.isBranch) (nothing : job.included = []) {declared declared' : List Variable} :
    SameNames (after.tree.sees scope) declared declared' ↔
      SameNames (start.tree.sees scope) declared declared' := by
  rw [compiles.seen_after branch nothing]

/-- A block without code is as good as none. -/
theorem Compiles.nothing_branch {mark : Nat} {declared gathered : List Variable}
    (compiles : Compiles setting depth scope (.branch mark declared [] [] gathered) start after) :
    Matches scope after scope start ∧ gathered.map (·.name) ⊆ declared.map (·.name) ∧
      declared.map (·.name) ⊆ gathered.map (·.name) := by
  have seen := compiles.seen_after rfl rfl
  cases compiles with
  | branch ready since inner =>
    cases inner
    have listed := (@Compiles.noStatement setting depth _ _ ready).frame.names_since since
    rw [List.self_eq_append_right] at listed
    refine ⟨.of_iff (fun x => Bool.eq_iff_iff.1 (congrFun seen.symm x)) fun x =>
      (calls_branch mark).symm, ?_, ?_⟩
    · intro x member
      rw [names_gather, listed] at member
      exact member.resolve_right (List.not_mem_nil)
    · intro x member
      rw [names_gather]
      exact .inl member

/-- Whatever compiles, the statements that its code is written as compile to the code, in scopes
that see and call the same and come upon no constant. -/
theorem Compiles.recompiles {job : Job} (compiles : Compiles setting depth scope job start after)
    (setting' : Setting) (depth' : Nat) :
    ∀ {scope' : Nat} {start' : Session}, Scoping.Plain setting job → Ready scope' start' →
      Matches scope start scope' start' → (∀ x, ¬ start'.tree.Fixes scope' x) →
      job.Recompiles setting' depth' scope start after scope' start' := by
  induction compiles with
  | @assign _ scope start target operator value append constant operation targetCode
    valueCode ready shaped assigns =>
    intro scope' start' _ ready' alike unfixed list all
    obtain ⟨_, rfl, place, sign, stored, rfl, signed, shaped', placed, storedAs⟩ :=
      allSpell_assignmentCode all
    have named := name_eq_of_code shaped shaped' assigns.spelled placed
    have assigns' := alike.assigns ready ready' unfixed named signed placed storedAs assigns
    have compiles' : Compiles setting' depth' scope' _ start' _ := .assign ready' shaped' assigns'
    have code : assignmentCode (!start'.tree.sees scope' place.token.text) place.token.text
      none targetCode (storedValue operation targetCode valueCode) append =
        assignmentCode (!start.tree.sees scope target.token.text) target.token.text
          operation targetCode valueCode append := by
      rw [named, alike.sees]
      rfl
    rw [code] at compiles'
    exact ⟨_, compiles'.single, alike.afterAssignment ready ready' named _ _ _ _ _ _⟩
  | @select _ scope start _ _ _ _ _ _ _ _ _ _ opened ready _ _ _ selects =>
    intro scope' start' _ ready' alike _ list all
    obtain ⟨_, rfl, _, fields', source', filter', target', rfl, named, sourceAs, filterAs,
      properFilter, shaped', targetAs, properTarget⟩ := allSpell_single rfl all
    have selects' : Selects start' scope' source' filter' target' _ _ _ opened :=
      ⟨sourceAs, filterAs, targetAs, by rw [alike.sees, alike.calls]; exact selects.sourceReads,
        by rw [alike.sees, alike.calls]; exact selects.opens⟩
    rw [← named]
    exact ⟨_, Compiles.single (.select ready' shaped' properFilter properTarget selects'),
      alike.opening ready ready' opened⟩
  | @simple _ scope start source code ready translated reads =>
    intro scope' start' _ ready' alike _ list all
    obtain ⟨notDeclaration, written⟩ := spells_simple translated
    obtain ⟨s, rfl, spells⟩ := allSpell_single notDeclaration all
    have compiles' : Compiles setting' depth' scope' (.statement s [code]) start' start' :=
      .simple ready' (written s spells) (by rw [alike.sees, alike.calls]; exact reads)
    exact ⟨_, compiles'.single, alike⟩
  | define ready inner ih =>
    intro scope' start' plain ready' alike unfixed list all
    obtain ⟨_, rfl, token, params', result, brace, body', rfl, named, same, spelled⟩ :=
      allSpell_single rfl all
    obtain ⟨after', inner', _⟩ := ih plain (ready'.function token params')
      (alike.function ready ready' named same)
      (fun x fixed => unfixed x (fixes_function ready' _ _ fixed)) body' spelled
    rw [← named, ← same]
    exact ⟨_, Compiles.single (.define ready' inner'),
      alike.define ready ready' named inner.frame inner'.frame _ _⟩
  | defineExternal ready =>
    intro scope' start' _ ready' alike _ list all
    obtain ⟨_, rfl, token, params', result, rfl, named, same⟩ := allSpell_single rfl all
    rw [← named, ← same]
    exact ⟨_, Compiles.single (.defineExternal ready'),
      alike.defineExternal ready ready' _ params' named _ _⟩
  | @ifElse _ scope start _ _ _ _ _ _ _ _ _ _ _ _ _ _ _ _ ready evaluates front between
    back first further final =>
    intro scope' start' plain ready' alike unfixed list all
    obtain ⟨_, rfl, word, guard, brace, inner, clauses, last, rfl, guarded, spelled₁,
        spelled₂, spelled₃⟩ :=
      allSpell_single rfl all
    have parts := List.append_eq_nil_iff.1 (List.isEmpty_iff.1 plain.1)
    have both := List.append_eq_nil_iff.1 parts.1
    obtain ⟨_, _, front', alike₁, same₁⟩ :=
      first both.1 ready' alike unfixed inner _ [] spelled₁ rfl .nil
    have unfixed₁ := front'.staysFree (free_of_allSpell _ spelled₁) unfixed
    obtain ⟨_, _, between', alike₂, same₂⟩ :=
      further both.2 front'.ready_after alike₁ unfixed₁ clauses _ _
      spelled₂ (front'.since_after rfl rfl) ((front.sameNames_after rfl both.1).2 same₁)
    have unfixed₂ := between'.staysFree (free_of_elifs _ spelled₂) unfixed₁
    obtain ⟨_, _, back', alike₃, same₃⟩ :=
      final parts.2 between'.ready_after alike₂ unfixed₂ last _ _ spelled₃
      (between'.since_after rfl (front'.since_after rfl rfl))
        ((between.sameNames_after rfl both.2).2 same₂)
    exact ⟨_, Compiles.single
      (.ifElse ready' (alike.evaluates evaluates guarded) front' between' back'),
      alike₃.given back.ready_after back'.ready_after ((back.sameNames_after rfl parts.2).2 same₃)⟩
  | whileLoop ready evaluates inner ih =>
    intro scope' start' plain ready' alike unfixed list all
    obtain ⟨_, rfl, word, guard, brace, body', rfl, guarded, spelled⟩ := allSpell_single rfl all
    obtain ⟨after', inner', done⟩ := ih plain ready' alike unfixed body' spelled
    exact ⟨_, Compiles.single (.whileLoop ready' (alike.evaluates evaluates guarded) inner'), done⟩
  | foreach ready evaluates inner ih =>
    intro scope' start' plain ready' alike unfixed list all
    obtain ⟨_, rfl, word, guard, brace, body', rfl, guarded, spelled⟩ := allSpell_single rfl all
    obtain ⟨after', inner', _⟩ := ih plain ready'.loop (alike.loop ready ready')
      (fun x fixed => unfixed x (fixes_loop ready' fixed)) body' spelled
    exact ⟨_, Compiles.single (.foreach ready' (alike.evaluates evaluates guarded) inner'),
      alike.afterLoop ready ready' inner.frame inner'.frame⟩
  | switch ready evaluates front back first final =>
    intro scope' start' plain ready' alike unfixed list all
    obtain ⟨_, rfl, word, guard, clauses, last, rfl, guarded, spelled₁, spelled₂⟩ :=
      allSpell_single rfl all
    have both := List.append_eq_nil_iff.1 (List.isEmpty_iff.1 plain.1)
    obtain ⟨_, _, front', alike₁, same₁⟩ :=
      first both.1 ready' alike unfixed clauses _ [] spelled₁ rfl .nil
    have unfixed₁ := front'.staysFree (free_of_cases _ spelled₁) unfixed
    obtain ⟨_, _, back', alike₂, same₂⟩ :=
      final both.2 front'.ready_after alike₁ unfixed₁ last _ _ spelled₂
      (front'.since_after rfl rfl) ((front.sameNames_after rfl both.1).2 same₁)
    exact ⟨_, Compiles.single (.switch ready' (alike.evaluates evaluates guarded) front' back'),
      alike₂.given back.ready_after back'.ready_after ((back.sameNames_after rfl both.2).2 same₂)⟩
  | includes _ _ ih =>
    intro scope' start' plain ready' alike unfixed
    exact ih plain.2 ready' alike unfixed
  | block _ _ ih =>
    intro scope' start' plain ready' alike unfixed
    exact ih plain ready' alike unfixed
  | noStatement | noLibrary | knownLibrary =>
    intro scope' start' _ ready' alike _ list all
    have nothing : list = [] := all
    rw [nothing]
    exact ⟨_, .noStatement ready', alike⟩
  | @moreStatements _ _ _ _ code _ _ restCode _ _ _ _ head tail =>
    intro scope' start' plain ready' alike unfixed list all
    have parts := plain.of_cons code restCode
    obtain ⟨first, rest, rfl, spelled₁, spelled₂⟩ := allSpell_append all
    obtain ⟨_, front', alike₁⟩ := head parts.1 ready' alike unfixed first spelled₁
    obtain ⟨_, back', alike₂⟩ := tail parts.2 front'.ready_after alike₁
      (front'.staysFree (free_of_allSpell _ spelled₁) unfixed) rest spelled₂
    exact ⟨_, front'.append back', alike₂⟩
  | moreLibraries _ _ _ head tail =>
    intro scope' start' plain ready' alike unfixed list all
    have parts := Scoping.LibrariesPlain.of_cons plain
    obtain ⟨first, rest, rfl, spelled₁, spelled₂⟩ := allSpell_append all
    obtain ⟨_, front', alike₁⟩ := head parts.1 ready' alike unfixed first spelled₁
    obtain ⟨_, back', alike₂⟩ := tail parts.2 front'.ready_after alike₁
      (front'.staysFree (free_of_allSpell _ spelled₁) unfixed) rest spelled₂
    exact ⟨_, front'.append back', alike₂⟩
  | @newLibrary _ scope start name path text program code after ready _ found _ loaded
      read inner ih =>
    intro scope' start' plain ready' alike unfixed list all
    have used := plain name (List.mem_singleton_self _) program ⟨path, text, found, loaded, read⟩
    obtain ⟨after', compiles', done⟩ :=
      ih (.of_uses used code) ready' (alike.inLibrary ready name path program.file) unfixed list all
    exact ⟨after', compiles', .library ready inner.frame done⟩
  | @branch depth scope start mark declared body code after ready since inner ih =>
    intro scope' start' plain ready' alike unfixed list mark' declared' all since' same
    have nothing : Statement.allIncluded body = [] := plain
    obtain ⟨after', inner', done⟩ := ih (.of_included nothing code) ready' alike unfixed list all
    have nothing' := (free_of_allSpell _ all).included
    have block : Compiles setting depth scope (.branch mark declared body code _) start _ :=
      .branch ready since inner
    have block' : Compiles setting' depth' scope' (.branch mark' declared' list code _) start' _ :=
      .branch ready' since' inner'
    exact ⟨_, _, block', alike.branch done block block' rfl rfl nothing nothing',
      same.gather alike done inner inner' nothing nothing' since since'⟩
  | noElif =>
    intro scope' start' _ ready' alike _ list mark declared' all since' same
    have nothing : list = [] := all
    rw [nothing]
    exact ⟨_, _, .noElif ready' since', alike, same⟩
  | noCase =>
    intro scope' start' _ ready' alike _ list mark declared' all since' same
    have nothing : list = [] := all
    rw [nothing]
    exact ⟨_, _, .noCase ready' since', alike, same⟩
  | noLast =>
    intro scope' start' _ ready' alike _ clause mark declared' spells since' same
    have nothing : clause = none := spells
    rw [nothing]
    exact ⟨_, _, .noLast ready' since', alike, same⟩
  | moreElifs ready since evaluates front back head tail =>
    intro scope' start' plain ready' alike unfixed list mark declared' all since' same
    obtain ⟨word, guard, brace, inner, others, rfl, guarded, spelled₁, spelled₂⟩ := all
    have both := List.append_eq_nil_iff.1 plain
    obtain ⟨_, _, head', alike₁, same₁⟩ :=
      head both.1 ready' alike unfixed inner mark declared' spelled₁ since' same
    have unfixed₁ := head'.staysFree (free_of_allSpell _ spelled₁) unfixed
    obtain ⟨_, _, tail', alike₂, same₂⟩ :=
      tail both.2 head'.ready_after alike₁ unfixed₁ others mark _ spelled₂
      (head'.since_after rfl since') ((front.sameNames_after rfl both.1).2 same₁)
    exact ⟨_, _, .moreElifs ready' since' (alike.evaluates evaluates guarded) head' tail', alike₂,
      (front.sameNames_after rfl both.1).1 same₂⟩
  | moreCases ready since apart front back head tail =>
    intro scope' start' plain ready' alike unfixed list mark declared' all since' same
    obtain ⟨word, token, brace, inner, others, rfl, spelled₁, spelled₂⟩ := all
    have both := List.append_eq_nil_iff.1 plain
    obtain ⟨_, _, head', alike₁, same₁⟩ :=
      head both.1 ready' alike unfixed inner mark declared' spelled₁ since' same
    have unfixed₁ := head'.staysFree (free_of_allSpell _ spelled₁) unfixed
    obtain ⟨_, _, tail', alike₂, same₂⟩ :=
      tail both.2 head'.ready_after alike₁ unfixed₁ others mark _ spelled₂
      (head'.since_after rfl since') ((front.sameNames_after rfl both.1).2 same₁)
    exact ⟨_, _, .moreCases ready' since' apart head' tail', alike₂,
      (front.sameNames_after rfl both.1).1 same₂⟩
  | @someLast _ _ _ _ _ _ _ _ code _ _ ready since inner ih =>
    intro scope' start' plain ready' alike unfixed clause mark declared' spells since' same
    cases code with
    | nil =>
      have nothing : clause = none := spells
      rw [nothing]
      obtain ⟨gathered', after', block', done, same'⟩ :=
        ih plain ready' alike unfixed [] mark declared' rfl since' same
      obtain ⟨back, fewer, more⟩ := block'.nothing_branch
      refine ⟨_, _, .noLast ready' since', done.trans back, ?_⟩
      intro x unseen
      rw [← same' x unseen]
      exact ⟨fun member => more member, fun member => fewer member⟩
    | cons i rest =>
      obtain ⟨word, brace, body', rfl, spelled⟩ := spells
      obtain ⟨_, _, block', done, same'⟩ :=
        ih plain ready' alike unfixed body' mark declared' spelled since' same
      exact ⟨_, _, .someLast ready' since' block', done, same'⟩

end Compile

end Treecode
