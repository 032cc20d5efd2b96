import Mathlib
import Treecode.Proofs.Reserved
import Treecode.Proofs.VisibleNames

set_option autoImplicit false

namespace Treecode

namespace Scoping

/-- Whether an instruction yields a value and reads only names in scope. -/
def readsIn (names : List String) (i : Instruction) : Bool := i.reads names.contains fun _ => true

def readsAllIn (names : List String) (is : List Instruction) : Bool :=
  Instruction.readsAll names.contains (fun _ => true) is

def readsOptionalIn (names : List String) (i : Option Instruction) : Bool :=
  Instruction.readsOptional names.contains (fun _ => true) i

def isPlace : Instruction → Bool
  | .loadVariable _ _ => true
  | _ => false

def storesTo (name : String) : List Instruction → Bool
  | .storeVariable (.loadVariable target _) _ _ :: _ => target == name
  | _ => false

mutual

/-- The names in scope after an instruction that stands alone, if it is well scoped. -/
def check (names : List String) : Instruction → Option (List String)
  | .storeVariable target value _ =>
    if isPlace target && readsIn names target && readsIn names value then some names else none
  | .call _ args | .print args => if readsAllIn names args then some names else none
  | .returnValue value | .halt value => if readsOptionalIn names value then some names else none
  | .breakLoop | .continueLoop | .defineExternal _ _ _ _ => some names
  | .ifElse condition body elifs otherwise =>
    if readsIn names condition then do
      let first ← checkAll names body
      let further ← checkElifs names elifs
      let last ← checkAll names otherwise
      return first ++ further ++ last
    else none
  | .whileLoop condition body => if readsIn names condition then checkAll names body else none
  | .foreach iterable body =>
    if readsIn names iterable then do
      let _ ← checkAll ("it" :: names) body
      return names
    else none
  | .switch head cases default =>
    if readsIn names head then do
      let first ← checkCases names cases
      let last ← checkAll names default
      return first ++ last
    else none
  | .define _ params body => do
    let _ ← checkAll (params ++ names) body
    return names
  | .select _ source filter _ _ target =>
    if readsIn names source && isPlace target then do
      let opened ← Instruction.opensInSelect names.contains (fun _ => true) filter target
      return opened ++ names
    else none
  | _ => none

/-- The names in scope after instructions, if these are well scoped. -/
def checkAll (names : List String) : List Instruction → Option (List String)
  | [] => some names
  | .newVariable name :: rest =>
    if !names.contains name && storesTo name rest then checkAll (name :: names) rest else none
  | first :: rest => do checkAll (← check names first) rest

/-- The names that further conditions and blocks leave in scope, all of them together. -/
def checkElifs (names : List String) : List (Instruction × List Instruction) → Option (List String)
  | [] => some names
  | (condition, body) :: rest =>
    if readsIn names condition then do
      let first ← checkAll names body
      let further ← checkElifs names rest
      return first ++ further
    else none

def checkCases (names : List String) : List (Value × List Instruction) → Option (List String)
  | [] => some names
  | (_, body) :: rest => do
    let first ← checkAll names body
    let further ← checkCases names rest
    return first ++ further

end

theorem storesTo_append {name : String} {first : List Instruction} (second : List Instruction)
    (stored : storesTo name first) : storesTo name (first ++ second) := by
  cases first with
  | nil => cases stored
  | cons i rest =>
    cases i with
    | storeVariable target value append =>
      cases target with
      | loadVariable target index => exact stored
      | _ => cases stored
    | _ => cases stored

theorem checkAll_newVariable (names : List String) (name : String) (rest : List Instruction) :
    checkAll names (.newVariable name :: rest) =
      if !names.contains name && storesTo name rest then checkAll (name :: names) rest
        else none := by
  rw [checkAll]

theorem checkAll_cons (names : List String) (first : Instruction) (rest : List Instruction)
    (old : ∀ name, first ≠ .newVariable name) :
    checkAll names (first :: rest) = (check names first).bind fun after => checkAll after rest := by
  rw [checkAll]
  · rfl
  · intro name same
    exact absurd same (old name)

/-- Code that passes is followed by what comes next. -/
theorem checkAll_append {names names' : List String} {first : List Instruction}
    (second : List Instruction) (checked : checkAll names first = some names') :
    checkAll names (first ++ second) = checkAll names' second := by
  induction first generalizing names with
  | nil =>
    cases checked
    rfl
  | cons i rest ih =>
    by_cases new : ∃ name, i = .newVariable name
    · obtain ⟨name, rfl⟩ := new
      rw [checkAll_newVariable] at checked
      rw [List.cons_append, checkAll_newVariable]
      split at checked
      · rename_i both
        simp only [Bool.and_eq_true] at both
        simp only [both.1, storesTo_append second both.2, Bool.and_self, ↓reduceIte]
        exact ih checked
      · cases checked
    · have old : ∀ name, i ≠ .newVariable name := fun name same => new ⟨name, same⟩
      rw [checkAll_cons names i rest old, Option.bind_eq_some_iff] at checked
      obtain ⟨middle, front, back⟩ := checked
      rw [List.cons_append, checkAll_cons names i _ old, front, Option.bind_some]
      exact ih back

theorem checkAll_single {names : List String} {i : Instruction}
    (old : ∀ name, i ≠ .newVariable name) : checkAll names [i] = check names i := by
  rw [checkAll_cons names i [] old]
  cases check names i <;> rfl

/-- The halt that ends every program reads nothing. -/
theorem checkAll_finalHalt (names : List String) : checkAll names [.finalHalt] = some names := rfl

section Blocks

variable {names n₁ n₂ n₃ : List String} {guard : Instruction} {body otherwise : List Instruction}

theorem checkAll_ifElse {elifs : List (Instruction × List Instruction)}
    (reads : readsIn names guard)
    (first : checkAll names body = some n₁) (further : checkElifs names elifs = some n₂)
    (last : checkAll names otherwise = some n₃) :
    checkAll names [.ifElse guard body elifs otherwise] = some (n₁ ++ n₂ ++ n₃) := by
  rw [checkAll_single (by intro x same; cases same)]
  unfold check
  rw [first, further, last]
  simp only [reads, ↓reduceIte, Option.bind_eq_bind, Option.bind_some, Option.pure_def]

theorem checkElifs_cons {elifs : List (Instruction × List Instruction)}
    (reads : readsIn names guard)
    (first : checkAll names body = some n₁) (further : checkElifs names elifs = some n₂) :
    checkElifs names ((guard, body) :: elifs) = some (n₁ ++ n₂) := by
  unfold checkElifs
  rw [first, further]
  simp only [reads, ↓reduceIte, Option.bind_eq_bind, Option.bind_some, Option.pure_def]

theorem checkAll_switch {cases : List (Value × List Instruction)} (reads : readsIn names guard)
    (first : checkCases names cases = some n₁) (last : checkAll names otherwise = some n₂) :
    checkAll names [.switch guard cases otherwise] = some (n₁ ++ n₂) := by
  rw [checkAll_single (by intro x same; cases same)]
  unfold check
  rw [first, last]
  simp only [reads, ↓reduceIte, Option.bind_eq_bind, Option.bind_some, Option.pure_def]

theorem checkCases_cons {cases : List (Value × List Instruction)} (label : Value)
    (first : checkAll names body = some n₁) (further : checkCases names cases = some n₂) :
    checkCases names ((label, body) :: cases) = some (n₁ ++ n₂) := by
  unfold checkCases
  rw [first, further]
  rfl

theorem checkAll_whileLoop (reads : readsIn names guard) (inner : checkAll names body = some n₁) :
    checkAll names [.whileLoop guard body] = some n₁ := by
  rw [checkAll_single (by intro x same; cases same)]
  unfold check
  rw [inner]
  simp only [reads, ↓reduceIte]

/-- What the body of a loop over items declares ends with it, the item included. -/
theorem checkAll_foreach (reads : readsIn names guard)
    (inner : checkAll ("it" :: names) body = some n₁) :
    checkAll names [.foreach guard body] = some names := by
  rw [checkAll_single (by intro x same; cases same)]
  unfold check
  rw [inner]
  simp only [reads, ↓reduceIte, Option.bind_eq_bind, Option.bind_some, Option.pure_def]

/-- What the body of a function declares ends with it, the parameters included. -/
theorem checkAll_define {params : List String} (name : String)
    (inner : checkAll (params ++ names) body = some n₁) :
    checkAll names [.define name params body] = some names := by
  rw [checkAll_single (by intro x same; cases same)]
  unfold check
  rw [inner]
  rfl

end Blocks

open Compile ScopeTree

variable {setting : Setting} {depth scope : Nat}

/-- A list holds the names that a scope sees. -/
def Tracks (names : List String) (scope : Nat) (session : Session) : Prop :=
  ∀ name, session.tree.Sees scope name ↔ name ∈ names

theorem Tracks.sees_eq {names : List String} {session : Session}
    (tracks : Tracks names scope session) : session.tree.sees scope = names.contains := by
  funext name
  rw [Bool.eq_iff_iff, List.contains_iff_mem]
  exact tracks name

/-- The code of a piece of source passes the checker from some names to others. -/
def Passes (names names' : List String) : Job → Prop
  | .statement _ code | .statements _ code | .libraries _ code | .library _ code =>
    checkAll names code = some names'
  | .branch _ _ _ code _ | .last _ _ _ code _ => checkAll names code = some names'
  | .elifs _ _ _ code _ => checkElifs names code = some names'
  | .cases _ _ _ _ code _ => checkCases names code = some names'

/-- The names after a piece of source. What a block leaves in scope is gathered, and the scope sees
what it saw before. -/
def Leaves (names names' : List String) (scope : Nat) (after : Session) : Job → Prop
  | .branch _ declared _ _ gathered | .elifs _ declared _ _ gathered
  | .cases _ declared _ _ _ gathered | .last _ declared _ _ gathered =>
    Tracks names scope after ∧ names ⊆ names' ∧
      ∀ name, name ∈ names ∨ name ∈ gathered.map (·.name) ↔
        name ∈ names' ∨ name ∈ declared.map (·.name)
  | _ => Tracks names' scope after

/-- No block of an `if` or a `switch` in some libraries, or in those that they use, includes
anything. -/
def LibrariesPlain (setting : Setting) (names : List Token) : Prop :=
  ∀ name ∈ names, ∀ program, Loads setting name.text program → ∀ used, Uses setting program used →
    used.plainBranches

/-- No block of an `if` or a `switch` in a piece of source includes anything, nor in the libraries
that it includes. -/
def Plain (setting : Setting) : Job → Prop
  | .statement source _ => source.plainBranches ∧ LibrariesPlain setting source.included
  | .statements source _ =>
    Statement.allPlainBranches source ∧ LibrariesPlain setting (Statement.allIncluded source)
  | .libraries names _ => LibrariesPlain setting names
  | .library name _ => LibrariesPlain setting [name]
  | job@(.branch _ _ _ _ _) | job@(.elifs _ _ _ _ _) | job@(.cases _ _ _ _ _ _)
  | job@(.last _ _ _ _ _) => job.included = []

theorem LibrariesPlain.mono {names more : List Token} (plain : LibrariesPlain setting more)
    (fewer : names ⊆ more) : LibrariesPlain setting names :=
  fun name member => plain name (fewer member)

theorem librariesPlain_nil : LibrariesPlain setting [] := by
  intro name member
  cases member

theorem Plain.of_uses {program : Program}
    (used : ∀ other, Uses setting program other → other.plainBranches)
    (code : List Instruction) : Plain setting (.statements program.statements code) := by
  refine ⟨used program .refl, ?_⟩
  intro name member library loads deeper uses
  exact used deeper (.head ⟨name, member, loads⟩ uses)

theorem Plain.of_included {body : List Statement} (nothing : Statement.allIncluded body = [])
    (code : List Instruction) : Plain setting (.statements body code) := by
  refine ⟨Statement.allPlainBranches_of_included body nothing, ?_⟩
  rw [nothing]
  exact librariesPlain_nil

theorem Plain.of_cons {first : Statement} {rest : List Statement} {code : List Instruction}
    (plain : Plain setting (.statements (first :: rest) code))
    (firstCode restCode : List Instruction) :
    Plain setting (.statement first firstCode) ∧ Plain setting (.statements rest restCode) := by
  have split := plain.1
  simp only [Statement.allPlainBranches, Bool.and_eq_true] at split
  exact ⟨⟨split.1, plain.2.mono (List.subset_append_left _ _)⟩,
    split.2, plain.2.mono (List.subset_append_right _ _)⟩

theorem LibrariesPlain.of_cons {first : Token} {rest : List Token}
    (plain : LibrariesPlain setting (first :: rest)) :
    LibrariesPlain setting [first] ∧ LibrariesPlain setting rest :=
  ⟨plain.mono (List.cons_subset_cons _ (List.nil_subset _)), plain.mono (List.subset_cons_self _ _)⟩

section Reading

variable {names : List String} {start : Session}

theorem Tracks.readsIn (tracks : Tracks names scope start) {i : Instruction}
    (reads : i.reads (start.tree.sees scope) (start.tree.calls scope)) : readsIn names i := by
  rw [tracks.sees_eq] at reads
  exact Instruction.reads_mono (fun _ known => known) (fun _ _ => rfl) i reads

theorem Tracks.readsAllIn (tracks : Tracks names scope start) {is : List Instruction}
    (reads : Instruction.readsAll (start.tree.sees scope) (start.tree.calls scope) is) :
    readsAllIn names is := by
  rw [tracks.sees_eq] at reads
  exact Instruction.readsAll_mono (fun _ known => known) (fun _ _ => rfl) is reads

theorem Tracks.readsOptionalIn (tracks : Tracks names scope start) {i : Option Instruction}
    (reads : Instruction.readsOptional (start.tree.sees scope) (start.tree.calls scope) i) :
    readsOptionalIn names i := by
  rw [tracks.sees_eq] at reads
  exact Instruction.readsOptional_mono (fun _ known => known) (fun _ _ => rfl) i reads

end Reading

/-- An assignment passes: a new target is declared by the store that follows. -/
theorem passes_assignment {names : List String} {start : Session} {target value : Expression}
    {operator : Token} {append constant : Bool} {operation : Option Opcode}
    {targetCode valueCode : Instruction} (ready : Ready scope start) (shaped : target.isVariable)
    (assigns : Assigns start scope target operator value append constant operation
      targetCode valueCode)
    (tracks : Tracks names scope start) :
    ∃ names', checkAll names (assignmentCode (!start.tree.sees scope target.token.text)
        target.token.text operation targetCode valueCode append) = some names' ∧
      Tracks names' scope (start.afterAssignment scope target value append constant) := by
  obtain ⟨index, rfl⟩ := Expression.code?_target shaped assigns.spelled
  have after : ∀ names', (∀ name, name ∈ names' ↔ name ∈ names ∨ name = target.token.text) →
      Tracks names' scope (start.afterAssignment scope target value append constant) := by
    intro names' same name
    rw [sees_afterAssignment ready, same, tracks name]
  have stores : ∀ names', (∀ name, name ∈ names' ↔ name ∈ names ∨ name = target.token.text) →
      check names' (.storeVariable (.loadVariable target.token.text index)
        (storedValue operation (.loadVariable target.token.text index) valueCode) append) =
        some names' := by
    intro names' same
    have seen : (start.tree.assigned scope target.token.text constant value).sees scope =
        names'.contains := by
      funext name
      rw [Bool.eq_iff_iff, List.contains_iff_mem, same, ← tracks name]
      exact sees_assigned start.tree ready.inside target.token.text constant value
    have targetReads := assigns.targetReads
    have valueReads := assigns.valueReads
    rw [seen] at targetReads valueReads
    have targetIn : readsIn names' (.loadVariable target.token.text index) :=
      Instruction.reads_mono (fun _ known => known) (fun _ _ => rfl) _ targetReads
    have valueIn : readsIn names' valueCode :=
      Instruction.reads_mono (fun _ known => known) (fun _ _ => rfl) _ valueReads
    have storedIn : readsIn names'
        (storedValue operation (.loadVariable target.token.text index) valueCode) := by
      cases operation with
      | none => exact valueIn
      | some opcode =>
        unfold storedValue
        unfold readsIn at targetIn valueIn ⊢
        simp only [Instruction.reads, Bool.and_eq_true] at targetIn valueIn ⊢
        exact ⟨targetIn, valueIn⟩
    unfold check
    simp only [isPlace, targetIn, storedIn, Bool.and_self, ↓reduceIte]
  have old : ∀ name, Instruction.storeVariable (.loadVariable target.token.text index)
      (storedValue operation (.loadVariable target.token.text index) valueCode) append ≠
      .newVariable name := by
    intro name same
    cases same
  unfold assignmentCode
  cases seen : start.tree.sees scope target.token.text with
  | true =>
    have member : target.token.text ∈ names := (tracks _).1 seen
    have same : ∀ name, name ∈ names ↔ name ∈ names ∨ name = target.token.text := by
      intro name
      constructor
      · exact .inl
      · intro either
        rcases either with known | rfl
        · exact known
        · exact member
    refine ⟨names, ?_, after names same⟩
    show checkAll names [_] = some names
    rw [checkAll_single old]
    exact stores names same
  | false =>
    have fresh : target.token.text ∉ names := by
      intro member
      have known : start.tree.sees scope target.token.text = true := (tracks _).2 member
      rw [seen] at known
      cases known
    have same : ∀ name, name ∈ target.token.text :: names ↔
        name ∈ names ∨ name = target.token.text := by
      intro name
      rw [List.mem_cons, or_comm]
    refine ⟨target.token.text :: names, ?_, after _ same⟩
    show checkAll names [_, _] = some _
    rw [checkAll_newVariable]
    have absent : names.contains target.token.text = false := by
      rw [Bool.eq_false_iff, ne_eq, List.contains_iff_mem]
      exact fresh
    simp only [absent, storesTo, beq_self_eq_true, Bool.not_false, Bool.and_self, ↓reduceIte]
    rw [checkAll_single old]
    exact stores _ same

theorem passes_select {names : List String} {start : Session} {source target : Expression}
    {filter : Option Expression} {sourceCode targetCode : Instruction}
    {filterCode : Option Instruction}
    {opened : List String} (fields : List (String × Option String)) (distinct merge : Bool)
    (ready : Ready scope start) (shaped : target.isVariable)
    (selects : Selects start scope source filter target sourceCode filterCode targetCode opened)
    (tracks : Tracks names scope start) :
    ∃ names', checkAll names [.select fields sourceCode filterCode distinct merge targetCode] =
        some names' ∧ Tracks names' scope (start.opening scope opened) := by
  obtain ⟨index, rfl⟩ := Expression.code?_target shaped selects.target
  have opens := selects.opens
  rw [tracks.sees_eq] at opens
  have opens : Instruction.opensInSelect names.contains (fun _ => true) filterCode
      (.loadVariable target.token.text index) = some opened :=
    Instruction.opensInSelect_mono (fun _ _ => rfl) opens
  have sourceIn := tracks.readsIn selects.sourceReads
  refine ⟨opened ++ names, ?_, ?_⟩
  · rw [checkAll_single (by intro name same; cases same)]
    unfold check
    simp only [sourceIn, isPlace, opens, Bool.and_self, ↓reduceIte, Option.bind_eq_bind,
      Option.bind_some, Option.pure_def]
  · intro name
    unfold ScopeTree.Sees
    rw [Session.opening_sees start ready.inside, Bool.or_eq_true, List.contains_iff_mem,
      List.mem_append, or_comm]
    exact or_congr_right (tracks name)

theorem passes_simple {names : List String} {start : Session} {source : Statement}
    {code : Instruction} (translated : simpleCode? source = some code)
    (reads : simplyReads (start.tree.sees scope) (start.tree.calls scope) code)
    (tracks : Tracks names scope start) : checkAll names [code] = some names := by
  have old : ∀ name, code ≠ .newVariable name := by
    rintro name rfl
    cases reads
  rw [checkAll_single old]
  cases code with
  | breakLoop | continueLoop => rfl
  | returnValue value | halt value =>
    have readsIn := tracks.readsOptionalIn reads
    simp only [check, readsIn, ↓reduceIte]
  | print args =>
    have readsIn := tracks.readsAllIn reads
    simp only [check, readsIn, ↓reduceIte]
  | call name args =>
    simp only [simplyReads, Bool.and_eq_true] at reads
    have readsIn := tracks.readsAllIn reads.2
    simp only [check, readsIn, ↓reduceIte]
  | _ => cases reads

/-- What two blocks gather one after the other is what the names after both of them tell. -/
theorem gathered_trans {names n₁ n₂ : List String} {d₀ d₁ d₂ : List Variable} (more₂ : names ⊆ n₂)
    (gathered₁ : ∀ name, name ∈ names ∨ name ∈ d₁.map (·.name) ↔ name ∈ n₁ ∨ name ∈ d₀.map (·.name))
    (gathered₂ : ∀ name, name ∈ names ∨ name ∈ d₂.map (·.name) ↔ name ∈ n₂ ∨ name ∈ d₁.map (·.name))
    (name : String) :
    name ∈ names ∨ name ∈ d₂.map (·.name) ↔ name ∈ n₁ ++ n₂ ∨ name ∈ d₀.map (·.name) := by
  have absorbed : name ∈ n₂ ∨ name ∈ d₁.map (·.name) ↔
      name ∈ n₂ ∨ name ∈ names ∨ name ∈ d₁.map (·.name) := by
    constructor
    · intro either
      exact either.imp_right .inr
    · intro either
      rcases either with last | known | first
      · exact .inl last
      · exact .inl (more₂ known)
      · exact .inr first
  rw [gathered₂ name, absorbed, gathered₁ name, List.mem_append]
  exact or_left_comm.trans or_assoc.symm

/-- What comes into scope where nothing is included is listed. -/
theorem sees_since {start after : Session} {mark : Nat} {body : List Statement}
    {code : List Instruction} {x : String} (since : mark = start.tree.variableCount scope)
    (inner : Compiles setting depth scope (.statements body code) start after)
    (nothing : Statement.allIncluded body = []) :
    after.tree.Sees scope x ↔
      start.tree.Sees scope x ∨ x ∈ (after.tree.variablesSince scope mark).map (·.name) := by
  have ready := inner.ready
  rw [inner.frame.growth.sees_without_libraries ready.ordered ready.inside
    (inner.noLibrarySince nothing), inner.frame.names_since since, List.mem_append]
  constructor
  · intro either
    rcases either with seen | listed | taken
    · exact .inl seen
    · exact .inl (sees_iff.2 ⟨scope, Searches.self _ scope, listed⟩)
    · exact .inr taken
  · intro either
    exact either.imp_right .inr

theorem sees_forgotten {job : Job} {start after : Session} {x : String}
    (compiles : Compiles setting depth scope job start after) (branch : job.isBranch)
    (nothing : job.included = []) : after.tree.Sees scope x ↔ start.tree.Sees scope x := by
  have without := compiles.noLibrarySince nothing
  rw [compiles.sees_branch branch]
  constructor
  · intro either
    rcases either with seen | ⟨library, new, included, _⟩
    · exact seen
    · exact absurd included (without library new)
  · exact .inl

/-- A block without includes lists what comes into scope in it, and is then forgotten. -/
theorem leaves_branch {names names' : List String} {start after : Session} {mark : Nat}
    {declared : List Variable} {body : List Statement} {code : List Instruction}
    (ready : Ready scope start) (since : mark = start.tree.variableCount scope)
    (inner : Compiles setting depth scope (.statements body code) start after)
    (nothing : Statement.allIncluded body = []) (tracks : Tracks names scope start)
    (tracks' : Tracks names' scope after) :
    Leaves names names' scope (after.withTree (after.tree.dropVariablesSince scope mark))
      (.branch mark declared body code
        (gather declared (after.tree.variablesSince scope mark))) := by
  have whole : Compiles setting depth scope (.branch mark declared body code _) start _ :=
    .branch ready since inner
  have grown : ∀ name, name ∈ names' ↔
      name ∈ names ∨ name ∈ (after.tree.variablesSince scope mark).map (·.name) := by
    intro name
    rw [← tracks' name, ← tracks name]
    exact sees_since since inner nothing
  refine ⟨?_, ?_, ?_⟩
  · intro name
    rw [sees_forgotten whole rfl nothing]
    exact tracks name
  · intro name member
    exact (grown name).2 (.inl member)
  · intro name
    rw [names_gather, grown name, or_assoc]
    exact or_congr_right or_comm

/-- Whatever compiles from a scope that sees given names passes the checker from those names, as
long as no block of an `if` or a `switch` includes anything. -/
theorem checked_of_compiles {job : Job} {start after : Session} {names : List String}
    (compiles : Compiles setting depth scope job start after) (plain : Plain setting job)
    (tracks : Tracks names scope start) :
    ∃ names', Passes names names' job ∧ Leaves names names' scope after job := by
  induction compiles generalizing names with
  | assign ready shaped assigns => exact passes_assignment ready shaped assigns tracks
  | select ready shaped _ _ selects => exact passes_select _ _ _ ready shaped selects tracks
  | simple _ translated reads => exact ⟨names, passes_simple translated reads tracks, tracks⟩
  | @define _ scope start name params _ _ _ _ _ ready inner ih =>
    have innerTracks : Tracks (params.map (·.name.text) ++ names) start.tree.size
        (start.function scope name params) := by
      intro x
      rw [sees_function ready, List.mem_append, or_comm]
      exact or_congr_right (tracks x)
    obtain ⟨_, passes, _⟩ := ih plain innerTracks
    refine ⟨names, checkAll_define name.text passes, ?_⟩
    intro x
    rw [sees_define ready inner.frame]
    exact tracks x
  | defineExternal ready =>
    refine ⟨names, rfl, ?_⟩
    intro x
    rw [sees_external ready]
    exact tracks x
  | ifElse ready evaluates front between back first further final =>
    have all := List.append_eq_nil_iff.1 (List.isEmpty_iff.1 plain.1)
    have both := List.append_eq_nil_iff.1 all.1
    obtain ⟨n₁, passes₁, tracks₁, more₁, gathered₁⟩ := first both.1 tracks
    obtain ⟨n₂, passes₂, tracks₂, more₂, gathered₂⟩ := further both.2 tracks₁
    obtain ⟨n₃, passes₃, tracks₃, more₃, gathered₃⟩ := final all.2 tracks₂
    refine ⟨n₁ ++ n₂ ++ n₃,
      checkAll_ifElse (tracks.readsIn evaluates.reads) passes₁ passes₂ passes₃, ?_⟩
    intro x
    rw [sees_given back.ready_after, tracks₃ x,
      gathered_trans more₃ (gathered_trans more₂ gathered₁ gathered₂) gathered₃ x]
    exact or_iff_left (List.not_mem_nil)
  | whileLoop ready evaluates _ ih =>
    obtain ⟨names', passes, tracks'⟩ := ih plain tracks
    exact ⟨names', checkAll_whileLoop (tracks.readsIn evaluates.reads) passes, tracks'⟩
  | @foreach _ scope start _ _ _ _ _ _ _ ready evaluates inner ih =>
    have innerTracks : Tracks ("it" :: names) start.tree.size (start.loop scope) := by
      intro x
      rw [sees_loop ready, List.mem_cons, or_comm]
      exact or_congr_right (tracks x)
    obtain ⟨_, passes, _⟩ := ih plain innerTracks
    refine ⟨names, checkAll_foreach (tracks.readsIn evaluates.reads) passes, ?_⟩
    intro x
    rw [sees_afterLoop ready inner.frame]
    exact tracks x
  | switch ready evaluates front back first final =>
    have both := List.append_eq_nil_iff.1 (List.isEmpty_iff.1 plain.1)
    obtain ⟨n₁, passes₁, tracks₁, more₁, gathered₁⟩ := first both.1 tracks
    obtain ⟨n₂, passes₂, tracks₂, more₂, gathered₂⟩ := final both.2 tracks₁
    refine ⟨n₁ ++ n₂, checkAll_switch (tracks.readsIn evaluates.reads) passes₁ passes₂, ?_⟩
    intro x
    rw [sees_given back.ready_after, tracks₂ x, gathered_trans more₂ gathered₁ gathered₂ x]
    exact or_iff_left (List.not_mem_nil)
  | includes _ _ ih => exact ih plain.2 tracks
  | block _ _ ih => exact ih plain tracks
  | noStatement | noLibrary | knownLibrary => exact ⟨names, rfl, tracks⟩
  | @moreStatements _ _ _ _ code _ _ restCode _ ready front back head tail =>
    have parts := plain.of_cons code restCode
    obtain ⟨n₁, passes₁, tracks₁⟩ := head parts.1 tracks
    obtain ⟨n₂, passes₂, tracks₂⟩ := tail parts.2 tracks₁
    exact ⟨n₂, (checkAll_append restCode passes₁).trans passes₂, tracks₂⟩
  | @moreLibraries _ _ _ _ _ _ _ restCode _ ready front back head tail =>
    have parts := LibrariesPlain.of_cons plain
    obtain ⟨n₁, passes₁, tracks₁⟩ := head parts.1 tracks
    obtain ⟨n₂, passes₂, tracks₂⟩ := tail parts.2 tracks₁
    exact ⟨n₂, (checkAll_append restCode passes₁).trans passes₂, tracks₂⟩
  | @newLibrary _ scope start name path text program code after ready _ found _ loaded
      read inner ih =>
    have innerTracks : Tracks names start.tree.size
        (start.inLibrary scope name path program.file) := by
      intro x
      rw [sees_inLibrary ready]
      exact tracks x
    have used := plain name (List.mem_singleton_self _) program ⟨path, text, found, loaded, read⟩
    obtain ⟨names', passes, tracks'⟩ := ih (.of_uses used code) innerTracks
    refine ⟨names', passes, ?_⟩
    intro x
    show after.tree.Sees scope x ↔ x ∈ names'
    rw [sees_library ready inner.frame]
    exact tracks' x
  | @branch depth scope start mark declared body code after ready since inner ih =>
    obtain ⟨names', passes, tracks'⟩ := ih (.of_included plain code) tracks
    exact ⟨names', passes, leaves_branch ready since inner plain tracks tracks'⟩
  | noElif | noCase | noLast =>
    refine ⟨names, rfl, tracks, fun _ member => member, ?_⟩
    intro x
    exact Iff.rfl
  | moreElifs ready since evaluates front back head tail =>
    have both := List.append_eq_nil_iff.1 plain
    obtain ⟨n₁, passes₁, tracks₁, more₁, gathered₁⟩ := head both.1 tracks
    obtain ⟨n₂, passes₂, tracks₂, more₂, gathered₂⟩ := tail both.2 tracks₁
    refine ⟨n₁ ++ n₂, checkElifs_cons (tracks.readsIn evaluates.reads) passes₁ passes₂, tracks₂,
      ?_, gathered_trans more₂ gathered₁ gathered₂⟩
    intro name member
    exact List.mem_append_left _ (more₁ member)
  | @moreCases _ _ _ _ _ _ _ _ label _ _ _ _ _ _ _ _ _ ready since apart front back head tail =>
    have both := List.append_eq_nil_iff.1 plain
    obtain ⟨n₁, passes₁, tracks₁, more₁, gathered₁⟩ := head both.1 tracks
    obtain ⟨n₂, passes₂, tracks₂, more₂, gathered₂⟩ := tail both.2 tracks₁
    refine ⟨n₁ ++ n₂, checkCases_cons label passes₁ passes₂, tracks₂, ?_,
      gathered_trans more₂ gathered₁ gathered₂⟩
    intro name member
    exact List.mem_append_left _ (more₁ member)
  | someLast _ _ _ ih => exact ih plain tracks

/-- The code of every source without includes in the blocks of an `if` or a `switch` passes the
checker from the reserved names. -/
theorem sourceText_checked {setting : Setting} {text file : String} {reserved : List String}
    {code : List Instruction} (success : sourceText setting text file reserved = .ok code)
    (plain : ∀ program, Program.ofSource text file = .ok program →
      ∀ used, Uses setting program used → used.plainBranches) :
    ∃ names, checkAll (reservedNames reserved) code = some names := by
  obtain ⟨source, body, after, read, compiles, rfl⟩ := Compiles.of_sourceText success
  have bodyPlain : Plain setting (.statements source.statements body) :=
    .of_uses (plain source read) body
  obtain ⟨names, passes, _⟩ := checked_of_compiles compiles bodyPlain (sees_reservedTree reserved)
  exact ⟨names, (checkAll_append [.finalHalt] passes).trans (checkAll_finalHalt names)⟩

/-- Two branches that declare the same name, which is read after them. -/
theorem sourceText_checked_siblings :
    ∃ code, sourceText ⟨.empty, []⟩ "if c \x7b x = 1; \x7d else \x7b x = 2; \x7d print(x);"
      "main.mcl" [" c "] =
      .ok code ∧ ∃ names, checkAll (reservedNames [" c "]) code = some names := by
  have success : sourceText ⟨.empty, []⟩ "if c \x7b x = 1; \x7d else \x7b x = 2; \x7d print(x);"
    "main.mcl" [" c "] = .ok [.ifElse (.loadVariable "c" [])
          [.newVariable "x", .storeVariable (.loadVariable "x" [])
            (.loadConstant (.integer 1)) false]
          []
          [.newVariable "x", .storeVariable (.loadVariable "x" [])
            (.loadConstant (.integer 2)) false],
        .print [.loadVariable "x" []], .finalHalt] := by cbv
  refine ⟨_, success, sourceText_checked success ?_⟩
  intro program read used uses
  have nothing : (Program.ofSource "if c \x7b x = 1; \x7d else \x7b x = 2; \x7d print(x);"
    "main.mcl").map (Statement.allIncluded ·.statements) = .ok [] := by cbv
  rw [read] at nothing
  exact uses.plainBranches (Except.ok.inj nothing)

end Scoping

end Treecode
