import Treecode.Proofs.Declared
import Treecode.Proofs.GivenNames
import Treecode.Proofs.TwoScopes

set_option autoImplicit false

namespace Treecode

namespace Instruction

open Demand

def declares (known : String → Bool) : Instruction → Bool
  | .newVariable name => known name
  | _ => false

mutual

/-- An instruction without the declarations of some names in its blocks. -/
def without (known : String → Bool) : Instruction → Instruction
  | .ifElse condition body elifs otherwise =>
    .ifElse condition (allWithout known body) (elifsWithout known elifs)
      (allWithout known otherwise)
  | .whileLoop condition body => .whileLoop condition (allWithout known body)
  | .foreach iterable body => .foreach iterable (allWithout known body)
  | .switch head cases otherwise =>
    .switch head (casesWithout known cases) (allWithout known otherwise)
  | .define name params body => .define name params (allWithout known body)
  | other => other

def allWithout (known : String → Bool) : List Instruction → List Instruction
  | [] => []
  | first :: rest =>
    if first.declares known then allWithout known rest
    else first.without known :: allWithout known rest

def elifsWithout (known : String → Bool) :
    List (Instruction × List Instruction) → List (Instruction × List Instruction)
  | [] => []
  | (condition, body) :: rest => (condition, allWithout known body) :: elifsWithout known rest

def casesWithout (known : String → Bool) :
    List (Value × List Instruction) → List (Value × List Instruction)
  | [] => []
  | (label, body) :: rest => (label, allWithout known body) :: casesWithout known rest

end

variable {known : String → Bool}

theorem allWithout_append (first second : List Instruction) :
    allWithout known (first ++ second) = allWithout known first ++ allWithout known second := by
  induction first with
  | nil => rfl
  | cons i rest ih =>
    simp only [List.cons_append, allWithout, ih]
    split
    · rfl
    · rfl

mutual

theorem gives_without {d : Demand} (unknown : ∀ x, d = .seen x → known x = false) (i : Instruction)
    (member : d ∈ i.gives) : i.declares known = false ∧ d ∈ (i.without known).gives := by
  cases i with
  | newVariable name => exact ⟨unknown name (List.mem_singleton.1 member), member⟩
  | ifElse condition body elifs otherwise =>
    simp only [gives, without, List.mem_append] at member ⊢
    exact ⟨rfl, member.imp (.imp (allGive_without unknown body) (elifsGive_without unknown elifs))
      (allGive_without unknown otherwise)⟩
  | whileLoop condition body => exact ⟨rfl, allGive_without unknown body member⟩
  | switch head cases default =>
    simp only [gives, without, List.mem_append] at member ⊢
    exact ⟨rfl, member.imp (casesGive_without unknown cases) (allGive_without unknown default)⟩
  | select | define | defineExternal => exact ⟨rfl, member⟩
  | _ => cases member

theorem allGive_without {d : Demand} (unknown : ∀ x, d = .seen x → known x = false)
    (is : List Instruction) (member : d ∈ allGive is) : d ∈ allGive (allWithout known is) := by
  cases is with
  | nil => cases member
  | cons first rest =>
    rw [allWithout]
    rcases List.mem_append.1 member with own | other
    · obtain ⟨kept, given⟩ := gives_without unknown first own
      rw [if_neg (Bool.eq_false_iff.1 kept)]
      exact List.mem_append_left _ given
    · have further := allGive_without unknown rest other
      split
      · exact further
      · exact List.mem_append_right _ further

theorem elifsGive_without {d : Demand} (unknown : ∀ x, d = .seen x → known x = false)
    (elifs : List (Instruction × List Instruction)) (member : d ∈ elifsGive elifs) :
    d ∈ elifsGive (elifsWithout known elifs) := by
  cases elifs with
  | nil => cases member
  | cons first rest =>
    exact List.mem_append.2 ((List.mem_append.1 member).imp (allGive_without unknown first.2)
      (elifsGive_without unknown rest))

theorem casesGive_without {d : Demand} (unknown : ∀ x, d = .seen x → known x = false)
    (cases : List (Value × List Instruction)) (member : d ∈ casesGive cases) :
    d ∈ casesGive (casesWithout known cases) := by
  cases cases with
  | nil => cases member
  | cons first rest =>
    exact List.mem_append.2 ((List.mem_append.1 member).imp (allGive_without unknown first.2)
      (casesGive_without unknown rest))

end

end Instruction

namespace Compile

open ScopeTree Relation Instruction Demand

variable {setting : Setting} {depth depth' scope scope' : Nat} {start start' after after' : Session}

/-- A piece of source with the code of another one, but for the declarations of known names, and
with other variables gathered before it and after it. -/
def Job.again (known : String → Bool) (mark : Nat) (declared gathered : List Variable) : Job → Job
  | .statement source code => .statement source (allWithout known code)
  | .statements source code => .statements source (allWithout known code)
  | .libraries names code => .libraries names (allWithout known code)
  | .library name code => .library name (allWithout known code)
  | .branch _ _ source code _ => .branch mark declared source (allWithout known code) gathered
  | .elifs _ _ source code _ => .elifs mark declared source (elifsWithout known code) gathered
  | .cases _ _ labels source code _ =>
    .cases mark declared labels source (casesWithout known code) gathered
  | .last _ _ source code _ => .last mark declared source (allWithout known code) gathered

/-- Libraries may be included: the program that does so is one that can be compiled, they lead to no
cycle, and there is room for them. -/
structure MayInclude (setting : Setting) (main : Program) (including : List String) (depth : Nat)
    (tokens : List Token) : Prop where
  named : ∃ program, UnderWay setting main including program ∧
    ∀ token ∈ tokens, token ∈ Statement.allIncluded program.statements
  clear : ∀ token ∈ tokens, ∀ later, ReflTransGen (LeadsTo setting) token.text later →
    ¬ OnCycle setting later
  room : setting.searchPath.length * setting.files.nodes.length < depth + including.length

variable {main : Program} {including : List String} {known : String → Bool}

theorem MayInclude.left {first last : List Token}
    (may : MayInclude setting main including depth (first ++ last)) :
    MayInclude setting main including depth first := by
  obtain ⟨⟨program, under, named⟩, clear, room⟩ := may
  exact ⟨⟨program, under, fun token member => named token (List.mem_append_left _ member)⟩,
    fun token member => clear token (List.mem_append_left _ member), room⟩

theorem MayInclude.right {first last : List Token}
    (may : MayInclude setting main including depth (first ++ last)) :
    MayInclude setting main including depth last := by
  obtain ⟨⟨program, under, named⟩, clear, room⟩ := may
  exact ⟨⟨program, under, fun token member => named token (List.mem_append_right _ member)⟩,
    fun token member => clear token (List.mem_append_right _ member), room⟩

/-- A library that may be included is not under way. -/
theorem MayInclude.apart {tokens : List Token} {token : Token} {path : String}
    (may : MayInclude setting main including depth tokens)
    (proper : Statement.AllRegular .lexed main.statements) (member : token ∈ tokens)
    (found : Library.find? setting.files setting.searchPath token.text = some path) :
    including.any (Path.same path) = false := by
  obtain ⟨⟨program, under, named⟩, clear, _⟩ := may
  rw [Bool.eq_false_iff]
  intro known
  have isName :=
    (Statement.name_of_allIncluded _ (under.spelled proper) (named token member)).isName
  exact clear token member _ .refl (under.onCycle proper (named token member) isName found known)

theorem MayInclude.inner {tokens : List Token} {token : Token} {path text : String}
    {library : Program} (may : MayInclude setting main including (depth + 1) tokens)
    (proper : Statement.AllRegular .lexed main.statements) (member : token ∈ tokens)
    (found : Library.find? setting.files setting.searchPath token.text = some path)
    (loaded : Library.load setting.files path = .ok text)
    (read : Program.ofSource text path = .ok library) :
    MayInclude setting main (path :: including) depth
      (Statement.allIncluded library.statements) := by
  have apart := may.apart proper member found
  obtain ⟨⟨program, under, named⟩, clear, room⟩ := may
  refine ⟨⟨library, .library under (named token member) found apart loaded read,
    fun _ inside => inside⟩, ?_, ?_⟩
  · intro next inside later way
    exact clear token member later
      (.head ⟨library, ⟨path, text, found, loaded, read⟩, next, inside, rfl⟩ way)
  · rw [List.length_cons]
    omega

/-- Where libraries may be included, there is room for one. -/
theorem MayInclude.depth_pos {tokens : List Token}
    (may : MayInclude setting main including depth tokens)
    (proper : Statement.AllRegular .lexed main.statements) : 0 < depth := by
  obtain ⟨⟨program, under, _⟩, _, room⟩ := may
  have bound := under.length_le proper
  omega

theorem allWithout_assignmentCode (isNew : Bool) (name : String) (operation : Option Opcode)
    (target value : Instruction) (append : Bool) :
    allWithout known (assignmentCode isNew name operation target value append) =
      assignmentCode (isNew && !known name) name operation target value append := by
  unfold assignmentCode
  cases isNew <;> cases fresh : known name <;>
    simp only [allWithout, declares, without, fresh, Bool.false_and, Bool.true_and, Bool.not_true,
      Bool.not_false, Bool.false_eq_true, ↓reduceIte, List.nil_append, List.cons_append]

/-- Where libraries may be included, they may be included after something else compiled. -/
theorem MayInclude.later {tokens : List Token}
    (may : MayInclude setting main start.including depth tokens)
    (frame : Frame scope start after) : MayInclude setting main after.including depth tokens := by
  rw [frame.including]
  exact may

/-- A statement that changes no scopes declares nothing. -/
theorem allWithout_simple {sees calls : String → Bool} {code : Instruction}
    (reads : Compile.simplyReads sees calls code) : allWithout known [code] = [code] := by
  cases code with
  | breakLoop | continueLoop | returnValue | halt | print | call => rfl
  | _ => cases reads

variable {d : Difference} {barred : String → Prop} {job : Job} {mark : Nat}
    {declared gathered : List Variable}

theorem Job.stored_mem_gives (job : Job) (x : String) : .stored x ∉ job.gives := by
  cases job with
  | elifs => exact stored_mem_elifsGive x _
  | cases => exact stored_mem_casesGive x _
  | _ => exact stored_mem_allGive x _

/-- What the code of a piece of source gives, but for known names, is there where it has compiled
again. -/
theorem Compiles.gives_again
    (compiles : Compiles setting depth scope (job.again d.known mark declared gathered)
      start after) :
    (∀ x, d.lost x → .seen x ∈ job.gives →
      after.tree.Sees scope x ∨
        x ∈ (job.again d.known mark declared gathered).gathered.map (·.name)) ∧
    (∀ f, .called f ∈ job.gives → after.tree.Calls scope f) := by
  have gives : ∀ e, (∀ x, e = .seen x → d.known x = false) → e ∈ job.gives →
      e ∈ (job.again d.known mark declared gathered).gives := by
    intro e unknown member
    cases job with
    | elifs => exact elifsGive_without unknown _ member
    | cases => exact casesGive_without unknown _ member
    | _ => exact allGive_without unknown _ member
  constructor
  · intro x lost member
    refine compiles.provides.seen x (gives _ ?_ member)
    intro name same
    cases same
    exact d.apart x lost
  · intro f member
    exact compiles.provides.called f (gives _ nofun member)

theorem Job.isBranch_again (job : Job) :
    (job.again known mark declared gathered).isBranch = job.isBranch := by
  cases job with
  | _ => rfl

/-- Outside of the blocks of an `if` or a `switch` nothing is gathered. -/
theorem Job.gathered_nil (plain : job.isBranch = false) : job.gathered = [] := by
  cases job with
  | branch | elifs | cases | last => cases plain
  | _ => rfl

theorem Job.declared_nil (plain : job.isBranch = false) : job.declared = [] := by
  cases job with
  | branch | elifs | cases | last => cases plain
  | _ => rfl

/-- After a piece of source has compiled again, the second scope meets what code after it asks
for. -/
theorem Meets.later {demands inner : List Demand} (meets : Meets d barred demands scope start)
    (compiles : Compiles setting depth scope (job.again d.known mark declared gathered) start after)
    (plain : job.isBranch = false)
    (split : ∀ e ∈ inner, e ∈ demands ∨ e ∈ job.gives) : Meets d barred inner scope after := by
  obtain ⟨seen, called⟩ := compiles.gives_again
  have growth := compiles.frame.growth
  refine meets.through split (fun _ => growth.sees compiles.ready.inside)
    (fun _ => growth.calls compiles.ready.ordered compiles.ready.inside) (fun _ => id)
      (fun x lost member => ?_)
    called (fun x member => absurd member (job.stored_mem_gives x))
  refine (seen x lost member).resolve_right fun listed => ?_
  rw [Job.gathered_nil (job.isBranch_again.trans plain)] at listed
  cases listed

/-- After a block only its functions are met for sure. -/
theorem Meets.block {demands inner : List Demand} (meets : Meets d barred demands scope start)
    (compiles : Compiles setting depth scope (job.again d.known mark declared gathered) start after)
    (split : ∀ e ∈ inner, e ∈ demands ∨ e ∈ lasting true job.gives) :
    Meets d barred inner scope after := by
  obtain ⟨_, called⟩ := compiles.gives_again
  have growth := compiles.frame.growth
  exact meets.through split (fun _ => growth.sees compiles.ready.inside)
    (fun _ => growth.calls compiles.ready.ordered compiles.ready.inside) (fun _ => id)
    (fun _ _ member => absurd member seen_mem_lasting_true)
    (fun f member => called f (called_mem_lasting.1 member))
    fun x member => absurd (lasting_subset member) (job.stored_mem_gives x)

theorem Meets.function {name : Token} {params : List Parameter} {code : List Instruction}
    (meets : Meets d barred
      (allDemand true [.define name.text (params.map (·.name.text)) code]) scope start)
      (ready : Ready scope start) :
    Meets d (fun x => barred x ∨ x ∈ params.map (·.name.text)) (allDemand true code) start.tree.size
      (start.function scope name params) := by
  rw [allDemand_single, demands] at meets
  refine meets.through (fun e => mem_or_mem_remaining)
    (fun x seen => (sees_function ready _ _).2 (.inl seen))
    (fun f called => (calls_function ready _ _).2 (.inl called)) (fun _ => .inl)
    (fun x _ member => ?_) (fun f member => ?_) (fun x member => ?_)
  · exact (sees_function ready _ _).2 (.inr (seen_mem_function.1 member))
  · exact (calls_function ready _ _).2 (.inr (called_mem_function.1 member))
  · exact .inr (stored_mem_function.1 member)

theorem Meets.inLibrary {demands : List Demand} (meets : Meets d barred demands scope start)
    (ready : Ready scope start) (name : Token) (path file : String) :
    Meets d barred demands start.tree.size (start.inLibrary scope name path file) :=
  meets.through (fun _ => .inl) (fun _ => (sees_inLibrary ready _ _ _).2)
    (fun _ => (calls_inLibrary ready _ _ _).2)
    (fun _ => id) (fun _ _ member => absurd member List.not_mem_nil)
      (fun _ member => absurd member List.not_mem_nil)
    fun _ member => absurd member List.not_mem_nil

theorem Meets.loop {iterable : Instruction} {code : List Instruction}
    (meets : Meets d barred (allDemand true [.foreach iterable code]) scope start)
    (ready : Ready scope start) :
    Meets d (fun x => barred x ∨ x ∈ ["it"]) (allDemand true code) start.tree.size
      (start.loop scope) := by
  rw [allDemand_single, demands] at meets
  refine meets.through (fun e member =>
    (mem_or_mem_remaining member).imp_left (List.mem_append_right _))
    (fun x seen => (sees_loop ready).2 (.inl seen)) (fun f => (calls_loop ready).2) (fun _ => .inl)
    (fun x _ member => ?_) (fun f member => absurd member called_mem_bound) (fun x member => ?_)
  · exact (sees_loop ready).2 (.inr (List.mem_singleton.1 (seen_mem_bound.1 member)))
  · exact .inr (stored_mem_bound.1 member)

/-- Wherever a second scope meets what the code of a piece of source asks for and does not know the
names of its constants, the piece compiles again, and the scopes stay alike. -/
def Repeats (setting : Setting) (main : Program) (d : Difference) (scope : Nat) (job : Job)
    (start after : Session) : Prop :=
  ∀ ⦃depth' scope' mark : Nat⦄ ⦃start' : Session⦄ ⦃declared : List Variable⦄
    ⦃barred : String → Prop⦄, Ready scope' start' → Alike d barred scope start scope' start' →
    (job.isBranch → mark = start'.tree.variableCount scope') →
    Gathers d barred scope start scope' start' job.declared declared →
    MayInclude setting main start'.including depth' job.included →
    Allows setting (fun entry => entry.2 = true → d.known entry.1 = false) job.assigned
      job.included →
    Meets d barred (job.demands true) scope' start' →
    ∃ gathered after', Compiles setting depth' scope' (job.again d.known mark declared gathered)
      start' after' ∧ Alike d barred scope after scope' after' ∧
      Gathers d barred scope after scope' after' job.gathered gathered

variable {middle later : Session} {first second : Job} {asked : List Demand}

/-- Outside of the blocks of an `if` or a `switch` it does not matter what is gathered. -/
theorem Repeats.plain (repeats : Repeats setting main d scope job start after)
    (plain : job.isBranch = false) (ready' : Ready scope' start')
    (alike : Alike d barred scope start scope' start')
    (may : MayInclude setting main start'.including depth' job.included)
    (allows : Allows setting (fun entry => entry.2 = true → d.known entry.1 = false) job.assigned
      job.included)
    (meets : Meets d barred (job.demands true) scope' start') :
    ∃ gathered after', Compiles setting depth' scope' (job.again d.known 0 [] gathered)
      start' after' ∧ Alike d barred scope after scope' after' := by
  have unmarked : job.isBranch → 0 = start'.tree.variableCount scope' := by
    intro branch
    rw [plain] at branch
    cases branch
  have gathers : Gathers d barred scope start scope' start' job.declared [] := by
    rw [Job.declared_nil plain]
    exact alike.gathers_nothing
  obtain ⟨gathered, after', compiles', done, _⟩ :=
    repeats ready' alike unmarked gathers may allows meets
  exact ⟨gathered, after', compiles', done⟩

/-- Two pieces of source compile again one after the other: the second one also meets what the code
of the first one gives. -/
theorem Repeats.inTurn (head : Repeats setting main d scope first start middle)
    (tail : Repeats setting main d scope second middle after) (plain : first.isBranch = false)
    (plain' : second.isBranch = false) (ready' : Ready scope' start')
    (alike : Alike d barred scope start scope' start')
    (may : MayInclude setting main start'.including depth' (first.included ++ second.included))
    (allows : Allows setting (fun entry => entry.2 = true → d.known entry.1 = false)
      (first.assigned ++ second.assigned) (first.included ++ second.included))
    (meets : Meets d barred asked scope' start') (own : ∀ e ∈ first.demands true, e ∈ asked)
    (split : ∀ e ∈ second.demands true, e ∈ asked ∨ e ∈ first.gives) :
    ∃ gathered gathered' middle' after',
      Compiles setting depth' scope' (first.again d.known 0 [] gathered) start' middle' ∧
      Compiles setting depth' scope' (second.again d.known 0 [] gathered') middle' after' ∧
      Alike d barred scope after scope' after' := by
  obtain ⟨_, middle', head', alike₁⟩ :=
    head.plain plain ready' alike may.left allows.left (meets.part own)
  obtain ⟨_, after', tail', alike₂⟩ := tail.plain plain' head'.ready_after alike₁
    (may.later head'.frame).right allows.right (meets.later head' plain split)
  exact ⟨_, _, middle', after', head', tail', alike₂⟩

/-- Two blocks compile again one after the other: only the functions of the first one are met in the
second one, and that one goes on with the variables gathered so far. -/
theorem Repeats.inBlocks (head : Repeats setting main d scope first start middle)
    (tail : Repeats setting main d scope second middle after) (branch : first.isBranch)
    (between : second.declared = first.gathered) (ready' : Ready scope' start')
    (alike : Alike d barred scope start scope' start')
    (since : mark = start'.tree.variableCount scope')
    (gathers : Gathers d barred scope start scope' start' first.declared declared)
    (may : MayInclude setting main start'.including depth' (first.included ++ second.included))
    (allows : Allows setting (fun entry => entry.2 = true → d.known entry.1 = false)
      (first.assigned ++ second.assigned) (first.included ++ second.included))
    (meets : Meets d barred asked scope' start') (own : ∀ e ∈ first.demands true, e ∈ asked)
    (split : ∀ e ∈ second.demands true, e ∈ asked ∨ e ∈ lasting true first.gives) :
    ∃ declared' gathered middle' after',
      Compiles setting depth' scope' (first.again d.known mark declared declared')
        start' middle' ∧
      Compiles setting depth' scope' (second.again d.known mark declared' gathered)
        middle' after' ∧
      Alike d barred scope after scope' after' ∧
      Gathers d barred scope after scope' after' second.gathered gathered := by
  obtain ⟨_, middle', head', alike₁, gathers₁⟩ :=
    head ready' alike (fun _ => since) gathers may.left allows.left (meets.part own)
  rw [← between] at gathers₁
  have marked := head'.since_after (first.isBranch_again.trans branch) since
  obtain ⟨_, after', tail', alike₂, gathers₂⟩ := tail head'.ready_after alike₁ (fun _ => marked)
    gathers₁ (may.later head'.frame).right allows.right (meets.block head' split)
  exact ⟨_, _, middle', after', head', tail', alike₂, gathers₂⟩

variable {word name brace : Token} {condition : Expression} {conditionCode : Instruction}
  {body : List Statement} {code : List Instruction}

theorem Repeats.assign {target value : Expression} {operator : Token} {append constant : Bool}
    {operation : Option Opcode} {targetCode valueCode : Instruction} (ready : Ready scope start)
    (shaped : target.isVariable)
    (assigns : Assigns start scope target operator value append constant operation targetCode
      valueCode) :
    Repeats setting main d scope (.statement (.assign target operator value append constant)
      (assignmentCode (!start.tree.sees scope target.token.text) target.token.text operation
        targetCode valueCode append)) start
      (start.afterAssignment scope target value append constant) := by
  intro depth' scope' mark start' declared barred ready' alike _ _ _ allows meets
  obtain ⟨assigns', seen⟩ :=
    alike.assigns ready ready' shaped meets (allows.own _ (List.mem_singleton.2 rfl)) assigns
  have further := alike.afterAssignment ready ready' value append constant seen
  refine ⟨[], _, ?_, further.settled⟩
  simp only [Job.again, allWithout_assignmentCode]
  rw [← Bool.not_or, ← seen]
  exact .assign ready' shaped assigns'

theorem Repeats.simple {source : Statement} {i : Instruction}
    (translated : simpleCode? source = some i)
    (reads : simplyReads (start.tree.sees scope) (start.tree.calls scope) i) :
    Repeats setting main d scope (.statement source [i]) start start := by
  intro depth' scope' mark start' declared barred ready' alike _ _ _ _ meets
  have meets : Meets d barred (allDemand true [i]) scope' start' := meets
  rw [allDemand_single] at meets
  obtain ⟨shaped, asked⟩ := (simplyReads_iff i true).1 reads
  refine ⟨[], start', ?_, alike.settled⟩
  simp only [Job.again, allWithout_simple reads]
  exact .simple ready' translated
    ((simplyReads_iff i true).2
      ⟨shaped, fun e member => alike.met meets member (asked e member)⟩)

theorem Repeats.define {params : List Parameter} {result : Kind} (ready : Ready scope start)
    (inner : Compiles setting depth start.tree.size (.statements body code)
      (start.function scope name params) after)
    (again : Repeats setting main d start.tree.size (.statements body code)
      (start.function scope name params) after) :
    Repeats setting main d scope
      (.statement (.define name params result (.block (.mk brace body)))
        [.define name.text (params.map (·.name.text)) code]) start
      (after.defined start.tree.size (.define name.text (params.map (·.name.text)) code)) := by
  intro depth' scope' mark start' declared barred ready' alike _ _ may allows meets
  obtain ⟨_, after', inner', _⟩ := again.plain rfl (ready'.function _ _)
    (alike.function ready ready' name params) may allows (meets.function ready')
  exact ⟨[], _, .define ready' inner',
    (alike.define ready ready' inner.frame inner'.frame _ _).settled⟩

theorem Repeats.ifElse {bodyCode lastCode : List Instruction} {elifs : List Clause}
    {elifCode : List (Instruction × List Instruction)} {otherwise : Option LastClause}
    {declared' declared'' : List Variable}
    (evaluates : Evaluates start scope condition conditionCode)
    (ready : Ready scope after)
    (first : Repeats setting main d scope
      (.branch (start.tree.variableCount scope) [] body bodyCode declared) start middle)
    (further : Repeats setting main d scope
      (.elifs (start.tree.variableCount scope) declared elifs elifCode declared') middle later)
    (final : Repeats setting main d scope
      (.last (start.tree.variableCount scope) declared' otherwise lastCode declared'')
        later after) :
    Repeats setting main d scope
      (.statement (.ifElse word condition (.mk brace body) elifs otherwise)
        [.ifElse conditionCode bodyCode elifCode lastCode]) start
      (after.withTree (after.tree.addVariables scope declared'')) := by
  intro depth' scope' mark start' declared barred ready' alike _ _ may allows meets
  have may : MayInclude setting main start'.including depth' (Statement.allIncluded body ++
      Clause.allIncluded elifs ++ LastClause.optionIncluded otherwise) := may
  have allows : Allows setting (fun entry => entry.2 = true → d.known entry.1 = false)
      (Statement.allAssigned body ++ Clause.allAssigned elifs ++
        LastClause.optionAssigned otherwise)
      (Statement.allIncluded body ++ Clause.allIncluded elifs ++
        LastClause.optionIncluded otherwise) := allows
  have meets : Meets d barred (allDemand true [.ifElse conditionCode bodyCode elifCode lastCode])
      scope' start' := meets
  rw [List.append_assoc] at may
  rw [List.append_assoc, List.append_assoc] at allows
  rw [allDemand_single, demands] at meets
  obtain ⟨_, middle', front', alike₁, gathers₁⟩ :=
    first ready' alike (fun _ => rfl) alike.gathers_nothing may.left allows.left
    (meets.part fun e member =>
      List.mem_append_left _ (List.mem_append_left _ (List.mem_append_right _ member)))
  have meets₁ : Meets d barred (elifsDemand true elifCode ++
      remaining (lasting true (elifsGive elifCode)) (allDemand true lastCode))
        scope' middle' := by
    refine meets.block front' fun e member => (mem_after_block member).imp_left fun left => ?_
    rw [List.append_assoc]
    exact List.mem_append_right _ left
  obtain ⟨_, _, _, _, between', back', alike₂, gathers₂⟩ := further.inBlocks final rfl rfl
    front'.ready_after alike₁ (front'.since_after rfl rfl) gathers₁
    (may.later front'.frame).right allows.right meets₁ (fun e => List.mem_append_left _)
    fun e member => (mem_or_mem_remaining member).imp_left (List.mem_append_right _)
  have given := alike₂.given ready back'.ready_after gathers₂
  refine ⟨[], _, .ifElse ready' (alike.evaluates (meets.part fun e member => ?_) evaluates) front'
    between' back', given.settled⟩
  exact List.mem_append_left _ (List.mem_append_left _ (List.mem_append_left _ member))

theorem Repeats.whileLoop (evaluates : Evaluates start scope condition conditionCode)
    (again : Repeats setting main d scope (.statements body code) start after) :
    Repeats setting main d scope
      (.statement (.whileLoop word condition (.mk brace body)) [.whileLoop conditionCode code])
      start after := by
  intro depth' scope' mark start' declared barred ready' alike _ _ may allows meets
  have meets : Meets d barred (allDemand true [.whileLoop conditionCode code]) scope' start' :=
    meets
  rw [allDemand_single, demands] at meets
  obtain ⟨_, after', inner', done⟩ := again.plain rfl ready' alike may allows
    (meets.part fun e => List.mem_append_right _)
  exact ⟨[], _, .whileLoop ready'
    (alike.evaluates (meets.part fun e => List.mem_append_left _) evaluates) inner', done.settled⟩

theorem Repeats.foreach (ready : Ready scope start)
    (evaluates : Evaluates start scope condition conditionCode)
    (inner : Compiles setting depth start.tree.size (.statements body code)
      (start.loop scope) after)
    (again : Repeats setting main d start.tree.size (.statements body code)
      (start.loop scope) after) :
    Repeats setting main d scope
      (.statement (.foreach word condition (.mk brace body)) [.foreach conditionCode code]) start
      (after.withTree (after.tree.discardChild scope start.tree.size)) := by
  intro depth' scope' mark start' declared barred ready' alike _ _ may allows meets
  obtain ⟨_, after', inner', _⟩ := again.plain rfl ready'.loop (alike.loop ready ready') may allows
    (meets.loop ready')
  have meets : Meets d barred (allDemand true [.foreach conditionCode code]) scope' start' := meets
  rw [allDemand_single, demands] at meets
  have further := alike.afterLoop ready ready' inner.frame inner'.frame
  exact ⟨[], _, .foreach ready'
    (alike.evaluates (meets.part fun e => List.mem_append_left _) evaluates) inner',
    further.settled⟩

theorem Repeats.switch {cases : List Clause} {caseCode : List (Value × List Instruction)}
    {default : Option LastClause} {lastCode : List Instruction} {declared' : List Variable}
    (evaluates : Evaluates start scope condition conditionCode) (ready : Ready scope after)
    (first : Repeats setting main d scope
      (.cases (start.tree.variableCount scope) [] [] cases caseCode declared) start middle)
    (final : Repeats setting main d scope
      (.last (start.tree.variableCount scope) declared default lastCode declared')
        middle after) :
    Repeats setting main d scope
      (.statement (.switch word condition cases default) [.switch conditionCode caseCode lastCode])
      start (after.withTree (after.tree.addVariables scope declared')) := by
  intro depth' scope' mark start' declared barred ready' alike _ _ may allows meets
  have meets : Meets d barred (allDemand true [.switch conditionCode caseCode lastCode])
      scope' start' := meets
  rw [allDemand_single, demands] at meets
  obtain ⟨_, _, _, _, front', back', done, gathers⟩ := first.inBlocks final rfl rfl ready' alike
    rfl alike.gathers_nothing may allows meets
    (fun e member => List.mem_append_left _ (List.mem_append_right _ member))
    fun e member => (mem_or_mem_remaining member).imp_left (List.mem_append_right _)
  have given := done.given ready back'.ready_after gathers
  refine ⟨[], _, .switch ready' (alike.evaluates (meets.part fun e member => ?_) evaluates) front'
    back', given.settled⟩
  exact List.mem_append_left _ (List.mem_append_left _ member)

theorem Repeats.moreStatements {source : Statement} {rest : List Statement}
    {restCode : List Instruction}
    (head : Repeats setting main d scope (.statement source code) start middle)
    (tail : Repeats setting main d scope (.statements rest restCode) middle after) :
    Repeats setting main d scope (.statements (source :: rest) (code ++ restCode))
      start after := by
  intro depth' scope' mark start' declared barred ready' alike _ _ may allows meets
  obtain ⟨_, _, _, _, head', tail', done⟩ := head.inTurn tail rfl rfl ready' alike may allows meets
    (fun e member => mem_allDemand_append.2 (.inl member)) fun e => mem_allDemand_or
  refine ⟨[], _, ?_, done.settled⟩
  simp only [Job.again, allWithout_append]
  exact .moreStatements ready' head' tail'

theorem Repeats.moreLibraries {rest : List Token} {restCode : List Instruction}
    (head : Repeats setting main d scope (.library name code) start middle)
    (tail : Repeats setting main d scope (.libraries rest restCode) middle after) :
    Repeats setting main d scope (.libraries (name :: rest) (code ++ restCode)) start after := by
  intro depth' scope' mark start' declared barred ready' alike _ _ may allows meets
  obtain ⟨_, _, _, _, head', tail', done⟩ := head.inTurn tail rfl rfl ready' alike may allows meets
    (fun e member => mem_allDemand_append.2 (.inl member)) fun e => mem_allDemand_or
  refine ⟨[], _, ?_, done.settled⟩
  simp only [Job.again, allWithout_append]
  exact .moreLibraries ready' head' tail'

theorem Repeats.newLibrary {path text : String} {program : Program}
    (proper : Statement.AllRegular .lexed main.statements) (ready : Ready scope start)
    (fresh : start.tree.hasLibrary scope name.text = false)
    (found : Library.find? setting.files setting.searchPath name.text = some path)
    (loaded : Library.load setting.files path = .ok text)
    (read : Program.ofSource text path = .ok program)
    (inner : Compiles setting depth start.tree.size (.statements program.statements code)
      (start.inLibrary scope name path program.file) after)
    (again : Repeats setting main d start.tree.size (.statements program.statements code)
      (start.inLibrary scope name path program.file) after) :
    Repeats setting main d scope (.library name code) start
      ⟨after.tree, start.file, after.including.tail⟩ := by
  intro depth' scope' mark start' declared barred ready' alike _ _ may allows meets
  obtain ⟨room, rfl⟩ := Nat.exists_eq_succ_of_ne_zero (Nat.ne_of_gt (may.depth_pos proper))
  have itself : name ∈ [name] := List.mem_singleton.2 rfl
  have within := alike.inLibrary ready ready' name name path path program.file program.file
  obtain ⟨_, after', inner', done⟩ := again.plain rfl (ready'.inLibrary name path program.file)
    within (may.inner proper itself found loaded read)
    (allows.inner itself ⟨_, _, found, loaded, read⟩) (meets.inLibrary ready' _ _ _)
  have further := alike.library ready ready' rfl inner.frame inner'.frame done
  exact ⟨[], _, .newLibrary ready' ((alike.hasLibrary name.text).trans fresh) found
    (may.apart proper itself found) loaded read inner', further.settled⟩

theorem Repeats.branch (ready : Ready scope start)
    (since : mark = start.tree.variableCount scope)
    (inner : Compiles setting depth scope (.statements body code) start after)
    (again : Repeats setting main d scope (.statements body code) start after) :
    Repeats setting main d scope
      (.branch mark declared body code (gather declared (after.tree.variablesSince scope mark)))
      start (after.withTree (after.tree.dropVariablesSince scope mark)) := by
  intro depth' scope' mark' start' declared' barred ready' alike since' gathers may allows meets
  obtain ⟨_, after', inner', done⟩ := again.plain rfl ready' alike may allows meets
  have block : Compiles setting depth scope (.branch mark declared body code _) start _ :=
    .branch ready since inner
  have block' : Compiles setting depth' scope' (.branch mark' declared' body _ _) start' _ :=
    .branch ready' (since' rfl) inner'
  exact ⟨_, _, block', alike.branch done inner.frame inner'.frame since (since' rfl) block block'
    rfl rfl gathers⟩

theorem Repeats.moreElifs {rest : List Clause} {restCode : List (Instruction × List Instruction)}
    {declared' : List Variable} (evaluates : Evaluates start scope condition conditionCode)
    (head : Repeats setting main d scope (.branch mark declared body code declared') start middle)
    (tail : Repeats setting main d scope (.elifs mark declared' rest restCode gathered)
      middle after) :
    Repeats setting main d scope
      (.elifs mark declared (.mk word condition (.mk brace body) :: rest)
        ((conditionCode, code) :: restCode) gathered) start after := by
  intro depth' scope' mark start' declared barred ready' alike since' gathers may allows meets
  have meets : Meets d barred (elifsDemand true ((conditionCode, code) :: restCode)) scope'
    start' := meets
  rw [elifsDemand] at meets
  obtain ⟨_, _, _, _, head', tail', done⟩ := head.inBlocks tail rfl rfl ready' alike (since' rfl)
    gathers may allows meets
    (fun e member => List.mem_append_left _ (List.mem_append_right _ member))
    fun e member => (mem_or_mem_remaining member).imp_left (List.mem_append_right _)
  refine ⟨_, _, .moreElifs ready' (since' rfl)
    (alike.evaluates (meets.part fun e member => ?_) evaluates) head' tail', done⟩
  exact List.mem_append_left _ (List.mem_append_left _ member)

theorem Repeats.moreCases {token : Token} {label : Value} {labels : List Value}
    {rest : List Clause} {restCode : List (Value × List Instruction)} {declared' : List Variable}
    (apart : labels.any (·.sameLabel label) = false)
    (head : Repeats setting main d scope (.branch mark declared body code declared') start middle)
    (tail : Repeats setting main d scope
      (.cases mark declared' (labels ++ [label]) rest restCode gathered) middle after) :
    Repeats setting main d scope
      (.cases mark declared labels (.mk word (.literal token label) (.mk brace body) :: rest)
        ((label, code) :: restCode) gathered) start after := by
  intro depth' scope' mark start' declared barred ready' alike since' gathers may allows meets
  obtain ⟨_, _, _, _, head', tail', done⟩ := head.inBlocks tail rfl rfl ready' alike (since' rfl)
    gathers may allows meets (fun e => List.mem_append_left _)
    fun e member => (mem_or_mem_remaining member).imp_left (List.mem_append_right _)
  exact ⟨_, _, .moreCases ready' (since' rfl) apart head' tail', done⟩

/-- What compiles in a scope compiles again in one that is alike and meets what its code asks for,
where the names of its constants are not known. -/
theorem Compiles.again {job : Job} (proper : Statement.AllRegular .lexed main.statements)
    (compiles : Compiles setting depth scope job start after) :
    Repeats setting main d scope job start after := by
  induction compiles with
  | assign ready shaped assigns => exact .assign ready shaped assigns
  | select ready shaped properFilter properTarget selects =>
    intro depth' scope' mark start' declared barred ready' alike _ _ _ _ meets
    obtain ⟨opened', selects', further⟩ := alike.selects ready ready' meets selects
    exact ⟨[], _, .select ready' shaped properFilter properTarget selects', further.settled⟩
  | simple _ translated reads => exact .simple translated reads
  | define ready inner ih => exact .define ready inner ih
  | defineExternal ready =>
    intro depth' scope' mark start' declared barred ready' alike _ _ _ _ _
    exact ⟨[], _, .defineExternal ready', (alike.defineExternal ready ready' _ _ _).settled⟩
  | ifElse _ evaluates _ _ back first further final =>
    exact .ifElse evaluates back.ready_after first further final
  | whileLoop _ evaluates _ ih => exact .whileLoop evaluates ih
  | foreach ready evaluates inner ih => exact .foreach ready evaluates inner ih
  | switch _ evaluates _ back first final =>
    exact .switch evaluates back.ready_after first final
  | includes _ _ ih =>
    intro depth' scope' mark start' declared barred ready' alike _ _ may allows meets
    obtain ⟨_, after', inner', done⟩ := ih.plain rfl ready' alike may allows meets
    exact ⟨[], _, .includes ready' inner', done.settled⟩
  | block _ _ ih =>
    intro depth' scope' mark start' declared barred ready' alike _ _ may allows meets
    obtain ⟨_, after', inner', done⟩ := ih.plain rfl ready' alike may allows meets
    exact ⟨[], _, .block ready' inner', done.settled⟩
  | noStatement =>
    intro depth' scope' mark start' declared barred ready' alike _ _ _ _ _
    exact ⟨[], _, .noStatement ready', alike.settled⟩
  | moreStatements _ _ _ head tail => exact .moreStatements head tail
  | noLibrary =>
    intro depth' scope' mark start' declared barred ready' alike _ _ _ _ _
    exact ⟨[], _, .noLibrary ready', alike.settled⟩
  | moreLibraries _ _ _ head tail => exact .moreLibraries head tail
  | @knownLibrary _ scope start name _ listed =>
    intro depth' scope' mark start' declared barred ready' alike _ _ may _ _
    obtain ⟨room, rfl⟩ := Nat.exists_eq_succ_of_ne_zero (Nat.ne_of_gt (may.depth_pos proper))
    exact ⟨[], _, .knownLibrary ready' ((alike.hasLibrary name.text).trans listed), alike.settled⟩
  | newLibrary ready fresh found _ loaded read inner ih =>
    exact .newLibrary proper ready fresh found loaded read inner ih
  | branch ready since inner ih => exact .branch ready since inner ih
  | noElif =>
    intro depth' scope' mark start' declared barred ready' alike since' gathers _ _ _
    exact ⟨_, _, .noElif ready' (since' rfl), alike, gathers⟩
  | noCase =>
    intro depth' scope' mark start' declared barred ready' alike since' gathers _ _ _
    exact ⟨_, _, .noCase ready' (since' rfl), alike, gathers⟩
  | noLast =>
    intro depth' scope' mark start' declared barred ready' alike since' gathers _ _ _
    exact ⟨_, _, .noLast ready' (since' rfl), alike, gathers⟩
  | moreElifs _ _ evaluates _ _ head tail => exact .moreElifs evaluates head tail
  | moreCases _ _ apart _ _ head tail => exact .moreCases apart head tail
  | someLast _ _ _ ih =>
    intro depth' scope' mark start' declared barred ready' alike since' gathers may allows meets
    obtain ⟨_, _, inner', done, gathers'⟩ := ih ready' alike since' gathers may allows meets
    exact ⟨_, _, .someLast ready' (since' rfl) inner', done, gathers'⟩

end Compile

end Treecode
