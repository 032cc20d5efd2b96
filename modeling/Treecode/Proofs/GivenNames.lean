import Treecode.Proofs.Demands
import Treecode.Proofs.VisibleNames

set_option autoImplicit false

namespace Treecode.Compile

open ScopeTree Instruction Demand

variable {setting : Setting} {depth scope : Nat} {start middle after : Session}

/-- What the code of a piece of source gives is there after it: the variables are seen or gathered,
and the functions can be called. -/
structure Provides (scope : Nat) (after : Session) (job : Job) : Prop where
  seen : ∀ x, .seen x ∈ job.gives → after.tree.Sees scope x ∨ x ∈ job.gathered.map (·.name)
  called : ∀ f, .called f ∈ job.gives → after.tree.Calls scope f
  keeps : job.declared.map (·.name) ⊆ job.gathered.map (·.name)

theorem Provides.of_nothing {job : Job} (nothing : job.gives = [])
    (keeps : job.declared.map (·.name) ⊆ job.gathered.map (·.name)) : Provides scope after job := by
  constructor
  · intro x member
    rw [nothing] at member
    cases member
  · intro f member
    rw [nothing] at member
    cases member
  · exact keeps

/-- What a first piece of source gives is there after a second one. -/
theorem Provides.trans {first second whole : Job} (front : Provides scope middle first)
    (back : Provides scope after second) (ready : Ready scope middle)
    (frame : Frame scope middle after)
    (gives : ∀ d, d ∈ whole.gives → d ∈ first.gives ∨ d ∈ second.gives)
    (before : first.declared = whole.declared) (between : first.gathered = second.declared)
    (behind : second.gathered = whole.gathered) : Provides scope after whole := by
  have keeps : first.gathered.map (·.name) ⊆ whole.gathered.map (·.name) := by
    rw [between, ← behind]
    exact back.keeps
  constructor
  · intro x member
    rcases gives _ member with early | late
    · exact (front.seen x early).imp (frame.growth.sees ready.inside) fun gathered => keeps gathered
    · rw [← behind]
      exact back.seen x late
  · intro f member
    rcases gives _ member with early | late
    · exact frame.growth.calls ready.ordered ready.inside (front.called f early)
    · exact back.called f late
  · rw [← before]
    exact fun x member => keeps (front.keeps member)

theorem provides_elif {mark mark' : Nat} {declared declared' declared'' : List Variable}
    {body : List Statement} {rest : List Clause} {code : List Instruction}
    {restCode : List (Instruction × List Instruction)} (clause : Clause) (condition : Instruction)
    (first : Provides scope middle (.branch mark declared body code declared'))
    (further : Provides scope after (.elifs mark' declared' rest restCode declared''))
    (ready : Ready scope middle) (frame : Frame scope middle after) :
    Provides scope after (.elifs mark declared (clause :: rest)
      ((condition, code) :: restCode) declared'') :=
  first.trans further ready frame (fun _ => List.mem_append.1) rfl rfl rfl

theorem provides_branching {blocks : Job} {mark : Nat} {declared gathered : List Variable}
    {otherwise : Option LastClause} {code lastCode : List Instruction} (source : Statement)
    (first : Provides scope middle blocks)
    (final : Provides scope after (.last mark declared otherwise lastCode gathered))
    (ready : Ready scope middle) (frame : Frame scope middle after)
    (gives : ∀ d, d ∈ allGive code → d ∈ blocks.gives ∨ d ∈ allGive lastCode)
    (before : blocks.declared = []) (between : blocks.gathered = declared) :
    Provides scope (after.withTree (after.tree.addVariables scope gathered))
      (.statement source code) := by
  have whole : Provides scope after (.last mark [] otherwise code gathered) :=
    first.trans final ready frame gives before between rfl
  refine ⟨?_, fun f member => (calls_given _).2 (whole.called f member), List.Subset.refl _⟩
  intro x member
  rw [sees_given ⟨frame.inside ready.inside, frame.ordered⟩]
  exact .inl (whole.seen x member)

/-- After a block a variable that is seen at its end is seen or gathered. -/
theorem seen_or_gathered {mark : Nat} {declared : List Variable} {x : String}
    (inside : scope < start.tree.size) (frame : Frame scope start after)
    (since : mark = start.tree.variableCount scope) (seen : after.tree.Sees scope x) :
    (after.withTree (after.tree.dropVariablesSince scope mark)).tree.Sees scope x ∨
      x ∈ (gather declared (after.tree.variablesSince scope mark)).map (·.name) := by
  obtain ⟨other, searched, listed⟩ := sees_iff.1 seen
  have searches := (sameLinks_dropVariablesSince after.tree scope mark).searches.2 searched
  by_cases own : other = scope
  · rw [own, frame.names_since since, List.mem_append] at listed
    rw [names_gather]
    refine listed.imp (fun before => sees_iff.2 ⟨other, searches, ?_⟩) .inr
    rw [own]
    exact (frame_branch inside since frame).2 ▸ before
  · refine .inl (sees_iff.2 ⟨other, searches, ?_⟩)
    unfold names at listed
    have same : (after.tree.dropVariablesSince scope mark).get other = after.tree.get other :=
      get_modify_of_ne _ _ (Ne.symm own)
    rwa [← same] at listed

theorem Compiles.provides {job : Job} (compiles : Compiles setting depth scope job start after) :
    Provides scope after job := by
  induction compiles with
  | assign ready =>
    refine ⟨fun x member => .inl ((sees_afterAssignment ready _ _ _ _).2 (.inr ?_)),
      fun f member => ?_, List.Subset.refl _⟩
    · exact Demand.seen.inj (mem_gives_assignmentCode.1 member).2
    · cases (mem_gives_assignmentCode.1 member).2
  | @select _ scope start _ _ _ _ _ _ _ _ filterCode targetCode opened ready _ _ _ selects =>
    refine ⟨fun x member => .inl ?_, fun f member => ?_, List.Subset.refl _⟩
    · rw [Job.gives, allGive_single, gives, List.mem_map] at member
      obtain ⟨_, openable, same⟩ := member
      cases same
      unfold ScopeTree.Sees
      rw [Session.opening_sees start ready.inside, Bool.or_eq_true, List.contains_iff_mem,
        (opening_select filterCode targetCode).added_iff selects.opens]
      cases start.tree.sees scope x with
      | true => exact .inl rfl
      | false => exact .inr ⟨openable, rfl⟩
    · simp [Job.gives, allGive_single, gives] at member
  | @simple _ _ _ _ code _ _ reads =>
    refine .of_nothing ?_ (List.Subset.refl _)
    rw [Job.gives, allGive_single]
    cases code with
    | breakLoop | continueLoop | returnValue | halt | print | call => rfl
    | _ => cases reads
  | @define _ _ _ name _ _ _ _ _ _ ready inner =>
    refine ⟨fun x member => ?_, fun f member => ?_, List.Subset.refl _⟩
    · simp [Job.gives, allGive_single, gives] at member
    · have named : f = name.text := by simpa [Job.gives, allGive_single, gives] using member
      exact (calls_define ready inner.frame _).2 (.inr named)
  | @defineExternal _ _ _ name _ _ _ _ ready =>
    refine ⟨fun x member => ?_, fun f member => ?_, List.Subset.refl _⟩
    · simp [Job.gives, allGive_single, gives] at member
    · have named : f = name.text := by simpa [Job.gives, allGive_single, gives] using member
      exact (calls_external ready _).2 (.inr named)
  | @ifElse _ _ _ word condition conditionCode brace body _ _ _ _ _ _ _ _ _ _ _ _ _ _ between back
    first further final =>
    have blocks := provides_elif (.mk word condition (.mk brace body)) conditionCode first
      further between.ready between.frame
    refine provides_branching _ blocks final back.ready back.frame (fun d member => ?_) rfl rfl
    simpa only [Job.gives, allGive_single, gives, elifsGive, List.mem_append] using member
  | whileLoop _ _ _ ih =>
    refine ⟨fun x member => ih.seen x ?_, fun f member => ih.called f ?_, List.Subset.refl _⟩
    · rwa [Job.gives, allGive_single] at member
    · rwa [Job.gives, allGive_single] at member
  | includes _ _ ih | block _ _ ih | someLast _ _ _ ih => exact ⟨ih.seen, ih.called, ih.keeps⟩
  | foreach => exact .of_nothing rfl (List.Subset.refl _)
  | switch _ _ _ back first final =>
    refine provides_branching _ first final back.ready back.frame (fun d member => ?_) rfl rfl
    simpa only [Job.gives, allGive_single, gives, List.mem_append] using member
  | noStatement | noLibrary | knownLibrary | noElif | noCase | noLast =>
    exact .of_nothing rfl (List.Subset.refl _)
  | moreStatements _ _ back head tail | moreLibraries _ _ back head tail =>
    exact head.trans tail back.ready back.frame (fun d => mem_allGive_append.1) rfl rfl rfl
  | newLibrary ready _ _ _ _ _ inner ih =>
    refine ⟨fun x member => ?_, fun f member => ?_, List.Subset.refl _⟩
    · exact .inl ((sees_library ready inner.frame).2
        ((ih.seen x member).resolve_right List.not_mem_nil))
    · exact (calls_library ready inner.frame).2 (ih.called f member)
  | branch ready since inner ih =>
    refine ⟨fun x member => ?_, fun f member => (calls_branch _).2 (ih.called f member),
      fun x member => ?_⟩
    · exact seen_or_gathered ready.inside inner.frame since
        ((ih.seen x member).resolve_right List.not_mem_nil)
    · exact (names_gather _ _ _).2 (.inl member)
  | moreElifs _ _ _ _ back head tail | moreCases _ _ _ _ back head tail =>
    exact head.trans tail back.ready back.frame (fun d => List.mem_append.1) rfl rfl rfl

end Treecode.Compile
