import Mathlib
import Treecode.Proofs.Scoping
import Treecode.Proofs.Repetition

set_option autoImplicit false

namespace Treecode.Compile

open ScopeTree Relation Instruction Demand

variable {setting : Setting} {depth depth' scope scope' : Nat} {start start' after : Session}
  {main : Program}

def Task.included : Task → List Token
  | .statement source => source.included
  | .statements source | .branch _ _ source => Statement.allIncluded source
  | .elifs _ _ source | .cases _ _ _ source => Clause.allIncluded source
  | .last _ _ source => LastClause.optionIncluded source
  | .libraries names => names
  | .library name => [name]

/-- A point whose task is part of a program that is compiled from a main program, with room for all
libraries that can be under way further on. -/
def Point.Proper (setting : Setting) (main : Program) (point : Point) : Prop :=
  (∃ program, UnderWay setting main point.session.including program ∧
    ∀ token ∈ point.task.included, token ∈ Statement.allIncluded program.statements) ∧
  setting.depth = point.depth + point.session.including.length

/-- A point that comes with some of the includes, while the same libraries are under way. -/
theorem Point.Proper.part {here there : Point} (proper : here.Proper setting main)
    (depth : there.depth = here.depth)
    (including : there.session.including = here.session.including)
    (fewer : ∀ token ∈ there.task.included, token ∈ here.task.included) :
    there.Proper setting main := by
  obtain ⟨⟨program, under, named⟩, room⟩ := proper
  unfold Point.Proper
  rw [depth, including]
  exact ⟨⟨program, under, fun token member => named token (fewer token member)⟩, room⟩

theorem Comes.proper {here there : Point} (comes : Comes setting here there)
    (proper : here.Proper setting main) : there.Proper setting main := by
  cases comes with
  | first | firstElif | firstCase => exact proper.part rfl rfl fun _ => List.mem_append_left _
  | rest done | moreElifs _ done | moreCases _ done =>
    exact proper.part rfl done.frame.including fun _ => List.mem_append_right _
  | define | whileLoop | foreach | includes | block | branch | last =>
    exact proper.part rfl rfl fun _ => id
  | ifBlock =>
    exact proper.part rfl rfl fun _ member => List.mem_append_left _ (List.mem_append_left _ member)
  | elifBlocks _ done =>
    exact proper.part rfl done.frame.including fun _ member =>
      List.mem_append_left _ (List.mem_append_right _ member)
  | elseBlock _ first further =>
    exact proper.part rfl (further.frame.including.trans first.frame.including) fun _ =>
      List.mem_append_right _
  | caseBlocks => exact proper.part rfl rfl fun _ => List.mem_append_left _
  | defaultBlock _ done =>
    exact proper.part rfl done.frame.including fun _ => List.mem_append_right _
  | firstLibrary =>
    refine proper.part rfl rfl fun token member => ?_
    rw [List.mem_singleton.1 member]
    exact List.mem_cons_self ..
  | moreLibraries done => exact proper.part rfl done.frame.including fun _ => List.mem_cons_of_mem _
  | library fresh found apart loaded read =>
    obtain ⟨⟨program, under, named⟩, room⟩ := proper
    have itself := named _ (List.mem_singleton.2 rfl)
    refine ⟨⟨_, .library under itself found apart loaded read, fun _ => id⟩, ?_⟩
    exact room.trans (Nat.add_right_comm _ 1 _)

theorem Arrives.proper {point : Point} {reserved : List String}
    (arrives : Arrives setting (.start setting reserved main) point) :
    point.Proper setting main := by
  induction arrives with
  | refl => exact ⟨⟨main, .main, fun _ => id⟩, rfl⟩
  | tail _ comes ih => exact comes.proper ih

/-- What a library leads to is on no cycle once the library has compiled. -/
theorem Compiles.library_clear {name : Token} {code : List Instruction}
    (compiles : Compiles setting depth scope (.library name code) start after)
    (new : start.tree.hasLibrary scope name.text = false) :
    Clear setting start.including name.text := by
  cases compiles with
  | knownLibrary _ known =>
    rw [new] at known
    cases known
  | newLibrary ready _ found apart loaded read inner =>
    exact clear_of_inner found apart loaded read
      (inner.clear (.of_nil (libraries_new_library ready _ _ _)))

/-- A library that has compiled compiles again where the second scope resembles the first one and
meets what its code asks for. -/
theorem Compiles.library_again {name name' : Token} {code : List Instruction} {d : Difference}
    {barred : String → Prop} (proper : Statement.AllRegular .lexed main.statements)
    (compiles : Compiles setting depth scope (.library name code) start after)
    (new : start.tree.hasLibrary scope name.text = false) (same : name'.text = name.text)
    (fresh : start'.tree.hasLibrary scope' name'.text = false) (ready' : Ready scope' start')
    (resembles : Resembles d barred scope start scope' start')
    (may : MayInclude setting main start'.including depth' [name'])
    (allows : Allows setting (fun entry => entry.2 = true → d.known entry.1 = false) [] [name'])
    (meets : Meets d barred (allDemand true code) scope' start') :
    ∃ after', Compiles setting depth' scope' (.library name' (allWithout d.known code))
      start' after' := by
  cases compiles with
  | knownLibrary _ listed =>
    rw [new] at listed
    cases listed
  | @newLibrary _ _ _ _ path _ program _ _ ready _ found _ loaded read inner =>
    rw [← same] at found
    obtain ⟨room, rfl⟩ := Nat.exists_eq_succ_of_ne_zero (Nat.ne_of_gt (may.depth_pos proper))
    have itself : name' ∈ [name'] := List.mem_singleton.2 rfl
    have within := resembles.inLibrary ready ready' name name' path path program.file program.file
    obtain ⟨_, after', inner', _⟩ := (inner.again proper).plain rfl (ready'.inLibrary name' _ _)
      within (may.inner proper itself found loaded read)
      (allows.inner itself ⟨_, _, found, loaded, read⟩) (meets.inLibrary ready' _ _ _)
    exact ⟨_, .newLibrary ready' fresh found (may.apart proper itself found) loaded read inner'⟩

variable {text file : String} {reserved : List String}

/-- A library that has compiled compiles again wherever the compilation arrives at an include of it,
in a scope that does not list it. Its code is that of the first time without the declarations of
names that are seen there already. What the code uses and was there at first has to be there again,
and no constant may stand in the way: what the code stores to is none there, and constants that the
library declares are not seen there. -/
theorem library_compiles_again {name name' : Token} {code : List Instruction}
    (once : Reaches setting text file reserved ⟨depth, scope, .library name, start⟩)
    (new : start.tree.hasLibrary scope name.text = false)
    (first : library setting depth name scope start = (.ok code, after))
    (reaches : Reaches setting text file reserved ⟨depth', scope', .library name', start'⟩)
    (same : name'.text = name.text) (fresh : start'.tree.hasLibrary scope' name'.text = false)
    (seen : ∀ x, .seen x ∈ allDemand true code → start.tree.Sees scope x →
      start'.tree.Sees scope' x)
    (called : ∀ f, .called f ∈ allDemand true code → start.tree.Calls scope f →
      start'.tree.Calls scope' f)
    (stored : ∀ x, .stored x ∈ allDemand true code →
      ∀ v, start'.tree.findVariable scope' x = some v → v.constant = false)
    (declared : ∀ program used, Loads setting name.text program → Uses setting program used →
      ∀ x, (x, true) ∈ Statement.allAssigned used.statements → ¬ start'.tree.Sees scope' x) :
    ∃ after', library setting depth' name' scope' start' =
      (.ok (allWithout (start'.tree.sees scope') code), after') := by
  have compiles := derives_library setting depth name scope start after code once.ready first
  obtain ⟨main, read, arrives⟩ := reaches
  have proper := Program.lexed_ofSource read
  obtain ⟨under, room⟩ := arrives.proper
  have clear := compiles.library_clear new
  have may : MayInclude setting main start'.including depth' [name'] := by
    refine ⟨under, fun token member later way => ?_, ?_⟩
    · rw [List.mem_singleton.1 member, same] at way
      exact (clear later way).2
    · have room : setting.searchPath.length * setting.files.nodes.length + 2 =
          depth' + start'.including.length := room
      omega
  -- What the second scope does not see is not known, so that only what the code asks for has to
  -- be there.
  let d : Difference :=
    { known := start'.tree.sees scope'
      lost := fun x => start.tree.Sees scope x ∧ ¬ start'.tree.Sees scope' x
      gone := fun f => start.tree.Calls scope f ∧ ¬ start'.tree.Calls scope' f
      apart := fun _ both => Bool.eq_false_iff.2 both.2 }
  have unseen : ∀ {x}, ¬ start'.tree.Sees scope' x → start'.tree.found scope' x = none := by
    intro x absent
    rw [← Option.not_isSome_iff_eq_none, isSome_found]
    exact absent
  have resembles : Resembles d
    (fun x => start'.tree.Sees scope' x ∧ .stored x ∈ allDemand true code) scope start
      scope' start' := by
    refine ⟨fun x => ⟨fun unknown kept => ?_, fun either => ?_⟩, fun _ => id, fun _ => And.left,
      fun _ => And.left,
      fun f before kept => Classical.byContradiction fun absent => kept ⟨before, absent⟩⟩
    · have absent : ¬ start'.tree.Sees scope' x := Bool.eq_false_iff.1 unknown
      have before : ¬ start.tree.Sees scope x := fun there => kept ⟨there, absent⟩
      rw [unseen absent]
      rw [← isSome_found, Option.not_isSome_iff_eq_none] at before
      exact before.symm
    · rcases either with lost | barred
      · rw [unseen lost.2]
        exact nofun
      · rw [found_eq]
        intro fixed
        obtain ⟨v, listed, constant⟩ := Option.map_eq_some_iff.1 fixed
        exact Bool.false_ne_true ((stored x barred.2 v listed).symm.trans constant)
  have meets : Meets d (fun x => start'.tree.Sees scope' x ∧ .stored x ∈ allDemand true code)
      (allDemand true code) scope' start' :=
    ⟨fun x lost member => seen x member lost.1, fun f gone member => called f member gone.1,
      fun x known member => ⟨known, member⟩⟩
  obtain ⟨after', again⟩ :=
    compiles.library_again proper new same fresh (Reaches.ready ⟨main, read, arrives⟩) resembles may
    ⟨fun entry member => absurd member List.not_mem_nil,
        fun token member program used loads uses => by
      rw [List.mem_singleton.1 member, same] at loads
      rintro ⟨x, constant⟩ listed rfl
      exact Bool.eq_false_iff.2 (declared program used loads uses x listed)⟩ meets
  exact ⟨after', again.runs⟩

/-- A library is included, and then a function includes it again. -/
def includedTwice : String := "include l;f=>()\x7binclude l;\x7d"

def onceNamed : Token := ⟨.identifier, some "l", ⟨1, 9, 8⟩⟩

def againNamed : Token := ⟨.identifier, some "l", ⟨1, 25, 24⟩⟩

def functionName : Token := ⟨.identifier, some "f", ⟨1, 11, 10⟩⟩

def includingFunction : Statement :=
  .define functionName [] .nil (.block (.mk ⟨.leftBrace, some "\x7b", ⟨1, 16, 15⟩⟩
    [.includes ⟨.includeStatement, some "include", ⟨1, 17, 16⟩⟩ [againNamed]]))

/-- A function that includes a library again: the name is stored there but not declared. -/
theorem library_compiles_again_in_function :
    ∃ setting depth depth' scope scope' name name' start start' after after' code,
      Reaches setting includedTwice "main.mcl" [] ⟨depth, scope, .library name, start⟩ ∧
      library setting depth name scope start = (.ok code, after) ∧
      Reaches setting includedTwice "main.mcl" []
        ⟨depth', scope', .library name', start'⟩ ∧
      code = [.newVariable "x",
        .storeVariable (.loadVariable "x" []) (.loadConstant (.integer 1)) false] ∧
      library setting depth' name' scope' start' =
        (.ok [.storeVariable (.loadVariable "x" []) (.loadConstant (.integer 1)) false],
          after') := by
  obtain ⟨setting, isSetting⟩ : ∃ setting : Setting,
      setting = ⟨⟨[(["l.mcl"], .file "x=1;".toByteArray)]⟩, [""]⟩ := ⟨_, rfl⟩
  have read : Program.ofSource includedTwice "main.mcl" = .ok ⟨"main.mcl",
      [.includes ⟨.includeStatement, some "include", ⟨1, 1, 0⟩⟩ [onceNamed],
        includingFunction]⟩ := by cbv
  have loads : Loads setting "l" ⟨"l.mcl", [.assign (.plain ⟨.identifier, some "x", ⟨1, 1, 0⟩⟩)
      ⟨.operatorAssignment, some "=", ⟨1, 2, 1⟩⟩
        (.literal ⟨.integer, some "1", ⟨1, 3, 2⟩⟩ (.integer 1))
      false false]⟩ := by
    rw [isSetting]
    exact ⟨"l.mcl", "x=1;", by cbv, by cbv, by cbv⟩
  have assigns : ∀ program used, Loads setting "l" program → Uses setting program used →
      Statement.allAssigned used.statements = [("x", false)] ∧ used.plainBranches := by
    intro program used loads' uses
    cases loads.unique loads'
    cases uses.eq rfl
    exact ⟨rfl, rfl⟩
  have yields : (library setting setting.depth onceNamed root
      (Session.begin [] "main.mcl")).1 =
      .ok [.newVariable "x", .storeVariable (.loadVariable "x" [])
          (.loadConstant (.integer 1)) false] := by
    rw [isSetting]
    cbv
  obtain ⟨middle, isMiddle⟩ : ∃ middle, (library setting setting.depth onceNamed root
      (Session.begin [] "main.mcl")).2 = middle := ⟨_, rfl⟩
  have ran : library setting setting.depth onceNamed root (Session.begin [] "main.mcl") =
      (.ok [.newVariable "x", .storeVariable (.loadVariable "x" [])
          (.loadConstant (.integer 1)) false], middle) :=
    Prod.ext yields isMiddle
  have begun := ready_begin [] "main.mcl"
  have first := derives_library setting setting.depth _ root _ _ _ begun ran
  have once : Reaches setting includedTwice "main.mcl" []
      ⟨setting.depth, root, .library _, _⟩ :=
    ⟨_, read, .head .first (.head .includes (.single .firstLibrary))⟩
  have declared : middle.tree.Sees root "x" := by
    have plain : Scoping.LibrariesPlain setting [onceNamed] := by
      intro name member program loads' used uses
      cases List.mem_singleton.1 member
      exact (assigns program used loads' uses).2
    obtain ⟨names, passes, tracks⟩ := Scoping.checked_of_compiles first plain (sees_reservedTree [])
    cases passes
    exact (tracks "x").2 (List.mem_singleton.2 rfl)
  -- The function comes after the first include, and its body includes the library in a scope
  -- inside.
  have included : Compiles setting setting.depth root
      (.statement (.includes ⟨.includeStatement, some "include", ⟨1, 1, 0⟩⟩ [onceNamed]) _)
          _ middle :=
    .includes begun (.moreLibraries begun first (.noLibrary first.ready_after))
  have further : Arrives setting
      ⟨setting.depth, root, .statements [includingFunction], middle⟩
      ⟨setting.depth, middle.tree.size, .library againNamed,
        middle.function root functionName []⟩ :=
    .head .first (.head .define (.head .first (.head .includes (.single .firstLibrary))))
  have reaches : Reaches setting includedTwice "main.mcl" []
      ⟨setting.depth, middle.tree.size, .library againNamed,
        middle.function root functionName []⟩ := ⟨_, read, .head (.rest included) further⟩
  have fresh : (middle.function root functionName []).tree.hasLibrary
      middle.tree.size "l" = false := by
    unfold hasLibrary
    rw [libraries_new_function included.ready_after]
    rfl
  have visible : (middle.function root functionName []).tree.sees middle.tree.size "x" :=
    (sees_function included.ready_after _ _).2 (.inl declared)
  have asked : allDemand true [.newVariable "x",
      .storeVariable (.loadVariable "x" []) (.loadConstant (.integer 1)) false] =
        [.stored "x"] := by decide
  have again := library_compiles_again once rfl ran reaches rfl fresh ?_ ?_ ?_ ?_
  · obtain ⟨after', again⟩ := again
    simp only [allWithout, declares, visible] at again
    exact ⟨setting, _, _, _, _, _, _, _, _, _, after', _, once, ran, reaches, rfl, again⟩
  · intro x member
    rw [asked] at member
    cases List.mem_singleton.1 member
  · intro f member
    rw [asked] at member
    cases List.mem_singleton.1 member
  · intro x member v lookup
    rw [asked] at member
    cases List.mem_singleton.1 member
    rw [Bool.eq_false_iff]
    intro constant
    have plain : Allows setting (fun entry => entry.2 = false) [] [onceNamed] := by
      refine ⟨fun _ inside => absurd inside List.not_mem_nil,
        fun token inside program used loads' uses => ?_⟩
      cases List.mem_singleton.1 inside
      rw [(assigns program used loads' uses).1]
      exact List.forall_mem_singleton.2 rfl
    -- No constant is listed at the start, and none is declared in the library.
    obtain ⟨other, _, v, listed, _⟩ := included.fixes plain
      (fixes_function included.ready_after _ _ (fixes_of_findVariable lookup constant))
    have empty : ((Session.begin [] "main.mcl").tree.get other).declared = [] :=
      List.map_eq_nil_iff.1 (names_initial other)
    rw [empty] at listed
    cases listed
  · intro program used loads' uses x member
    rw [(assigns program used loads' uses).1, List.mem_singleton] at member
    cases member

end Treecode.Compile
