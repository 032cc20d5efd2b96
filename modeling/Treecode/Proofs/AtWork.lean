import Treecode.Proofs.Blocks
import Treecode.Proofs.WellFormed

set_option autoImplicit false

namespace Treecode

namespace ScopeTree

open Compile

variable {sort : List Parameter → Prop} {scope : Nat} {mode : Option (List Variable)}
  {before middle after : ScopeTree} {title name : String}

theorem Grows.unseen (growth : Grows scope before after) (inside : scope < before.size)
    (unseen : after.sees scope name = false) : before.sees scope name = false :=
  Bool.eq_false_iff.2 fun seen => Bool.eq_false_iff.1 unseen (growth.sees inside seen)

/-- A scope lists what it listed and more, of names that were not seen before. -/
def ListsMore (scope : Nat) (before after : ScopeTree) : Prop :=
  ∃ added, after.names scope = before.names scope ++ added ∧ ∀ name ∈ added,
    before.sees scope name = false

theorem ListsMore.of_same (same : after.names scope = before.names scope) :
    ListsMore scope before after :=
  ⟨[], by rw [same, List.append_nil], List.forall_mem_nil _⟩

theorem ListsMore.trans (first : ListsMore scope before middle)
    (last : ListsMore scope middle after)
    (growth : Grows scope before middle) (inside : scope < before.size) :
    ListsMore scope before after := by
  obtain ⟨added, listed, unseen⟩ := first
  obtain ⟨further, listed', unseen'⟩ := last
  refine ⟨added ++ further, by rw [listed', listed, List.append_assoc], fun name member => ?_⟩
  rcases List.mem_append.1 member with old | new
  · exact unseen name old
  · exact growth.unseen inside (unseen' name new)

/-- What a scope lists since growth began is of names that were not seen. -/
theorem ListsMore.since (more : ListsMore scope before after) (growth : Grows scope before after) :
    ∀ v ∈ after.variablesSince scope (before.variableCount scope),
      before.sees scope v.name = false := by
  obtain ⟨added, listed, unseen⟩ := more
  have same : (after.variablesSince scope (before.variableCount scope)).map (·.name) = added :=
    List.append_cancel_left (growth.names_since.symm.trans listed)
  intro v member
  exact unseen v.name (same ▸ List.mem_map.2 ⟨v, member, rfl⟩)

theorem names_within_around (inside : scope < before.size) (declared : List Variable) :
    (before.within scope title declared).names scope = before.names scope := by
  rw [within, names_addVariables (by rw [size_newChild]; exact Nat.lt_succ_self _),
    names_newChild inside, if_neg (Nat.ne_of_lt inside), List.append_nil]

/-- After changes in a scope it lists more, of names that were not seen, and so are the variables
that come along between blocks. -/
theorem Changes.added (changes : Changes sort scope mode before after)
    (inside : scope < before.size) (ordered : before.Ordered) :
    ListsMore scope before after ∧ ∀ v ∈ mode.getD [], before.sees scope v.name = false := by
  have nothing : ∀ {tree : ScopeTree} {scope : Nat},
      ∀ v ∈ (none : Option (List Variable)).getD [], tree.sees scope v.name = false := nofun
  induction changes with
  | refl => exact ⟨.of_same rfl, nothing⟩
  | opening => exact ⟨.of_same rfl, nofun⟩
  | trans first last front back =>
    have one := first.contained inside ordered
    exact ⟨(front inside ordered).1.trans (back (one.inside inside) one.ordered).1 one.growth
      inside, nothing⟩
  | declare owned unseen keyless =>
    subst owned
    refine ⟨⟨_, (names_addVariables inside _ _).trans (by rw [if_pos rfl]), ?_⟩, nothing⟩
    exact List.forall_mem_singleton.2 unseen
  | @store scope tree target append =>
    exact ⟨.of_same ((keysRecorded_kept tree scope target append).2 scope).names, nothing⟩
  | @function scope before after title params fit inner ih =>
    have room : before.size <
        (before.withFunction scope title (parameterVariables before.size params)).size := by
      rw [size_withFunction]
      exact Nat.lt_succ_self _
    have work := inner.contained room (ordered.withFunction inside)
    refine ⟨.of_same ?_, nothing⟩
    rw [work.growth.names_other (Nat.lt_trans inside room) (Nat.ne_of_lt inside),
      names_withFunction inside, names_within_around inside]
  | @noted scope before after child note changes new outline declared ih =>
    obtain ⟨added, listed, unseen⟩ := (ih inside ordered).1
    refine ⟨⟨added, ?_, unseen⟩, nothing⟩
    rw [names, get_modify_of_ne _ _ (Nat.ne_of_gt (Nat.lt_of_lt_of_le inside new))]
    exact listed
  | @loop scope before after inner ih =>
    obtain ⟨order, room, _⟩ := within_ready "foreach"
      [{ Variable.fresh "it" before.size with type := .any }] ordered inside
    have work := inner.contained room order
    have made := Nat.lt_of_lt_of_le room work.growth.size
    refine ⟨.of_same ?_, nothing⟩
    rw [names_discardChild (Nat.ne_of_lt inside) (Nat.lt_trans inside made) made,
      work.growth.names_other (Nat.lt_trans inside room) (Nat.ne_of_lt inside),
        names_within_around inside]
  | @library scope before after title fresh inner ih =>
    have room : before.size < (before.withLibrary scope title).size := by
      rw [size_withLibrary]
      exact Nat.lt_succ_self _
    have work := inner.contained room (ordered.withLibrary inside)
    refine ⟨.of_same ?_, nothing⟩
    rw [work.growth.names_other (Nat.lt_trans inside room) (Nat.ne_of_lt inside),
      names_withLibrary inside]
  | @block scope before middle after declared blocks inner front back =>
    have one := blocks.contained inside ordered
    have two := inner.contained (one.inside inside) one.ordered
    have whole := one.growth.trans two.growth
    refine ⟨.of_same (whole.dropVariablesSince rfl inside).2, fun v member => ?_⟩
    rcases mem_gather member with old | taken
    · exact (front inside ordered).2 v old
    · have more := (front inside ordered).1.trans
        (back (one.inside inside) one.ordered).1 one.growth inside
      exact more.since whole v taken
  | broken blocks inner front back =>
    have one := blocks.contained inside ordered
    exact ⟨(front inside ordered).1.trans (back (one.inside inside) one.ordered).1 one.growth
      inside, nothing⟩
  | @joined scope before after declared blocks ih =>
    have whole := blocks.contained inside ordered
    refine ⟨⟨declared.map (·.name), ?_, fun name member => ?_⟩, nothing⟩
    · rw [names_addVariables (whole.inside inside), if_pos rfl, whole.between rfl]
    · obtain ⟨v, listed, rfl⟩ := List.mem_map.1 member
      exact (ih inside ordered).2 v listed

end ScopeTree

namespace Compile

open Step ScopeTree

/-- A compilation gets to work in a scope, down to a depth of libraries: at the start of a program,
after a statement of whatever form, in the scope of a function, a loop or a library, and in a block
of an `if` or a `switch`. Where such a block starts there is the mark that was made in front of the
first of them; the next block starts where the variables since the mark were taken away. -/
inductive AtWork (setting : Setting) : Nat → Nat → Option Nat → Session → Prop
  | atStart (reserved : List String) (file : String) :
      AtWork setting setting.depth root none (Session.begin reserved file)
  | afterStatement {depth scope source start code after}
      (before : AtWork setting depth scope none start)
      (done : statement (library setting depth) scope source start = (.ok code, after)) :
      AtWork setting depth scope none after
  | inFunction {depth scope start} (around : AtWork setting depth scope none start) (name : Token)
      (params : List Parameter) :
      AtWork setting depth start.tree.size none (start.function scope name params)
  | inLoop {depth scope start} (around : AtWork setting depth scope none start) :
      AtWork setting depth start.tree.size none (start.loop scope)
  | inLibrary {depth scope start name path text program}
      (around : AtWork setting (depth + 1) scope none start)
      (fresh : start.tree.hasLibrary scope name.text = false)
      (found : Library.find? setting.files setting.searchPath name.text = some path)
      (apart : start.including.any (Path.same path) = false)
      (loaded : Library.load setting.files path = .ok text)
      (read : Program.ofSource text path = .ok program) :
      AtWork setting depth start.tree.size none (start.inLibrary scope name path program.file)
  | atBlocks {depth scope start} (before : AtWork setting depth scope none start) :
      AtWork setting depth scope (some (start.tree.variableCount scope)) start
  | afterBlock {depth scope mark body start code ended}
      (before : AtWork setting depth scope (some mark) start)
      (done : block (library setting depth) scope body start = (.ok code, ended)) :
      AtWork setting depth scope (some mark) (ended.without scope mark)
  | inBlock {depth scope mark start} (between : AtWork setting depth scope (some mark) start) :
      AtWork setting depth scope none start

variable {setting : Setting} {depth scope : Nat} {start after : Session} {code : List Instruction}

/-- Nothing is asked of functions, and libraries are included in turns. -/
theorem proper_any (setting : Setting) (depth : Nat) (functions : List (List Parameter))
    (libraries : List Token) :
    Proper setting (fun _ => True) id (library setting depth) functions libraries :=
  ⟨fun _ _ => trivial, fun name _ still scope origin =>
    turns_library depth id name still (fun _ _ _ _ _ _ => trivial) scope origin⟩

theorem turned_statement {source : Statement} (ready : Ready scope start)
    (done : statement (library setting depth) scope source start = (.ok code, after)) :
    Turned (fun _ => True) scope none start after := by
  have outcome := turns_statement source source.moved_id (proper_any setting depth _ _) scope start
    start (.refl ready)
  rw [done] at outcome
  exact outcome

theorem turned_block {body : Block} (ready : Ready scope start)
    (done : block (library setting depth) scope body start = (.ok code, after)) :
    Turned (fun _ => True) scope none start after := by
  have outcome := turns_block body body.moved_id (proper_any setting depth _ _) scope start start
    (.refl ready)
  rw [done] at outcome
  exact outcome

/-- What a compilation keeps up: the scope is there and the links in order, variables stand where
they belong, and between blocks the scope lists as many of them as the mark says. -/
structure Steady (scope : Nat) (mark : Option Nat) (session : Session) : Prop where
  ready : Ready scope session
  sound : session.tree.Sound
  counted : ∀ count ∈ mark, count = session.tree.variableCount scope

theorem Steady.turned (steady : Steady scope none start) {sort : List Parameter → Prop}
    (turned : Turned sort scope none start after) : Steady scope none after :=
  ⟨turned.arrived, (turned.changes.sound steady.ready.inside steady.ready.ordered steady.sound).1,
    nofun⟩

/-- To take away what a block has listed is to leave as many variables as there were. -/
theorem Steady.without {mark : Nat} {sort : List Parameter → Prop}
    (steady : Steady scope (some mark) start)
    (turned : Turned sort scope none start after) :
    Steady scope (some mark) (after.without scope mark) := by
  have contained := turned.changes.contained steady.ready.inside steady.ready.ordered
  obtain ⟨growth, names⟩ :=
    contained.growth.dropVariablesSince (steady.counted mark rfl) steady.ready.inside
  refine ⟨⟨Nat.lt_of_lt_of_le steady.ready.inside growth.size, ?_⟩, ?_, ?_⟩
  · exact contained.ordered.modify _ _ (fun _ => rfl) (fun _ => rfl) fun _ => rfl
  · exact (turned.changes.sound steady.ready.inside steady.ready.ordered
      steady.sound).1.dropVariablesSince _
  · rintro count ⟨⟩
    show mark = (after.tree.dropVariablesSince scope mark).variableCount scope
    rw [variableCount_eq, names, ← variableCount_eq]
    exact steady.counted mark rfl

theorem AtWork.steady {mark : Option Nat} (way : AtWork setting depth scope mark start) :
    Steady scope mark start := by
  induction way with
  | atStart reserved file => exact ⟨ready_begin reserved file, sound_reservedTree reserved, nofun⟩
  | afterStatement _ done ih => exact ih.turned (turned_statement ih.ready done)
  | inFunction _ name params ih =>
    exact ⟨ih.ready.function name params,
      ih.sound.withFunction ih.ready.inside (sound_parameterVariables _ params), nofun⟩
  | inLoop _ ih =>
    refine ⟨ih.ready.loop, ih.sound.within ih.ready.inside ?_, nofun⟩
    exact List.forall_mem_singleton.2 (.of_keyless rfl rfl)
  | inLibrary _ _ _ _ _ _ ih =>
    exact ⟨ih.ready.inLibrary _ _ _, ih.sound.withLibrary ih.ready.inside, nofun⟩
  | atBlocks _ ih => exact ⟨ih.ready, ih.sound, fun count same => (Option.some.inj same).symm⟩
  | afterBlock _ done ih => exact ih.without (turned_block ih.ready done)
  | inBlock _ ih => exact ⟨ih.ready, ih.sound, nofun⟩

/-- The mark that comes with the blocks of an `if` or a `switch`. -/
def Task.mark? : Task → Option Nat
  | .branch mark _ _ | .elifs mark _ _ | .cases mark _ _ _ | .last mark _ _ => some mark
  | _ => none

theorem AtWork.inTurn {mark : Nat} {sources : List (List Statement)} {ends : List Session}
    (way : AtWork setting depth scope (some mark) start)
    (turn : InTurn setting depth scope mark sources start ends after) :
    AtWork setting depth scope (some mark) after := by
  induction turn with
  | nil => exact way
  | @cons source rest start code ended ends after compiled others ih =>
    have done : block (library setting depth) scope (.mk default source) start =
        (.ok code, ended) := by
      rw [block]
      exact compiled
    exact ih (way.afterBlock done)

theorem AtWork.included {name : Token} (way : AtWork setting depth scope none start)
    (done : library setting depth name scope start = (.ok code, after)) :
    AtWork setting depth scope none after := by
  have alone : statement (library setting depth) scope (.includes default [name]) start =
      (.ok (code ++ []), after) := by
    rw [statement, inclusion, bind_apply, done]
    rfl
  exact way.afterStatement alone

theorem Comes.atWork {here there : Point} (comes : Comes setting here there)
    (way : AtWork setting here.depth here.scope here.task.mark? here.session) :
    AtWork setting there.depth there.scope there.task.mark? there.session := by
  cases comes with
  | first | whileLoop | includes | block | firstLibrary | firstElif | firstCase | last => exact way
  | rest done => exact way.afterStatement done.runs
  | moreLibraries done => exact way.included done.runs
  | define => exact way.inFunction _ _
  | foreach => exact way.inLoop
  | library fresh found apart loaded read => exact way.inLibrary fresh found apart loaded read
  | ifBlock | caseBlocks => exact way.atBlocks
  | elifBlocks _ first =>
    obtain ⟨_, turn, _⟩ := inTurn_branch first
    exact way.atBlocks.inTurn turn
  | elseBlock _ first further =>
    obtain ⟨_, turn, _⟩ := inTurn_branch first
    obtain ⟨_, turn', _⟩ := inTurn_elifs further
    exact (way.atBlocks.inTurn turn).inTurn turn'
  | defaultBlock _ first =>
    obtain ⟨_, turn, _⟩ := inTurn_cases first
    exact way.atBlocks.inTurn turn
  | branch => exact way.inBlock
  | moreElifs _ done | moreCases _ done =>
    obtain ⟨_, turn, _⟩ := inTurn_branch done
    exact way.inTurn turn

/-- Wherever the compilation of a text arrives, a compilation gets to. -/
theorem Reaches.atWork {text file : String} {reserved : List String} {point : Point}
    (reaches : Reaches setting text file reserved point) :
    AtWork setting point.depth point.scope point.task.mark? point.session := by
  obtain ⟨program, _, arrives⟩ := reaches
  induction arrives with
  | refl => exact .atStart reserved program.file
  | tail _ comes ih => exact comes.atWork ih

/-- Of a block that compiled: how many variables there are at least, and what is listed since the
mark. -/
theorem AtWork.listed {mark : Nat} {body : Block}
    (way : AtWork setting depth scope (some mark) start)
    (done : block (library setting depth) scope body start = (.ok code, after)) :
    mark ≤ after.tree.variableCount scope ∧
      ((after.tree.get scope).declared.take mark).map Variable.withoutKeys =
        (start.tree.get scope).declared.map Variable.withoutKeys ∧
      ∀ v ∈ after.tree.variablesSince scope mark, v.scope = scope ∧
        start.tree.sees scope v.name = false := by
  obtain ⟨ready, sound, counted⟩ := way.steady
  obtain rfl := counted mark rfl
  have turned := turned_block ready done
  have growth := (turned.changes.contained ready.inside ready.ordered).growth
  have front := growth.own.declared
  refine ⟨?_, ?_, fun v member => ⟨?_, ?_⟩⟩
  · have shorter := front.length_le
    rwa [List.length_map, List.length_map] at shorter
  · have same := List.prefix_iff_eq_take.1 front
    rw [List.length_map] at same
    rw [List.map_take]
    exact same.symm
  · exact ((turned.changes.sound ready.inside ready.ordered sound).1 scope v
      (List.mem_of_mem_drop member)).scope
  · exact (turned.changes.added ready.inside ready.ordered).1.since growth v member

/-- Wherever a compilation gets to work in a scope, a statement that compiles adds to that scope
alone. Where it gets to a block of an `if` or a `switch`, the scope lists as many variables as the
mark says, and after the block no fewer: those from before, changed in nothing but their known keys,
and behind them variables of the scope, of names that were not seen, which are what is taken away.
All points at which the compilation of a text arrives are gotten to. -/
theorem atWork_contained (setting : Setting) :
    (∀ depth scope start source code after, AtWork setting depth scope none start →
      statement (library setting depth) scope source start = (.ok code, after) →
        Grows scope start.tree after.tree) ∧
    (∀ depth scope mark start declared body code gathered after,
      AtWork setting depth scope (some mark) start →
      branch scope mark declared (block (library setting depth) scope body) start =
        (.ok (code, gathered), after) →
        ∃ ended, block (library setting depth) scope body start = (.ok code, ended) ∧
          gathered = gather declared (ended.tree.variablesSince scope mark) ∧
            after = ended.without scope mark ∧
          mark = start.tree.variableCount scope ∧ mark ≤ ended.tree.variableCount scope ∧
          ((ended.tree.get scope).declared.take mark).map Variable.withoutKeys =
            (start.tree.get scope).declared.map Variable.withoutKeys ∧
          ∀ v ∈ ended.tree.variablesSince scope mark,
            v.scope = scope ∧ start.tree.sees scope v.name = false) ∧
    ∀ text file reserved point, Reaches setting text file reserved point →
      AtWork setting point.depth point.scope point.task.mark? point.session := by
  refine ⟨?_, ?_, fun text file reserved point reaches => reaches.atWork⟩
  · intro depth scope start source code after way done
    have ready := way.steady.ready
    exact ((turned_statement ready done).changes.contained ready.inside ready.ordered).growth
  · intro depth scope mark start declared body code gathered after way done
    obtain ⟨ended, compiled, rfl, rfl⟩ := branch_ok.1 done
    exact ⟨ended, compiled, rfl, rfl, way.steady.counted mark rfl, way.listed compiled⟩

/-- A block that declares a name. -/
def declaring : Block :=
  .mk ⟨.leftBrace, some "\x7b", ⟨1, 6, 5⟩⟩
    [.assign (.plain ⟨.identifier, some "x", ⟨1, 7, 6⟩⟩) ⟨.operatorAssignment, some "=", ⟨1, 8, 7⟩⟩
      (.literal ⟨.integer, some "1", ⟨1, 9, 8⟩⟩ (.integer 1)) false false]

/-- The block on a condition. -/
def conditional : Statement :=
  .ifElse ⟨.ifStatement, some "if", ⟨1, 1, 0⟩⟩ (.plain ⟨.identifier, some "c", ⟨1, 4, 3⟩⟩) declaring
    [] none

/-- Where the condition is listed, the statement compiles, and its block declares the name. -/
theorem atWork_contained_if :
    ∃ code gathered after after',
      statement (library ⟨.empty, []⟩ 2) root conditional (.begin ["c"] "main.mcl") =
        (.ok [.ifElse (.loadVariable "c" []) code [] []], after) ∧
      Grows root (Session.begin ["c"] "main.mcl").tree after.tree ∧
      branch root 1 [] (block (library ⟨.empty, []⟩ 2) root declaring) (.begin ["c"] "main.mcl") =
        (.ok (code, gathered), after') ∧
      gathered.map (·.name) = ["x"] ∧
        1 = (Session.begin ["c"] "main.mcl").tree.variableCount root := by
  have read : Program.ofSource "if c \x7bx=1;\x7d" "main.mcl" =
    .ok ⟨"main.mcl", [conditional]⟩ := by cbv
  have way : AtWork ⟨.empty, []⟩ 2 root none (.begin ["c"] "main.mcl") :=
    (atWork_contained ⟨.empty, []⟩).2.2 _ _ ["c"] _ ⟨_, read, .single .first⟩
  have done : statement (library ⟨.empty, []⟩ 2) root conditional (.begin ["c"] "main.mcl") =
      (.ok [.ifElse (.loadVariable "c" [])
        [.newVariable "x", .storeVariable (.loadVariable "x" []) (.loadConstant (.integer 1)) false]
            [] []], _) :=
    Prod.ext (by cbv) rfl
  have branched : branch root 1 [] (block (library ⟨.empty, []⟩ 2) root declaring)
    (.begin ["c"] "main.mcl") =
      (.ok ([.newVariable "x", .storeVariable (.loadVariable "x" [])
        (.loadConstant (.integer 1)) false],
        [{ Variable.fresh "x" root with type := .integer }]), _) := Prod.ext (by cbv) rfl
  have grows := (atWork_contained ⟨.empty, []⟩).1 _ _ _ _ _ _ way done
  obtain ⟨_, _, _, _, counted, _⟩ :=
    (atWork_contained ⟨.empty, []⟩).2.1 _ _ _ _ _ _ _ _ _ way.atBlocks branched
  exact ⟨_, _, _, _, done, grows, branched, rfl, counted⟩

end Compile

end Treecode
