import Mathlib
import Treecode.Proofs.Arrival
import Treecode.Proofs.LibraryPaths
import Treecode.Proofs.Nesting

set_option autoImplicit false

namespace Treecode

mutual

theorem Statement.name_of_included {spelling : Spelling} {token : Token} :
    ∀ s : Statement, s.Regular spelling → token ∈ s.included → spelling.Name token
  | .define _ _ _ body, regular, member =>
    FunctionBody.name_of_included body regular.2.2 member
  | .ifElse _ _ body elifs otherwise, regular, member => by
    rcases List.mem_append.1 member with first | last
    · rcases List.mem_append.1 first with inner | further
      · exact Block.name_of_included body regular.2.1 inner
      · exact Clause.name_of_included elifs regular.2.2.1 further
    · exact LastClause.name_of_included otherwise regular.2.2.2 last
  | .whileLoop _ _ body, regular, member | .foreach _ _ body, regular, member =>
    Block.name_of_included body regular.2 member
  | .switch _ _ cases default, regular, member => by
    rcases List.mem_append.1 member with first | last
    · exact Clause.name_of_included cases regular.2.2.1 first
    · exact LastClause.name_of_included default regular.2.2.2 last
  | .includes _ _, regular, member => regular token member
  | .block body, regular, member => Block.name_of_included body regular member
  | .assign _ _ _ _ _, _, member | .breakLoop _, _, member | .continueLoop _, _, member
  | .returnValue _ _, _, member | .halt _ _, _, member | .print _ _, _, member
  | .select _ _ _ _ _ _ _, _, member | .call _ _, _, member | .indexedCall _ _ _, _, member =>
    absurd member List.not_mem_nil

theorem Block.name_of_included {spelling : Spelling} {token : Token} :
    ∀ b : Block, b.Regular spelling → token ∈ b.included → spelling.Name token
  | .mk _ body, regular, member => Statement.name_of_allIncluded body regular member

theorem Statement.name_of_allIncluded {spelling : Spelling} {token : Token} :
    ∀ list : List Statement, Statement.AllRegular spelling list →
      token ∈ Statement.allIncluded list → spelling.Name token
  | [], _, member => absurd member List.not_mem_nil
  | first :: rest, regular, member =>
    (List.mem_append.1 member).elim (Statement.name_of_included first regular.1)
      (Statement.name_of_allIncluded rest regular.2)

theorem Clause.name_of_included {spelling : Spelling} {token : Token} :
    ∀ list : List Clause, Clause.AllRegular spelling list → token ∈ Clause.allIncluded list →
      spelling.Name token
  | [], _, member => absurd member List.not_mem_nil
  | .mk _ _ body :: rest, regular, member =>
    (List.mem_append.1 member).elim (Block.name_of_included body regular.1.2)
      (Clause.name_of_included rest regular.2)

theorem LastClause.name_of_included {spelling : Spelling} {token : Token} :
    ∀ clause : Option LastClause, LastClause.OptionRegular spelling clause →
      token ∈ LastClause.optionIncluded clause → spelling.Name token
  | none, _, member => absurd member List.not_mem_nil
  | some (.mk _ body), regular, member => Block.name_of_included body regular member

theorem FunctionBody.name_of_included {spelling : Spelling} {token : Token} :
    ∀ body : FunctionBody, body.Regular spelling → token ∈ body.included → spelling.Name token
  | .block body, regular, member => Block.name_of_included body regular member
  | .external _ _, _, member => absurd member List.not_mem_nil

end

namespace Compile

open ScopeTree Relation

variable {setting : Setting} {depth scope : Nat} {main program : Program} {including : List String}

def LeadsTo (setting : Setting) (library other : String) : Prop :=
  ∃ program, Loads setting library program ∧
    ∃ token ∈ Statement.allIncluded program.statements, token.text = other

/-- A program leads to the libraries that it includes, to those that these include, and so on. -/
def ProgramLeadsTo (setting : Setting) (main : Program) (name : String) : Prop :=
  ∃ token ∈ Statement.allIncluded main.statements, ReflTransGen (LeadsTo setting) token.text name

/-- A library that leads back to itself. -/
def OnCycle (setting : Setting) (name : String) : Prop := TransGen (LeadsTo setting) name name

/-- The libraries that can be under way while a program is compiled that was included, through them,
from a main program. -/
inductive UnderWay (setting : Setting) (main : Program) : List String → Program → Prop
  | main : UnderWay setting main [] main
  | library {including program token path text library}
      (outer : UnderWay setting main including program)
      (named : token ∈ Statement.allIncluded program.statements)
      (found : Library.find? setting.files setting.searchPath token.text = some path)
      (apart : including.any (Path.same path) = false)
      (loaded : Library.load setting.files path = .ok text)
      (read : Program.ofSource text path = .ok library) :
      UnderWay setting main (path :: including) library

/-- The main program leads to whatever is included while libraries are under way. -/
theorem UnderWay.reached (under : UnderWay setting main including program) :
    ∀ token ∈ Statement.allIncluded program.statements, ProgramLeadsTo setting main token.text := by
  induction under with
  | main => exact fun token named => ⟨token, named, .refl⟩
  | @library including program token path text library outer named found apart loaded read ih =>
    intro later inside
    obtain ⟨first, front, way⟩ := ih token named
    exact ⟨first, front, way.tail ⟨library, ⟨path, text, found, loaded, read⟩, later, inside, rfl⟩⟩

theorem UnderWay.spelled (under : UnderWay setting main including program)
    (proper : Statement.AllRegular .lexed main.statements) :
    Statement.AllRegular .lexed program.statements := by
  cases under with
  | main => exact proper
  | library _ _ _ _ _ read => exact Program.lexed_ofSource read

theorem UnderWay.leads (under : UnderWay setting main including program)
    (proper : Statement.AllRegular .lexed main.statements) :
    ∀ path ∈ including, ∃ name, IsName name ∧
      Library.find? setting.files setting.searchPath name = some path ∧
      ∀ token ∈ Statement.allIncluded program.statements,
        TransGen (LeadsTo setting) name token.text := by
  induction under with
  | main => exact fun path member => absurd member List.not_mem_nil
  | @library including program token path text library outer named found apart loaded read ih =>
    have step : ∀ later ∈ Statement.allIncluded library.statements,
        LeadsTo setting token.text later.text :=
      fun later inside => ⟨library, ⟨path, text, found, loaded, read⟩, later, inside, rfl⟩
    intro other member
    rcases List.mem_cons.1 member with rfl | earlier
    · have isName := (Statement.name_of_allIncluded _ (outer.spelled proper) named).isName
      exact ⟨token.text, isName, found, fun later inside => .single (step later inside)⟩
    · obtain ⟨name, isName, found', ways⟩ := ih other earlier
      exact ⟨name, isName, found', fun later inside => (ways token named).tail (step later inside)⟩

theorem UnderWay.onCycle (under : UnderWay setting main including program)
    (proper : Statement.AllRegular .lexed main.statements) {token : Token} {path : String}
    (named : token ∈ Statement.allIncluded program.statements) (isName : IsName token.text)
    (found : Library.find? setting.files setting.searchPath token.text = some path)
    (known : including.any (Path.same path)) : OnCycle setting token.text := by
  obtain ⟨other, member, same⟩ := List.any_eq_true.1 known
  obtain ⟨name, isName', found', ways⟩ := under.leads proper other member
  have equal : token.text = name := Library.name_eq_of_same isName isName' found found' same
  have way := ways token named
  rw [← equal] at way
  exact way

theorem nodup_of_apart {paths : List String}
    (apart : paths.Pairwise fun a b => Path.same a b = false) : paths.Nodup := by
  refine apart.imp ?_
  rintro a _ different rfl
  unfold Path.same at different
  rw [beq_self_eq_true] at different
  cases different

theorem UnderWay.apart (under : UnderWay setting main including program) :
    including.Pairwise fun a b => Path.same a b = false := by
  induction under with
  | main => exact .nil
  | library _ _ _ apart _ _ ih =>
    refine .cons ?_ ih
    simpa only [List.any_eq_false, Bool.not_eq_true] using apart

/-- No more libraries are under way than there are pairs of a directory and a place. -/
theorem UnderWay.length_le (under : UnderWay setting main including program)
    (proper : Statement.AllRegular .lexed main.statements) :
    including.length ≤ setting.searchPath.length * setting.files.nodes.length := by
  refine Library.length_le_of_nodup (nodup_of_apart under.apart) fun path member => ?_
  obtain ⟨name, isName, found, _⟩ := under.leads proper path member
  exact Library.mem_paths isName found

/-- Includes a library, where something else stands in for the libraries below a depth. -/
def libraryOver (setting : Setting) (beyond : Including) : Nat → Including
  | 0 => beyond
  | depth + 1 => includingOver setting (libraryOver setting beyond depth)

/-- An include never comes to what stands in below the depth, and it objects as circular only to
libraries on a cycle to which the main program leads. -/
theorem agrees_library (beyond : Including) (proper : Statement.AllRegular .lexed main.statements)
    (depth : Nat) (under : UnderWay setting main including program)
    (room : setting.searchPath.length * setting.files.nodes.length < depth + including.length) :
    AgreeOn including (fun name => ProgramLeadsTo setting main name ∧ OnCycle setting name)
      (library setting depth) (libraryOver setting beyond depth)
      (Statement.allIncluded program.statements) := by
  induction depth generalizing including program with
  | zero =>
    -- As many libraries under way as there are paths leave no room for one more.
    have bound := under.length_le proper
    omega
  | succ depth ih =>
    intro name named scope
    rw [library_succ]
    have isName := (Statement.name_of_allIncluded _ (under.spelled proper) named).isName
    refine agrees_includingOver name ?_ ?_ scope
    · intro path found known
      exact ⟨under.reached name named, under.onCycle proper named isName found known⟩
    · intro path text library found apart loaded read
      refine ih (.library under named found apart loaded read) ?_
      rw [List.length_cons]
      omega

theorem libraries_modify (tree : ScopeTree) (id : Nat) (change : Scope → Scope)
    (same : ∀ s, (change s).libraries = s.libraries) (other : Nat) :
    ((tree.modify id change).get other).libraries = (tree.get other).libraries :=
  get_modify_induct (motive := fun before after => after.libraries = before.libraries) tree
    id change other rfl fun _ => same _

theorem libraries_addVariables (tree : ScopeTree) (id : Nat) (more : List Variable) (other : Nat) :
    ((tree.addVariables id more).get other).libraries = (tree.get other).libraries :=
  libraries_modify tree id (fun s => { s with declared := s.declared ++ more }) (fun _ => rfl) other

theorem libraries_dropVariablesSince (tree : ScopeTree) (id mark other : Nat) :
    ((tree.dropVariablesSince id mark).get other).libraries = (tree.get other).libraries :=
  libraries_modify tree id (fun s => { s with declared := s.declared.take mark })
    (fun _ => rfl) other

theorem libraries_assignment (start : Session) (target value : Expression)
    (append constant : Bool) :
    ((start.afterAssignment scope target value append constant).tree.get scope).libraries =
      (start.tree.get scope).libraries := by
  obtain ⟨_, kept⟩ := keysRecorded_kept
    (start.tree.assigned scope target.token.text constant value) scope target append
  refine (kept scope).libraries.trans ?_
  unfold ScopeTree.assigned
  split
  · rfl
  · rw [declare_eq]
    exact libraries_addVariables _ _ _ scope

theorem libraries_defined (session : Session) (child : Nat) (definition : Instruction) :
    ((session.defined child definition).tree.get scope).libraries =
    (session.tree.get scope).libraries :=
  libraries_modify session.tree child (fun s => { s with definition := some definition })
    (fun _ => rfl) scope

theorem libraries_external (session : Session) (child : Nat) :
    ((session.external child).tree.get scope).libraries = (session.tree.get scope).libraries :=
  libraries_modify session.tree child (fun s => { s with isExternal := true }) (fun _ => rfl) scope

theorem libraries_within {start : ScopeTree} (title : String) (declared : List Variable)
    (inside : scope < start.size) :
    ((start.within scope title declared).get scope).libraries = (start.get scope).libraries := by
  have apart : scope ≠ start.size := Nat.ne_of_lt inside
  refine (libraries_addVariables _ _ _ scope).trans ?_
  rw [get_newChild inside]
  simp only [apart, ↓reduceIte]

/-- What is done in a scope inside leaves the libraries of the scope around alone. -/
theorem Frame.libraries_outside {child : Nat} {start after : Session}
    (inner : Frame child start after) (inside : scope < start.tree.size) (apart : scope ≠ child) :
    (after.tree.get scope).libraries = (start.tree.get scope).libraries :=
  (inner.growth.others scope inside apart).libraries

theorem libraries_function {start : Session} (ready : Ready scope start) (name : Token)
    (params : List Parameter) :
    ((start.function scope name params).tree.get scope).libraries =
    (start.tree.get scope).libraries := by
  have apart : scope ≠ start.tree.size := Nat.ne_of_lt ready.inside
  show ((start.tree.withFunction scope name.text _).get scope).libraries = _
  rw [get_withFunction ready.inside]
  simp only [apart, ↓reduceIte]
  exact libraries_within _ _ ready.inside

theorem libraries_loop {start after : Session} (ready : Ready scope start)
    (inner : Frame start.tree.size (start.loop scope) after) :
    ((after.tree.discardChild scope start.tree.size).get scope).libraries =
      (start.tree.get scope).libraries := by
  have apart : scope ≠ start.tree.size := Nat.ne_of_lt ready.inside
  have wider : scope < (start.loop scope).tree.size := Nat.lt_trans ready.inside ready.loop.inside
  have room : start.tree.size < after.tree.size :=
    Nat.lt_of_lt_of_le ready.loop.inside inner.growth.size
  rw [get_discardChild apart (Nat.lt_trans ready.inside room) room]
  simp only [apart, ↓reduceIte]
  exact (inner.libraries_outside wider apart).trans (libraries_within _ _ ready.inside)

theorem libraries_inLibrary {start : Session} (ready : Ready scope start) (name : Token)
    (path file : String) :
    ((start.inLibrary scope name path file).tree.get scope).libraries =
      (start.tree.get scope).libraries ++ [name.text] := by
  have apart : scope ≠ start.tree.size := Nat.ne_of_lt ready.inside
  show ((start.tree.withLibrary scope name.text).get scope).libraries = _
  rw [get_withLibrary ready.inside]
  simp only [apart, ↓reduceIte]

theorem libraries_define {start after : Session} {name : Token} {params : List Parameter}
    (ready : Ready scope start)
    (inner : Frame start.tree.size (start.function scope name params) after)
    (definition : Instruction) :
    ((after.defined start.tree.size definition).tree.get scope).libraries =
      (start.tree.get scope).libraries := by
  have apart : scope ≠ start.tree.size := Nat.ne_of_lt ready.inside
  have wider : scope < (start.function scope name params).tree.size :=
    Nat.lt_trans ready.inside (ready.function name params).inside
  exact (libraries_defined _ _ _).trans
    ((inner.libraries_outside wider apart).trans (libraries_function ready name params))

theorem libraries_defineExternal {start : Session} {name : Token} {params : List Parameter}
    (ready : Ready scope start) (definition : Instruction) :
    ((((start.function scope name params).external start.tree.size).defined start.tree.size
      definition).tree.get scope).libraries = (start.tree.get scope).libraries :=
  (libraries_defined _ _ _).trans
    ((libraries_external _ _).trans (libraries_function ready name params))

/-- After a library the scope that includes it lists it too. -/
theorem libraries_library {start after : Session} {name : Token} {path file : String}
    (ready : Ready scope start)
    (inner : Frame start.tree.size (start.inLibrary scope name path file) after) :
    (after.tree.get scope).libraries = (start.tree.get scope).libraries ++ [name.text] := by
  have apart : scope ≠ start.tree.size := Nat.ne_of_lt ready.inside
  have wider : scope < (start.inLibrary scope name path file).tree.size :=
    Nat.lt_trans ready.inside (ready.inLibrary name path file).inside
  rw [inner.libraries_outside wider apart, libraries_inLibrary ready]

/-- A scope lists the libraries that it listed before and some of the given ones. -/
def ListsMore (scope : Nat) (tokens : List Token) (before after : ScopeTree) : Prop :=
  ∀ name ∈ (after.get scope).libraries,
    name ∈ (before.get scope).libraries ∨ ∃ token ∈ tokens, token.text = name

theorem ListsMore.same {before after : ScopeTree} {tokens : List Token}
    (same : (after.get scope).libraries = (before.get scope).libraries) :
    ListsMore scope tokens before after := by
  intro name member
  rw [same] at member
  exact .inl member

theorem ListsMore.trans {before middle after : ScopeTree} {first last : List Token}
    (front : ListsMore scope first before middle) (back : ListsMore scope last middle after) :
    ListsMore scope (first ++ last) before after := by
  intro name member
  rcases back name member with earlier | ⟨token, named, equal⟩
  · rcases front name earlier with old | ⟨token, named, equal⟩
    · exact .inl old
    · exact .inr ⟨token, List.mem_append_left _ named, equal⟩
  · exact .inr ⟨token, List.mem_append_right _ named, equal⟩

theorem ListsMore.change {before middle after : ScopeTree} {tokens : List Token}
    (more : ListsMore scope tokens before middle)
    (same : (after.get scope).libraries = (middle.get scope).libraries) :
    ListsMore scope tokens before after := by
  intro name member
  rw [same] at member
  exact more name member

/-- After a compilation a scope lists no libraries but those that it listed and those that the
source includes. -/
theorem Compiles.listsMore {job : Job} {start after : Session}
    (compiles : Compiles setting depth scope job start after) :
    ListsMore scope job.included start.tree after.tree := by
  induction compiles with
  | assign => exact .same (libraries_assignment _ _ _ _ _)
  | select => exact .same (libraries_addVariables _ _ _ _)
  | simple | noStatement | noLibrary | knownLibrary | noElif | noCase | noLast => exact .same rfl
  | define ready inner _ => exact .same (libraries_define ready inner.frame _)
  | defineExternal ready => exact .same (libraries_defineExternal ready _)
  | ifElse _ _ _ _ _ first further final =>
    exact ((first.trans further).trans final).change (libraries_addVariables _ _ _ _)
  | whileLoop _ _ _ ih | includes _ _ ih | block _ _ ih | someLast _ _ _ ih => exact ih
  | foreach ready _ inner _ => exact .same (libraries_loop ready inner.frame)
  | switch _ _ _ _ first final => exact (first.trans final).change (libraries_addVariables _ _ _ _)
  | moreStatements _ _ _ head tail | moreElifs _ _ _ _ _ head tail
  | moreCases _ _ _ _ _ head tail =>
    exact head.trans tail
  | moreLibraries _ _ _ head tail => exact head.trans tail
  | @newLibrary _ scope start name _ _ _ _ after ready _ _ _ _ _ inner _ =>
    intro listed member
    have member : listed ∈ (after.tree.get scope).libraries := member
    rw [libraries_library ready inner.frame, List.mem_append, List.mem_singleton] at member
    rcases member with old | rfl
    · exact .inl old
    · exact .inr ⟨name, List.mem_cons_self .., rfl⟩
  | branch _ _ _ ih =>
    exact ih.change (libraries_dropVariablesSince _ _ _ _)

def IsUnderWay (setting : Setting) (including : List String) (name : String) : Prop :=
  ∃ path, Library.find? setting.files setting.searchPath name = some path ∧
    including.any (Path.same path)

/-- Nothing that a library leads to is under way or on a cycle. -/
def Clear (setting : Setting) (including : List String) (name : String) : Prop :=
  ∀ later, ReflTransGen (LeadsTo setting) name later →
    ¬ IsUnderWay setting including later ∧ ¬ OnCycle setting later

/-- A library has one program. -/
theorem Loads.unique {name : String} {program other : Program} (loads : Loads setting name program)
    (loads' : Loads setting name other) : program = other := by
  obtain ⟨path, text, found, loaded, read⟩ := loads
  obtain ⟨path', text', found', loaded', read'⟩ := loads'
  cases found.symm.trans found'
  cases loaded.symm.trans loaded'
  cases read.symm.trans read'
  rfl

/-- A library that is not under way, and whose includes lead to nothing that is under way together
with it, is clear. -/
theorem clear_of_inner {name path text : String} {library : Program}
    (found : Library.find? setting.files setting.searchPath name = some path)
    (apart : including.any (Path.same path) = false)
    (loaded : Library.load setting.files path = .ok text)
    (read : Program.ofSource text path = .ok library)
    (inner : ∀ token ∈ Statement.allIncluded library.statements,
      Clear setting (path :: including) token.text) : Clear setting including name := by
  have loads : Loads setting name library := ⟨path, text, found, loaded, read⟩
  have itself : IsUnderWay setting (path :: including) name :=
    ⟨path, found, List.any_eq_true.2 ⟨path, List.mem_cons_self .., beq_self_eq_true _⟩⟩
  have after : ∀ {next later}, LeadsTo setting name next →
    ReflTransGen (LeadsTo setting) next later →
      ¬ IsUnderWay setting (path :: including) later ∧ ¬ OnCycle setting later := by
    intro next later first way
    obtain ⟨program, loads', token, named, rfl⟩ := first
    cases loads.unique loads'
    exact inner token named later way
  intro later way
  rcases ReflTransGen.cases_head way with rfl | ⟨next, first, way⟩
  · constructor
    · rintro ⟨path', found', known⟩
      cases found.symm.trans found'
      rw [apart] at known
      cases known
    · intro cycle
      obtain ⟨next, first, way⟩ := TransGen.head'_iff.1 cycle
      exact (after first way).1 itself
  · refine ⟨?_, (after first way).2⟩
    rintro ⟨path', found', known⟩
    refine (after first way).1 ⟨path', found', ?_⟩
    rw [List.any_cons, known, Bool.or_true]

def ListsClear (setting : Setting) (scope : Nat) (session : Session) : Prop :=
  ∀ name ∈ (session.tree.get scope).libraries, Clear setting session.including name

def AllClear (setting : Setting) (including : List String) (tokens : List Token) : Prop :=
  ∀ token ∈ tokens, Clear setting including token.text

theorem AllClear.nil : AllClear setting including [] :=
  fun _ member => absurd member List.not_mem_nil

theorem AllClear.append {first last : List Token} (front : AllClear setting including first)
    (back : AllClear setting including last) : AllClear setting including (first ++ last) :=
  fun token member => (List.mem_append.1 member).elim (front token) (back token)

theorem Compiles.listsClear {job : Job} {start after : Session}
    (compiles : Compiles setting depth scope job start after)
    (listed : ListsClear setting scope start)
    (clear : AllClear setting start.including job.included) : ListsClear setting scope after := by
  intro name member
  rw [compiles.frame.including]
  rcases compiles.listsMore name member with earlier | ⟨token, named, rfl⟩
  · exact listed name earlier
  · exact clear token named

/-- What compiles after something else is clear as it would be before. -/
theorem Compiles.allClear {job : Job} {start middle : Session} {tokens : List Token}
    (compiles : Compiles setting depth scope job start middle)
    (listed : ListsClear setting scope start)
    (front : AllClear setting start.including job.included)
    (back : ListsClear setting scope middle → AllClear setting middle.including tokens) :
    AllClear setting start.including (job.included ++ tokens) := by
  have rest := back (compiles.listsClear listed front)
  rw [compiles.frame.including] at rest
  exact front.append rest

theorem libraries_new_within {start : ScopeTree} (title : String) (declared : List Variable)
    (inside : scope < start.size) :
    ((start.within scope title declared).get start.size).libraries = [] := by
  rw [get_within inside]
  rfl

theorem libraries_new_function {start : Session} (ready : Ready scope start) (name : Token)
    (params : List Parameter) :
    ((start.function scope name params).tree.get start.tree.size).libraries = [] := by
  show ((start.tree.withFunction scope name.text _).get start.tree.size).libraries = []
  rw [get_withFunction ready.inside]
  simp only [↓reduceIte]
  exact libraries_new_within _ _ ready.inside

theorem libraries_new_library {start : Session} (ready : Ready scope start) (name : Token)
    (path file : String) :
    ((start.inLibrary scope name path file).tree.get start.tree.size).libraries = [] := by
  show ((start.tree.withLibrary scope name.text).get start.tree.size).libraries = []
  rw [get_withLibrary ready.inside]
  simp only [↓reduceIte]
  rfl

theorem ListsClear.of_nil {session : Session} (nothing : (session.tree.get scope).libraries = []) :
    ListsClear setting scope session := by
  intro name member
  rw [nothing] at member
  exact absurd member List.not_mem_nil

theorem Compiles.clear {job : Job} {start after : Session}
    (compiles : Compiles setting depth scope job start after)
    (listed : ListsClear setting scope start) :
    AllClear setting start.including job.included := by
  induction compiles with
  | assign | select | noStatement | noLibrary | noElif | noCase | noLast | defineExternal =>
    exact .nil
  | @simple _ _ _ source _ _ translated =>
    cases source with
    | breakLoop | continueLoop | returnValue | halt | print | call => exact .nil
    | _ => cases translated
  | define ready _ ih => exact ih (.of_nil (libraries_new_function ready _ _))
  | ifElse _ _ front between _ first further final =>
    have head := front.allClear listed (first listed) further
    have middle := front.listsClear listed (first listed)
    have rest := between.allClear middle (further middle) final
    rw [front.frame.including] at rest
    exact head.append fun token member => rest token (List.mem_append_right _ member)
  | whileLoop _ _ _ ih | includes _ _ ih | block _ _ ih | branch _ _ _ ih | someLast _ _ _ ih =>
    exact ih listed
  | foreach ready _ _ ih => exact ih (.of_nil (libraries_new_within _ _ ready.inside))
  | switch _ _ front _ first final => exact front.allClear listed (first listed) final
  | moreStatements _ front _ head tail | moreLibraries _ front _ head tail
  | moreElifs _ _ _ front _ head tail | moreCases _ _ _ front _ head tail =>
    exact front.allClear listed (head listed) tail
  | knownLibrary _ known =>
    intro token member
    rw [List.mem_singleton.1 member]
    exact listed _ (List.contains_iff_mem.1 known)
  | newLibrary ready _ found apart loaded read _ ih =>
    intro token member
    rw [List.mem_singleton.1 member]
    exact clear_of_inner found apart loaded read (ih (.of_nil (libraries_new_library ready _ _ _)))

variable {text file : String} {reserved : List String}

/-- No library is included before the first statement. -/
theorem libraries_begin (reserved : List String) (file : String) :
    ((Session.begin reserved file).tree.get root).libraries = [] := by
  show ((reservedTree reserved).get root).libraries = []
  rw [reservedTree_eq]
  exact libraries_addVariables _ _ _ _

/-- No path is under way twice where a compilation arrives. -/
theorem Arrives.apart {here there : Point} (arrives : Arrives setting here there)
    (begun : here.session.including.Pairwise fun a b => Path.same a b = false) :
    there.session.including.Pairwise fun a b => Path.same a b = false := by
  induction arrives with
  | refl => exact begun
  | tail _ comes ih =>
    cases comes with
    | first | ifBlock | whileLoop | caseBlocks | includes | block | firstLibrary
    | branch | firstElif
    | firstCase | last | define | foreach => exact ih
    | rest done | moreLibraries done | elifBlocks _ done | defaultBlock _ done | moreElifs _ done
    | moreCases _ done =>
      rw [done.frame.including]
      exact ih
    | elseBlock _ first further =>
      rw [further.frame.including, first.frame.including]
      exact ih
    | library _ _ apart =>
      refine .cons ?_ ih
      simpa only [List.any_eq_false, Bool.not_eq_true] using apart

theorem statements_error {error : Error} (read : Program.ofSource text file = .ok main)
    (failed : sourceText setting text file reserved = .error error) :
    (statements (library setting setting.depth) root main.statements
      (Session.begin reserved main.file)).1 = .error error := by
  unfold sourceText at failed
  rw [read] at failed
  have failed : (Compile.program setting main reserved .initial).1 = .error error := failed
  unfold Compile.program at failed
  dsimp only at failed
  split at failed
  · cases failed
  · rename_i done
    cases failed
    exact congrArg Prod.fst done

/-- Includes end, and exactly the cycles among them are objected to. The depth of includes has no
part in a compilation: nothing that stands in for the libraries below it is ever asked. Wherever the
compilation arrives, no path is under way twice, and after every include the same libraries are
under way as before it. A source that compiles leads to no library on a cycle, and a library that is
objected to as circular is on one. -/
theorem sourceText_includes (read : Program.ofSource text file = .ok main) :
    (∀ beyond, statements (libraryOver setting beyond setting.depth) root main.statements
        (Session.begin reserved main.file) =
      statements (library setting setting.depth) root main.statements
        (Session.begin reserved main.file)) ∧
    (∀ point, Reaches setting text file reserved point →
      point.session.including.Pairwise fun a b => Path.same a b = false) ∧
    (∀ depth name scope start,
      (library setting depth name scope start).2.including = start.including) ∧
    (∀ code, sourceText setting text file reserved = .ok code →
      ∀ name, ProgramLeadsTo setting main name → ¬ OnCycle setting name) ∧
    (∀ place name,
      sourceText setting text file reserved = .error (.rejected place (.circularInclude name)) →
      ProgramLeadsTo setting main name ∧ OnCycle setting name) := by
  have proper := Program.lexed_ofSource read
  have room : setting.searchPath.length * setting.files.nodes.length <
      setting.depth + ([] : List String).length := Nat.lt_add_of_pos_right (by decide : 0 < 2)
  have agrees : ∀ beyond, Agrees [] (fun name => ProgramLeadsTo setting main name ∧
    OnCycle setting name) (statements (library setting setting.depth) root main.statements)
      (statements (libraryOver setting beyond setting.depth) root main.statements) := fun beyond =>
    agrees_statements main.statements (agrees_library beyond proper setting.depth .main room)
  refine ⟨fun beyond => (agrees beyond _ rfl).1.symm, ?_, including_library setting, ?_, ?_⟩
  · rintro point ⟨program, _, arrives⟩
    exact arrives.apart .nil
  · rintro code success name ⟨token, named, way⟩
    obtain ⟨source, body, after, read', compiles, rfl⟩ := Compiles.of_sourceText success
    cases read.symm.trans read'
    exact (compiles.clear (.of_nil (libraries_begin reserved main.file)) token named name way).2
  · intro place name failed
    exact (agrees (library setting setting.depth) _ rfl).2.2 place name
      (statements_error read failed)

/-- A library that includes itself is objected to, and one without includes is on no cycle. -/
theorem sourceText_includes_itself :
    (sourceText ⟨⟨[(["a.mcl"], .file "include a;".toByteArray)]⟩, [""]⟩ "include a;" "main.mcl" [] =
        .error (.rejected ⟨"a.mcl", 1, 9⟩ (.circularInclude "a")) ∧
      OnCycle ⟨⟨[(["a.mcl"], .file "include a;".toByteArray)]⟩, [""]⟩ "a") ∧
    (sourceText ⟨⟨[(["a.mcl"], .file "halt;".toByteArray)]⟩, [""]⟩ "include a;" "main.mcl" [] =
        .ok [.halt none, .finalHalt] ∧
      ¬ OnCycle ⟨⟨[(["a.mcl"], .file "halt;".toByteArray)]⟩, [""]⟩ "a") := by
  have read : Program.ofSource "include a;" "main.mcl" = .ok ⟨"main.mcl",
      [.includes ⟨.includeStatement, some "include", ⟨1, 1, 0⟩⟩
        [⟨.identifier, some "a", ⟨1, 9, 8⟩⟩]]⟩ := by cbv
  have failed : sourceText ⟨⟨[(["a.mcl"], .file "include a;".toByteArray)]⟩,
    [""]⟩ "include a;" "main.mcl" [] =
      .error (.rejected ⟨"a.mcl", 1, 9⟩ (.circularInclude "a")) := by cbv
  have compiled : sourceText ⟨⟨[(["a.mcl"], .file "halt;".toByteArray)]⟩,
    [""]⟩ "include a;" "main.mcl" [] = .ok [.halt none, .finalHalt] := by cbv
  obtain ⟨_, _, _, _, objects⟩ := @sourceText_includes
    ⟨⟨[(["a.mcl"], .file "include a;".toByteArray)]⟩, [""]⟩ _ _ _ [] read
  obtain ⟨_, _, _, clear, _⟩ := @sourceText_includes
    ⟨⟨[(["a.mcl"], .file "halt;".toByteArray)]⟩, [""]⟩ _ _ _ [] read
  have reached : ProgramLeadsTo ⟨⟨[(["a.mcl"], .file "halt;".toByteArray)]⟩, [""]⟩ ⟨"main.mcl",
      [.includes ⟨.includeStatement, some "include", ⟨1, 1, 0⟩⟩
          [⟨.identifier, some "a", ⟨1, 9, 8⟩⟩]]⟩ "a" :=
    ⟨⟨.identifier, some "a", ⟨1, 9, 8⟩⟩, List.mem_cons_self .., .refl⟩
  exact ⟨⟨failed, (objects _ _ failed).2⟩, compiled, clear _ compiled _ reached⟩

end Compile

end Treecode
