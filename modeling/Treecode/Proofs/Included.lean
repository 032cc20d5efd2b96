import Treecode.Proofs.Frame
import Treecode.Proofs.GainedNames

set_option autoImplicit false

namespace Treecode

mutual

def Statement.included : Statement → List Token
  | .define _ _ _ body => body.included
  | .ifElse _ _ body elifs otherwise =>
    body.included ++ Clause.allIncluded elifs ++ LastClause.optionIncluded otherwise
  | .whileLoop _ _ body | .foreach _ _ body => body.included
  | .switch _ _ cases default => Clause.allIncluded cases ++ LastClause.optionIncluded default
  | .includes _ libraries => libraries
  | .block body => body.included
  | _ => []

def Block.included : Block → List Token
  | .mk _ body => Statement.allIncluded body

def Statement.allIncluded : List Statement → List Token
  | [] => []
  | first :: rest => first.included ++ Statement.allIncluded rest

def Clause.included : Clause → List Token
  | .mk _ _ body => body.included

def Clause.allIncluded : List Clause → List Token
  | [] => []
  | first :: rest => first.included ++ Clause.allIncluded rest

def LastClause.included : LastClause → List Token
  | .mk _ body => body.included

def LastClause.optionIncluded : Option LastClause → List Token
  | none => []
  | some clause => clause.included

def FunctionBody.included : FunctionBody → List Token
  | .block body => body.included
  | .external _ _ => []

end

mutual

def Statement.plainBranches : Statement → Bool
  | .define _ _ _ (.block body) => body.plainBranches
  | .ifElse _ _ body elifs otherwise =>
    (body.included ++ Clause.allIncluded elifs ++ LastClause.optionIncluded otherwise).isEmpty
  | .whileLoop _ _ body | .foreach _ _ body => body.plainBranches
  | .switch _ _ cases default =>
    (Clause.allIncluded cases ++ LastClause.optionIncluded default).isEmpty
  | .block body => body.plainBranches
  | _ => true

def Block.plainBranches : Block → Bool
  | .mk _ body => Statement.allPlainBranches body

def Statement.allPlainBranches : List Statement → Bool
  | [] => true
  | first :: rest => first.plainBranches && Statement.allPlainBranches rest

end

/-- Whether no block of an `if` or a `switch` in a program includes anything. -/
def Program.plainBranches (program : Program) : Bool :=
  Statement.allPlainBranches program.statements

mutual

theorem Statement.plainBranches_of_included :
    ∀ s : Statement, s.included = [] → s.plainBranches = true
  | .define _ _ _ (.block body), nothing => Block.plainBranches_of_included body nothing
  | .define _ _ _ (.external _ _), _ => rfl
  | .ifElse _ _ body elifs otherwise, nothing => by
    show (_ : List Token).isEmpty = true
    rw [show body.included ++ Clause.allIncluded elifs ++ LastClause.optionIncluded otherwise =
      [] from
      nothing]
    rfl
  | .whileLoop _ _ body, nothing | .foreach _ _ body, nothing =>
    Block.plainBranches_of_included body nothing
  | .switch _ _ cases default, nothing => by
    show (_ : List Token).isEmpty = true
    rw [show Clause.allIncluded cases ++ LastClause.optionIncluded default = [] from nothing]
    rfl
  | .block body, nothing => Block.plainBranches_of_included body nothing
  | .assign _ _ _ _ _, _ | .breakLoop _, _ | .continueLoop _, _ | .returnValue _ _, _ | .halt _ _, _
  | .print _ _, _ | .includes _ _, _ | .select _ _ _ _ _ _ _, _ | .call _ _, _
  | .indexedCall _ _ _, _ => rfl

theorem Block.plainBranches_of_included : ∀ b : Block, b.included = [] → b.plainBranches = true
  | .mk _ body, nothing => Statement.allPlainBranches_of_included body nothing

theorem Statement.allPlainBranches_of_included :
    ∀ list : List Statement, Statement.allIncluded list = [] →
      Statement.allPlainBranches list = true
  | [], _ => rfl
  | first :: rest, nothing => by
    have both := List.append_eq_nil_iff.1 nothing
    simp only [Statement.allPlainBranches, Bool.and_eq_true]
    exact ⟨Statement.plainBranches_of_included first both.1,
      Statement.allPlainBranches_of_included rest both.2⟩

end

namespace Compile

open ScopeTree Relation

variable {setting : Setting} {depth scope : Nat}

/-- The program of a library, as it is found, loaded and read. -/
def Loads (setting : Setting) (name : String) (program : Program) : Prop :=
  ∃ path text, Library.find? setting.files setting.searchPath name = some path ∧
    Library.load setting.files path = .ok text ∧ Program.ofSource text path = .ok program

def Needs (setting : Setting) (program library : Program) : Prop :=
  ∃ name ∈ Statement.allIncluded program.statements, Loads setting name.text library

/-- A program uses itself, the libraries that it includes, those that these include, and so on. -/
def Uses (setting : Setting) : Program → Program → Prop := ReflTransGen (Needs setting)

theorem Uses.eq {program used : Program} (nothing : Statement.allIncluded program.statements = [])
    (uses : Uses setting program used) : program = used := by
  cases ReflTransGen.cases_head uses with
  | inl same => exact same
  | inr more =>
    obtain ⟨library, ⟨name, member, _⟩, _⟩ := more
    rw [nothing] at member
    cases member

theorem Uses.plainBranches {program used : Program}
    (nothing : Statement.allIncluded program.statements = []) (uses : Uses setting program used) :
    used.plainBranches := by
  rw [← uses.eq nothing]
  exact Statement.allPlainBranches_of_included _ nothing

def Job.included : Job → List Token
  | .statement source _ => source.included
  | .statements source _ => Statement.allIncluded source
  | .libraries names _ => names
  | .library name _ => [name]
  | .branch _ _ source _ _ => Statement.allIncluded source
  | .elifs _ _ source _ _ | .cases _ _ _ source _ _ => Clause.allIncluded source
  | .last _ _ source _ _ => LastClause.optionIncluded source

theorem noLibrarySince_of_size {before after : ScopeTree} (same : after.size = before.size) :
    NoLibrarySince before after scope := by
  intro library new included
  have := included.2.2.1
  omega

theorem noLibrarySince_of_includes {before middle after : ScopeTree}
    (without : NoLibrarySince before middle scope) (same : after.Includes = middle.Includes) :
    NoLibrarySince before after scope := by
  intro library new included
  rw [same] at included
  exact without library new included

theorem noLibrarySince_of_plain {before middle after : ScopeTree} (inside : scope < before.size)
    (size : middle.size = before.size + 1)
    (plain : (middle.get before.size).isLibrary = false) (ordered : middle.Ordered)
    (growth : Grows before.size middle after) : NoLibrarySince before after scope := by
  intro library new included
  have room : scope < middle.size := by omega
  have apart : scope ≠ before.size := Nat.ne_of_lt inside
  have old := (growth.includes_other ordered room apart).1 included
  have same : library = before.size := by
    have := old.2.2.1
    omega
  rw [same] at old
  have flag := old.2.2.2
  rw [plain] at flag
  cases flag

theorem plain_function {start : Session} (ready : Ready scope start) (name : Token)
    (params : List Parameter) :
    ((start.function scope name params).tree.get start.tree.size).isLibrary = false := by
  show ((start.tree.withFunction scope name.text _).get start.tree.size).isLibrary = false
  rw [get_withFunction ready.inside, get_within ready.inside]
  simp only [↓reduceIte]
  rfl

theorem size_function (start : Session) (scope : Nat) (name : Token) (params : List Parameter) :
    (start.function scope name params).tree.size = start.tree.size + 1 :=
  size_withFunction _ _ _ _

/-- A function includes nothing in the scope around it, whatever its body includes. -/
theorem noLibrarySince_define {start after : Session} {name : Token} {params : List Parameter}
    (ready : Ready scope start)
    (inner : Frame start.tree.size (start.function scope name params) after)
    (definition : Instruction) :
    NoLibrarySince start.tree (after.defined start.tree.size definition).tree scope := by
  have without := noLibrarySince_of_plain ready.inside (size_function start scope name params)
    (plain_function ready name params) (ready.function name params).ordered inner.growth
  exact noLibrarySince_of_includes without (sameLinks_defined _ _ _).includes

theorem noLibrarySince_external {start : Session} {name : Token} {params : List Parameter}
    (ready : Ready scope start) (definition : Instruction) :
    NoLibrarySince start.tree (((start.function scope name params).external start.tree.size).defined
      start.tree.size definition).tree scope := by
  have made : NoLibrarySince start.tree (start.function scope name params).tree scope :=
    noLibrarySince_of_plain ready.inside (size_function start scope name params)
      (plain_function ready name params) (ready.function name params).ordered (.refl _ _)
  exact noLibrarySince_of_includes
    (noLibrarySince_of_includes made (sameLinks_external _ _).includes)
      (sameLinks_defined _ _ _).includes

/-- A loop over items includes nothing in the scope around it. -/
theorem noLibrarySince_loop {start after : Session} (ready : Ready scope start)
    (inner : Frame start.tree.size (start.loop scope) after) :
    NoLibrarySince start.tree (after.tree.discardChild scope start.tree.size) scope := by
  have growth : Grows start.tree.size (start.tree.within scope "foreach"
      [{ Variable.fresh "it" start.tree.size with type := .any }]) after.tree := inner.growth
  obtain ⟨order, made, plain⟩ := within_ready "foreach"
    [{ Variable.fresh "it" start.tree.size with type := .any }] ready.ordered ready.inside
  have room : start.tree.size < after.tree.size := Nat.lt_of_lt_of_le made growth.size
  have without := noLibrarySince_of_plain ready.inside (size_within _ _ _ _) plain order growth
  exact noLibrarySince_of_includes without (includes_discardChild (Nat.ne_of_lt ready.inside)
    (Nat.lt_trans ready.inside room) room ((growth.extended made).isLibrary.trans plain))

/-- Source without includes leaves its scope without new libraries. -/
theorem Compiles.noLibrarySince {job : Job} {start after : Session}
    (compiles : Compiles setting depth scope job start after) (nothing : job.included = []) :
    NoLibrarySince start.tree after.tree scope := by
  induction compiles with
  | @assign depth scope start target _ value append constant =>
    refine noLibrarySince_of_size ?_
    have recorded := (keysRecorded_kept
      (start.tree.assigned scope target.token.text constant value) scope target append).1
    exact recorded.trans (size_assigned _ _ _ _ _)
  | select => exact noLibrarySince_of_size (size_addVariables _ _ _)
  | simple | noStatement | noLibrary | noElif | noCase | noLast => exact .refl _
  | define ready inner _ => exact noLibrarySince_define ready inner.frame _
  | defineExternal ready => exact noLibrarySince_external ready _
  | ifElse ready _ front between back first further final =>
    have all := List.append_eq_nil_iff.1 nothing
    have both := List.append_eq_nil_iff.1 all.1
    have one := first both.1
    have two := further both.2
    have three := final all.2
    have whole :=
      (one.trans two between.frame.growth between.ready.ordered between.ready.inside).trans
      three back.frame.growth back.ready.ordered back.ready.inside
    exact noLibrarySince_of_includes whole (sameLinks_addVariables _ _ _).includes
  | whileLoop _ _ _ ih | block _ _ ih | someLast _ _ _ ih => exact ih nothing
  | foreach ready _ inner _ => exact noLibrarySince_loop ready inner.frame
  | switch ready _ front back first final =>
    have both := List.append_eq_nil_iff.1 nothing
    have one := first both.1
    have two := final both.2
    exact noLibrarySince_of_includes
      (one.trans two back.frame.growth back.ready.ordered back.ready.inside)
      (sameLinks_addVariables _ _ _).includes
  | includes _ _ ih => exact ih nothing
  | moreStatements _ _ back head tail =>
    have both := List.append_eq_nil_iff.1 nothing
    exact (head both.1).trans (tail both.2) back.frame.growth back.ready.ordered back.ready.inside
  | moreLibraries | knownLibrary | newLibrary => cases nothing
  | branch _ _ _ ih =>
    exact noLibrarySince_of_includes (ih nothing) (sameLinks_dropVariablesSince _ _ _).includes
  | moreElifs _ _ _ _ back head tail | moreCases _ _ _ _ back head tail =>
    have both := List.append_eq_nil_iff.1 nothing
    exact (head both.1).trans (tail both.2) back.frame.growth back.ready.ordered back.ready.inside

end Compile

end Treecode
