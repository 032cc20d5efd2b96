import Treecode.Proofs.VisibleNames

set_option autoImplicit false

namespace Treecode

mutual

/-- The names that a statement assigns to at any depth, each with whether it is declared as a
constant. -/
def Statement.assigned : Statement → List (String × Bool)
  | .assign target _ _ _ constant => [(target.token.text, constant)]
  | .define _ _ _ body => body.assigned
  | .ifElse _ _ body elifs otherwise =>
    body.assigned ++ Clause.allAssigned elifs ++ LastClause.optionAssigned otherwise
  | .whileLoop _ _ body | .foreach _ _ body => body.assigned
  | .switch _ _ cases default => Clause.allAssigned cases ++ LastClause.optionAssigned default
  | .block body => body.assigned
  | _ => []

def Block.assigned : Block → List (String × Bool)
  | .mk _ body => Statement.allAssigned body

def Statement.allAssigned : List Statement → List (String × Bool)
  | [] => []
  | first :: rest => first.assigned ++ Statement.allAssigned rest

def Clause.allAssigned : List Clause → List (String × Bool)
  | [] => []
  | .mk _ _ body :: rest => body.assigned ++ Clause.allAssigned rest

def LastClause.optionAssigned : Option LastClause → List (String × Bool)
  | none => []
  | some (.mk _ body) => body.assigned

def FunctionBody.assigned : FunctionBody → List (String × Bool)
  | .block body => body.assigned
  | .external _ _ => []

end

namespace ScopeTree

open Relation

variable {tree before middle after : ScopeTree} {scope id : Nat}

/-- A variable is listed in a scope but for its keys, or it is of a kind that may be new there. -/
def Explains (tree : ScopeTree) (fresh : Variable → Prop) (id : Nat) (v : Variable) : Prop :=
  fresh v.withoutKeys ∨ v.withoutKeys ∈ (tree.get id).declared.map Variable.withoutKeys

/-- Whatever a scope lists it listed before but for the keys, or it is of a kind that may be new. -/
def AddsOnly (fresh : Variable → Prop) (before after : ScopeTree) : Prop :=
  ∀ id, ∀ v ∈ (after.get id).declared, before.Explains fresh id v

variable {fresh fresh' : Variable → Prop}

theorem Explains.of_mem {v : Variable} (listed : v ∈ (tree.get id).declared) :
    tree.Explains fresh id v :=
  .inr (List.mem_map.2 ⟨v, listed, rfl⟩)

theorem Explains.of_fresh {v : Variable} (new : fresh v.withoutKeys) : tree.Explains fresh id v :=
  .inl new

theorem Explains.mono {v : Variable} (explains : tree.Explains fresh id v)
    (weaker : ∀ v, fresh v → fresh' v) : tree.Explains fresh' id v :=
  explains.imp_left (weaker _)

theorem AddsOnly.refl (tree : ScopeTree) : AddsOnly fresh tree tree := fun _ _ => .of_mem

theorem AddsOnly.mono (adds : AddsOnly fresh before after) (weaker : ∀ v, fresh v → fresh' v) :
    AddsOnly fresh' before after :=
  fun id v listed => (adds id v listed).mono weaker

theorem AddsOnly.explains (adds : AddsOnly fresh before after) {v : Variable}
    (explains : after.Explains fresh id v) : before.Explains fresh id v := by
  rcases explains with new | listed
  · exact .inl new
  · obtain ⟨old, listed, same⟩ := List.mem_map.1 listed
    have earlier := adds id old listed
    rwa [Explains, same] at earlier

theorem AddsOnly.trans (first : AddsOnly fresh before middle) (last : AddsOnly fresh middle after) :
    AddsOnly fresh before after :=
  fun id v listed => first.explains (last id v listed)

theorem AddsOnly.of_declared (same : ∀ id, (after.get id).declared = (before.get id).declared) :
    AddsOnly fresh before after := by
  intro id v listed
  rw [same] at listed
  exact .of_mem listed

theorem AddsOnly.of_kept (kept : ∀ id, Scope.Kept (before.get id) (after.get id)) :
    AddsOnly fresh before after := by
  intro id v listed
  refine .inr ?_
  rw [← (kept id).declared]
  exact List.mem_map.2 ⟨v, listed, rfl⟩

theorem AddsOnly.modify (tree : ScopeTree) (scope : Nat) (change : Scope → Scope)
    (explained : ∀ v ∈ (change (tree.get scope)).declared, tree.Explains fresh scope v) :
    AddsOnly fresh tree (tree.modify scope change) := by
  intro id v listed
  rw [get_modify] at listed
  split at listed
  · rename_i here
    obtain ⟨rfl, _⟩ := here
    exact explained v listed
  · exact .of_mem listed

theorem AddsOnly.given (adds : AddsOnly fresh before after) {more : List Variable}
    (explained : ∀ v ∈ more, before.Explains fresh scope v) :
    AddsOnly fresh before (after.addVariables scope more) := by
  intro id v listed
  rw [ScopeTree.addVariables, get_modify] at listed
  split at listed
  · rename_i here
    obtain ⟨rfl, _⟩ := here
    exact (List.mem_append.1 listed).elim (adds scope v) (explained v)
  · exact adds id v listed

theorem AddsOnly.addVariables (tree : ScopeTree) (scope : Nat) {more : List Variable}
    (new : ∀ v ∈ more, fresh v.withoutKeys) : AddsOnly fresh tree (tree.addVariables scope more) :=
  (AddsOnly.refl tree).given fun v listed => .of_fresh (new v listed)

theorem AddsOnly.dropVariablesSince (tree : ScopeTree) (scope mark : Nat) :
    AddsOnly fresh tree (tree.dropVariablesSince scope mark) :=
  .modify tree scope _ fun _ listed => .of_mem (List.mem_of_mem_take listed)

theorem AddsOnly.newChild (inside : scope < tree.size) (title : String) :
    AddsOnly fresh tree (tree.newChild scope title) := by
  intro id v listed
  rw [get_newChild inside] at listed
  split at listed
  · cases listed
  · split at listed
    · rename_i same
      subst same
      exact .of_mem listed
    · exact .of_mem listed

theorem AddsOnly.within (inside : scope < tree.size) (title : String) {declared : List Variable}
    (new : ∀ v ∈ declared, fresh v.withoutKeys) :
    AddsOnly fresh tree (tree.within scope title declared) :=
  (AddsOnly.newChild inside title).trans (.addVariables _ _ new)

theorem AddsOnly.withFunction (inside : scope < tree.size) (title : String)
    {declared : List Variable} (new : ∀ v ∈ declared, fresh v.withoutKeys) :
    AddsOnly fresh tree (tree.withFunction scope title declared) := by
  refine (AddsOnly.within inside title new).trans (.of_declared fun id => ?_)
  rw [get_withFunction inside]
  split
  · rfl
  · split <;> rfl

theorem AddsOnly.withLibrary (inside : scope < tree.size) (title : String) :
    AddsOnly fresh tree (tree.withLibrary scope title) := by
  intro id v listed
  rw [get_withLibrary inside] at listed
  split at listed
  · cases listed
  · split at listed
    · rename_i same
      subst same
      exact .of_mem listed
    · exact .of_mem listed

theorem AddsOnly.discardChild (tree : ScopeTree) (scope child : Nat) :
    AddsOnly fresh tree (tree.discardChild scope child) :=
  (AddsOnly.modify tree scope (fun s =>
      { s with
        children := s.children.filter (· != child)
        functions := s.functions.filter (· != child) }) fun _ => .of_mem).trans
    (.modify _ child (fun s => { s with parent := none }) fun _ => .of_mem)

/-- What a block of an `if` or a `switch` adds to the variables gathered before it is explained. -/
def Gathers (tree : ScopeTree) (fresh : Variable → Prop) (scope : Nat)
    (declared gathered : List Variable) : Prop :=
  ∀ v ∈ gathered, v ∈ declared ∨ tree.Explains fresh scope v

theorem Gathers.refl (declared : List Variable) : tree.Gathers fresh scope declared declared :=
  fun _ member => .inl member

theorem Gathers.mono {declared gathered : List Variable}
    (gathers : tree.Gathers fresh scope declared gathered)
    (weaker : ∀ v, fresh v → fresh' v) : tree.Gathers fresh' scope declared gathered :=
  fun v member => (gathers v member).imp_right (·.mono weaker)

/-- What is gathered block after block is explained by the tree before them. -/
theorem AddsOnly.gathers (adds : AddsOnly fresh before middle) {first second third : List Variable}
    (front : before.Gathers fresh scope first second)
    (back : middle.Gathers fresh scope second third) :
    before.Gathers fresh scope first third :=
  fun v member => (back v member).elim (front v) fun explained => .inr (adds.explains explained)

def Backed (tree : ScopeTree) (id : Nat) (v : Variable) : Prop :=
  v.constant = true → ∃ known ∈ (tree.get id).declared, known.name = v.name ∧ known.constant = true

/-- No scope lists a constant that it did not list before. -/
def Calm (before after : ScopeTree) : Prop :=
  ∀ id, ∀ v ∈ (after.get id).declared, before.Backed id v

/-- Where no constants are new, none are listed that were not before. -/
theorem AddsOnly.calm (adds : AddsOnly (·.constant = false) before after) : Calm before after := by
  intro id v listed constant
  rcases adds id v listed with plain | known
  · exact absurd (constant.symm.trans plain) (by decide)
  · obtain ⟨old, listed, same⟩ := List.mem_map.1 known
    have named : old.withoutKeys.name = v.withoutKeys.name := congrArg Variable.name same
    have fixed : old.withoutKeys.constant = v.withoutKeys.constant :=
      congrArg Variable.constant same
    exact ⟨old, listed, named, fixed.trans constant⟩

/-- A lookup of a name can come upon a constant. -/
def Fixes (tree : ScopeTree) (id : Nat) (name : String) : Prop :=
  ∃ other, tree.Searches id other ∧
    ∃ v ∈ (tree.get other).declared, v.name = name ∧ v.constant = true

theorem mem_of_visibleAt {α : Type} {probe : Scope → Option α} {a : α}
    (found : tree.visibleAt probe id = some a) :
    ∃ other, tree.Exports id other ∧ probe (tree.get other) = some a := by
  induction above : tree.size - id using Nat.strongRecOn generalizing id with
  | ind count ih =>
    rw [visibleAt, Option.or_eq_some_iff] at found
    rcases found with own | ⟨_, deeper⟩
    · exact ⟨id, Exports.self tree id, own⟩
    · obtain ⟨child, member, found⟩ := List.exists_of_findSome?_eq_some deeper
      split at found
      · rename_i order
        split at found
        · rename_i flag
          obtain ⟨other, exported, found⟩ := ih (tree.size - child) (by omega) found rfl
          exact ⟨other, exports_iff.2 (.inr ⟨child, ⟨member, order.1, order.2, flag⟩, exported⟩),
            found⟩
        · cases found
      · cases found

/-- A lookup that finds a constant has come upon one. -/
theorem fixes_of_findVariable {name : String} {v : Variable}
    (found : tree.findVariable id name = some v)
    (constant : v.constant = true) : tree.Fixes id name := by
  obtain ⟨outer, member, found⟩ := List.exists_of_findSome?_eq_some found
  obtain ⟨other, exported, found⟩ := mem_of_visibleAt found
  have found : (tree.get other).declared.find? (fun v => v.name == name) = some v := found
  have named := List.find?_some found
  exact ⟨other, ⟨outer, (mem_chain tree id outer).1 member, exported⟩, v,
    List.mem_of_find?_eq_some found, eq_of_beq named, constant⟩

theorem lt_size_of_declared {v : Variable} (listed : v ∈ (tree.get id).declared) :
    id < tree.size := by
  refine Nat.lt_of_not_le fun outside => ?_
  rw [get_of_size_le outside] at listed
  cases listed

/-- Calm growth brings no lookup upon a new constant. -/
theorem Grows.fixes (growth : Grows scope before after) (ordered : before.Ordered)
    (calm : Calm before after)
    (bound : id < before.size) {name : String} (fixes : after.Fixes id name) :
    before.Fixes id name := by
  obtain ⟨other, searched, v, listed, rfl, constant⟩ := fixes
  obtain ⟨known, listed', named, fixed⟩ := calm other v listed constant
  have room := lt_size_of_declared listed'
  rcases (growth.searches_gain ordered bound).1 searched with old | ⟨_, library, new, _, exported⟩
  · exact ⟨other, old, known, listed', named, fixed⟩
  · have := exported.le
    omega

theorem Grows.fixes_new (growth : Grows scope before after) (ordered : before.Ordered)
    (calm : Calm before after) (inside : scope < before.size)
    (searches : ∀ other, after.Searches before.size other → other = before.size ∨
      after.Searches scope other)
    {name : String} (fixes : after.Fixes before.size name) : before.Fixes scope name := by
  obtain ⟨other, searched, v, listed, rfl, constant⟩ := fixes
  rcases searches other searched with rfl | around
  · obtain ⟨known, listed', _⟩ := calm before.size v listed constant
    exact absurd (lt_size_of_declared listed') (Nat.lt_irrefl _)
  · exact growth.fixes ordered calm inside ⟨other, around, v, listed, rfl, constant⟩

end ScopeTree

namespace Compile

open ScopeTree Relation

variable {setting : Setting} {depth scope : Nat} {start after : Session}

/-- The names that a piece of source assigns to at any depth. -/
def Job.assigned : Job → List (String × Bool)
  | .statement source _ => source.assigned
  | .statements source _ => Statement.allAssigned source
  | .libraries _ _ | .library _ _ => []
  | .branch _ _ source _ _ => Statement.allAssigned source
  | .elifs _ _ source _ _ | .cases _ _ _ source _ _ => Clause.allAssigned source
  | .last _ _ source _ _ => LastClause.optionAssigned source

/-- All assignments of some source, and of the libraries that it uses, are of an allowed kind. -/
structure Allows (setting : Setting) (allowed : String × Bool → Prop)
    (assigned : List (String × Bool)) (included : List Token) : Prop where
  own : ∀ entry ∈ assigned, allowed entry
  libraries : ∀ token ∈ included, ∀ program used, Loads setting token.text program →
    Uses setting program used → ∀ entry ∈ Statement.allAssigned used.statements, allowed entry

variable {allowed : String × Bool → Prop}

theorem Allows.left {first last : List (String × Bool)} {front back : List Token}
    (allows : Allows setting allowed (first ++ last) (front ++ back)) :
    Allows setting allowed first front :=
  ⟨fun entry member => allows.own entry (List.mem_append_left _ member),
    fun token member => allows.libraries token (List.mem_append_left _ member)⟩

theorem Allows.right {first last : List (String × Bool)} {front back : List Token}
    (allows : Allows setting allowed (first ++ last) (front ++ back)) :
    Allows setting allowed last back :=
  ⟨fun entry member => allows.own entry (List.mem_append_right _ member),
    fun token member => allows.libraries token (List.mem_append_right _ member)⟩

/-- What is allowed of the libraries that some source uses is allowed of each. -/
theorem Allows.inner {assigned : List (String × Bool)} {included : List Token} {token : Token}
    {program : Program} (allows : Allows setting allowed assigned included)
    (member : token ∈ included)
    (loads : Loads setting token.text program) :
    Allows setting allowed (Statement.allAssigned program.statements)
      (Statement.allIncluded program.statements) :=
  ⟨allows.libraries token member program program loads .refl, fun later inside _ used loads' uses =>
    allows.libraries token member program used loads (.head ⟨later, inside, loads'⟩ uses)⟩

def Welcomes (fresh : Variable → Prop) : Prop := ∀ v, v.constant = false → v.value = none → fresh v

theorem welcomes_plain : Welcomes (·.constant = false) := fun _ plain _ => plain

section Additions

variable {fresh : Variable → Prop}

theorem withoutKeys_newVariable (scope : Nat) (name : String) (constant : Bool)
    (value : Expression) :
    (newVariable scope name constant value).withoutKeys =
    newVariable scope name constant value := by
  unfold newVariable
  split <;> rfl

theorem scope_newVariable (scope : Nat) (name : String) (constant : Bool) (value : Expression) :
    (newVariable scope name constant value).scope = scope := by
  unfold newVariable
  split <;> rfl

theorem addsOnly_afterAssignment {target value : Expression} {append constant : Bool}
    (new : start.tree.sees scope target.token.text = false →
      fresh (newVariable scope target.token.text constant value)) :
    AddsOnly fresh start.tree (start.afterAssignment scope target value append constant).tree := by
  obtain ⟨_, kept⟩ := keysRecorded_kept
    (start.tree.assigned scope target.token.text constant value) scope target append
  refine AddsOnly.trans ?_ (.of_kept kept)
  unfold ScopeTree.assigned
  split
  · exact .refl _
  · rename_i unseen
    rw [declare_eq, scope_newVariable]
    refine .addVariables _ _ fun v member => ?_
    rw [List.mem_singleton.1 member, withoutKeys_newVariable]
    exact new (Bool.eq_false_iff.2 unseen)

theorem addsOnly_defined (session : Session) (child : Nat) (definition : Instruction) :
    AddsOnly fresh session.tree (session.defined child definition).tree :=
  .modify _ child (fun s => { s with definition := some definition }) fun _ => .of_mem

theorem addsOnly_external (session : Session) (child : Nat) :
    AddsOnly fresh session.tree (session.external child).tree :=
  .modify _ child (fun s => { s with isExternal := true }) fun _ => .of_mem

variable (welcomes : Welcomes fresh)

include welcomes

theorem addsOnly_opening (session : Session) (scope : Nat) (opened : List String) :
    AddsOnly fresh session.tree (session.opening scope opened).tree := by
  refine .addVariables _ _ fun v member => ?_
  obtain ⟨name, _, rfl⟩ := List.mem_map.1 member
  exact welcomes _ rfl rfl

theorem addsOnly_function (ready : Ready scope start) (name : Token) (params : List Parameter) :
    AddsOnly fresh start.tree (start.function scope name params).tree := by
  refine .withFunction ready.inside _ fun v member => ?_
  obtain ⟨param, _, rfl⟩ := List.mem_map.1 member
  exact welcomes _ rfl rfl

theorem addsOnly_loop (ready : Ready scope start) :
    AddsOnly fresh start.tree (start.loop scope).tree := by
  refine .within ready.inside _ fun v member => ?_
  rw [List.mem_singleton.1 member]
  exact welcomes _ rfl rfl

end Additions

theorem mem_gather {declared taken : List Variable} {v : Variable}
    (member : v ∈ gather declared taken) : v ∈ declared ∨ v ∈ taken := by
  unfold gather at member
  induction taken generalizing declared with
  | nil => exact .inl member
  | cons first rest ih =>
    rw [List.foldl_cons] at member
    rcases ih member with old | new
    · split at old
      · exact .inl old
      · rcases List.mem_append.1 old with old | new
        · exact .inl old
        · exact .inr (List.mem_singleton.1 new ▸ List.mem_cons_self ..)
    · exact .inr (List.mem_cons_of_mem _ new)

/-- Compiling a piece of source lists and gathers only what is of a kind that may be new. -/
structure Adds (fresh : Variable → Prop) (scope : Nat) (declared gathered : List Variable)
    (start after : Session) : Prop where
  lists : AddsOnly fresh start.tree after.tree
  gathers : start.tree.Gathers fresh scope declared gathered

namespace Adds

variable {fresh fresh' : Variable → Prop} {middle : Session}
    {declared gathered more : List Variable}

theorem of_lists (lists : AddsOnly fresh start.tree after.tree) :
    Adds fresh scope declared declared start after :=
  ⟨lists, .refl _⟩

theorem refl (start : Session) : Adds fresh scope declared declared start start :=
  of_lists (.refl _)

theorem mono (adds : Adds fresh scope declared gathered start after)
    (weaker : ∀ v, fresh v → fresh' v) : Adds fresh' scope declared gathered start after :=
  ⟨adds.lists.mono weaker, adds.gathers.mono weaker⟩

theorem trans (first : Adds fresh scope declared gathered start middle)
    (last : Adds fresh scope gathered more middle after) :
    Adds fresh scope declared more start after :=
  ⟨first.lists.trans last.lists, first.lists.gathers first.gathers last.gathers⟩

/-- What the blocks of a statement gather is given to its scope. -/
theorem given (adds : Adds fresh scope [] gathered start after) :
    Adds fresh scope [] [] start (after.withTree (after.tree.addVariables scope gathered)) :=
  of_lists (adds.lists.given fun v member => (adds.gathers v member).resolve_left List.not_mem_nil)

/-- What a block leaves listed since its mark is gathered. -/
theorem taken (adds : Adds fresh scope [] [] start after) (mark : Nat) (declared : List Variable) :
    Adds fresh scope declared (gather declared (after.tree.variablesSince scope mark)) start
      (after.withTree (after.tree.dropVariablesSince scope mark)) :=
  ⟨adds.lists.trans (.dropVariablesSince _ _ _), fun v member =>
    (mem_gather member).imp_right fun taken => adds.lists scope v (List.mem_of_mem_drop taken)⟩

end Adds

/-- Source that declares no constant lists and gathers none. -/
theorem Compiles.addsNoConstant {job : Job}
    (compiles : Compiles setting depth scope job start after)
    (plain : Allows setting (fun entry => entry.2 = false) job.assigned job.included) :
    Adds (·.constant = false) scope job.declared job.gathered start after := by
  have welcomes := welcomes_plain
  induction compiles with
  | @assign _ scope start target _ value append constant =>
    have plain : constant = false := plain.own _ (List.mem_singleton.2 rfl)
    subst plain
    refine .of_lists (addsOnly_afterAssignment fun _ => ?_)
    unfold newVariable
    split <;> rfl
  | select => exact .of_lists (addsOnly_opening welcomes _ _ _)
  | simple | noStatement | noLibrary | knownLibrary | noElif | noCase | noLast => exact .refl _
  | define ready _ ih =>
    exact .of_lists (((addsOnly_function welcomes ready _ _).trans (ih plain).lists).trans
      (addsOnly_defined _ _ _))
  | defineExternal ready =>
    exact .of_lists (((addsOnly_function welcomes ready _ _).trans (addsOnly_external _ _)).trans
      (addsOnly_defined _ _ _))
  | ifElse _ _ _ _ _ first further final =>
    exact (((first plain.left.left).trans (further plain.left.right)).trans
      (final plain.right)).given
  | whileLoop _ _ _ ih | includes _ _ ih | block _ _ ih | someLast _ _ _ ih => exact ih plain
  | foreach ready _ _ ih =>
    exact .of_lists (((addsOnly_loop welcomes ready).trans (ih plain).lists).trans
      (.discardChild _ _ _))
  | switch _ _ _ _ first final => exact ((first plain.left).trans (final plain.right)).given
  | moreStatements _ _ _ head tail => exact (head plain.left).trans (tail plain.right)
  | @moreLibraries _ _ _ name _ _ rest _ _ _ _ _ head tail =>
    have parts : Allows setting _ ([] ++ []) ([name] ++ rest) := plain
    exact (head parts.left).trans (tail parts.right)
  | newLibrary ready _ found _ loaded read _ ih =>
    have inner := plain.inner (List.mem_singleton.2 rfl) ⟨_, _, found, loaded, read⟩
    exact .of_lists ((AddsOnly.withLibrary ready.inside _).trans (ih inner).lists)
  | branch _ _ _ ih => exact (ih plain).taken _ _
  | moreElifs _ _ _ _ _ head tail | moreCases _ _ _ _ _ head tail =>
    exact (head plain.left).trans (tail plain.right)

variable {x : String}

/-- In a function a lookup comes upon no constant but those outside. -/
theorem fixes_function (ready : Ready scope start) (name : Token) (params : List Parameter)
    (fixes : (start.function scope name params).tree.Fixes start.tree.size x) :
    start.tree.Fixes scope x := by
  have growth : Grows scope start.tree (start.function scope name params).tree :=
    .withFunction ready.inside
  refine growth.fixes_new ready.ordered (addsOnly_function welcomes_plain ready name params).calm
    ready.inside ?_ fixes
  intro other searched
  have links : SameLinks (start.tree.newChild scope name.text)
      (start.function scope name params).tree := by
    have made : SameLinks (start.tree.within scope name.text
      (parameterVariables start.tree.size params))
        (start.function scope name params).tree := sameLinks_withFunction ready.inside
    have listed : SameLinks (start.tree.newChild scope name.text)
        (start.tree.within scope name.text (parameterVariables start.tree.size params)) :=
      sameLinks_addVariables _ _ _
    exact ⟨made.inside.trans listed.inside, made.includes.trans listed.includes⟩
  rw [links.searches, searches_newChild ready.ordered ready.inside] at searched
  rw [links.searches, searches_newChild_old ready.inside name.text ready.inside]
  exact searched

theorem fixes_loop (ready : Ready scope start)
    (fixes : (start.loop scope).tree.Fixes start.tree.size x) : start.tree.Fixes scope x := by
  have growth : Grows scope start.tree (start.loop scope).tree := .within ready.inside
  refine growth.fixes_new ready.ordered
    (addsOnly_loop welcomes_plain ready).calm ready.inside ?_ fixes
  intro other searched
  have links : SameLinks (start.tree.newChild scope "foreach") (start.loop scope).tree :=
    sameLinks_addVariables _ _ _
  rw [links.searches, searches_newChild ready.ordered ready.inside] at searched
  rw [links.searches, searches_newChild_old ready.inside "foreach" ready.inside]
  exact searched

/-- After source that declares no constant a lookup comes upon the constants of before. -/
theorem Compiles.fixes {job : Job} (compiles : Compiles setting depth scope job start after)
    (plain : Allows setting (fun entry => entry.2 = false) job.assigned job.included)
    (fixes : after.tree.Fixes scope x) : start.tree.Fixes scope x :=
  compiles.frame.growth.fixes compiles.ready.ordered (compiles.addsNoConstant plain).lists.calm
    compiles.ready.inside fixes

end Compile

end Treecode
