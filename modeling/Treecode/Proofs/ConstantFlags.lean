import Treecode.Proofs.VisibleNames

set_option autoImplicit false

namespace Treecode

namespace ScopeTree

open Relation

def flagOf (declared : List Variable) (name : String) : Option Bool :=
  (declared.find? (·.name == name)).map (·.constant)

/-- Whether what a scope itself lists for a name is a constant. -/
def listed (tree : ScopeTree) (id : Nat) (name : String) : Option Bool :=
  flagOf (tree.get id).declared name

/-- Whether what a scope hands on for a name is a constant. -/
def handed (tree : ScopeTree) (id : Nat) (name : String) : Option Bool :=
  tree.visibleAt (fun scope => flagOf scope.declared name) id

def lentBy (tree : ScopeTree) (id : Nat) (name : String) (child : Nat) : Option Bool :=
  if id < child ∧ child < tree.size then
    if (tree.get child).isLibrary then tree.handed child name else none
  else none

/-- Whether what libraries lend to a scope for a name is a constant. -/
def lent (tree : ScopeTree) (id : Nat) (name : String) : Option Bool :=
  (tree.get id).children.findSome? (tree.lentBy id name)

/-- Whether what a name means in a scope is a constant. -/
def found (tree : ScopeTree) (id : Nat) (name : String) : Option Bool :=
  tree.visible (fun scope => flagOf scope.declared name) id

variable {tree before after : ScopeTree} {scope id : Nat} {x : String}

theorem flagOf_append (first second : List Variable) (name : String) :
    flagOf (first ++ second) name = (flagOf first name).or (flagOf second name) := by
  unfold flagOf
  rw [List.find?_append]
  cases first.find? (·.name == name) <;> rfl

theorem flagOf_withoutKeys (declared : List Variable) (name : String) :
    flagOf (declared.map Variable.withoutKeys) name = flagOf declared name := by
  unfold flagOf
  rw [List.find?_map, Option.map_map]
  rfl

theorem flagOf_eq_none {declared : List Variable} {name : String} :
    flagOf declared name = none ↔ name ∉ declared.map (·.name) := by
  simp [flagOf]

theorem findSome?_congr {α β : Type} {f g : α → Option β} {list : List α}
    (same : ∀ a ∈ list, f a = g a) : list.findSome? f = list.findSome? g := by
  induction list with
  | nil => rfl
  | cons a rest ih =>
    rw [List.findSome?_cons, List.findSome?_cons, same a (List.mem_cons_self ..),
      ih fun b member => same b (List.mem_cons_of_mem _ member)]

theorem visibleAt_map {α β : Type} (f : α → β) (probe : Scope → Option α) (id : Nat) :
    (tree.visibleAt probe id).map f = tree.visibleAt (fun scope => (probe scope).map f) id := by
  induction above : tree.size - id using Nat.strongRecOn generalizing id with
  | ind count ih =>
    rw [visibleAt, visibleAt, Option.map_or, List.map_findSome?]
    refine congrArg _ (findSome?_congr fun child _ => ?_)
    simp only [Function.comp_apply]
    split
    · split
      · exact ih (tree.size - child) (by omega) child rfl
      · rfl
    · rfl

theorem found_eq : tree.found id x = (tree.findVariable id x).map (·.constant) := by
  unfold found findVariable visible
  rw [List.map_findSome?]
  exact (findSome?_congr fun outer _ => visibleAt_map Variable.constant _ outer).symm

theorem isSome_found : (tree.found id x).isSome ↔ tree.Sees id x := by
  rw [found_eq, Option.isSome_map]
  exact Iff.rfl

theorem handed_eq : tree.handed id x = (tree.listed id x).or (tree.lent id x) := by
  unfold handed
  rw [visibleAt]
  simp only [dite_eq_ite]
  rfl

/-- Whether what a name means around a scope is a constant. -/
def foundAround (tree : ScopeTree) (id : Nat) (name : String) : Option Bool :=
  match (tree.get id).parent with
  | some parent => if parent < id then tree.found parent name else none
  | none => none

theorem found_eq_or : tree.found id x = (tree.handed id x).or (tree.foundAround id x) := by
  unfold found visible foundAround
  rw [chain, List.findSome?_cons]
  unfold handed
  split
  · rename_i flag here
    rw [here, Option.some_or]
  · rename_i here
    rw [here, Option.none_or]
    cases (tree.get id).parent with
    | none => rfl
    | some parent =>
      dsimp only
      split <;> rfl

section Growth

variable (growth : Grows scope before after) (ordered : before.Ordered)

include growth

theorem Grows.listed_other (bound : id < before.size) (other : id ≠ scope) :
    after.listed id x = before.listed id x := by
  unfold listed
  rw [← flagOf_withoutKeys, (growth.others id bound other).declared, flagOf_withoutKeys]

/-- What the growing scope listed it still lists first. -/
theorem Grows.listed_own : ∃ more, after.listed scope x = (before.listed scope x).or more := by
  obtain ⟨more, same⟩ := growth.own.declared
  refine ⟨flagOf more x, ?_⟩
  unfold listed
  rw [← flagOf_withoutKeys, ← same, flagOf_append, flagOf_withoutKeys]

theorem Grows.lentBy_of_handed {child : Nat} (old : child < before.size)
    (same : id < child → after.handed child x = before.handed child x) :
    after.lentBy id x child = before.lentBy id x child := by
  have wide := Nat.lt_of_lt_of_le old growth.size
  unfold lentBy
  by_cases inward : id < child
  · simp only [inward, old, wide, and_self, ↓reduceIte, (growth.extended old).isLibrary,
      same inward]
  · simp only [inward, false_and, ↓reduceIte]

include ordered

/-- Where the growing scope hands on the same as before, all others do. -/
theorem Grows.handed_same (bound : id < before.size)
    (same : id ≤ scope → after.handed scope x = before.handed scope x) :
    after.handed id x = before.handed id x := by
  -- A scope hands on what scopes with larger numbers do.
  induction above : before.size - id using Nat.strongRecOn generalizing id with
  | ind count ih =>
    by_cases own : id = scope
    · rw [own]
      exact same (Nat.le_of_eq own)
    · rw [handed_eq, handed_eq, growth.listed_other bound own]
      refine congrArg _ ?_
      unfold lent
      rw [(growth.others id bound own).children]
      refine findSome?_congr fun child member => ?_
      obtain ⟨inward, room⟩ := ordered.child id child member
      exact growth.lentBy_of_handed room fun _ =>
        ih (before.size - child) (by omega) room (fun outward => same (by omega)) rfl

/-- What an old scope lends to the growing one stays as it is. -/
theorem Grows.lentBy_old {child : Nat} (old : child < before.size) :
    after.lentBy scope x child = before.lentBy scope x child :=
  growth.lentBy_of_handed old fun inward => growth.handed_same ordered old fun outward => by omega

/-- The growing scope is lent what it was before, and then what its new children lend. -/
theorem Grows.lent_own : ∃ added, (after.get scope).children =
    (before.get scope).children ++ added ∧
    after.lent scope x = (before.lent scope x).or (added.findSome? (after.lentBy scope x)) := by
  obtain ⟨added, same⟩ := growth.own.children
  refine ⟨added, same.symm, ?_⟩
  unfold lent
  rw [← same, List.findSome?_append]
  refine congrArg (Option.or · _) (findSome?_congr fun child member => ?_)
  exact growth.lentBy_old ordered (ordered.child scope child member).2

/-- Without new libraries that hand on a name the growing scope is lent the same for it. -/
theorem Grows.lent_same
    (nothing : ∀ library, before.size ≤ library → after.Includes scope library →
      after.handed library x = none) : after.lent scope x = before.lent scope x := by
  obtain ⟨added, children, whole⟩ := growth.lent_own ordered
  rw [whole]
  cases old : before.lent scope x with
  | some flag => rfl
  | none =>
    rw [Option.none_or, List.findSome?_eq_none_iff]
    intro child member
    by_cases new : before.size ≤ child
    · unfold lentBy
      split
      · split
        · rename_i inside library
          exact nothing child new
            ⟨children ▸ List.mem_append_right _ member, inside.1, inside.2, library⟩
        · rfl
      · rfl
    · have room := Nat.lt_of_not_le new
      have known := growth.children child (children ▸ List.mem_append_right _ member) room
      rw [growth.lentBy_old ordered room]
      exact List.findSome?_eq_none_iff.1 old child known

/-- Where the growing scope hands on the same as before, all names mean the same. -/
theorem Grows.found_same (bound : id < before.size)
    (same : after.handed scope x = before.handed scope x) :
    after.found id x = before.found id x := by
  induction id using Nat.strongRecOn with
  | ind id ih =>
    rw [found_eq_or, found_eq_or, growth.handed_same ordered bound fun _ => same]
    refine congrArg _ ?_
    unfold foundAround
    rw [(growth.extended bound).parent]
    cases (before.get id).parent with
    | none => rfl
    | some parent =>
      dsimp only
      split
      · rename_i outward
        exact ih parent outward (Nat.lt_trans outward bound)
      · rfl

/-- What the growing scope hands on for a name comes before what the name meant. -/
theorem Grows.found (inside : scope < before.size) :
    after.found scope x = (after.handed scope x).or (before.found scope x) := by
  cases handed : after.handed scope x with
  | some flag => rw [found_eq_or, handed, Option.some_or, Option.some_or]
  | none =>
    have same : after.handed scope x = before.handed scope x := by
      obtain ⟨more, lists⟩ := @Grows.listed_own _ _ _ x growth
      obtain ⟨added, _, lends⟩ := @Grows.lent_own _ _ _ x growth ordered
      rw [handed_eq, Option.or_eq_none_iff, lists, lends, Option.or_eq_none_iff,
        Option.or_eq_none_iff] at handed
      rw [handed_eq, handed_eq, lists, lends, handed.1.1, handed.1.2, handed.2.1, handed.2.2]
      rfl
    rw [growth.found_same ordered inside same, Option.none_or]

/-- In a new scope a name means what the scope lists for it, or what it means outside. -/
theorem Grows.found_new (inside : scope < before.size)
    (parent : (after.get before.size).parent = some scope)
    (same : after.handed scope x = before.handed scope x) :
    after.found before.size x = (after.handed before.size x).or (before.found scope x) := by
  rw [found_eq_or, ← growth.found_same ordered inside same]
  refine congrArg _ ?_
  unfold foundAround
  rw [parent]
  exact if_pos inside

end Growth

theorem listed_of_kept (kept : Scope.Kept (before.get id) (after.get id)) :
    after.listed id x = before.listed id x := by
  unfold listed
  rw [← flagOf_withoutKeys, kept.declared, flagOf_withoutKeys]

/-- A scope that grows without new names lists the same. -/
theorem Grows.listed_of_names (growth : Grows scope before after)
    (same : after.names scope = before.names scope) :
    after.listed scope x = before.listed scope x := by
  have length : (after.get scope).declared.length = (before.get scope).declared.length := by
    have counted := congrArg List.length same
    rwa [names, names, List.length_map, List.length_map] at counted
  have declared : (before.get scope).declared.map Variable.withoutKeys =
      (after.get scope).declared.map Variable.withoutKeys :=
    growth.own.declared.eq_of_length (by rw [List.length_map, List.length_map, length])
  unfold listed
  rw [← flagOf_withoutKeys, ← declared, flagOf_withoutKeys]

theorem Grows.lent_of_noLibrarySince (growth : Grows scope before after) (ordered : before.Ordered)
    (without : NoLibrarySince before after scope) : after.lent scope x = before.lent scope x :=
  growth.lent_same ordered fun library new included => absurd included (without library new)

theorem lent_of_childless (childless : (tree.get id).children = []) : tree.lent id x = none := by
  unfold lent
  rw [childless]
  rfl

theorem listed_addVariables (inside : scope < tree.size) (more : List Variable) :
    (tree.addVariables scope more).listed scope x = (tree.listed scope x).or (flagOf more x) := by
  unfold listed
  rw [ScopeTree.addVariables, get_modify_self _ inside, flagOf_append]

theorem lent_addVariables (ordered : tree.Ordered) (scope : Nat) (more : List Variable) :
    (tree.addVariables scope more).lent scope x = tree.lent scope x :=
  (Grows.addVariables tree scope more).lent_of_noLibrarySince ordered
    (Compile.noLibrarySince_of_size (size_addVariables _ _ _))

end ScopeTree

namespace Compile

open ScopeTree

variable {setting : Setting} {depth scope : Nat} {start after : Session} {x : String}

theorem flagOf_newVariable (scope : Nat) (name : String) (constant : Bool) (value : Expression) :
    flagOf [newVariable scope name constant value] x =
      if x = name then some constant else none := by
  have shape : (newVariable scope name constant value).name = name ∧
      (newVariable scope name constant value).constant = constant := by
    unfold newVariable
    split <;> exact ⟨rfl, rfl⟩
  simp only [flagOf, List.find?_cons, List.find?_nil, shape.1]
  by_cases same : name = x
  · subst same
    simp only [beq_self_eq_true, Option.map_some, shape.2, ↓reduceIte]
  · simp only [beq_eq_false_iff_ne.2 same, Option.map_none, Ne.symm same, ↓reduceIte]

theorem flagOf_of_plain {declared : List Variable} (plain : ∀ v ∈ declared, v.constant = false) :
    flagOf declared x = if x ∈ declared.map (·.name) then some false else none := by
  split
  · rename_i member
    cases found : flagOf declared x with
    | none => exact absurd member (flagOf_eq_none.1 found)
    | some flag =>
      obtain ⟨v, named, rfl⟩ := Option.map_eq_some_iff.1 found
      rw [plain v (List.mem_of_find?_eq_some named)]
  · rename_i absent
    exact flagOf_eq_none.2 absent

theorem listed_afterAssignment (ready : Ready scope start) (target value : Expression)
    (append constant : Bool) :
    (start.afterAssignment scope target value append constant).tree.listed scope x =
      (start.tree.listed scope x).or
        (if start.tree.sees scope target.token.text = false ∧ x = target.token.text
          then some constant else none) := by
  obtain ⟨_, kept⟩ := keysRecorded_kept
    (start.tree.assigned scope target.token.text constant value) scope target append
  have same : (start.afterAssignment scope target value append constant).tree.listed scope x =
      (start.tree.assigned scope target.token.text constant value).listed scope x :=
        listed_of_kept (kept scope)
  rw [same]
  unfold ScopeTree.assigned
  split
  · rename_i seen
    simp only [seen, Bool.true_eq_false, false_and, ↓reduceIte, Option.or_none]
  · rename_i unseen
    have own : (newVariable scope target.token.text constant value).scope = scope := by
      unfold newVariable
      split <;> rfl
    rw [declare_eq, own, listed_addVariables ready.inside, flagOf_newVariable]
    simp only [Bool.eq_false_iff.2 unseen, true_and]

theorem lent_afterAssignment (ready : Ready scope start) (target value : Expression)
    (append constant : Bool) :
    (start.afterAssignment scope target value append constant).tree.lent scope x =
      start.tree.lent scope x := by
  have frame := frame_assignment start ready.ordered scope target value append constant
  obtain ⟨size, _⟩ := keysRecorded_kept
    (start.tree.assigned scope target.token.text constant value) scope target append
  exact frame.growth.lent_of_noLibrarySince ready.ordered
    (noLibrarySince_of_size (size.trans (size_assigned _ _ _ _ _)))

/-- The names that a select opens are no constants. -/
theorem flagOf_opened (opened : List String) (scope : Nat) :
    flagOf (opened.map (Variable.fresh · scope)) x = if x ∈ opened then some false else none := by
  rw [flagOf_of_plain fun v member => ?_]
  · rw [List.map_map]
    exact congrArg (fun names => if x ∈ names then some false else none) (List.map_id opened)
  · obtain ⟨name, _, rfl⟩ := List.mem_map.1 member
    rfl

theorem names_outside {child : Nat} (inner : Frame child start after)
    (inside : scope < start.tree.size)
    (apart : scope ≠ child) : after.tree.names scope = start.tree.names scope :=
  inner.growth.names_other inside apart

theorem names_within_outside {tree : ScopeTree} (inside : scope < tree.size) (title : String)
    (declared : List Variable) :
    (tree.within scope title declared).names scope = tree.names scope := by
  have room : tree.size < (tree.newChild scope title).size := by
    rw [size_newChild]
    exact Nat.lt_succ_self _
  rw [within, names_addVariables room, names_newChild inside]
  simp only [Nat.ne_of_lt inside, ↓reduceIte, List.append_nil]

theorem names_function_outside (ready : Ready scope start) (name : Token)
    (params : List Parameter) :
    (start.function scope name params).tree.names scope = start.tree.names scope :=
  (names_withFunction ready.inside scope).trans (names_within_outside ready.inside _ _)

theorem names_defined (session : Session) (child : Nat) (definition : Instruction) :
    (session.defined child definition).tree.names scope = session.tree.names scope :=
  (kept_defined session.tree child definition scope).names

/-- In a function only its parameters are listed at first, and nothing is lent. -/
theorem listed_function (ready : Ready scope start) (name : Token) (params : List Parameter) :
    (start.function scope name params).tree.listed start.tree.size x =
      if x ∈ params.map (·.name.text) then some false else none := by
  have declared : ((start.function scope name params).tree.get start.tree.size).declared =
      parameterVariables start.tree.size params := by
    show ((start.tree.withFunction scope name.text _).get start.tree.size).declared = _
    rw [get_withFunction ready.inside]
    simp only [↓reduceIte]
    rw [get_within ready.inside]
  unfold listed
  rw [declared, flagOf_of_plain, names_parameterVariables]
  intro v member
  obtain ⟨param, _, rfl⟩ := List.mem_map.1 member
  rfl

theorem lent_function (ready : Ready scope start) (name : Token) (params : List Parameter) :
    (start.function scope name params).tree.lent start.tree.size x = none := by
  apply lent_of_childless
  show ((start.tree.withFunction scope name.text _).get start.tree.size).children = []
  rw [get_withFunction ready.inside]
  simp only [↓reduceIte]
  rw [get_within ready.inside]
  rfl

theorem found_function (ready : Ready scope start) (name : Token) (params : List Parameter) :
    (start.function scope name params).tree.found start.tree.size x =
      ((start.function scope name params).tree.listed start.tree.size x).or
      (start.tree.found scope x) := by
  have growth : Grows scope start.tree (start.function scope name params).tree :=
    .withFunction ready.inside
  have without : NoLibrarySince start.tree (start.function scope name params).tree scope :=
    noLibrarySince_of_plain ready.inside (size_function start scope name params)
      (plain_function ready name params) (ready.function name params).ordered (.refl _ _)
  have handed : (start.function scope name params).tree.handed start.tree.size x =
      (start.function scope name params).tree.listed start.tree.size x := by
    rw [handed_eq, lent_function ready, Option.or_none]
  rw [growth.found_new ready.ordered ready.inside, handed]
  · show ((start.tree.withFunction scope name.text _).get start.tree.size).parent = some scope
    rw [get_withFunction ready.inside]
    simp only [↓reduceIte]
    rw [get_within ready.inside]
    rfl
  · rw [handed_eq, handed_eq, growth.lent_of_noLibrarySince ready.ordered without,
      growth.listed_of_names (names_function_outside ready name params)]

theorem listed_define {name : Token} {params : List Parameter} (ready : Ready scope start)
    (inner : Frame start.tree.size (start.function scope name params) after)
    (definition : Instruction) :
    (after.defined start.tree.size definition).tree.listed scope x = start.tree.listed scope x := by
  have wider : scope < (start.function scope name params).tree.size :=
    Nat.lt_trans ready.inside (ready.function name params).inside
  refine (frame_define ready.inside inner definition).growth.listed_of_names ?_
  rw [names_defined, names_outside inner wider (Nat.ne_of_lt ready.inside),
    names_function_outside ready]

theorem lent_define {name : Token} {params : List Parameter} (ready : Ready scope start)
    (inner : Frame start.tree.size (start.function scope name params) after)
    (definition : Instruction) :
    (after.defined start.tree.size definition).tree.lent scope x = start.tree.lent scope x :=
  (frame_define ready.inside inner definition).growth.lent_of_noLibrarySince ready.ordered
    (noLibrarySince_define ready inner definition)

theorem listed_external {name : Token} {params : List Parameter} (ready : Ready scope start)
    (definition : Instruction) :
    (((start.function scope name params).external start.tree.size).defined start.tree.size
      definition).tree.listed scope x = start.tree.listed scope x := by
  refine (frame_external ready.ordered ready.inside definition).growth.listed_of_names ?_
  rw [names_defined, names_external, names_function_outside ready]

theorem lent_external {name : Token} {params : List Parameter} (ready : Ready scope start)
    (definition : Instruction) :
    (((start.function scope name params).external start.tree.size).defined start.tree.size
      definition).tree.lent scope x = start.tree.lent scope x :=
  (frame_external ready.ordered ready.inside definition).growth.lent_of_noLibrarySince ready.ordered
    (noLibrarySince_external ready definition)

theorem listed_loop (ready : Ready scope start) :
    (start.loop scope).tree.listed start.tree.size x = if x = "it" then some false else none := by
  have declared : ((start.loop scope).tree.get start.tree.size).declared =
      [{ Variable.fresh "it" start.tree.size with type := .any }] := by
    show ((start.tree.within scope "foreach" _).get start.tree.size).declared = _
    rw [get_within ready.inside]
  unfold listed
  rw [declared, flagOf_of_plain]
  · simp only [List.map_cons, List.map_nil, List.mem_singleton]
    rfl
  · intro v member
    cases List.mem_singleton.1 member
    rfl

theorem lent_loop (ready : Ready scope start) :
    (start.loop scope).tree.lent start.tree.size x = none := by
  apply lent_of_childless
  show ((start.tree.within scope "foreach" _).get start.tree.size).children = []
  rw [get_within ready.inside]
  rfl

theorem found_loop (ready : Ready scope start) :
    (start.loop scope).tree.found start.tree.size x =
      ((start.loop scope).tree.listed start.tree.size x).or (start.tree.found scope x) := by
  have growth : Grows scope start.tree (start.loop scope).tree := .within ready.inside
  obtain ⟨order, made, plain⟩ := within_ready "foreach"
    [{ Variable.fresh "it" start.tree.size with type := .any }] ready.ordered ready.inside
  have without : NoLibrarySince start.tree (start.loop scope).tree scope :=
    noLibrarySince_of_plain ready.inside (size_within _ _ _ _) plain order (.refl _ _)
  have handed : (start.loop scope).tree.handed start.tree.size x =
      (start.loop scope).tree.listed start.tree.size x := by
    rw [handed_eq, lent_loop ready, Option.or_none]
  rw [growth.found_new ready.ordered ready.inside, handed]
  · show ((start.tree.within scope "foreach" _).get start.tree.size).parent = some scope
    rw [get_within ready.inside]
    rfl
  · rw [handed_eq, handed_eq, growth.lent_of_noLibrarySince ready.ordered without]
    exact congrArg (Option.or · _) (growth.listed_of_names (names_within_outside ready.inside _ _))

theorem listed_afterLoop (ready : Ready scope start)
    (inner : Frame start.tree.size (start.loop scope) after) :
    (after.withTree (after.tree.discardChild scope start.tree.size)).tree.listed scope x =
      start.tree.listed scope x := by
  have apart : scope ≠ start.tree.size := Nat.ne_of_lt ready.inside
  have wider : scope < (start.loop scope).tree.size := Nat.lt_trans ready.inside ready.loop.inside
  have room : start.tree.size < after.tree.size :=
    Nat.lt_of_lt_of_le ready.loop.inside inner.growth.size
  refine (frame_loop ready.ordered ready.inside inner).growth.listed_of_names ?_
  show (after.tree.discardChild scope start.tree.size).names scope = _
  rw [names_discardChild apart (Nat.lt_trans ready.inside room) room,
    names_outside inner wider apart]
  exact names_within_outside ready.inside _ _

theorem lent_afterLoop (ready : Ready scope start)
    (inner : Frame start.tree.size (start.loop scope) after) :
    (after.withTree (after.tree.discardChild scope start.tree.size)).tree.lent scope x =
      start.tree.lent scope x :=
  (frame_loop ready.ordered ready.inside inner).growth.lent_of_noLibrarySince ready.ordered
    (noLibrarySince_loop ready inner)

theorem listed_inLibrary (ready : Ready scope start) (name : Token) (path file : String) :
    (start.inLibrary scope name path file).tree.listed start.tree.size x = none := by
  have declared : ((start.inLibrary scope name path file).tree.get start.tree.size).declared =
      [] := by
    show ((start.tree.withLibrary scope name.text).get start.tree.size).declared = []
    rw [get_withLibrary ready.inside]
    simp only [↓reduceIte]
    rfl
  unfold listed
  rw [declared]
  rfl

theorem lent_inLibrary (ready : Ready scope start) (name : Token) (path file : String) :
    (start.inLibrary scope name path file).tree.lent start.tree.size x = none := by
  apply lent_of_childless
  show ((start.tree.withLibrary scope name.text).get start.tree.size).children = []
  rw [get_withLibrary ready.inside]
  simp only [↓reduceIte]
  rfl

theorem names_inLibrary_outside (ready : Ready scope start) (name : Token) (path file : String) :
    (start.inLibrary scope name path file).tree.names scope = start.tree.names scope := by
  show (start.tree.withLibrary scope name.text).names scope = _
  rw [names, get_withLibrary ready.inside]
  simp only [Nat.ne_of_lt ready.inside, ↓reduceIte]
  rfl

/-- In a library a name means at first what it means where the library is included. -/
theorem found_inLibrary (ready : Ready scope start) (name : Token) (path file : String) :
    (start.inLibrary scope name path file).tree.found start.tree.size x =
    start.tree.found scope x := by
  have growth : Grows scope start.tree (start.inLibrary scope name path file).tree :=
    .withLibrary ready.inside
  have nothing : (start.inLibrary scope name path file).tree.handed start.tree.size x = none := by
    rw [handed_eq, listed_inLibrary ready, lent_inLibrary ready]
    rfl
  have lent : (start.inLibrary scope name path file).tree.lent scope x =
      start.tree.lent scope x := by
    refine growth.lent_same ready.ordered fun library new included => ?_
    have size : (start.inLibrary scope name path file).tree.size = start.tree.size + 1 :=
      size_withLibrary _ _ _
    have same : library = start.tree.size := by
      have := included.2.2.1
      omega
    rw [same, nothing]
  rw [growth.found_new ready.ordered ready.inside, nothing, Option.none_or]
  · show ((start.tree.withLibrary scope name.text).get start.tree.size).parent = some scope
    rw [get_withLibrary ready.inside]
    simp only [↓reduceIte]
    rfl
  · rw [handed_eq, handed_eq, lent,
      growth.listed_of_names (names_inLibrary_outside ready name path file)]

theorem listed_library {name : Token} {path file : String} (ready : Ready scope start)
    (inner : Frame start.tree.size (start.inLibrary scope name path file) after) :
    after.tree.listed scope x = start.tree.listed scope x := by
  have wider : scope < (start.inLibrary scope name path file).tree.size :=
    Nat.lt_trans ready.inside (ready.inLibrary name path file).inside
  refine (frame_library ready.inside inner).growth.listed_of_names ?_
  exact (names_outside inner wider (Nat.ne_of_lt ready.inside)).trans
    (names_inLibrary_outside ready _ _ _)

/-- A library lends what it hands on at its end. -/
theorem lent_library {name : Token} {path file : String} (ready : Ready scope start)
    (inner : Frame start.tree.size (start.inLibrary scope name path file) after) :
    after.tree.lent scope x = (start.tree.lent scope x).or
      (after.tree.handed start.tree.size x) := by
  have apart : scope ≠ start.tree.size := Nat.ne_of_lt ready.inside
  have wider : scope < (start.inLibrary scope name path file).tree.size :=
    Nat.lt_trans ready.inside (ready.inLibrary name path file).inside
  have position : (start.inLibrary scope name path file).tree.LibraryIn scope start.tree.size :=
    .withLibrary ready.inside
  have children : (after.tree.get scope).children = (start.tree.get scope).children ++
      [start.tree.size] := by
    rw [(inner.growth.others scope wider apart).children]
    show ((start.tree.withLibrary scope name.text).get scope).children = _
    rw [get_withLibrary ready.inside]
    simp only [apart, ↓reduceIte]
  have growth : Grows scope start.tree after.tree := (frame_library ready.inside inner).growth
  obtain ⟨added, parts, whole⟩ := @Grows.lent_own _ _ _ x growth ready.ordered
  rw [children, List.append_cancel_left_eq] at parts
  obtain ⟨_, inward, room, flag⟩ := (position.grows inner.growth).includes
  rw [whole, ← parts, List.findSome?_singleton]
  unfold lentBy
  simp only [inward, room, flag, and_self, ↓reduceIte]

theorem listed_branch {job : Job} (compiles : Compiles setting depth scope job start after)
    (branch : job.isBranch) : after.tree.listed scope x = start.tree.listed scope x :=
  compiles.frame.growth.listed_of_names (compiles.names_branch branch)

theorem lent_dropVariablesSince (ordered : after.tree.Ordered) (mark : Nat) :
    (after.tree.dropVariablesSince scope mark).lent scope x = after.tree.lent scope x := by
  have size : (after.tree.dropVariablesSince scope mark).size = after.tree.size := size_modify _ _ _
  have order : (after.tree.dropVariablesSince scope mark).Ordered :=
    ordered.modify _ _ (fun _ => rfl) (fun _ => rfl) fun _ => rfl
  have own : Scope.Extended ((after.tree.dropVariablesSince scope mark).get scope)
      (after.tree.get scope) := by
    refine get_modify_induct (motive := fun old new => new.Extended old) _ _ _ _
      (Scope.Kept.refl _).extended fun _ => ?_
    exact ⟨rfl, rfl, rfl, rfl, rfl, (List.take_prefix mark _).map _, List.prefix_rfl,
      List.prefix_rfl, List.prefix_rfl⟩
  have growth : Grows scope (after.tree.dropVariablesSince scope mark) after.tree := by
    refine ⟨Nat.le_of_eq size, fun other _ apart => ?_, own, fun child member _ => ?_⟩
    · unfold dropVariablesSince
      rw [get_modify_of_ne _ _ apart.symm]
      exact .refl _
    · unfold dropVariablesSince
      exact get_modify_induct (motive := fun _ scope => child ∈ scope.children) _ _ _ _ member
        fun _ => member
  exact (growth.lent_of_noLibrarySince order (noLibrarySince_of_size size.symm)).symm

theorem flagOf_gather (declared taken : List Variable) :
    flagOf (gather declared taken) x = (flagOf declared x).or (flagOf taken x) := by
  induction taken generalizing declared with
  | nil => exact (Option.or_none).symm
  | cons v rest ih =>
    have first : flagOf (v :: rest) x = (flagOf [v] x).or (flagOf rest x) :=
      flagOf_append [v] rest x
    have once : gather declared (v :: rest) =
        gather (if declared.any (·.name == v.name) then declared else declared ++ [v]) rest := rfl
    rw [once, ih, first]
    split
    · rename_i known
      -- A name that was gathered already comes before one that is taken.
      by_cases same : v.name = x
      · subst same
        cases listed : flagOf declared v.name with
        | some flag => rfl
        | none =>
          obtain ⟨other, member, named⟩ := List.any_eq_true.1 known
          exact absurd (List.mem_map.2 ⟨other, member, beq_iff_eq.1 named⟩)
            (flagOf_eq_none.1 listed)
      · have other : flagOf [v] x = none := flagOf_eq_none.2 (by simpa using Ne.symm same)
        rw [other, Option.none_or]
    · rw [flagOf_append, Option.or_assoc]

end Compile

end Treecode
