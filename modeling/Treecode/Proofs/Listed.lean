import Treecode.Proofs.Linked

set_option autoImplicit false

namespace Treecode

open Compile

namespace Value

mutual

theorem equals_comm (v w : Value) : v.equals w = w.equals v := by
  cases v <;> cases w <;> try rfl
  case integer.integer m n => exact Bool.beq_comm
  case float.float x y => exact Double.equals_comm x y
  case boolean.boolean a b => exact Bool.beq_comm
  case string.string a b => exact Bool.beq_comm
  case array.array items others => exact itemsEqual_comm items others
  case record.record entries others => exact entriesEqual_comm entries others

theorem itemsEqual_comm (items others : List Value) :
    itemsEqual items others = itemsEqual others items := by
  cases items <;> cases others <;> try rfl
  case cons.cons item items other others =>
    rw [itemsEqual, itemsEqual, equals_comm item other, itemsEqual_comm items others]

theorem entriesEqual_comm (entries others : List (Value × Value)) :
    entriesEqual entries others = entriesEqual others entries := by
  match entries, others with
  | [], [] | [], _ :: _ | _ :: _, [] => rfl
  | (key, value) :: entries, (otherKey, other) :: others =>
    rw [entriesEqual, entriesEqual, equals_comm key otherKey, equals_comm value other,
      entriesEqual_comm entries others]

end

end Value

/-- A variable is listed where it belongs, and no two of its known keys are equal. -/
structure Variable.Sound (id : Nat) (v : Variable) : Prop where
  scope : v.scope = id
  keys : v.index.Pairwise fun known key => known.equals key = false ∧ key.equals known = false

namespace Variable

variable {id : Nat} {v : Variable}

theorem Sound.of_keyless (owned : v.scope = id) (keyless : v.index = []) : v.Sound id :=
  ⟨owned, keyless ▸ .nil⟩

/-- A key is added only where none is equal to it. -/
theorem Sound.addKey (sound : v.Sound id) (key : Value) : (v.addKey key).Sound id := by
  unfold Variable.addKey
  split
  · exact sound
  · rename_i new
    refine ⟨sound.scope, List.pairwise_append.2 ⟨sound.keys, List.pairwise_singleton _ _, ?_⟩⟩
    intro known member other single
    rw [List.mem_singleton.1 single]
    have apart : known.equals key = false := by
      refine Bool.eq_false_iff.2 fun equal => new ?_
      exact List.any_eq_true.2 ⟨known, member, equal⟩
    exact ⟨apart, (Value.equals_comm key known).trans apart⟩

theorem Sound.storeKeys (sound : v.Sound id) (target : Expression) (append : Bool) :
    (storeKeys target append v).Sound id := by
  unfold Compile.storeKeys
  split
  · rename_i index
    induction index generalizing v with
    | nil => exact sound
    | cons key keys ih =>
      rw [List.foldl_cons]
      apply ih
      split
      · exact sound.addKey _
      · exact sound
  · split
    · exact .of_keyless sound.scope rfl
    · exact sound
  · exact sound

end Variable

theorem Scope.mem_replaceNamed {name : String} {updated v : Variable} {declared : List Variable}
    (member : v ∈ replaceNamed name updated declared) : v ∈ declared ∨ v = updated := by
  induction declared with
  | nil => exact .inl member
  | cons first rest ih =>
    rw [replaceNamed] at member
    split at member
    · rcases List.mem_cons.1 member with same | later
      · exact .inr same
      · exact .inl (List.mem_cons_of_mem _ later)
    · rcases List.mem_cons.1 member with same | later
      · exact .inl (same ▸ List.mem_cons_self ..)
      · exact (ih later).imp_left (List.mem_cons_of_mem _)

namespace ScopeTree

/-- Every scope lists variables of its own. -/
def Sound (tree : ScopeTree) : Prop := ∀ id, ∀ v ∈ (tree.get id).declared, v.Sound id

variable {tree before after : ScopeTree} {scope : Nat} {mode : Option (List Variable)}

theorem Sound.modify (sound : tree.Sound) (id : Nat) (change : Scope → Scope)
    (listed : ∀ v ∈ (change (tree.get id)).declared, v.Sound id) :
    (tree.modify id change).Sound := by
  intro other v member
  rw [get_modify] at member
  split at member
  · rename_i here
    obtain ⟨rfl, _⟩ := here
    exact listed v member
  · exact sound other v member

theorem Sound.addVariables (sound : tree.Sound) {more : List Variable}
    (listed : ∀ v ∈ more, v.Sound scope) : (tree.addVariables scope more).Sound := by
  refine sound.modify _ _ fun v member => ?_
  rcases List.mem_append.1 member with old | new
  · exact sound scope v old
  · exact listed v new

theorem Sound.dropVariablesSince (sound : tree.Sound) (mark : Nat) :
    (tree.dropVariablesSince scope mark).Sound :=
  sound.modify _ _ fun v member => sound scope v (List.mem_of_mem_take member)

theorem Sound.of_declared (sound : before.Sound)
    (same : ∀ id, (after.get id).declared = (before.get id).declared) : after.Sound :=
  fun id v member => sound id v (same id ▸ member)

/-- A lookup finds a variable in the scope that lists it. -/
theorem Sound.found (sound : tree.Sound) {id : Nat} {name : String} {v : Variable}
    (found : tree.findVariable id name = some v) : (tree.get v.scope).named? name = some v := by
  obtain ⟨outer, _, found⟩ := List.exists_of_findSome?_eq_some found
  obtain ⟨other, _, found⟩ := mem_of_visibleAt found
  have owned := (sound other v (List.mem_of_find?_eq_some found)).scope
  exact owned ▸ found

/-- To change the variable that a name means is to change the one that a lookup finds, where it is
listed. -/
theorem Sound.updateVariable (sound : tree.Sound) (id : Nat) (name : String)
    (change : Variable → Variable) :
    tree.updateVariable id name change = (tree.findVariable id name).map fun v =>
      (change v, tree.modify v.scope (·.replaceVariable name (change v))) := by
  unfold ScopeTree.updateVariable
  cases found : tree.findVariable id name with
  | none => rfl
  | some v =>
    simp only [Option.bind_eq_bind, Option.bind_some, sound.found found, Option.pure_def,
      Option.map_some]

theorem Sound.keysRecorded (sound : tree.Sound) (scope : Nat) (target : Expression)
    (append : Bool) : (tree.keysRecorded scope target append).Sound := by
  unfold ScopeTree.keysRecorded
  rw [sound.updateVariable]
  cases found : tree.findVariable scope target.token.text with
  | none => exact sound
  | some v =>
    refine sound.modify _ _ fun other member => ?_
    rcases Scope.mem_replaceNamed member with old | rfl
    · exact sound v.scope other old
    · have listed := List.mem_of_find?_eq_some (sound.found found)
      exact (sound v.scope v listed).storeKeys target append

theorem Sound.within (sound : tree.Sound) (inside : scope < tree.size) {title : String}
    {declared : List Variable} (listed : ∀ v ∈ declared, v.Sound tree.size) :
    (tree.within scope title declared).Sound := by
  refine Sound.addVariables (fun id v member => ?_) listed
  rw [get_newChild inside] at member
  split at member
  · cases member
  · split at member
    · rename_i same
      exact sound id v (same ▸ member)
    · exact sound id v member

theorem Sound.withFunction (sound : tree.Sound) (inside : scope < tree.size) {title : String}
    {declared : List Variable} (listed : ∀ v ∈ declared, v.Sound tree.size) :
    (tree.withFunction scope title declared).Sound := by
  have plain : (tree.within scope title declared).Sound := sound.within inside listed
  refine plain.of_declared fun id => ?_
  rw [get_withFunction inside]
  split
  · rfl
  · split <;> rfl

theorem Sound.withLibrary (sound : tree.Sound) (inside : scope < tree.size) {title : String} :
    (tree.withLibrary scope title).Sound := by
  intro id v member
  rw [get_withLibrary inside] at member
  split at member
  · cases member
  · split at member
    · rename_i same
      exact sound id v (same ▸ member)
    · exact sound id v member

theorem Sound.discardChild (sound : tree.Sound) {child : Nat} (apart : scope ≠ child)
    (inside : scope < tree.size) (room : child < tree.size) :
    (tree.discardChild scope child).Sound := by
  refine sound.of_declared fun id => ?_
  rw [get_discardChild apart inside room]
  grind

theorem sound_parameterVariables (scope : Nat) (params : List Parameter) :
    ∀ v ∈ parameterVariables scope params, v.Sound scope := by
  intro v member
  obtain ⟨param, _, rfl⟩ := List.mem_map.1 member
  exact .of_keyless rfl rfl

variable {sort : List Parameter → Prop}

theorem sound_none (scope : Nat) :
    ∀ v ∈ (none : Option (List Variable)).getD [], v.Sound scope := by
  intro v member
  cases member

/-- What is listed is sound after every turn, and so are the variables that come along between
blocks. -/
theorem Changes.sound (changes : Changes sort scope mode before after)
    (inside : scope < before.size) (ordered : before.Ordered) (sound : before.Sound) :
    after.Sound ∧ ∀ v ∈ mode.getD [], v.Sound scope := by
  induction changes with
  | refl | opening => exact ⟨sound, sound_none _⟩
  | trans first last front back =>
    have one := first.contained inside ordered
    exact back (one.inside inside) one.ordered (front inside ordered sound).1
  | declare owned unseen keyless =>
    subst owned
    refine ⟨sound.addVariables fun v member => ?_, sound_none _⟩
    rw [List.mem_singleton.1 member]
    exact .of_keyless rfl keyless
  | store => exact ⟨sound.keysRecorded _ _ _, sound_none _⟩
  | function fit inner ih =>
    refine ⟨(ih ?_ (ordered.withFunction inside) ?_).1, sound_none _⟩
    · rw [size_withFunction]
      exact Nat.lt_succ_self _
    · exact sound.withFunction inside (sound_parameterVariables _ _)
  | @noted scope before after child note changes new outline declared ih =>
    refine ⟨(ih inside ordered sound).1.of_declared fun id => ?_, sound_none _⟩
    exact get_modify_induct (motive := fun old new => new.declared = old.declared) after
      child note id rfl fun _ => declared _
  | @loop scope before after inner ih =>
    obtain ⟨order, made, _⟩ := within_ready "foreach"
      [{ Variable.fresh "it" before.size with type := .any }] ordered inside
    have room := Nat.lt_of_lt_of_le made (inner.contained made order).growth.size
    refine ⟨(ih made order (sound.within inside fun v member => ?_)).1.discardChild
      (Nat.ne_of_lt inside) (Nat.lt_trans inside room) room, sound_none _⟩
    rw [List.mem_singleton.1 member]
    exact .of_keyless rfl rfl
  | library fresh inner ih =>
    refine ⟨(ih ?_ (ordered.withLibrary inside) (sound.withLibrary inside)).1, sound_none _⟩
    rw [size_withLibrary]
    exact Nat.lt_succ_self _
  | block blocks inner front back =>
    have one := blocks.contained inside ordered
    obtain ⟨old, carried⟩ := front inside ordered sound
    obtain ⟨new, _⟩ := back (one.inside inside) one.ordered old
    refine ⟨new.dropVariablesSince _, fun v member => ?_⟩
    rcases mem_gather member with known | taken
    · exact carried v known
    · exact new _ v (List.mem_of_mem_drop taken)
  | broken blocks inner front back =>
    have one := blocks.contained inside ordered
    exact ⟨(back (one.inside inside) one.ordered (front inside ordered sound).1).1, sound_none _⟩
  | joined blocks ih =>
    obtain ⟨old, carried⟩ := ih inside ordered sound
    exact ⟨old.addVariables carried, sound_none _⟩

/-- No scope lists a name twice. -/
def Distinct (tree : ScopeTree) : Prop := ∀ id, (tree.names id).Nodup

theorem Distinct.of_names (distinct : before.Distinct)
    (same : ∀ id, after.names id = before.names id) : after.Distinct :=
  fun id => same id ▸ distinct id

theorem Distinct.alone (distinct : tree.Distinct) (scope : Nat) :
    (tree.names scope ++ ((none : Option (List Variable)).getD []).map (·.name)).Nodup := by
  simpa using distinct scope

theorem Distinct.addVariables (distinct : tree.Distinct) (inside : scope < tree.size)
    {more : List Variable}
    (apart : (tree.names scope ++ more.map (·.name)).Nodup) :
    (tree.addVariables scope more).Distinct := by
  intro id
  rw [names_addVariables inside]
  by_cases same : id = scope
  · subst same
    simpa only [↓reduceIte] using apart
  · simp only [same, ↓reduceIte, List.append_nil]
    exact distinct id

theorem Distinct.within (distinct : tree.Distinct) (inside : scope < tree.size) {title : String}
    {declared : List Variable} (once : (declared.map (·.name)).Nodup) :
    (tree.within scope title declared).Distinct := by
  refine (distinct.of_names (names_newChild inside title)).addVariables ?_ ?_
  · rw [size_newChild]
    exact Nat.lt_succ_self _
  · rw [names_newChild inside, names, get_of_size_le (Nat.le_refl _)]
    exact once

/-- A library's scope lists nothing when it is made. -/
theorem names_withLibrary (inside : scope < tree.size) {title : String} (id : Nat) :
    (tree.withLibrary scope title).names id = tree.names id := by
  rw [names, names, get_withLibrary inside]
  split
  · rename_i new
    rw [new, get_of_size_le (Nat.le_refl _)]
    rfl
  · split
    · rename_i same
      rw [same]
    · rfl

theorem not_mem_names {name : String} (unseen : tree.sees scope name = false) :
    name ∉ tree.names scope := by
  intro listed
  have seen : tree.Sees scope name := sees_iff.2 ⟨scope, Searches.self tree scope, listed⟩
  rw [Sees, unseen] at seen
  cases seen

theorem nodup_gather {known : List String} {declared taken : List Variable}
    (old : (known ++ declared.map (·.name)).Nodup) (new : ∀ v ∈ taken, v.name ∉ known) :
    (known ++ (gather declared taken).map (·.name)).Nodup := by
  unfold gather
  induction taken generalizing declared with
  | nil => exact old
  | cons v rest ih =>
    rw [List.foldl_cons]
    refine ih ?_ fun other member => new other (List.mem_cons_of_mem _ member)
    split
    · exact old
    · rename_i unknown
      rw [List.map_append, ← List.append_assoc]
      refine List.nodup_append.2 ⟨old, List.pairwise_singleton _ _, ?_⟩
      intro name member other single
      rw [List.mem_singleton.1 single]
      rintro rfl
      rcases List.mem_append.1 member with before | gathered
      · exact new v (List.mem_cons_self ..) before
      · obtain ⟨same, listed, equal⟩ := List.mem_map.1 gathered
        exact unknown (List.any_eq_true.2 ⟨same, listed, beq_iff_eq.2 equal⟩)

/-- No name is listed twice after any turn, where no function has a parameter twice. Between blocks
the names that come along are not listed. -/
theorem Changes.distinct (changes : Changes sort scope mode before after)
    (fits : ∀ params, sort params → (params.map (·.name.text)).Nodup) (inside : scope < before.size)
    (ordered : before.Ordered) (distinct : before.Distinct) :
    after.Distinct ∧ (before.names scope ++ (mode.getD []).map (·.name)).Nodup := by
  induction changes with
  | refl | opening => exact ⟨distinct, distinct.alone _⟩
  | trans first last front back =>
    have one := first.contained inside ordered
    exact ⟨(back (one.inside inside) one.ordered (front inside ordered distinct).1).1,
      distinct.alone _⟩
  | @declare scope tree v owned unseen keyless =>
    subst owned
    refine ⟨distinct.addVariables inside
      (List.nodup_append.2 ⟨distinct _, List.pairwise_singleton _ _, ?_⟩), distinct.alone _⟩
    intro name listed other single
    rw [List.mem_singleton.1 single]
    rintro rfl
    exact not_mem_names unseen listed
  | @store scope tree target append =>
    exact ⟨distinct.of_names fun id => ((keysRecorded_kept tree scope target append).2 id).names,
      distinct.alone _⟩
  | function fit inner ih =>
    refine ⟨(ih ?_ (ordered.withFunction inside) ?_).1, distinct.alone _⟩
    · rw [size_withFunction]
      exact Nat.lt_succ_self _
    · refine Distinct.of_names (distinct.within inside ?_) (names_withFunction inside)
      rw [names_parameterVariables]
      exact fits _ fit
  | @noted scope before after child note changes new outline declared ih =>
    refine ⟨(ih inside ordered distinct).1.of_names fun id => ?_, distinct.alone _⟩
    exact get_modify_induct (motive := fun old new =>
      new.declared.map (·.name) = old.declared.map (·.name))
      after child note id rfl fun _ => congrArg _ (declared _)
  | @loop scope before after inner ih =>
    obtain ⟨order, made, _⟩ := within_ready "foreach"
      [{ Variable.fresh "it" before.size with type := .any }] ordered inside
    have room := Nat.lt_of_lt_of_le made (inner.contained made order).growth.size
    have inner := (ih made order (distinct.within inside (List.pairwise_singleton _ _))).1
    exact ⟨inner.of_names (names_discardChild (Nat.ne_of_lt inside)
      (Nat.lt_trans inside room) room), distinct.alone _⟩
  | library fresh inner ih =>
    refine ⟨(ih ?_ (ordered.withLibrary inside) ?_).1, distinct.alone _⟩
    · rw [size_withLibrary]
      exact Nat.lt_succ_self _
    · exact distinct.of_names (names_withLibrary inside)
  | @block scope before middle after declared blocks inner front back =>
    have one := blocks.contained inside ordered
    have two := inner.contained (one.inside inside) one.ordered
    obtain ⟨old, carried⟩ := front inside ordered distinct
    obtain ⟨new, _⟩ := back (one.inside inside) one.ordered old
    have whole := one.growth.trans two.growth
    have listed := whole.names_since
    have drop := whole.dropVariablesSince rfl inside
    constructor
    · intro id
      by_cases same : id = scope
      · subst same
        rw [drop.2]
        exact distinct id
      · rw [names, dropVariablesSince, get_modify_of_ne _ _ (Ne.symm same)]
        exact new id
    · refine nodup_gather carried fun v member known => ?_
      have apart := List.nodup_append.1 (listed ▸ new scope)
      exact apart.2.2 _ known _ (List.mem_map.2 ⟨v, member, rfl⟩) rfl
  | broken blocks inner front back =>
    have one := blocks.contained inside ordered
    exact ⟨(back (one.inside inside) one.ordered (front inside ordered distinct).1).1,
      distinct.alone _⟩
  | joined blocks ih =>
    have whole := blocks.contained inside ordered
    obtain ⟨old, carried⟩ := ih inside ordered distinct
    refine ⟨old.addVariables (whole.inside inside) ?_, distinct.alone _⟩
    rw [whole.between rfl]
    exact carried

end ScopeTree

end Treecode
