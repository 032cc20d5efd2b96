import Treecode.Proofs.Change

set_option autoImplicit false

namespace Treecode.ScopeTree

open Relation

variable {before after : ScopeTree} {scope id other : Nat}

/-- A scope hands on a name that one of the scopes that it hands on lists. -/
def HandsOn (tree : ScopeTree) (id : Nat) (name : String) : Prop :=
  ∃ other, tree.Exports id other ∧ name ∈ tree.names other

def NoLibrarySince (before after : ScopeTree) (scope : Nat) : Prop :=
  ∀ library, before.size ≤ library → ¬ after.Includes scope library

theorem Searches.lt_size {tree : ScopeTree} (searched : tree.Searches id other)
    (bound : id < tree.size) : other < tree.size := by
  obtain ⟨last, way, exported⟩ := searched
  have room : last < tree.size := Nat.lt_of_le_of_lt (outer_le way) bound
  induction exported with
  | refl => exact room
  | tail _ included _ => exact included.2.2.1

theorem Grows.includes_old (growth : Grows scope before after) (ordered : before.Ordered)
    {library : Nat} (bound : id < before.size) (old : library < before.size) :
    after.Includes id library ↔ before.Includes id library := by
  by_cases same : id = scope
  · subst same
    unfold Includes
    have member : library ∈ (after.get id).children ↔ library ∈ (before.get id).children :=
      ⟨fun inside => growth.children library inside old, fun inside =>
        growth.own.children.mem inside⟩
    have wide : library < after.size := Nat.lt_of_lt_of_le old growth.size
    rw [member, (growth.extended old).isLibrary]
    simp only [wide, old]
  · exact growth.includes_other ordered bound same

theorem Grows.includes_new (growth : Grows scope before after) (ordered : before.Ordered)
    {library : Nat} (bound : id < before.size) (new : before.size ≤ library)
    (included : after.Includes id library) : id = scope := by
  by_cases same : id = scope
  · exact same
  · have old := (growth.includes_other ordered bound same).1 included
    have := old.2.2.1
    omega

theorem Grows.exports_gain (growth : Grows scope before after) (ordered : before.Ordered)
    (bound : id < before.size) :
    after.Exports id other ↔ before.Exports id other ∨
      before.Exports id scope ∧ ∃ library, before.size ≤ library ∧ after.Includes scope library ∧
        after.Exports library other := by
  constructor
  · intro exported
    induction exported using ReflTransGen.head_induction_on with
    | refl => exact .inl .refl
    | @head here library included rest ih =>
      by_cases old : library < before.size
      · have link := (growth.includes_old ordered bound old).1 included
        rcases ih old with known | ⟨reached, gained⟩
        · exact .inl (.head link known)
        · exact .inr ⟨.head link reached, gained⟩
      · have new : before.size ≤ library := Nat.le_of_not_lt old
        have here_is := growth.includes_new ordered bound new included
        subst here_is
        exact .inr ⟨.refl, library, new, included, rest⟩
  · have mono : ∀ {last : Nat}, before.Exports id last → after.Exports id last := by
      intro last exported
      induction exported with
      | refl => exact .refl
      | @tail here library front link ih =>
        have here_bound : here < before.size := Nat.lt_trans link.2.1 link.2.2.1
        exact .tail ih ((growth.includes_old ordered here_bound link.2.2.1).2 link)
    intro either
    rcases either with exported | ⟨reached, library, _, included, rest⟩
    · exact mono exported
    · exact (mono reached).trans (.head included rest)

theorem Grows.searches_gain (growth : Grows scope before after) (ordered : before.Ordered)
    (bound : id < before.size) :
    after.Searches id other ↔ before.Searches id other ∨
      before.Searches id scope ∧ ∃ library, before.size ≤ library ∧ after.Includes scope library ∧
        after.Exports library other := by
  have way_iff : ∀ {last : Nat}, ReflTransGen after.Inside id last ↔
      ReflTransGen before.Inside id last := by
    intro last
    constructor
    · intro way
      induction way with
      | refl => exact .refl
      | tail _ link ih =>
        exact .tail ih ((growth.inside_iff (Nat.lt_of_le_of_lt (outer_le ih) bound)).1 link)
    · intro way
      induction way with
      | refl => exact .refl
      | tail front link ih =>
        exact .tail ih ((growth.inside_iff (Nat.lt_of_le_of_lt (outer_le front) bound)).2 link)
  have room : ∀ {last : Nat}, ReflTransGen before.Inside id last → last < before.size :=
    fun way => Nat.lt_of_le_of_lt (outer_le way) bound
  constructor
  · intro searched
    obtain ⟨last, way, exported⟩ := searched
    have way := way_iff.1 way
    rcases (growth.exports_gain ordered (room way)).1 exported with known | ⟨reached, gained⟩
    · exact .inl ⟨last, way, known⟩
    · exact .inr ⟨⟨last, way, reached⟩, gained⟩
  · intro either
    rcases either with ⟨last, way, exported⟩ | ⟨⟨last, way, reached⟩, gained⟩
    · exact ⟨last, way_iff.2 way, (growth.exports_gain ordered (room way)).2 (.inl exported)⟩
    · exact ⟨last, way_iff.2 way,
        (growth.exports_gain ordered (room way)).2 (.inr ⟨reached, gained⟩)⟩

/-- What is seen after growth is what was seen before, what the growing scope lists, and what new
libraries hand on, the last two where the growing scope is searched. -/
theorem Grows.sees_gain (growth : Grows scope before after) (ordered : before.Ordered)
    (bound : id < before.size) (name : String) :
    after.Sees id name ↔ before.Sees id name ∨
      before.Searches id scope ∧ (name ∈ after.names scope ∨
        ∃ library, before.size ≤ library ∧ after.Includes scope library ∧
          after.HandsOn library name) := by
  constructor
  · intro seen
    obtain ⟨other, searched, listed⟩ := sees_iff.1 seen
    rcases (growth.searches_gain ordered bound).1 searched with known | ⟨reached, gained⟩
    · by_cases same : other = scope
      · subst same
        exact .inr ⟨known, .inl listed⟩
      · rw [growth.names_other (known.lt_size bound) same] at listed
        exact .inl (sees_iff.2 ⟨other, known, listed⟩)
    · obtain ⟨library, new, included, exported⟩ := gained
      exact .inr ⟨reached, .inr ⟨library, new, included, other, exported, listed⟩⟩
  · intro either
    rcases either with seen | ⟨reached, listed | ⟨library, new, included, other, exported, listed⟩⟩
    · exact growth.sees bound seen
    · exact sees_iff.2 ⟨scope, growth.searches bound reached, listed⟩
    · refine sees_iff.2 ⟨other, ?_, listed⟩
      exact (growth.searches_gain ordered bound).2
        (.inr ⟨reached, library, new, included, exported⟩)

/-- Without new libraries a scope sees more only by what it lists. -/
theorem Grows.sees_without_libraries (growth : Grows scope before after) (ordered : before.Ordered)
    (inside : scope < before.size) (without : NoLibrarySince before after scope) (name : String) :
    after.Sees scope name ↔ before.Sees scope name ∨ name ∈ after.names scope := by
  rw [growth.sees_gain ordered inside]
  constructor
  · intro either
    rcases either with seen | ⟨_, listed | ⟨library, new, included, _⟩⟩
    · exact .inl seen
    · exact .inr listed
    · exact absurd included (without library new)
  · intro either
    rcases either with seen | listed
    · exact .inl seen
    · exact .inr ⟨Searches.self before scope, .inl listed⟩

theorem NoLibrarySince.refl {tree : ScopeTree} (scope : Nat) : NoLibrarySince tree tree scope := by
  intro library new included
  have := included.2.2.1
  omega

theorem NoLibrarySince.trans {middle : ScopeTree} (first : NoLibrarySince before middle scope)
    (last : NoLibrarySince middle after scope) (growth : Grows scope middle after)
    (ordered : middle.Ordered) (inside : scope < middle.size) :
    NoLibrarySince before after scope := by
  intro library new included
  by_cases old : library < middle.size
  · exact first library new ((growth.includes_old ordered inside old).1 included)
  · exact last library (Nat.le_of_not_lt old) included

end Treecode.ScopeTree
