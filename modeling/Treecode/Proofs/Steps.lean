import Treecode.Compile.Programs
import Treecode.Proofs.Lookup

set_option autoImplicit false

namespace Treecode.Compile

open Step

namespace Step

variable {α β : Type}

theorem bind_ok {step : Step α} {next : α → Step β} {start after : Session} {b : β} :
    (step >>= next) start = (.ok b, after) ↔
      ∃ a middle, step start = (.ok a, middle) ∧ next a middle = (.ok b, after) := by
  rw [bind_apply]
  constructor
  · intro success
    split at success
    · rename_i a middle first
      exact ⟨a, middle, first, success⟩
    · cases success
  · rintro ⟨a, middle, first, last⟩
    rw [first]
    exact last

theorem pure_ok {a b : α} {start after : Session} :
    (pure a : Step α) start = (.ok b, after) ↔ b = a ∧ after = start := by
  rw [pure_apply, Prod.mk.injEq, Except.ok.injEq, eq_comm, @eq_comm _ start]

theorem tree_ok {start after : Session} {t : ScopeTree} :
    tree start = (.ok t, after) ↔ t = start.tree ∧ after = start := by
  change (Except.ok start.tree, start) = (.ok t, after) ↔ _
  rw [Prod.mk.injEq, Except.ok.injEq, eq_comm, @eq_comm _ start]

theorem changeTree_ok {change : ScopeTree → ScopeTree} {start after : Session} {u : Unit} :
    changeTree change start = (.ok u, after) ↔
      after = { start with tree := change start.tree } := by
  change (Except.ok (), _) = (Except.ok u, after) ↔ _
  simp only [Prod.mk.injEq, true_and, eq_comm]

theorem object_ne_ok {token : Token} {objection : Objection} {start after : Session} {a : α} :
    object token objection start ≠ (.ok a, after) := by
  intro success
  cases success

theorem ofExcept_ok {result : Except Error α} {start after : Session} {a : α} :
    ofExcept result start = (.ok a, after) ↔ result = .ok a ∧ after = start := by
  change (result, start) = (.ok a, after) ↔ _
  rw [Prod.mk.injEq, @eq_comm _ start]

end Step

/-- The place of a token in the file that is being compiled. -/
def Session.place (session : Session) (token : Token) : Location :=
  ⟨session.file, token.position.line, token.position.column⟩

variable {scope : Nat}

theorem requireVariable_apply (name : Token) (start : Session) :
    requireVariable scope name start =
      if (start.tree.findVariable scope name.text).isSome then (.ok (), start)
      else (.error (.rejected (start.place name) (.unknownVariable name.text)), start) := by
  change (if (start.tree.findVariable scope name.text).isSome = true then pure () else
    object name (.unknownVariable name.text) : Step Unit) start = _
  split <;> rfl

theorem requireFunction_apply (name : Token) (start : Session) :
    requireFunction scope name start =
      if (start.tree.findFunction scope name.text).isSome then (.ok (), start)
      else (.error (.rejected (start.place name) (.unknownFunction name.text)), start) := by
  change (if (start.tree.findFunction scope name.text).isSome = true then pure () else
    object name (.unknownFunction name.text) : Step Unit) start = _
  split <;> rfl

theorem declareIfNew_apply (name : String) (start : Session) :
    declareIfNew scope name start =
      if (start.tree.findVariable scope name).isSome then (.ok (), start)
      else (.ok (), { start with tree := start.tree.declare (.fresh name scope) }) := by
  change (if (start.tree.findVariable scope name).isSome = true then pure () else
    changeTree (·.declare (.fresh name scope)) : Step Unit) start = _
  split <;> rfl

/-- A required name is seen, and requiring it changes nothing. -/
theorem requireVariable_ok {name : Token} {start after : Session} {u : Unit} :
    requireVariable scope name start = (.ok u, after) ↔
      start.tree.Sees scope name.text ∧ after = start := by
  rw [requireVariable_apply, ScopeTree.Sees, ScopeTree.sees]
  split
  · rename_i seen
    simp only [seen, true_and, Prod.mk.injEq, eq_comm]
  · rename_i unseen
    simp [unseen]

theorem requireFunction_ok {name : Token} {start after : Session} {u : Unit} :
    requireFunction scope name start = (.ok u, after) ↔
      start.tree.Calls scope name.text ∧ after = start := by
  rw [requireFunction_apply, ScopeTree.Calls, ScopeTree.calls]
  split
  · rename_i called
    simp only [called, true_and, Prod.mk.injEq, eq_comm]
  · rename_i uncalled
    simp [uncalled]

end Treecode.Compile
