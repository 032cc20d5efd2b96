import Treecode.Proofs.WellFormed

set_option autoImplicit false

namespace Treecode.Compile

open ScopeTree

/-- What a program compiles to on its own, and the scopes that it leaves. -/
def alone (setting : Setting) (job : Program × List String) :
    Except Error (List Instruction) × ScopeTree :=
  let (result, after) := program setting job.1 job.2 .initial
  (result, after.tree)

/-- Compiles programs, each with its reserved names, one after another in one session, and keeps
what each of them compiles to and the scopes that it leaves. -/
def successive (setting : Setting) :
    List (Program × List String) → Session →
      List (Except Error (List Instruction) × ScopeTree) × Session
  | [], session => ([], session)
  | job :: rest, session =>
    let (result, after) := program setting job.1 job.2 session
    let (others, last) := successive setting rest after
    ((result, after.tree) :: others, last)

/-- In any session a program compiles to what it compiles to on its own and leaves the same scopes,
and then the session names the file of before and no library is under way. -/
theorem program_alone (setting : Setting) (job : Program × List String) (session : Session) :
    ((program setting job.1 job.2 session).1, (program setting job.1 job.2 session).2.tree) =
    alone setting job ∧
      (program setting job.1 job.2 session).2.file = session.file ∧
      (program setting job.1 job.2 session).2.including = [] := by
  have fits : AllFit setting (fun _ => True) job.1 := fun _ _ _ _ => trivial
  refine ⟨?_, (turned_program fits job.2 session).2⟩
  unfold alone
  rw [program_apply_begin, program_apply_begin]
  cases statements (library setting setting.depth) ScopeTree.root job.1.statements
      (Session.begin job.2 job.1.file) with
  | mk result after => cases result <;> rfl

/-- Programs that are compiled one after another do not influence each other: each compiles to what
it compiles to on its own, and leaves the same scopes, in whatever session the first one starts. -/
theorem successive_alone (setting : Setting) (jobs : List (Program × List String))
    (session : Session) :
    (successive setting jobs session).1 = jobs.map (alone setting) ∧
      (successive setting jobs session).2.file = session.file ∧
      (successive setting jobs session).2.including =
        if jobs.isEmpty then session.including else [] := by
  induction jobs generalizing session with
  | nil => exact ⟨rfl, rfl, rfl⟩
  | cons job rest ih =>
    obtain ⟨first, file, including⟩ := program_alone setting job session
    obtain ⟨others, file', including'⟩ := ih (program setting job.1 job.2 session).2
    refine ⟨?_, file'.trans file, including'.trans ?_⟩
    · rw [List.map_cons, ← first, ← others]
      rfl
    · rw [including]
      simp only [List.isEmpty_cons, Bool.false_eq_true, ↓reduceIte, ite_self]

end Treecode.Compile
