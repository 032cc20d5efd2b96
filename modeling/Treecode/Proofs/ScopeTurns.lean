import Treecode.Proofs.Included
import Treecode.Proofs.Listed
import Treecode.Proofs.Places

set_option autoImplicit false

namespace Treecode.Compile

open Step ScopeTree

variable {setting : Setting} {sort : List Parameter → Prop} {move : Position → Position}
    {α β : Type}
  {scope : Nat} {mode : Option (List Variable)} {origin start after : Session}

/-- A library is opened: a scope of its name is there, and its file has been found and loaded. -/
def Opened (setting : Setting) (tree : ScopeTree) (path text : String) : Prop :=
  ∃ id, (tree.get id).isLibrary = true ∧
    Library.find? setting.files setting.searchPath (tree.get id).name = some path ∧
    Library.load setting.files path = .ok text

/-- What an error of a compilation blames: nothing at a place, a token of the current file where the
move leaves tokens alone, or something in an opened library. -/
inductive Blames (setting : Setting) (move : Position → Position) (file : String)
    (tree : ScopeTree) : Error → Prop
  | nothing {error} (unlocated : error.location? = none) : Blames setting move file tree error
  | token {error p} (located : error.location? = some ⟨file, p.line, p.column⟩) (still : move p = p)
      (read : error.isLexical = false) : Blames setting move file tree error
  | library {error path text} (opened : Opened setting tree path text)
      (into : ∀ place, error.location? = some place → PointsInto text path error place) :
      Blames setting move file tree error

/-- A session that is reached by turns in a scope. -/
structure Turned (sort : List Parameter → Prop) (scope : Nat) (mode : Option (List Variable))
    (origin session : Session) : Prop where
  ready : Ready scope origin
  changes : Changes sort scope mode origin.tree session.tree
  file : session.file = origin.file
  including : session.including = origin.including

/-- What comes of a step: a session reached by turns, and for a failure something to blame. -/
def Outcome (setting : Setting) (sort : List Parameter → Prop) (move : Position → Position)
    (scope : Nat)
    (origin : Session) (next : α → Option (List Variable)) : Except Error α × Session → Prop
  | (.ok a, after) => Turned sort scope (next a) origin after
  | (.error error, after) =>
    Turned sort scope none origin after ∧ Blames setting move origin.file after.tree error

/-- A step takes turns from wherever turns have led. -/
def Turns (setting : Setting) (sort : List Parameter → Prop) (move : Position → Position)
    (scope : Nat)
    (origin : Session) (mode : Option (List Variable)) (step : Step α)
    (next : α → Option (List Variable)) :
    Prop :=
  ∀ start, Turned sort scope mode origin start →
    Outcome setting sort move scope origin next (step start)

/-- A step only checks something: it changes nothing, and a failure is at a token that the move
leaves alone. -/
def Checks (move : Position → Position) (step : Step α) : Prop :=
  ∀ start, (step start).2 = start ∧ ∀ error, (step start).1 = .error error →
    ∃ p, error.location? = some ⟨start.file, p.line, p.column⟩ ∧ move p = p ∧
      error.isLexical = false

theorem Turned.refl (ready : Ready scope start) : Turned sort scope none start start :=
  ⟨ready, .refl, rfl, rfl⟩

/-- Where turns have led, there can be worked on. -/
theorem Turned.arrived (turned : Turned sort scope mode origin start) : Ready scope start :=
  have contained := turned.changes.contained turned.ready.inside turned.ready.ordered
  ⟨contained.inside turned.ready.inside, contained.ordered⟩

theorem Turned.trans (first : Turned sort scope none origin start)
    (last : Turned sort scope none start after) : Turned sort scope none origin after :=
  ⟨first.ready, first.changes.trans last.changes, last.file.trans first.file,
    last.including.trans first.including⟩

/-- To leave off between two blocks is to have done what is done. -/
theorem Turned.leftOff (turned : Turned sort scope mode origin start) :
    Turned sort scope none origin start := by
  cases mode with
  | none => exact turned
  | some declared =>
    exact ⟨turned.ready, .broken turned.changes .refl, turned.file, turned.including⟩

/-- One more change of the scopes is one more turn. -/
theorem Turned.withTree (turned : Turned sort scope none origin start) {tree : ScopeTree}
    (changes : Changes sort scope none start.tree tree) :
    Turned sort scope none origin (start.withTree tree) :=
  turned.trans ⟨turned.arrived, changes, rfl, rfl⟩

/-- What comes of a step from a session that turns have led to comes of it from where the turns
began. -/
theorem Outcome.of_arrived (turned : Turned sort scope none origin start)
    {result : Except Error α × Session}
    (outcome : Outcome setting sort move scope start (fun _ => none) result) :
    Outcome setting sort move scope origin (fun _ => none) result := by
  cases result with
  | mk yield after =>
    cases yield with
    | ok a => exact turned.trans outcome
    | error error =>
      obtain ⟨arrived, blames⟩ := outcome
      exact ⟨turned.trans arrived, turned.file ▸ blames⟩

namespace Checks

theorem pure (a : α) : Checks move (Pure.pure a : Step α) := by
  intro start
  refine ⟨rfl, fun error failed => ?_⟩
  cases failed

theorem object {token : Token} (still : token.moved move = token) (objection : Objection) :
    Checks move (Step.object token objection : Step α) := by
  intro start
  refine ⟨rfl, fun error failed => ?_⟩
  cases failed
  exact ⟨token.position, rfl, congrArg Token.position still, rfl⟩

theorem bind {step : Step α} {next : α → Step β} (first : Checks move step)
    (last : ∀ a, Checks move (next a)) : Checks move (step >>= next) := by
  intro start
  obtain ⟨same, blames⟩ := first start
  rw [bind_apply]
  cases outcome : step start with
  | mk yield after =>
    rw [outcome] at same blames
    dsimp only at same blames
    subst same
    cases yield with
    | ok a => exact last a after
    | error error =>
      refine ⟨rfl, fun error' failed => ?_⟩
      cases failed
      exact blames error rfl

theorem tree {rest : ScopeTree → Step α} (last : ∀ tree, Checks move (rest tree)) :
    Checks move (Step.tree >>= rest) := fun start => last start.tree start

theorem ite {condition : Prop} [Decidable condition] {first second : Step α}
    (yes : Checks move first)
    (no : Checks move second) : Checks move (if condition then first else second) := by
  split
  · exact yes
  · exact no

/-- What only checks leads nowhere, and what comes next goes on from there. -/
theorem outcome {step : Step α} {rest : α → Step β} {next : β → Option (List Variable)}
    (checks : Checks move step) (turned : Turned sort scope mode origin start)
    (last : ∀ a, step start = (.ok a, start) →
      Outcome setting sort move scope origin next (rest a start)) :
    Outcome setting sort move scope origin next ((step >>= rest) start) := by
  obtain ⟨same, blames⟩ := checks start
  rw [bind_apply]
  cases result : step start with
  | mk yield after =>
    rw [result] at same blames last
    dsimp only at same blames
    subst same
    cases yield with
    | ok a => exact last a rfl
    | error error =>
      obtain ⟨p, located, still, read⟩ := blames error rfl
      exact ⟨turned.leftOff, .token (turned.file ▸ located) still read⟩

theorem turns {step : Step α} (checks : Checks move step) :
    Turns setting sort move scope origin mode step fun _ => mode := by
  intro start turned
  have whole : Outcome setting sort move scope origin (fun _ => mode)
      ((step >>= Pure.pure) start) :=
    checks.outcome turned fun a _ => turned
  rw [bind_apply] at whole
  cases result : step start with
  | mk yield after =>
    rw [result] at whole
    cases yield <;> exact whole

end Checks

namespace Turns

variable {next : α → Option (List Variable)} {step : Step α}

theorem pure {a : α} (same : next a = mode) :
    Turns setting sort move scope origin mode (Pure.pure a : Step α) next := by
  intro start turned
  show Turned sort scope (next a) origin start
  rw [same]
  exact turned

theorem object {token : Token} (still : token.moved move = token) (objection : Objection) :
    Turns setting sort move scope origin mode (Step.object token objection : Step α) next := by
  intro start turned
  refine ⟨turned.leftOff, .token (p := token.position) ?_ (congrArg Token.position still) rfl⟩
  rw [← turned.file]
  rfl

theorem bind {rest : α → Step β} {final : β → Option (List Variable)}
    (first : Turns setting sort move scope origin mode step next)
    (last : ∀ a, Turns setting sort move scope origin (next a) (rest a) final) :
    Turns setting sort move scope origin mode (step >>= rest) final := by
  intro start turned
  have outcome := first start turned
  rw [bind_apply]
  cases result : step start with
  | mk yield after =>
    rw [result] at outcome
    cases yield with
    | ok a => exact last a after outcome
    | error error => exact outcome

/-- A step whose result is put to use at the end. -/
theorem map {f : α → β} (first : Turns setting sort move scope origin mode step fun _ => none) :
    Turns setting sort move scope origin mode (do let a ← step; return f a) fun _ => none :=
  first.bind fun _ => .pure rfl

theorem checking {rest : α → Step β} {final : β → Option (List Variable)} (first : Checks move step)
    (last : ∀ a, Turns setting sort move scope origin mode (rest a) final) :
    Turns setting sort move scope origin mode (step >>= rest) final :=
  first.turns.bind last

theorem changeTree {change : ScopeTree → ScopeTree}
    (changes : ∀ start, Ready scope start →
      Changes sort scope none start.tree (change start.tree)) :
    Turns setting sort move scope origin none (Step.changeTree change) fun _ => none :=
  fun start turned => turned.withTree (changes start turned.arrived)

/-- When the last block is done, the variables that came along are listed. -/
theorem joined {declared : List Variable} {a : α} :
    Turns setting sort move scope origin (some declared)
      (Step.changeTree (·.addVariables scope declared) >>= fun _ => (Pure.pure a : Step α)) fun _ =>
      none :=
  fun _ turned => ⟨turned.ready, .joined turned.changes, turned.file, turned.including⟩

/-- The blocks of an `if` or a `switch` start from the scopes that are there. -/
theorem opening {rest : ScopeTree → Step α}
    (inner : ∀ start, Ready scope start →
      Turns setting sort move scope start (some []) (rest start.tree) fun _ => none) :
    Turns setting sort move scope origin none (tree >>= rest) fun _ => none := by
  intro start turned
  exact (inner start turned.arrived start ⟨turned.arrived, .opening, rfl, rfl⟩).of_arrived turned

theorem branch {declared : List Variable}
    (inner : ∀ start, Ready scope start → Turns setting sort move scope start none step fun _ =>
      none) :
    Turns setting sort move scope origin (some declared)
      (branch scope (origin.tree.variableCount scope) declared step)
      fun result => some result.2 := by
  intro start turned
  have outcome := inner start turned.arrived start (.refl turned.arrived)
  unfold Compile.branch
  rw [bind_apply]
  cases result : step start with
  | mk yield after =>
    rw [result] at outcome
    cases yield with
    | ok a =>
      refine ⟨turned.ready, ?_, outcome.file.trans turned.file,
        outcome.including.trans turned.including⟩
      exact .block turned.changes outcome.changes
    | error error =>
      obtain ⟨arrived, blames⟩ := outcome
      exact ⟨⟨turned.ready, .broken turned.changes arrived.changes, arrived.file.trans turned.file,
        arrived.including.trans turned.including⟩, turned.file ▸ blames⟩

end Turns

theorem Opened.discardChild {tree : ScopeTree} {child : Nat} {path text : String}
    (opened : Opened setting tree path text) :
    Opened setting (tree.discardChild scope child) path text := by
  obtain ⟨id, kind, found, loaded⟩ := opened
  have same : ((tree.discardChild scope child).get id).isLibrary = (tree.get id).isLibrary ∧
      ((tree.discardChild scope child).get id).name = (tree.get id).name := by
    rw [ScopeTree.discardChild, get_modify, get_modify]
    grind
  exact ⟨id, same.1.trans kind, same.2 ▸ found, loaded⟩

theorem Blames.discardChild {file : String} {tree : ScopeTree} {child : Nat} {error : Error}
    (blames : Blames setting move file tree error) :
    Blames setting move file (tree.discardChild scope child) error := by
  cases blames with
  | nothing unlocated => exact .nothing unlocated
  | token located still read => exact .token located still read
  | library opened into => exact .library opened.discardChild into

/-- The work in the scope of a loop is a turn of the scope around it. -/
theorem Turns.loop (body : Nat → Step α)
    (inner : ∀ start, Ready scope start →
      Turns setting sort move start.tree.size (start.loop scope) none (body start.tree.size)
        fun _ => none) :
    Turns setting sort move scope origin none
      (inScope scope "foreach" fun child => do
        Step.changeTree (·.declare { Variable.fresh "it" child with type := .any })
        body child) fun _ => none := by
  intro start turned
  refine Outcome.of_arrived turned ?_
  have ready := turned.arrived.loop
  have outcome := inner start turned.arrived (start.loop scope) (.refl ready)
  show Outcome setting sort move scope start (fun _ => none)
    ((body start.tree.size (start.loop scope)).1,
      { (body start.tree.size (start.loop scope)).2 with
        tree := (body start.tree.size (start.loop scope)).2.tree.discardChild scope
          start.tree.size })
  cases result : body start.tree.size (start.loop scope) with
  | mk yield after =>
    rw [result] at outcome
    cases yield with
    | ok a => exact ⟨turned.arrived, .loop outcome.changes, outcome.file, outcome.including⟩
    | error error =>
      obtain ⟨arrived, blames⟩ := outcome
      exact ⟨⟨turned.arrived, .loop arrived.changes, arrived.file, arrived.including⟩,
        blames.discardChild⟩

/-- Notes on a function that has been made change no more. -/
theorem Turned.noted {child : Nat} {note : Scope → Scope}
    (turned : Turned sort scope none start after)
    (new : start.tree.size ≤ child) (outline : ∀ s : Scope, (note s).outline = s.outline)
    (declared : ∀ s : Scope, (note s).declared = s.declared) :
    Turned sort scope none start (after.withTree (after.tree.modify child note)) :=
  ⟨turned.ready, .noted turned.changes new outline declared, turned.file, turned.including⟩

theorem Turned.defined {child : Nat} {definition : Instruction}
    (turned : Turned sort scope none start after)
    (new : start.tree.size ≤ child) :
    Turned sort scope none start (after.defined child definition) :=
  turned.noted new (fun _ => rfl) fun _ => rfl

theorem Turned.external {child : Nat} (turned : Turned sort scope none start after)
    (new : start.tree.size ≤ child) : Turned sort scope none start (after.external child) :=
  turned.noted new (fun _ => rfl) fun _ => rfl

/-- What is done in the scope of a function is done in the scope around it. -/
theorem Turned.function {name : Token} {params : List Parameter} (ready : Ready scope start)
    (fit : sort params)
    (inner : Turned sort start.tree.size none (start.function scope name params) after) :
    Turned sort scope none start after := by
  obtain ⟨_, changes, file, including⟩ := inner
  simp only [Session.function, Session.withTree] at changes file including
  exact ⟨ready, .function fit changes, file, including⟩

/-- The work in the scope of a function is a turn of the scope around it, and so is to note the
definition. -/
theorem Turns.function {name : Token} {params : List Parameter} (body : Nat → Step Instruction)
    (result : Instruction → α) (fit : sort params)
    (inner : ∀ start, Ready scope start →
      Turns setting sort move start.tree.size (start.function scope name params) none
        (body start.tree.size) fun _ => none) :
    Turns setting sort move scope origin none
      (do
        let child ← functionScope scope name params
        let definition ← body child
        recordDefinition child definition
        return result definition) fun _ => none := by
  intro start turned
  refine Outcome.of_arrived turned ?_
  have ready := turned.arrived.function name params
  have outcome := inner start turned.arrived (start.function scope name params) (.refl ready)
  rw [bind_apply, functionScope_apply]
  dsimp only
  rw [bind_apply]
  rw [show start.withTree (start.tree.withFunction scope name.text
    (parameterVariables start.tree.size params)) = start.function scope name params from rfl]
  cases yielded : body start.tree.size (start.function scope name params) with
  | mk yield after =>
    rw [yielded] at outcome
    cases yield with
    | ok definition =>
      exact (outcome.function turned.arrived fit).defined (Nat.le_refl _)
    | error error =>
      obtain ⟨arrived, blames⟩ := outcome
      rw [show (start.function scope name params).file = start.file from
        by simp only [Session.function, Session.withTree]] at blames
      exact ⟨arrived.function turned.arrived fit, blames⟩

/-- A function that lies outside is noted as such in its scope. -/
theorem Turns.external {name : Token} {params : List Parameter} {definition : Instruction} {a : α}
    (fit : sort params) :
    Turns setting sort move scope origin none
      (do
        let child ← functionScope scope name params
        Step.changeTree (·.modify child fun s => { s with isExternal := true })
        recordDefinition child definition
        return a) fun _ => none := by
  intro start turned
  refine Outcome.of_arrived turned ?_
  rw [bind_apply, functionScope_apply]
  have entered : Turned sort start.tree.size none (start.function scope name params)
      (start.function scope name params) := .refl (turned.arrived.function name params)
  have made := entered.function turned.arrived fit
  exact (made.external (Nat.le_refl _)).defined (Nat.le_refl _)

end Treecode.Compile
