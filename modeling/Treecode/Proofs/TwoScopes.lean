import Treecode.Proofs.ConstantFlags
import Treecode.Proofs.Cycles
import Treecode.Proofs.Demands

set_option autoImplicit false

namespace Treecode

namespace Compile

open ScopeTree Instruction Demand

variable {setting : Setting} {depth depth' scope scope' : Nat} {start start' after after' : Session}

/-- How the second one of two scopes differs from the first: names that it sees, and names and
functions that it lacks. -/
structure Difference where
  known : String → Bool
  lost : String → Prop
  gone : String → Prop
  apart : ∀ x, lost x → known x = false

/-- What two scopes find for a name: whether it is a constant is the same, but for names in which
they differ, and the second one finds no constant for names that it lacks or that are barred. -/
structure Suits (d : Difference) (barred : String → Prop) (x : String) (flag flag' : Option Bool) :
    Prop where
  same : d.known x = false → ¬ d.lost x → flag' = flag
  plain : d.lost x ∨ barred x → flag' ≠ some true

/-- Two scopes of which the second one finds what the first one does, but for the names in which
they differ. -/
structure Resembles (d : Difference) (barred : String → Prop) (scope : Nat) (start : Session)
    (scope' : Nat) (start' : Session) : Prop where
  found : ∀ x, Suits d barred x (start.tree.found scope x) (start'.tree.found scope' x)
  known : ∀ x, d.known x = true → start'.tree.Sees scope' x
  lost : ∀ x, d.lost x → start.tree.Sees scope x
  bars : ∀ x, barred x → start'.tree.Sees scope' x
  calls : ∀ f, start.tree.Calls scope f → ¬ d.gone f → start'.tree.Calls scope' f

/-- Two scopes that also list the same names, are lent the same and have included the same
libraries. -/
structure Alike (d : Difference) (barred : String → Prop) (scope : Nat) (start : Session)
    (scope' : Nat)
    (start' : Session) : Prop extends Resembles d barred scope start scope' start' where
  listed : ∀ x, Suits d barred x (start.tree.listed scope x) (start'.tree.listed scope' x)
  lent : ∀ x, Suits d barred x (start.tree.lent scope x) (start'.tree.lent scope' x)
  libraries : (start'.tree.get scope').libraries = (start.tree.get scope).libraries

/-- Code may run in the second scope: names and functions that it lacks and that the code asks for
are there by now, and the names that it stores to are barred. -/
structure Meets (d : Difference) (barred : String → Prop) (demands : List Demand) (scope' : Nat)
    (start' : Session) : Prop where
  seen : ∀ x, d.lost x → .seen x ∈ demands → start'.tree.Sees scope' x
  called : ∀ f, d.gone f → .called f ∈ demands → start'.tree.Calls scope' f
  stored : ∀ x, d.known x = true → .stored x ∈ demands → barred x

/-- What the blocks of a statement gather in two scopes, with what is listed there already. -/
def Gathers (d : Difference) (barred : String → Prop) (scope : Nat) (start : Session) (scope' : Nat)
    (start' : Session) (declared declared' : List Variable) : Prop :=
  ∀ x, Suits d barred x ((start.tree.listed scope x).or (flagOf declared x))
    ((start'.tree.listed scope' x).or (flagOf declared' x))

section Finding

variable {d : Difference} {barred barred' : String → Prop} {x : String}
    {flag flag' other other' : Option Bool}

theorem Suits.or (first : Suits d barred x flag flag') (second : Suits d barred x other other') :
    Suits d barred x (flag.or other) (flag'.or other') := by
  refine ⟨fun unknown kept => by rw [first.same unknown kept, second.same unknown kept],
    fun either => ?_⟩
  cases own : flag' with
  | none => exact second.plain either
  | some constant =>
    rw [← own]
    rw [own, Option.some_or, ← own]
    exact first.plain either

theorem Suits.refl (plain : flag ≠ some true) : Suits d barred x flag flag :=
  ⟨fun _ _ => rfl, fun _ => plain⟩

/-- Where both scopes declare some variables first, these may be barred as well. -/
theorem Suits.within (suits : Suits d barred x flag flag') (names : List String) :
    Suits d (fun name => barred name ∨ name ∈ names) x
      ((if x ∈ names then some false else none).or flag)
      ((if x ∈ names then some false else none).or flag') := by
  by_cases own : x ∈ names
  · simp only [own, ↓reduceIte, Option.some_or]
    exact .refl nofun
  · simp only [own, ↓reduceIte, Option.none_or]
    exact ⟨suits.same, fun either =>
      suits.plain (either.imp_right fun both => both.resolve_right own)⟩

/-- Names in which the scopes do not differ are seen in both or in none. -/
theorem Resembles.sees_iff (resembles : Resembles d barred scope start scope' start')
    (unknown : d.known x = false) (kept : ¬ d.lost x) :
    start'.tree.Sees scope' x ↔ start.tree.Sees scope x := by
  rw [← isSome_found, ← isSome_found, (resembles.found x).same unknown kept]

/-- What code asks for and the first scope meets, the second one meets. -/
theorem Resembles.met (resembles : Resembles d barred scope start scope' start')
    {demands : List Demand}
    (meets : Meets d barred demands scope' start') {e : Demand} (member : e ∈ demands)
    (met : e.Met (start.tree.sees scope) (start.tree.calls scope)) :
    e.Met (start'.tree.sees scope') (start'.tree.calls scope') := by
  cases e with
  | seen name =>
    by_cases lost : d.lost name
    · exact meets.seen name lost member
    · cases known : d.known name with
      | true => exact resembles.known name known
      | false => exact (resembles.sees_iff known lost).2 met
  | called name =>
    by_cases gone : d.gone name
    · exact meets.called name gone member
    · exact resembles.calls name met gone
  | stored name => trivial

/-- Code that asks for less, or for what is there further on. -/
theorem Meets.through {demands inner given : List Demand}
    (meets : Meets d barred demands scope' start') (split : ∀ e ∈ inner, e ∈ demands ∨ e ∈ given)
    (sees : ∀ name, start'.tree.Sees scope' name → after'.tree.Sees scope name)
    (calls : ∀ name, start'.tree.Calls scope' name → after'.tree.Calls scope name)
    (bars : ∀ name, barred name → barred' name)
    (seen : ∀ name, d.lost name → .seen name ∈ given → after'.tree.Sees scope name)
    (called : ∀ name, .called name ∈ given → after'.tree.Calls scope name)
    (stored : ∀ name, .stored name ∈ given → barred' name) : Meets d barred' inner scope after' :=
  ⟨fun name lost member => (split _ member).elim
    (fun outer => sees name (meets.seen name lost outer)) (seen name lost),
    fun name gone member => (split _ member).elim
      (fun outer => calls name (meets.called name gone outer)) (called name),
    fun name known member => (split _ member).elim
      (fun outer => bars name (meets.stored name known outer)) (stored name)⟩

theorem Meets.part {demands inner : List Demand} (meets : Meets d barred demands scope' start')
    (subset : ∀ e ∈ inner, e ∈ demands) : Meets d barred inner scope' start' :=
  ⟨fun name lost member => meets.seen name lost (subset _ member),
    fun name gone member => meets.called name gone (subset _ member),
    fun name known member => meets.stored name known (subset _ member)⟩

theorem Resembles.evaluates (resembles : Resembles d barred scope start scope' start')
    {e : Expression} {code : Instruction} (meets : Meets d barred code.asks scope' start')
    (evaluates : Evaluates start scope e code) : Evaluates start' scope' e code := by
  obtain ⟨shaped, asked⟩ := (reads_iff _ _ code).1 evaluates.reads
  exact ⟨evaluates.translated,
    (reads_iff _ _ code).2 ⟨shaped, fun e member => resembles.met meets member (asked e member)⟩⟩

theorem Alike.hasLibrary (alike : Alike d barred scope start scope' start') (name : String) :
    start'.tree.hasLibrary scope' name = start.tree.hasLibrary scope name := by
  unfold ScopeTree.hasLibrary
  rw [alike.libraries]

theorem Alike.grown (alike : Alike d barred scope start scope' start') (ready : Ready scope start)
    (ready' : Ready scope' start') (growth : Grows scope start.tree after.tree)
    (growth' : Grows scope' start'.tree after'.tree)
    (listed : ∀ x, Suits d barred x (after.tree.listed scope x) (after'.tree.listed scope' x))
    (lent : ∀ x, Suits d barred x (after.tree.lent scope x) (after'.tree.lent scope' x))
    (calls : ∀ f, after.tree.Calls scope f → ¬ d.gone f → after'.tree.Calls scope' f)
    (libraries : (after'.tree.get scope').libraries = (after.tree.get scope).libraries) :
    Alike d barred scope after scope' after' := by
  refine ⟨⟨fun x => ?_, fun x known => growth'.sees ready'.inside (alike.known x known),
    fun x lost => growth.sees ready.inside (alike.lost x lost),
    fun x bar => growth'.sees ready'.inside (alike.bars x bar), calls⟩, listed, lent, libraries⟩
  rw [growth.found ready.ordered ready.inside, growth'.found ready'.ordered ready'.inside,
    handed_eq, handed_eq]
  exact ((listed x).or (lent x)).or (alike.found x)

end Finding

section Turns

variable {d : Difference} {barred : String → Prop} {target value : Expression} {operator : Token}
  {append constant : Bool} {operation : Option Opcode} {targetCode valueCode : Instruction}

/-- An assignment compiles in the second scope as well, and declares its target there if it does so
in the first one and the target is not known. -/
theorem Resembles.assigns (resembles : Resembles d barred scope start scope' start')
    (ready : Ready scope start) (ready' : Ready scope' start') (shaped : target.isVariable)
    (meets : Meets d barred (allDemand true
      (assignmentCode (!start.tree.sees scope target.token.text)
        target.token.text operation targetCode valueCode append)) scope' start')
    (new : constant = true → d.known target.token.text = false)
    (assigns : Assigns start scope target operator value append constant operation
      targetCode valueCode) :
    Assigns start' scope' target operator value append constant operation targetCode valueCode ∧
      start'.tree.sees scope' target.token.text =
        (start.tree.sees scope target.token.text || d.known target.token.text) := by
  obtain ⟨index, place⟩ := Expression.code?_target shaped assigns.spelled
  have demands : ∀ e, e ∈ targetCode.placed.map .stored ∨ e ∈ targetCode.asks ∨ e ∈ valueCode.asks →
      ((!start.tree.sees scope target.token.text) = true → e ≠ .seen target.token.text) →
      e ∈ allDemand true (assignmentCode (!start.tree.sees scope target.token.text)
        target.token.text operation targetCode valueCode append) :=
    fun e asked old => mem_demands_assignmentCode.2 ⟨asked, old⟩
  have seen : start'.tree.sees scope' target.token.text =
      (start.tree.sees scope target.token.text || d.known target.token.text) := by
    rw [Bool.eq_iff_iff, Bool.or_eq_true]
    by_cases lost : d.lost target.token.text
    · have before := resembles.lost _ lost
      refine ⟨fun _ => .inl before, fun _ => meets.seen _ lost (demands _ (.inr (.inl ?_)) ?_)⟩
      · rw [place]
        exact List.mem_cons_self ..
      · rw [before]
        exact nofun
    · cases known : d.known target.token.text with
      | true => exact ⟨fun _ => .inr rfl, fun _ => resembles.known _ known⟩
      | false =>
        simp only [Bool.false_eq_true, or_false]
        exact resembles.sees_iff known lost
  -- The target is declared by now, so that reading it asks for nothing.
  have reads : ∀ code : Instruction, (∀ e ∈ code.asks, e ∈ targetCode.asks ∨ e ∈ valueCode.asks) →
      code.reads ((start.tree.assigned scope target.token.text constant value).sees scope)
        ((start.tree.assigned scope target.token.text constant value).calls scope) →
      code.reads ((start'.tree.assigned scope' target.token.text constant value).sees scope')
        ((start'.tree.assigned scope' target.token.text constant value).calls scope') := by
    intro code part reads
    obtain ⟨proper, asked⟩ := (reads_iff _ _ code).1 reads
    refine (reads_iff _ _ code).2 ⟨proper, fun e member => ?_⟩
    by_cases own : e = .seen target.token.text
    · rw [own]
      exact (sees_assigned _ ready'.inside _ _ _).2 (.inr rfl)
    · have met := asked e member
      have demanded := demands e (.inr (part e member)) fun _ => own
      cases e with
      | seen x =>
        have before := ((sees_assigned _ ready.inside _ _ _).1 met).resolve_right fun same =>
          own (by rw [same])
        exact (sees_assigned _ ready'.inside _ _ _).2 (.inl (resembles.met meets demanded before))
      | called f =>
        have before := (calls_assigned _ _ _ _).1 met
        exact (calls_assigned _ _ _ _).2 (resembles.met meets demanded before)
      | stored x => trivial
  refine ⟨⟨?_, assigns.sign, ?_, assigns.spelled, assigns.valued,
    reads _ (fun _ => .inl) assigns.targetReads, reads _ (fun _ => .inr) assigns.valueReads⟩, seen⟩
  · intro found lookup
    have flag' : start'.tree.found scope' target.token.text = some found.constant := by
      rw [found_eq, lookup]
      rfl
    have suits := resembles.found target.token.text
    have free : d.lost target.token.text ∨ barred target.token.text → found.constant = false := by
      intro bars
      refine Bool.eq_false_iff.2 fun fixed => suits.plain bars ?_
      rw [flag', fixed]
    cases known : d.known target.token.text with
    | true =>
      have stored := demands (.stored target.token.text) (.inl (by simp [place, placed])) nofun
      refine ⟨free (.inr (meets.stored _ known stored)), Bool.eq_false_iff.2 fun fixed => ?_⟩
      exact Bool.false_ne_true ((new fixed).symm.trans known)
    | false =>
      by_cases lost : d.lost target.token.text
      · obtain ⟨old, listed⟩ := Option.isSome_iff_exists.1 (resembles.lost _ lost)
        exact ⟨free (.inl lost), (assigns.assignable old listed).2⟩
      · have same := suits.same known lost
        rw [flag', found_eq] at same
        obtain ⟨old, listed, equal⟩ := Option.map_eq_some_iff.1 same.symm
        rw [← equal]
        exact assigns.assignable old listed
  · intro signed
    obtain ⟨single, before⟩ := assigns.operand signed
    exact ⟨single, by rw [seen, before, Bool.true_or]⟩

variable (alike : Alike d barred scope start scope' start') (ready : Ready scope start)
  (ready' : Ready scope' start')

include alike ready ready'

theorem Alike.afterAssignment (value : Expression) (append constant : Bool)
    (seen : start'.tree.sees scope' target.token.text =
      (start.tree.sees scope target.token.text || d.known target.token.text)) :
    Alike d barred scope (start.afterAssignment scope target value append constant) scope'
      (start'.afterAssignment scope' target value append constant) := by
  refine alike.grown ready ready'
    (frame_assignment start ready.ordered scope target value append constant).growth
    (frame_assignment start' ready'.ordered scope' target value append constant).growth
      (fun x => ?_) (fun x => ?_)
    (fun f called kept => ?_) ?_
  · rw [listed_afterAssignment ready, listed_afterAssignment ready']
    refine (alike.listed x).or ⟨fun unknown _ => ?_, fun either => ?_⟩
    · by_cases own : x = target.token.text
      · rw [seen, ← own, unknown, Bool.or_false]
      · simp only [own, and_false, ↓reduceIte]
    · have old : ¬ (start'.tree.sees scope' target.token.text = false ∧ x = target.token.text) := by
        rintro ⟨unseen, rfl⟩
        rcases either with lost | bar
        · rw [seen, alike.lost _ lost] at unseen
          cases unseen
        · exact Bool.false_ne_true (unseen.symm.trans (alike.bars _ bar))
      rw [if_neg old]
      exact nofun
  · rw [lent_afterAssignment ready, lent_afterAssignment ready']
    exact alike.lent x
  · rw [calls_afterAssignment] at called ⊢
    exact alike.calls f called kept
  · rw [libraries_assignment, libraries_assignment, alike.libraries]

/-- A select opens the names that are not seen. -/
theorem Alike.selects {source : Expression} {filter : Option Expression} {sourceCode : Instruction}
    {filterCode : Option Instruction} {opened : List String}
    {fields : List (String × Option String)} {distinct merge : Bool}
    (meets : Meets d barred
      (allDemand true [.select fields sourceCode filterCode distinct merge targetCode])
      scope' start')
    (selects : Selects start scope source filter target sourceCode filterCode targetCode opened) :
    ∃ opened', Selects start' scope' source filter target sourceCode filterCode targetCode opened' ∧
      Alike d barred scope (start.opening scope opened) scope' (start'.opening scope' opened') := by
  rw [allDemand_single] at meets
  have opening := opening_select filterCode targetCode
  obtain ⟨shaped, asked⟩ := (reads_iff _ _ sourceCode).1 selects.sourceReads
  obtain ⟨opened', opens⟩ :
    ∃ opened', opensInSelect (start'.tree.sees scope') (start'.tree.calls scope')
      filterCode targetCode = some opened' := by
    refine opening.again selects.opens fun e member =>
      alike.met meets ?_ (opening.met selects.opens e member)
    rw [demands, List.append_assoc]
    exact List.mem_append_right _ member
  have reads : sourceCode.reads (start'.tree.sees scope') (start'.tree.calls scope') := by
    refine (reads_iff _ _ sourceCode).2
      ⟨shaped, fun e member => alike.met meets ?_ (asked e member)⟩
    rw [demands, List.append_assoc]
    exact List.mem_append_left _ member
  refine ⟨opened', ⟨selects.source, selects.filter, selects.target, reads, opens⟩, ?_⟩
  refine alike.grown ready ready' (.addVariables ..) (.addVariables ..) (fun x => ?_) (fun x => ?_)
    (fun f called kept => ?_) ?_
  · unfold Session.opening
    show Suits d barred x ((start.tree.addVariables scope _).listed scope x)
      ((start'.tree.addVariables scope' _).listed scope' x)
    rw [listed_addVariables ready.inside, listed_addVariables ready'.inside, flagOf_opened,
      flagOf_opened]
    refine (alike.listed x).or ⟨fun unknown kept => ?_, fun _ => ?_⟩
    · have same : start'.tree.sees scope' x = start.tree.sees scope x :=
        Bool.eq_iff_iff.2 (alike.sees_iff unknown kept)
      simp only [opening.added_iff opens, opening.added_iff selects.opens, same]
    · split <;> decide
  · show Suits d barred x ((start.tree.addVariables scope _).lent scope x)
      ((start'.tree.addVariables scope' _).lent scope' x)
    rw [lent_addVariables ready.ordered, lent_addVariables ready'.ordered]
    exact alike.lent x
  · exact (calls_given _).2 (alike.calls f ((calls_given _).1 called) kept)
  · exact (libraries_addVariables _ _ _ _).trans
      (alike.libraries.trans (libraries_addVariables _ _ _ _).symm)

/-- In the body of a function its parameters may be stored to. -/
theorem Alike.function (name : Token) (params : List Parameter) :
    Alike d (fun x => barred x ∨ x ∈ params.map (·.name.text)) start.tree.size
      (start.function scope name params) start'.tree.size (start'.function scope' name params) := by
  have flags : ∀ x, Suits d (fun x => barred x ∨ x ∈ params.map (·.name.text)) x
      (if x ∈ params.map (·.name.text) then some false else none)
      (if x ∈ params.map (·.name.text) then some false else none) := by
    intro x
    refine .refl ?_
    split <;> decide
  refine ⟨⟨fun x => ?_, fun x known => ?_, fun x lost => ?_, fun x bar => ?_,
    fun f called kept => ?_⟩, fun x => ?_, fun x => ?_, ?_⟩
  · rw [found_function ready, found_function ready', listed_function ready, listed_function ready']
    exact (alike.found x).within _
  · exact (sees_function ready' _ _).2 (.inl (alike.known x known))
  · exact (sees_function ready _ _).2 (.inl (alike.lost x lost))
  · exact (sees_function ready' _ _).2 (bar.imp_left (alike.bars x))
  · exact (calls_function ready' _ _).2
      (((calls_function ready _ _).1 called).imp_left fun before => alike.calls f before kept)
  · rw [listed_function ready, listed_function ready']
    exact flags x
  · rw [lent_function ready, lent_function ready']
    exact .refl nofun
  · rw [libraries_new_function ready', libraries_new_function ready]

/-- In the body of a loop over items the item may be stored to. -/
theorem Alike.loop : Alike d (fun x => barred x ∨ x ∈ ["it"]) start.tree.size (start.loop scope)
    start'.tree.size (start'.loop scope') := by
  refine ⟨⟨fun x => ?_, fun x known => ?_, fun x lost => ?_, fun x bar => ?_,
    fun f called kept => ?_⟩, fun x => ?_, fun x => ?_, ?_⟩
  · rw [found_loop ready, found_loop ready', listed_loop ready, listed_loop ready']
    simp only [← List.mem_singleton (a := x)]
    exact (alike.found x).within _
  · exact (sees_loop ready').2 (.inl (alike.known x known))
  · exact (sees_loop ready).2 (.inl (alike.lost x lost))
  · exact (sees_loop ready').2 (bar.imp (alike.bars x) List.mem_singleton.1)
  · exact (calls_loop ready').2 (alike.calls f ((calls_loop ready).1 called) kept)
  · rw [listed_loop ready, listed_loop ready']
    refine .refl ?_
    split <;> decide
  · rw [lent_loop ready, lent_loop ready']
    exact .refl nofun
  · have front : ((start'.loop scope').tree.get start'.tree.size).libraries = [] :=
      libraries_new_within _ _ ready'.inside
    have back : ((start.loop scope).tree.get start.tree.size).libraries = [] :=
      libraries_new_within _ _ ready.inside
    rw [front, back]

theorem Alike.define {name : Token} {params : List Parameter}
    (inner : Frame start.tree.size (start.function scope name params) after)
    (inner' : Frame start'.tree.size (start'.function scope' name params) after')
    (definition definition' : Instruction) :
    Alike d barred scope (after.defined start.tree.size definition) scope'
      (after'.defined start'.tree.size definition') := by
  refine alike.grown ready ready' (frame_define ready.inside inner _).growth
    (frame_define ready'.inside inner' _).growth (fun x => ?_) (fun x => ?_)
      (fun f called kept => ?_) ?_
  · rw [listed_define ready inner, listed_define ready' inner']
    exact alike.listed x
  · rw [lent_define ready inner, lent_define ready' inner']
    exact alike.lent x
  · exact (calls_define ready' inner' _).2
      (((calls_define ready inner _).1 called).imp_left fun before => alike.calls f before kept)
  · rw [libraries_define ready' inner', libraries_define ready inner, alike.libraries]

theorem Alike.defineExternal (name : Token) (params : List Parameter) (definition : Instruction) :
    Alike d barred scope
      (((start.function scope name params).external start.tree.size).defined start.tree.size
        definition) scope'
      (((start'.function scope' name params).external start'.tree.size).defined start'.tree.size
        definition) := by
  refine alike.grown ready ready' (frame_external ready.ordered ready.inside _).growth
    (frame_external ready'.ordered ready'.inside _).growth (fun x => ?_) (fun x => ?_)
    (fun f called kept => ?_) ?_
  · rw [listed_external ready, listed_external ready']
    exact alike.listed x
  · rw [lent_external ready, lent_external ready']
    exact alike.lent x
  · exact (calls_external ready' _).2
      (((calls_external ready _).1 called).imp_left fun before => alike.calls f before kept)
  · rw [libraries_defineExternal ready', libraries_defineExternal ready, alike.libraries]

theorem Alike.afterLoop (inner : Frame start.tree.size (start.loop scope) after)
    (inner' : Frame start'.tree.size (start'.loop scope') after') :
    Alike d barred scope (after.withTree (after.tree.discardChild scope start.tree.size)) scope'
      (after'.withTree (after'.tree.discardChild scope' start'.tree.size)) := by
  refine alike.grown ready ready' (frame_loop ready.ordered ready.inside inner).growth
    (frame_loop ready'.ordered ready'.inside inner').growth (fun x => ?_) (fun x => ?_)
    (fun f called kept => ?_) ?_
  · rw [listed_afterLoop ready inner, listed_afterLoop ready' inner']
    exact alike.listed x
  · rw [lent_afterLoop ready inner, lent_afterLoop ready' inner']
    exact alike.lent x
  · exact (calls_afterLoop ready' inner').2
      (alike.calls f ((calls_afterLoop ready inner).1 called) kept)
  · exact (libraries_loop ready' inner').trans
      (alike.libraries.trans (libraries_loop ready inner).symm)

theorem Alike.library {name name' : Token} {path path' file file' : String}
    (same : name'.text = name.text)
    (inner : Frame start.tree.size (start.inLibrary scope name path file) after)
    (inner' : Frame start'.tree.size (start'.inLibrary scope' name' path' file') after')
    (done : Alike d barred start.tree.size after start'.tree.size after') :
    Alike d barred scope ⟨after.tree, start.file, after.including.tail⟩ scope'
      ⟨after'.tree, start'.file, after'.including.tail⟩ := by
  refine alike.grown ready ready' (frame_library ready.inside inner).growth
    (frame_library ready'.inside inner').growth (fun x => ?_) (fun x => ?_)
      (fun f called kept => ?_) ?_
  · rw [listed_library ready inner, listed_library ready' inner']
    exact alike.listed x
  · rw [lent_library ready inner, lent_library ready' inner', handed_eq, handed_eq]
    exact (alike.lent x).or ((done.listed x).or (done.lent x))
  · exact (calls_library ready' inner').2 (done.calls f ((calls_library ready inner).1 called) kept)
  · have front : (after'.tree.get scope').libraries = (start'.tree.get scope').libraries ++
        [name'.text] :=
      libraries_library ready' inner'
    have back : (after.tree.get scope).libraries = (start.tree.get scope).libraries ++
        [name.text] :=
      libraries_library ready inner
    show (after'.tree.get scope').libraries = (after.tree.get scope).libraries
    rw [front, back, alike.libraries, same]

theorem Alike.given {declared declared' : List Variable}
    (gathers : Gathers d barred scope start scope' start' declared declared') :
    Alike d barred scope (start.withTree (start.tree.addVariables scope declared)) scope'
      (start'.withTree (start'.tree.addVariables scope' declared')) := by
  refine alike.grown ready ready' (.addVariables ..) (.addVariables ..) (fun x => ?_) (fun x => ?_)
    (fun f called kept => ?_) ?_
  · show Suits d barred x ((start.tree.addVariables scope _).listed scope x)
      ((start'.tree.addVariables scope' _).listed scope' x)
    rw [listed_addVariables ready.inside, listed_addVariables ready'.inside]
    exact gathers x
  · show Suits d barred x ((start.tree.addVariables scope _).lent scope x)
      ((start'.tree.addVariables scope' _).lent scope' x)
    rw [lent_addVariables ready.ordered, lent_addVariables ready'.ordered]
    exact alike.lent x
  · exact (calls_given _).2 (alike.calls f ((calls_given _).1 called) kept)
  · exact (libraries_addVariables _ _ _ _).trans
      (alike.libraries.trans (libraries_addVariables _ _ _ _).symm)

end Turns

section Blocks

variable {d : Difference} {barred : String → Prop} {mark mark' : Nat}
    {declared declared' : List Variable}

/-- Inside a library nothing is listed or lent at first. -/
theorem Resembles.inLibrary (resembles : Resembles d barred scope start scope' start')
    (ready : Ready scope start)
    (ready' : Ready scope' start') (name name' : Token) (path path' file file' : String) :
    Alike d barred start.tree.size (start.inLibrary scope name path file) start'.tree.size
      (start'.inLibrary scope' name' path' file') := by
  refine ⟨⟨fun x => ?_, fun x known => ?_, fun x lost => ?_, fun x bar => ?_,
    fun f called kept => ?_⟩, fun x => ?_, fun x => ?_, ?_⟩
  · rw [found_inLibrary ready, found_inLibrary ready']
    exact resembles.found x
  · exact (sees_inLibrary ready' _ _ _).2 (resembles.known x known)
  · exact (sees_inLibrary ready _ _ _).2 (resembles.lost x lost)
  · exact (sees_inLibrary ready' _ _ _).2 (resembles.bars x bar)
  · exact (calls_inLibrary ready' _ _ _).2
      (resembles.calls f ((calls_inLibrary ready _ _ _).1 called) kept)
  · rw [listed_inLibrary ready, listed_inLibrary ready']
    exact .refl nofun
  · rw [lent_inLibrary ready, lent_inLibrary ready']
    exact .refl nofun
  · rw [libraries_new_library ready', libraries_new_library ready]

/-- A scope lists what it did, and then what was declared since. -/
theorem listed_since {x : String} (frame : Frame scope start after)
    (since : mark = start.tree.variableCount scope) :
    after.tree.listed scope x =
      (start.tree.listed scope x).or (flagOf (after.tree.variablesSince scope mark) x) := by
  have front : (start.tree.get scope).declared.map Variable.withoutKeys =
      ((after.tree.get scope).declared.map Variable.withoutKeys).take mark := by
    have whole := List.prefix_iff_eq_take.1 frame.growth.own.declared
    rwa [List.length_map, ← ScopeTree.variableCount, ← since] at whole
  unfold listed variablesSince
  rw [← flagOf_withoutKeys, ← flagOf_withoutKeys (start.tree.get scope).declared, front,
    ← flagOf_withoutKeys (List.drop _ _), List.map_drop, ← flagOf_append, List.take_append_drop]

theorem Alike.gathers_nothing (alike : Alike d barred scope start scope' start') :
    Gathers d barred scope start scope' start' [] [] := by
  intro x
  have nothing : flagOf [] x = none := rfl
  rw [nothing, Option.or_none, Option.or_none]
  exact alike.listed x

theorem Alike.settled (alike : Alike d barred scope start scope' start') :
    Alike d barred scope start scope' start' ∧ Gathers d barred scope start scope' start' [] [] :=
  ⟨alike, alike.gathers_nothing⟩

/-- After a block the scopes are alike again, and they gather alike. -/
theorem Alike.branch {job job' : Job} (alike : Alike d barred scope start scope' start')
    (done : Alike d barred scope after scope' after') (frame : Frame scope start after)
    (frame' : Frame scope' start' after') (since : mark = start.tree.variableCount scope)
    (since' : mark' = start'.tree.variableCount scope')
    (compiles : Compiles setting depth scope job start
      (after.withTree (after.tree.dropVariablesSince scope mark)))
    (compiles' : Compiles setting depth' scope' job' start'
      (after'.withTree (after'.tree.dropVariablesSince scope' mark')))
    (isBranch : job.isBranch) (isBranch' : job'.isBranch)
    (gathers : Gathers d barred scope start scope' start' declared declared') :
    Alike d barred scope (after.withTree (after.tree.dropVariablesSince scope mark)) scope'
        (after'.withTree (after'.tree.dropVariablesSince scope' mark')) ∧
      Gathers d barred scope (after.withTree (after.tree.dropVariablesSince scope mark)) scope'
        (after'.withTree (after'.tree.dropVariablesSince scope' mark'))
        (gather declared (after.tree.variablesSince scope mark))
        (gather declared' (after'.tree.variablesSince scope' mark')) := by
  constructor
  · refine alike.grown compiles.ready compiles'.ready compiles.frame.growth compiles'.frame.growth
      (fun x => ?_) (fun x => ?_) (fun f called kept => ?_) ?_
    · rw [listed_branch compiles isBranch, listed_branch compiles' isBranch']
      exact alike.listed x
    · exact (lent_dropVariablesSince frame.ordered mark).symm ▸
        (lent_dropVariablesSince frame'.ordered mark').symm ▸ done.lent x
    · exact (calls_branch _).2 (done.calls f ((calls_branch _).1 called) kept)
    · exact (libraries_dropVariablesSince _ _ _ _).trans
        (done.libraries.trans (libraries_dropVariablesSince _ _ _ _).symm)
  · intro x
    have share : ∀ own more new : Option Bool, own.or (more.or new) =
        (own.or more).or (own.or new) := by
      intro own more new
      cases own <;> rfl
    rw [listed_branch compiles isBranch, listed_branch compiles' isBranch', flagOf_gather,
      flagOf_gather,
      share (start.tree.listed scope x), share (start'.tree.listed scope' x),
        ← listed_since frame since, ← listed_since frame' since']
    exact (gathers x).or (done.listed x)

end Blocks

end Compile

end Treecode
