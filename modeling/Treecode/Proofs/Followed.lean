import Treecode.Proofs.Cursor
import Treecode.Proofs.StatementExtension

set_option autoImplicit false

namespace Treecode.Cursor

open Reader

/-- The tokens of a cursor: those up to the first mark of the end, that mark, and those behind
it. -/
structure Script where
  front : List Token
  stop : Token
  after : List Token
  unended : ∀ token ∈ front, token.kind ≠ .eof
  ended : stop.kind = .eof

namespace Script

variable (s : Script)

def tokens : List Token := s.front ++ s.stop :: s.after

/-- The tokens that a reader has where the cursor is at a position. -/
def rest (position : Nat) : List Token := s.front.drop position

/-- The token under the cursor at a position up to the first mark of the end. -/
def ahead (position : Nat) : Token := (s.rest position).head?.getD s.stop

variable {s} {position : Nat}

theorem length_rest : (s.rest position).length = s.front.length - position := List.length_drop

theorem rest_of_lt (within : position < s.front.length) :
    ∃ token, s.rest position = token :: s.rest (position + 1) ∧ token.kind ≠ .eof :=
  ⟨s.front[position], List.drop_eq_getElem_cons within, s.unended _ (List.getElem_mem within)⟩

theorem lt_of_rest {token : Token} {left : List Token} (next : s.rest position = token :: left) :
    position < s.front.length := by
  have lengths := congrArg List.length next
  rw [length_rest, List.length_cons] at lengths
  omega

/-- What is behind the token under the cursor. -/
theorem rest_succ {token : Token} {left : List Token} (next : s.rest position = token :: left) :
    left = s.rest (position + 1) ∧ token.kind ≠ .eof := by
  obtain ⟨token', next', kind⟩ := rest_of_lt (lt_of_rest next)
  rw [next'] at next
  cases next
  exact ⟨rfl, kind⟩

theorem getElem?_tokens (within : position ≤ s.front.length) :
    s.tokens[position]? = some (s.ahead position) := by
  unfold tokens ahead rest
  rw [List.head?_drop]
  by_cases inside : position < s.front.length
  · rw [List.getElem?_append_left inside, List.getElem?_eq_getElem inside]
    rfl
  · have last : position = s.front.length := by omega
    subst last
    rw [List.getElem?_append_right (Nat.le_refl _), Nat.sub_self,
      List.getElem?_eq_none (Nat.le_refl _)]
    rfl

theorem length_tokens : s.front.length < s.tokens.length := by
  unfold tokens
  rw [List.length_append, List.length_cons]
  omega

end Script

variable {s : Script} {α β γ : Type} {bound position : Nat}

theorem runFrom_bind (walk : Walk α) (next : α → Walk β) (tokens : List Token) (position : Nat) :
    (walk >>= next).runFrom tokens position =
      match walk.runFrom tokens position with
      | none => none
      | some (.error stop) => some (.error stop)
      | some (.ok (a, position')) => (next a).runFrom tokens position' := by
  show (walk.runFrom tokens position).bind _ = _
  cases walk.runFrom tokens position with
  | none => rfl
  | some result =>
    cases result with
    | error stop => rfl
    | ok result => rfl

theorem runFrom_pure (a : α) (tokens : List Token) (position : Nat) :
    (pure a : Walk α).runFrom tokens position = some (.ok (a, position)) := rfl

theorem runFrom_current (within : position ≤ s.front.length) :
    current.runFrom s.tokens position = some (.ok (s.ahead position, position)) := by
  have reads : (read : Walk (List Token)).runFrom s.tokens position =
    some (.ok (s.tokens, position)) := rfl
  have gets : (get : Walk Nat).runFrom s.tokens position = some (.ok (position, position)) := rfl
  unfold current
  rw [runFrom_bind, reads]
  dsimp only
  rw [runFrom_bind, gets]
  dsimp only
  rw [Script.getElem?_tokens within]
  rfl

theorem runFrom_misfit (within : position ≤ s.front.length) (expected : Expectation) :
    (misfit expected : Walk α).runFrom s.tokens position =
      some (.error (.misfit (s.ahead position) (s.ahead position).kind expected)) := by
  unfold misfit
  rw [runFrom_bind, runFrom_current within]
  rfl

theorem runFrom_advance {token : Token} {left : List Token}
    (next : s.rest position = token :: left) :
    advance.runFrom s.tokens position = some (.ok (token, position + 1)) := by
  have within := Script.lt_of_rest next
  have further : position + 1 < s.tokens.length := by
    have longer := Script.length_tokens (s := s)
    omega
  have ahead : s.ahead position = token := by
    unfold Script.ahead
    rw [next]
    rfl
  have spelled : ∀ token : Token, (do
      if (← get) + 1 < (← read).length then modify (· + 1)
      return token : Walk Token).runFrom s.tokens position = some (.ok (token, position + 1)) := by
    intro token
    have moves : (do
        if (← get) + 1 < (← read).length then modify (· + 1)
        return token : Walk Token).runFrom s.tokens position =
          (do if position + 1 < s.tokens.length then modify (· + 1)
              return token : Walk Token).runFrom s.tokens position := rfl
    rw [moves, if_pos further]
    rfl
  unfold advance
  rw [runFrom_bind, runFrom_current (Nat.le_of_lt within)]
  dsimp only
  rw [spelled, ahead]

/-- The outcome of a cursor is the result of a reader that had the tokens from the position on. -/
def Script.Agree (s : Script) (position : Nat) (outcome : Option (Except Stop (α × Nat)))
    (result : Except Unexpected (α × List Token)) : Prop :=
  match result with
  | .ok (a, left) => ∃ next, position ≤ next ∧ next ≤ s.front.length ∧ left = s.rest next ∧
      outcome = some (.ok (a, next))
  | .error unexpected =>
    outcome =
      some (.error (.misfit (unexpected.token.getD s.stop) unexpected.found unexpected.expected))

/-- Wherever fewer tokens than a bound are left, the outcome of the cursor is the result of the
reader. -/
def Follows (s : Script) (bound : Nat) (walk : Walk α) (reader : Reader α) : Prop :=
  ∀ position ≤ s.front.length, (s.rest position).length < bound →
    s.Agree position (walk.runFrom s.tokens position) (reader (s.rest position))

theorem Follows.mono {walk : Walk α} {reader : Reader α} {smaller : Nat}
    (follows : Follows s bound walk reader)
    (le : smaller ≤ bound) : Follows s smaller walk reader :=
  fun position within short => follows position within (Nat.lt_of_lt_of_le short le)

theorem Script.Agree.earlier {later : Nat} {outcome : Option (Except Stop (α × Nat))}
    {result : Except Unexpected (α × List Token)} (agree : s.Agree later outcome result)
    (forward : position ≤ later) : s.Agree position outcome result := by
  cases result with
  | error unexpected => exact agree
  | ok result =>
    obtain ⟨next, forward', rest⟩ := agree
    exact ⟨next, Nat.le_trans forward forward', rest⟩

theorem Script.Agree.bind {walk : Walk α} {reader : Reader α} {next : α → Walk β}
    {next' : α → Reader β}
    (first : s.Agree position (walk.runFrom s.tokens position) (reader (s.rest position)))
    (last : ∀ a position', reader (s.rest position) = .ok (a, s.rest position') →
      position ≤ position' → position' ≤ s.front.length →
      s.Agree position' ((next a).runFrom s.tokens position') (next' a (s.rest position'))) :
    s.Agree position ((walk >>= next).runFrom s.tokens position)
      ((reader >>= next') (s.rest position)) := by
  rw [runFrom_bind, bind_apply]
  cases read : reader (s.rest position) with
  | error unexpected =>
    rw [read] at first
    rw [show walk.runFrom s.tokens position = _ from first]
    rfl
  | ok result =>
    obtain ⟨a, left⟩ := result
    rw [read] at first
    obtain ⟨middle, forward, within, rfl, outcome⟩ := first
    rw [outcome]
    exact (last a middle read forward within).earlier forward

theorem Follows.bind {walk : Walk α} {reader : Reader α} {next : α → Walk β} {next' : α → Reader β}
    (first : Follows s bound walk reader) (last : ∀ a, Follows s bound (next a) (next' a)) :
    Follows s bound (walk >>= next) (reader >>= next') := by
  intro position within short
  apply (first position within short).bind
  intro a position' _ forward within'
  apply last a position' within'
  rw [Script.length_rest] at short ⊢
  omega

theorem Follows.pure (a : α) : Follows s bound (pure a) (pure a) :=
  fun position within _ => ⟨position, Nat.le_refl _, within, rfl, rfl⟩

theorem Follows.of_eq {walk : Walk α} {reader reader' : Reader α}
    (follows : Follows s bound walk reader)
    (same : ∀ tokens, reader tokens = reader' tokens) : Follows s bound walk reader' :=
  fun position within short => same (s.rest position) ▸ follows position within short

theorem Follows.map {walk : Walk α} {reader : Reader α} (f : α → β)
    (follows : Follows s bound walk reader) :
    Follows s bound (do let a ← walk; return f a) (do let a ← reader; return f a) :=
  follows.bind fun a => .pure (f a)

theorem Follows.ite {condition : Prop} [Decidable condition] {first second : Walk α}
    {first' second' : Reader α}
    (yes : Follows s bound first first') (no : Follows s bound second second') :
    Follows s bound (if condition then first else second)
      (if condition then first' else second') := by
  split
  · exact yes
  · exact no

theorem Follows.misfit (expected : Expectation) :
    Follows s bound (misfit expected : Walk α) (fail expected) := by
  intro position within _
  rw [runFrom_misfit within]
  unfold Script.ahead
  cases s.rest position with
  | nil =>
    show some (Except.error (Stop.misfit s.stop s.stop.kind expected)) = _
    rw [s.ended]
    rfl
  | cons token left => rfl

/-- A token of before does not fit, or the mark of the end. -/
theorem Follows.misfitAhead (token : Option Token) (found : Kind) (expected : Expectation) :
    Follows s bound (Cursor.misfitAt (token.getD s.stop) found expected : Walk α)
      (failAt token found expected) :=
  fun _ _ _ => rfl

theorem Follows.misfitAt (token : Token) (found : Kind) (expected : Expectation) :
    Follows s bound (Cursor.misfitAt token found expected : Walk α)
      (failAt (some token) found expected) :=
  .misfitAhead (some token) found expected

/-- The token under the cursor against the next token of the reader, which has none at the end. -/
theorem Follows.current {next : Token → Walk β} {next' : Option Token → Reader β}
    (last : ∀ token, Follows s bound (next (token.getD s.stop)) (next' token)) :
    Follows s bound (current >>= next) (peek >>= next') := by
  intro position within short
  rw [runFrom_bind, runFrom_current within]
  exact last _ position within short

theorem Script.kind_ahead : (s.ahead position).kind = nextKind (s.rest position) := by
  unfold Script.ahead
  cases s.rest position with
  | nil => exact s.ended
  | cons token left => rfl

theorem runFrom_check (within : position ≤ s.front.length) (kind : Kind) :
    (check kind).runFrom s.tokens position =
    some (.ok (decide ((s.ahead position).kind = kind), position)) := by
  unfold check
  rw [runFrom_bind, runFrom_current within]
  rfl

/-- A choice by the kind of the token under the cursor. -/
theorem Script.Agree.check {kind : Kind} {next : Bool → Walk β} {yes no : Reader β}
    (within : position ≤ s.front.length) (fits : nextKind (s.rest position) = kind →
      s.Agree position ((next true).runFrom s.tokens position) (yes (s.rest position)))
    (other : nextKind (s.rest position) ≠ kind →
      s.Agree position ((next false).runFrom s.tokens position) (no (s.rest position))) :
    s.Agree position ((Cursor.check kind >>= next).runFrom s.tokens position)
      ((Reader.peekKind >>= fun found => if found = kind then yes else no) (s.rest position)) := by
  rw [runFrom_bind, runFrom_check within, Script.kind_ahead]
  show s.Agree position _ ((if nextKind (s.rest position) = kind then yes else no : Reader β)
    (s.rest position))
  by_cases same : nextKind (s.rest position) = kind
  · rw [if_pos same, decide_eq_true same]
    exact fits same
  · rw [if_neg same, decide_eq_false same]
    exact other same

theorem Follows.check {kind : Kind} {next : Bool → Walk β} {yes no : Reader β}
    (fits : Follows s bound (next true) yes) (other : Follows s bound (next false) no) :
    Follows s bound (Cursor.check kind >>= next)
      (Reader.peekKind >>= fun found => if found = kind then yes else no) :=
  fun position within short => Script.Agree.check within (fun _ => fits position within short)
    fun _ => other position within short

/-- A token is taken, and the cursor moves on. -/
theorem Script.Agree.advance {token : Token} {left : List Token} {next : Token → Walk β}
    {next' : Reader β} (here : s.rest position = token :: left)
    (last : s.Agree (position + 1) ((next token).runFrom s.tokens (position + 1)) (next' left)) :
    s.Agree position ((advance >>= next).runFrom s.tokens position) (next' left) := by
  rw [runFrom_bind, runFrom_advance here]
  exact last.earlier (Nat.le_succ position)

theorem Script.Agree.expect {kind : Kind} {expected : Expectation} {token : Token}
    {left : List Token}
    {next : Token → Walk β} {next' : Token → Reader β} (here : s.rest position = token :: left)
    (fits : token.kind = kind)
    (last : s.Agree (position + 1) ((next token).runFrom s.tokens (position + 1))
      (next' token left)) :
    s.Agree position ((Cursor.advance >>= next).runFrom s.tokens position)
      ((Reader.expect kind expected >>= next') (s.rest position)) := by
  have taken : Reader.expect kind expected (token :: left) = .ok (token, left) := if_pos fits
  rw [here, bind_apply, taken]
  exact Script.Agree.advance here last

theorem Script.ahead_eq {token : Token} {left : List Token}
    (here : s.rest position = token :: left) : s.ahead position = token := by
  unfold Script.ahead
  rw [here]
  rfl

theorem Follows.takeAny {kinds : List Kind} (marks : .eof ∉ kinds) :
    Follows s bound (takeAny kinds) (Reader.takeAny kinds) := by
  intro position within _
  unfold Cursor.takeAny
  rw [runFrom_bind, runFrom_current within]
  dsimp only
  cases here : s.rest position with
  | nil =>
    have atEnd : (s.ahead position).kind = .eof := by
      rw [Script.kind_ahead, here]
      rfl
    rw [atEnd, if_neg marks]
    exact ⟨position, Nat.le_refl _, within, here.symm, rfl⟩
  | cons token left =>
    rw [Script.ahead_eq here]
    by_cases fits : token.kind ∈ kinds
    · rw [if_pos fits, show Reader.takeAny kinds (token :: left) = _ from if_pos fits, runFrom_bind,
        runFrom_advance here]
      have inside := Script.lt_of_rest here
      exact ⟨position + 1, by omega, by omega, (Script.rest_succ here).1, rfl⟩
    · rw [if_neg fits, show Reader.takeAny kinds (token :: left) = _ from if_neg fits]
      exact ⟨position, Nat.le_refl _, within, here.symm, rfl⟩

theorem cons_of_takeAny {kinds : List Kind} {tokens left : List Token} {token : Token}
    (read : Reader.takeAny kinds tokens = .ok (some token, left)) :
    tokens = token :: left ∧ token.kind ∈ kinds := by
  cases tokens with
  | nil => cases read
  | cons first rest =>
    by_cases fits : first.kind ∈ kinds
    · rw [show Reader.takeAny kinds (first :: rest) = _ from if_pos fits] at read
      cases read
      exact ⟨rfl, fits⟩
    · rw [show Reader.takeAny kinds (first :: rest) = _ from if_neg fits] at read
      cases read

/-- A choice by the next token, where a token is left less after it is taken. -/
theorem Follows.taking {kinds : List Kind} {next : Option Token → Walk β}
    {next' : Option Token → Reader β}
    (marks : .eof ∉ kinds) (present : ∀ token,
      Follows s bound (next (some token)) (next' (some token)))
    (absent : Follows s (bound + 1) (next none) (next' none)) :
    Follows s (bound + 1) (Cursor.takeAny kinds >>= next) (Reader.takeAny kinds >>= next') := by
  intro position within short
  apply (Follows.takeAny marks position within short).bind
  intro taken position' read forward within'
  cases taken with
  | none =>
    apply absent position' within'
    rw [Script.length_rest] at short ⊢
    omega
  | some token =>
    obtain ⟨here, _⟩ := cons_of_takeAny read
    apply present token position' within'
    rw [here, List.length_cons] at short
    omega

theorem Follows.take {kind : Kind} (mark : kind ≠ .eof) :
    Follows s bound (take kind) (Reader.take kind) :=
  .takeAny fun member => mark (List.mem_singleton.1 member).symm

theorem Follows.eat {kind : Kind} (mark : kind ≠ .eof) :
    Follows s bound (eat kind) (Reader.eat kind) :=
  (Follows.take mark).map _

theorem Follows.expect {kind : Kind} (mark : kind ≠ .eof) (expected : Expectation) :
    Follows s bound (expect kind expected) (Reader.expect kind expected) := by
  intro position within short
  unfold Cursor.expect
  rw [runFrom_bind, runFrom_check within]
  dsimp only
  have unfit := (Follows.misfit expected : Follows s bound (Cursor.misfit expected : Walk Token) _)
    position within short
  cases here : s.rest position with
  | nil =>
    have other : (s.ahead position).kind ≠ kind := by
      rw [Script.kind_ahead, here]
      exact mark.symm
    rw [here] at unfit
    rw [decide_eq_false other]
    exact unfit
  | cons token left =>
    rw [Script.ahead_eq here]
    by_cases fits : token.kind = kind
    · rw [decide_eq_true fits, show Reader.expect kind expected (token :: left) =
        _ from if_pos fits]
      have inside := Script.lt_of_rest here
      exact ⟨position + 1, by omega, by omega, (Script.rest_succ here).1, runFrom_advance here⟩
    · rw [here] at unfit
      rw [decide_eq_false fits, show Reader.expect kind expected (token :: left) =
        _ from if_neg fits]
      exact unfit

/-- A token that has to stand here, after which a token is left less. -/
theorem Follows.expecting {kind : Kind} {expected : Expectation} {next : Token → Walk β}
    {next' : Token → Reader β}
    (mark : kind ≠ .eof) (last : ∀ token, Follows s bound (next token) (next' token)) :
    Follows s (bound + 1) (Cursor.expect kind expected >>= next)
      (Reader.expect kind expected >>= next') := by
  intro position within short
  apply (Follows.expect mark expected position within short).bind
  intro token position' read _ within'
  apply last token position' within'
  cases here : s.rest position with
  | nil =>
    rw [here] at read
    cases read
  | cons first left =>
    rw [here] at read
    by_cases fits : first.kind = kind
    · cases read.symm.trans (if_pos fits)
      rw [here, List.length_cons] at short
      omega
    · cases read.symm.trans (if_neg fits)

theorem Follows.expectMark {kind : Kind} (mark : kind ≠ .eof) (spelling : String) :
    Follows s bound (expectMark kind spelling) (Reader.expectMark kind spelling) := .expect mark _

/-- A grammar that refers to itself on what is left after a token. -/
theorem Follows.shorterThan {walk : Walk α} {reader : Reader α} {tokens : List Token}
    {expected : Expectation}
    (follows : Follows s bound walk reader) (within : tokens.length ≤ bound) :
    Follows s tokens.length walk
      (Reader.shorterThan tokens (fun rest _ => reader rest) expected) := by
  intro position within' short
  rw [shorterThan_of_lt short]
  exact follows position within' (Nat.lt_of_lt_of_le short within)

/-- A grammar that refers to itself takes a token where it does so. -/
theorem length_of_shorterThan {reader : Reader α} {tokens between rest : List Token}
    {expected : Expectation} {a : α}
    (takes : ∀ tokens a rest, reader tokens = .ok (a, rest) → rest.length < tokens.length)
    (success : Reader.shorterThan tokens (fun rest _ => reader rest) expected between =
      .ok (a, rest)) :
    rest.length < between.length := by
  by_cases shorter : between.length < tokens.length
  · rw [shorterThan_of_lt shorter] at success
    exact takes between a rest success
  · unfold Reader.shorterThan at success
    rw [dif_neg shorter] at success
    cases between <;> cases success

/-- Turns of a loop that follow the step of a repetition, and take a token where they yield
something. -/
def Turns (s : Script) (bound : Nat) (turn : Walk (Option α)) (step : Reader (Option α)) : Prop :=
  Follows s bound turn step ∧ ∀ position, (s.rest position).length < bound → ∀ a left,
    step (s.rest position) = .ok (some a, left) → left.length < (s.rest position).length

/-- A result that is put to another use. -/
theorem Follows.then {walk : Walk β} {reader : Reader α} {f : α → β} {next : β → Walk γ}
    {next' : α → Reader γ} (first : Follows s bound walk (reader >>= fun a => Pure.pure (f a)))
    (last : ∀ a, Follows s bound (next (f a)) (next' a)) :
    Follows s bound (walk >>= next) (reader >>= next') := by
  intro position within short
  have agree := first position within short
  rw [runFrom_bind]
  cases read : reader (s.rest position) with
  | error unexpected =>
    rw [bind_of_error read] at agree
    rw [bind_of_error read, show walk.runFrom s.tokens position = _ from agree]
    rfl
  | ok result =>
    obtain ⟨a, left⟩ := result
    rw [bind_of_ok read] at agree
    obtain ⟨next, forward, within', rfl, outcome⟩ := agree
    rw [bind_of_ok read, outcome]
    have fewer : (s.rest next).length ≤ (s.rest position).length := by
      rw [Script.length_rest, Script.length_rest]
      omega
    exact (last a next within' (Nat.lt_of_le_of_lt fewer short)).earlier forward

/-- A result that is put to no other use. -/
theorem Follows.of_map {walk : Walk α} {reader : Reader α} {f : α → α} (same : ∀ a, f a = a)
    (follows : Follows s bound walk (reader >>= fun a => Pure.pure (f a))) :
    Follows s bound walk reader := by
  refine follows.of_eq fun tokens => ?_
  rw [bind_apply]
  cases reader tokens with
  | error unexpected => rfl
  | ok result =>
    show Except.ok (f result.1, result.2) = _
    rw [same]

theorem foldl_concat (items acc : List α) :
    items.foldl (fun acc a => acc ++ [a]) acc = acc ++ items := by
  induction items generalizing acc with
  | nil => exact (List.append_nil acc).symm
  | cons a items ih =>
    rw [List.foldl_cons, ih, List.append_assoc]
    rfl

theorem Follows.loop {turn : Walk (Option α)} {step : Reader (Option α)} {loop finish : β → Walk γ}
    {finish' : β → Reader γ} {add : β → α → β}
    (unfolds : ∀ acc, loop acc = turn >>= fun item => item.elim (finish acc) fun a =>
      loop (add acc a))
    (turns : Turns s bound turn step)
    (last : ∀ acc earlier position, position ≤ s.front.length → (s.rest position).length < bound →
      step (s.rest earlier) = .ok (none, s.rest position) →
      s.Agree position ((finish acc).runFrom s.tokens position) (finish' acc (s.rest position)))
        (acc : β) :
    Follows s bound (loop acc) (many step >>= fun items => finish' (items.foldl add acc)) := by
  intro position within short
  induction count : (s.rest position).length using Nat.strongRecOn generalizing position acc with
  | ind count ih =>
    have agree := turns.1 position within short
    rw [unfolds]
    cases read : step (s.rest position) with
    | error unexpected =>
      have stops : many step (s.rest position) = .error unexpected := by rw [many, read]
      rw [read] at agree
      rw [bind_of_error stops, runFrom_bind, show turn.runFrom s.tokens position = _ from agree]
      rfl
    | ok result =>
      obtain ⟨item, left⟩ := result
      rw [read] at agree
      obtain ⟨next, forward, within', rfl, outcome⟩ := agree
      have fewer : (s.rest next).length ≤ (s.rest position).length := by
        rw [Script.length_rest, Script.length_rest]
        omega
      rw [runFrom_bind, outcome]
      cases item with
      | none =>
        rw [bind_of_ok (many_of_none read)]
        exact (last acc position next within' (by omega) read).earlier forward
      | some a =>
        have shorter := turns.2 position short a _ read
        rw [bind_many_of_some read shorter]
        have final := ih (s.rest next).length (count ▸ shorter) (add acc a) next within'
          (by omega) rfl
        exact final.earlier forward

theorem Turns.takeAny {kinds : List Kind} {next : Token → Walk (Option α)}
    {next' : Token → Reader (Option α)}
    (marks : .eof ∉ kinds) (last : ∀ token, Follows s bound (next token) (next' token)) :
    Turns s bound
      (takeAny kinds >>= fun taken =>
        match taken with
        | some token => next token
        | none => Pure.pure none)
      (Reader.takeAny kinds >>= fun taken =>
        match taken with
        | some token => next' token
        | none => Pure.pure none) := by
  constructor
  · apply (Follows.takeAny marks).bind
    intro taken
    cases taken with
    | some token => exact last token
    | none => exact .pure none
  · intro position short a left read
    obtain ⟨taken, between, first, read⟩ := bind_ok read
    cases taken with
    | none => cases read
    | some token =>
      obtain ⟨here, _⟩ := cons_of_takeAny first
      obtain ⟨same, _⟩ := Script.rest_succ here
      have within := Script.lt_of_rest here
      have lengths : between.length < bound := by
        rw [here, List.length_cons] at short
        omega
      have agree := last token (position + 1) within (same ▸ lengths)
      rw [← same, show next' token between = _ from read] at agree
      obtain ⟨final, forward, _, rfl, _⟩ := agree
      rw [Script.length_rest, Script.length_rest]
      omega

theorem eat_bind (kind : Kind) (next : Bool → Walk β) :
    eat kind >>= next = take kind >>= fun taken => next taken.isSome := by
  unfold eat
  rw [bind_assoc]
  rfl

theorem reader_eat_bind (kind : Kind) (next : Bool → Reader β) :
    Reader.eat kind >>= next = Reader.take kind >>= fun taken => next taken.isSome := by
  funext tokens
  unfold Reader.eat
  rw [bind_apply, bind_apply, bind_apply]
  cases Reader.take kind tokens <;> rfl

theorem Turns.eat {kind : Kind} {next : Walk (Option α)} {next' : Reader (Option α)}
    (mark : kind ≠ .eof) (last : Follows s bound next next') :
    Turns s bound (eat kind >>= fun more => if more then next else Pure.pure none)
      (Reader.eat kind >>= fun more => if more then next' else Pure.pure none) := by
  have turns := Turns.takeAny (fun member => mark (List.mem_singleton.1 member).symm) fun _ => last
  rw [eat_bind, reader_eat_bind]
  have walk : ∀ taken : Option Token, (if taken.isSome then next else Pure.pure none) =
      match taken with
      | some _ => next
      | none => Pure.pure none := by
    intro taken
    cases taken <;> rfl
  have reader : ∀ taken : Option Token, (if taken.isSome then next' else Pure.pure none) =
      match taken with
      | some _ => next'
      | none => Pure.pure none := by
    intro taken
    cases taken <;> rfl
  simp only [walk, reader]
  exact turns

def nextItem (item : Walk α) : Walk (Option α) := do
  if ← eat .comma then return some (← item) else return none

def readNextItem (item : Reader α) : Reader (Option α) := do
  if ← Reader.eat .comma then return some (← item) else return none

theorem separated_eq (item : Reader α) : Reader.separated item = do
    let first ← item
    let others ← many (readNextItem item)
    return first :: others := rfl

def afterItem (loop : β → Walk β) (acc : β) : Walk β := do
  if ← eat .comma then loop acc else return acc

/-- Items with commas between them, in a loop that looks for a comma after each of them. -/
theorem Follows.separated {item : Walk α} {item' : Reader α} {loop : β → Walk β} {add : β → α → β}
    (unfolds : ∀ acc, loop acc = item >>= fun a => afterItem loop (add acc a))
    (follows : Follows s bound item item') (acc : β) :
    Follows s bound (loop acc) (Reader.separated item' >>= fun items =>
      Pure.pure (items.foldl add acc)) := by
  have turns : Turns s bound (nextItem item) (readNextItem item') :=
    Turns.eat (by decide) (follows.map some)
  have steps : ∀ acc, afterItem loop acc = nextItem item >>= fun item =>
      item.elim (Pure.pure acc) fun a => afterItem loop (add acc a) := by
    intro acc
    unfold nextItem
    rw [afterItem, bind_assoc]
    congr
    funext more
    cases more with
    | false => rfl
    | true =>
      show loop acc = _
      rw [unfolds, if_pos rfl, bind_assoc]
      rfl
  have done : ∀ acc earlier position, position ≤ s.front.length → (s.rest position).length < bound →
      readNextItem item' (s.rest earlier) = .ok (none, s.rest position) →
      s.Agree position ((Pure.pure acc : Walk β).runFrom s.tokens position)
        ((Pure.pure acc : Reader β) (s.rest position)) :=
    fun acc _ position within short _ => Follows.pure acc position within short
  have all := follows.bind fun a => Follows.loop steps turns done (add acc a)
  intro position within short
  have agree := all position within short
  rw [unfolds, separated_eq]
  cases read : item' (s.rest position) with
  | error unexpected =>
    rw [bind_of_error (bind_of_error read)]
    rw [bind_of_error read] at agree
    exact agree
  | ok result =>
    obtain ⟨first, left⟩ := result
    rw [bind_of_ok read] at agree
    cases repeated : many (readNextItem item') left with
    | error unexpected =>
      have whole : (item' >>= fun first => many (readNextItem item') >>= fun others =>
          Pure.pure (first :: others)) (s.rest position) = .error unexpected := by
        rw [bind_of_ok read, bind_of_error repeated]
      rw [bind_of_error repeated] at agree
      rw [bind_of_error whole]
      exact agree
    | ok result =>
      obtain ⟨others, left'⟩ := result
      have whole : (item' >>= fun first => many (readNextItem item') >>= fun others =>
          Pure.pure (first :: others)) (s.rest position) = .ok (first :: others, left') := by
        rw [bind_of_ok read, bind_of_ok repeated]
        rfl
      rw [bind_of_ok repeated] at agree
      rw [bind_of_ok whole]
      exact agree

theorem Follows.collect {turn : Walk (Option α)} {step : Reader (Option α)}
    {loop : List α → Walk (List α)}
    (unfolds : ∀ acc, loop acc = turn >>= fun item => item.elim (Pure.pure acc) fun a =>
      loop (acc ++ [a]))
    (turns : Turns s bound turn step) : Follows s bound (loop []) (many step) :=
  Follows.of_map (fun items => foldl_concat items []) (Follows.loop unfolds turns
    (fun acc _ position within short _ => Follows.pure acc position within short) [])

/-- Items with commas between them, up to a closing mark. -/
theorem Follows.upTo {close : Kind} {item : Walk α} {item' : Reader α} {loop : β → Walk β}
    {add : β → α → β} (unfolds : ∀ acc, loop acc = item >>= fun a => afterItem loop (add acc a))
    (follows : Follows s bound item item') (acc : β) :
    Follows s bound (do if ← Cursor.check close then return acc else loop acc)
      (listUpTo close item' >>= fun items => Pure.pure (items.foldl add acc)) := by
  refine (Follows.check (.pure acc) (Follows.separated unfolds follows acc)).of_eq fun tokens => ?_
  have next : ∀ {δ : Type} (k : Kind → Reader δ), (Reader.peekKind >>= k) tokens =
      k (nextKind tokens) tokens := fun _ => rfl
  have list : listUpTo close item' tokens =
      (if nextKind tokens = close then Pure.pure [] else Reader.separated item' :
        Reader (List α)) tokens := rfl
  rw [next]
  by_cases here : nextKind tokens = close
  · rw [if_pos here] at list ⊢
    rw [bind_of_ok (show listUpTo close item' tokens = .ok ([], tokens) from list)]
    rfl
  · rw [if_neg here] at list ⊢
    rw [bind_apply, bind_apply, list]

/-- A loop that collects items with commas between them. -/
theorem Follows.collectItems {item : Walk α} {item' : Reader α} {loop : List α → Walk (List α)}
    (unfolds : ∀ acc, loop acc = item >>= fun a => afterItem loop (acc ++ [a]))
    (follows : Follows s bound item item') : Follows s bound (loop []) (Reader.separated item') :=
  Follows.of_map (fun items => foldl_concat items []) (Follows.separated unfolds follows [])

/-- A loop that collects items with commas between them, up to a closing mark. -/
theorem Follows.collectUpTo {close : Kind} {item : Walk α} {item' : Reader α}
    {loop : List α → Walk (List α)}
    (unfolds : ∀ acc, loop acc = item >>= fun a => afterItem loop (acc ++ [a]))
    (follows : Follows s bound item item') :
    Follows s bound (do if ← Cursor.check close then return [] else loop [])
      (listUpTo close item') :=
  Follows.of_map (fun items => foldl_concat items []) (Follows.upTo unfolds follows [])

end Treecode.Cursor
