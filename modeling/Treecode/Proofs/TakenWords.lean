import Mathlib.Data.List.Forall2
import Treecode.Proofs.Printed
import Treecode.Reader

set_option autoImplicit false

namespace Treecode

open Word

/-- The kind of the first of several words, or the end. -/
def Word.headKind (words : List Word) : Kind := (words.head?.map (·.1)).getD .eof

namespace Reader

variable {α β γ : Type} {bound : Nat}

/-- On lists of tokens shorter than a bound a reader takes given words in front of others, as long
as what follows is of a kind that may follow, and it yields what has a property. -/
def Takes (bound : Nat) (reader : Reader α) (words : List Word) (follows : Kind → Prop)
    (property : α → Prop) : Prop :=
  ∀ tokens more, tokens.length < bound → tokens.map Token.word = words ++ more →
    follows (headKind more) → ∃ a rest, reader tokens = .ok (a, rest) ∧ rest.map Token.word = more ∧
      property a

theorem length_of_words {tokens rest : List Token} {words more : List Word}
    (same : tokens.map Token.word = words ++ more) (left : rest.map Token.word = more) :
    tokens.length = words.length + rest.length := by
  have whole := congrArg List.length same
  have tail := congrArg List.length left
  rw [List.length_map, List.length_append] at whole
  rw [List.length_map] at tail
  omega

theorem cons_of_words {tokens : List Token} {word : Word} {words : List Word}
    (same : tokens.map Token.word = word :: words) :
    ∃ token rest, tokens = token :: rest ∧ token.word = word ∧ rest.map Token.word = words := by
  cases tokens with
  | nil => cases same
  | cons token rest =>
    injection same with first others
    exact ⟨token, rest, rfl, first, others⟩

theorem kind_of_word {token : Token} {word : Word} (same : token.word = word) :
    token.kind = word.1 :=
  congrArg Prod.fst same

theorem text_of_word {token : Token} {word : Word} (same : token.word = word) :
    token.text = word.2 :=
  congrArg Prod.snd same

theorem headKind_of_words {tokens : List Token} {words : List Word}
    (same : tokens.map Token.word = words) :
    (tokens.head?.map (·.kind)).getD .eof = headKind words := by
  subst same
  cases tokens <;> rfl

section Combinators

variable {reader : Reader α} {words : List Word} {follows : Kind → Prop} {property : α → Prop}

theorem Takes.mono {weaker : α → Prop} {stronger : Kind → Prop}
    (takes : Takes bound reader words follows property)
    (fewer : ∀ kind, stronger kind → follows kind)
    (imp : ∀ a, property a → weaker a) : Takes bound reader words stronger weaker := by
  intro tokens more short same follow
  obtain ⟨a, rest, read, left, holds⟩ := takes tokens more short same (fewer _ follow)
  exact ⟨a, rest, read, left, imp a holds⟩

/-- Readers that agree on short lists take the same words. -/
theorem Takes.congr {other : Reader α} (takes : Takes bound reader words follows property)
    (agree : ∀ tokens, tokens.length < bound → other tokens = reader tokens) :
    Takes bound other words follows property := by
  intro tokens more short same follow
  obtain ⟨a, rest, read, left, holds⟩ := takes tokens more short same follow
  exact ⟨a, rest, (agree tokens short).trans read, left, holds⟩

theorem Takes.lower {lower : Nat} (takes : Takes bound reader words follows property)
    (less : lower ≤ bound) : Takes lower reader words follows property :=
  fun tokens more short same follow => takes tokens more (by omega) same follow

/-- What takes its words whatever follows takes them in front of some kinds. -/
theorem Takes.any (takes : Takes bound reader words (fun _ => True) property)
    (follows : Kind → Prop) : Takes bound reader words follows property :=
  takes.mono (fun _ _ => trivial) fun _ holds => holds

theorem Takes.pure {a : α} (follows : Kind → Prop) (holds : property a) :
    Takes bound (Pure.pure a) [] follows property :=
  fun tokens _ _ same _ => ⟨a, tokens, rfl, same, holds⟩

theorem Takes.bind {next : α → Reader β} {words' : List Word} {follows' : Kind → Prop}
    {property' : β → Prop} (first : Takes bound reader words follows property)
    (last : ∀ a, property a → Takes bound (next a) words' follows' property')
    (link : ∀ more, follows' (headKind more) → follows (headKind (words' ++ more))) :
    Takes bound (reader >>= next) (words ++ words') follows' property' := by
  intro tokens more short same follow
  rw [List.append_assoc] at same
  obtain ⟨a, rest, read, left, holds⟩ := first tokens _ short same (link more follow)
  have length := length_of_words same left
  obtain ⟨b, rest', read', left', holds'⟩ := last a holds rest more (by omega) left follow
  refine ⟨b, rest', ?_, left', holds'⟩
  rw [bind_apply, read]
  exact read'

/-- A reader of one word that stands whatever follows, and then another one. -/
theorem Takes.word {next : α → Reader β} {word : Word} {words' : List Word} {follows' : Kind → Prop}
    {property' : β → Prop} (first : Takes bound reader [word] (fun _ => True) property)
    (last : ∀ a, property a → Takes bound (next a) words' follows' property') :
    Takes bound (reader >>= next) (word :: words') follows' property' :=
  Takes.bind first last fun _ _ => trivial

theorem Takes.nothing {next : α → Reader β} {words' : List Word} {follows' : Kind → Prop}
    {property' : β → Prop} (first : Takes bound reader [] follows property)
    (last : ∀ a, property a → Takes bound (next a) words' follows' property')
    (link : ∀ more, follows' (headKind more) → follows (headKind (words' ++ more))) :
    Takes bound (reader >>= next) words' follows' property' :=
  Takes.bind first last link

/-- A reader whose result is put to use at the end. -/
theorem Takes.map {f : α → β} {property' : β → Prop}
    (takes : Takes bound reader words follows property)
    (holds : ∀ a, property a → property' (f a)) :
    Takes bound (do let a ← reader; return f a) words follows property' := by
  rw [← List.append_nil words]
  exact Takes.bind takes (fun a found => Takes.pure follows (holds a found)) fun _ follow => follow

/-- A reader that takes its first token whatever follows, and then goes on. -/
theorem Takes.head {word : Word} {words : List Word} {reader : Reader α} (inner : Token → Reader α)
    (opens : ∀ token rest, token.word = word → reader (token :: rest) = inner token rest)
    (takes : ∀ token, token.word = word → Takes bound (inner token) words follows property) :
    Takes (bound + 1) reader (word :: words) follows property := by
  intro tokens more short same follow
  obtain ⟨token, others, rfl, first, left⟩ := cons_of_words same
  rw [List.length_cons] at short
  obtain ⟨a, rest, read, left', holds⟩ := takes token first others more (by omega) left follow
  exact ⟨a, rest, (opens token others first).trans read, left', holds⟩

end Combinators

theorem takes_takeAny {kinds : List Kind} {word : Word} (fits : word.1 ∈ kinds) :
    Takes bound (takeAny kinds) [word] (fun _ => True) fun taken =>
      ∃ token, taken = some token ∧ token.word = word := by
  intro tokens more _ same _
  obtain ⟨token, rest, rfl, first, left⟩ := cons_of_words same
  have member : token.kind ∈ kinds := by
    rw [kind_of_word first]
    exact fits
  exact ⟨some token, rest, if_pos member, left, token, rfl, first⟩

theorem takes_takeAny_none (kinds : List Kind) :
    Takes bound (takeAny kinds) [] (· ∉ kinds) (· = none) := by
  intro tokens more _ same follow
  refine ⟨none, tokens, ?_, same, rfl⟩
  have head : (tokens.head?.map (·.kind)).getD .eof = headKind more := headKind_of_words same
  rw [← head] at follow
  cases tokens with
  | nil => rfl
  | cons token rest => exact if_neg follow

theorem takes_take {kind : Kind} {word : Word} (fits : word.1 = kind) :
    Takes bound (take kind) [word] (fun _ => True) fun taken =>
      ∃ token, taken = some token ∧ token.word = word :=
  takes_takeAny (by rw [fits]; exact List.mem_singleton_self kind)

theorem takes_take_none (kind : Kind) : Takes bound (take kind) [] (· ≠ kind) (· = none) :=
  (takes_takeAny_none [kind]).mono (fun _ different => by rwa [List.mem_singleton]) fun _ nothing =>
    nothing

theorem takes_eat {kind : Kind} {word : Word} (fits : word.1 = kind) :
    Takes bound (eat kind) [word] (fun _ => True) (· = true) := by
  have step : Takes bound (eat kind) ([word] ++ []) (fun _ => True) (· = true) := by
    apply (takes_take fits).bind _ fun _ _ => trivial
    intro taken found
    obtain ⟨token, rfl, _⟩ := found
    exact Takes.pure _ rfl
  exact step

theorem takes_eat_none (kind : Kind) : Takes bound (eat kind) [] (· ≠ kind) (· = false) := by
  have step : Takes bound (eat kind) ([] ++ []) (· ≠ kind) (· = false) := by
    apply (takes_take_none kind).bind _ fun _ different => different
    intro taken nothing
    rw [nothing]
    exact Takes.pure _ rfl
  exact step

theorem takes_expect {kind : Kind} {word : Word} (expected : Expectation) (fits : word.1 = kind) :
    Takes bound (expect kind expected) [word] (fun _ => True) (·.word = word) := by
  intro tokens more _ same _
  obtain ⟨token, rest, rfl, first, left⟩ := cons_of_words same
  have kind : token.kind = kind := (kind_of_word first).trans fits
  exact ⟨token, rest, if_pos kind, left, first⟩

theorem takes_expectMark {kind : Kind} {word : Word} (spelling : String) (fits : word.1 = kind) :
    Takes bound (expectMark kind spelling) [word] (fun _ => True) (·.word = word) :=
  takes_expect _ fits

/-- What a reader does may depend on the kind of the next token, which stays. -/
theorem Takes.peekKind {next : Kind → Reader β} {words : List Word} {follows : Kind → Prop}
    {property : β → Prop} {holds : Kind → Prop}
    (head : ∀ more, follows (headKind more) → holds (headKind (words ++ more)))
    (takes : ∀ kind, holds kind → Takes bound (next kind) words follows property) :
    Takes bound (Reader.peekKind >>= next) words follows property := by
  have peeks : Takes bound Reader.peekKind [] holds holds := by
    intro tokens more _ same follow
    refine ⟨_, tokens, rfl, same, ?_⟩
    rw [headKind_of_words same]
    exact follow
  exact Takes.nothing peeks takes head

/-- What a reader does may depend on the next token, which stays, where there is one. -/
theorem Takes.peek {next : Option Token → Reader β} {words : List Word} {follows : Kind → Prop}
    {property : β → Prop} {holds : Kind → Prop} (inside : ¬ holds .eof)
    (head : ∀ more, follows (headKind more) → holds (headKind (words ++ more)))
    (takes : ∀ token : Token,
      holds token.kind → Takes bound (next (some token)) words follows property) :
    Takes bound (Reader.peek >>= next) words follows property := by
  have found : Takes bound Reader.peek [] holds fun first =>
    ∃ token, first = some token ∧ holds token.kind := by
    intro tokens more _ same follow
    rw [List.nil_append] at same
    rw [← headKind_of_words same] at follow
    cases tokens with
    | nil => exact absurd follow inside
    | cons token rest => exact ⟨_, token :: rest, rfl, same, token, rfl, follow⟩
  refine Takes.nothing found ?_ head
  rintro first ⟨token, rfl, kind⟩
  exact takes token kind

section Repetitions

variable {list : List γ} {chunk : γ → List Word} {follows : Kind → Prop} {property : γ → α → Prop}

/-- A repetition takes the words of its items one after another, and stops where no item may
follow. -/
theorem Takes.many {step : Reader (Option α)} (property : γ → α → Prop)
    (follows stops : Kind → Prop) (each : ∀ c ∈ list, Takes bound step (chunk c) follows fun item =>
      ∃ a, item = some a ∧ property c a)
    (nonempty : ∀ c ∈ list, chunk c ≠ [])
    (next : ∀ c ∈ list, ∀ more, follows (headKind (chunk c ++ more)))
    (last : ∀ kind, stops kind → follows kind)
    (stop : Takes bound step [] stops (· = none)) :
    Takes bound (many step) (list.flatMap chunk) stops (List.Forall₂ property list) := by
  induction list with
  | nil =>
    intro tokens more short same follow
    obtain ⟨a, rest, read, left, rfl⟩ := stop tokens more short same follow
    exact ⟨[], rest, many_of_none read, left, .nil⟩
  | cons c list ih =>
    have inner := ih (fun d member => each d (List.mem_cons_of_mem _ member))
      (fun d member => nonempty d (List.mem_cons_of_mem _ member))
      (fun d member => next d (List.mem_cons_of_mem _ member))
    intro tokens more short same follow
    rw [List.flatMap_cons, List.append_assoc] at same
    have follow' : follows (headKind (list.flatMap chunk ++ more)) := by
      cases list with
      | nil => exact last _ follow
      | cons d list =>
        rw [List.flatMap_cons, List.append_assoc]
        exact next d (List.mem_cons_of_mem _ (List.mem_cons_self ..)) _
    obtain ⟨item, rest, read, left, a, rfl, holds⟩ :=
      each c (List.mem_cons_self ..) tokens _ short same follow'
    have length := length_of_words same left
    have positive := List.length_pos_of_ne_nil (nonempty c (List.mem_cons_self ..))
    obtain ⟨items, rest', read', left', holds'⟩ := inner rest more (by omega) left follow
    refine ⟨a :: items, rest', ?_, left', .cons holds holds'⟩
    rw [many_of_some read (by omega), read']

theorem withCommas_cons (first : List Word) (rest : List (List Word)) :
    withCommas (first :: rest) = first ++ rest.flatMap (comma :: ·) := by
  induction rest generalizing first with
  | nil => simp [withCommas]
  | cons second rest ih => rw [withCommas_cons_cons, ih, List.flatMap_cons, List.cons_append]

theorem Takes.separated {item : Reader α} {c : γ} {stops : Kind → Prop}
    (each : ∀ d ∈ c :: list, Takes bound item (chunk d) follows (property d))
    (between : follows .comma) (last : ∀ kind, stops kind → follows kind ∧ kind ≠ .comma) :
    Takes bound (separated item) (withCommas ((c :: list).map chunk)) stops
      (List.Forall₂ property (c :: list)) := by
  have step : ∀ d ∈ list,
      Takes bound (do if ← eat .comma then return some (← item) else return none)
        (comma :: chunk d) follows fun taken => ∃ a, taken = some a ∧ property d a := by
    intro d member
    refine Takes.bind (takes_eat rfl) ?_ fun _ _ => trivial
    intro taken yes
    subst yes
    rw [if_pos rfl, ← List.append_nil (chunk d)]
    refine Takes.bind (each d (List.mem_cons_of_mem _ member)) ?_ (fun _ follow => follow)
    intro a holds
    exact Takes.pure _ ⟨a, rfl, holds⟩
  have stop : Takes bound (do if ← eat .comma then return some (← item) else return none) [] stops
      (· = none) := by
    refine Takes.bind (takes_eat_none .comma) ?_ fun more stop => (last _ stop).2
    intro taken no
    subst no
    exact Takes.pure _ rfl
  have others := Takes.many property follows stops step (fun d _ => List.cons_ne_nil _ _)
    (fun d _ more => between) (fun kind stop => (last kind stop).1) stop
  rw [List.map_cons, withCommas_cons, List.flatMap_map]
  refine Takes.bind (each c (List.mem_cons_self ..)) ?_ ?_
  · intro first holds
    rw [← List.append_nil (list.flatMap _)]
    refine Takes.bind others ?_ (fun _ stop => stop)
    intro rest all
    exact Takes.pure _ (.cons holds all)
  · intro more stop
    cases list with
    | nil => exact (last _ stop).1
    | cons d list => exact between

/-- Items with commas between them up to a closing mark, where there may be no item. -/
theorem Takes.listUpTo {item : Reader α} {close : Kind}
    (each : ∀ c ∈ list, Takes bound item (chunk c) follows (property c))
    (heads : ∀ c ∈ list, ∃ word words, chunk c = word :: words ∧ word.1 ≠ close)
    (between : follows .comma) (last : follows close) (different : close ≠ .comma) :
    Takes bound (listUpTo close item) (withCommas (list.map chunk)) (· = close)
      (List.Forall₂ property list) := by
  intro tokens more short same follow
  cases list with
  | nil =>
    refine ⟨[], tokens, ?_, same, .nil⟩
    unfold Reader.listUpTo
    rw [bind_apply]
    show (if (tokens.head?.map (·.kind)).getD .eof = close then Pure.pure []
      else Reader.separated item : Reader (List α)) tokens = _
    have closes : (tokens.head?.map (·.kind)).getD .eof = close :=
      (headKind_of_words same).trans follow
    rw [if_pos closes]
    rfl
  | cons c list =>
    have stops : ∀ kind, kind = close → follows kind ∧ kind ≠ .comma := by
      rintro kind rfl
      exact ⟨last, different⟩
    have takes := Takes.separated each between stops
    obtain ⟨items, rest, read, left, holds⟩ := takes tokens more short same follow
    refine ⟨items, rest, ?_, left, holds⟩
    unfold Reader.listUpTo
    rw [bind_apply]
    show (if (tokens.head?.map (·.kind)).getD .eof = close then Pure.pure []
      else Reader.separated item : Reader (List α)) tokens = _
    obtain ⟨word, words, first, unclosed⟩ := heads c (List.mem_cons_self ..)
    have head : (tokens.head?.map (·.kind)).getD .eof = word.1 := by
      rw [headKind_of_words same, List.map_cons, withCommas_cons, first]
      rfl
    rw [if_neg (by rw [head]; exact unclosed)]
    exact read

end Repetitions

end Reader

end Treecode
