import Treecode.Error
import Treecode.Token

set_option autoImplicit false

namespace Treecode

/-- A token that does not fit: the token, or none at the end of the script, what it was taken for,
and what was expected. -/
structure Unexpected where
  token : Option Token
  found : Kind
  expected : Expectation
  deriving DecidableEq, Repr

/-- Reads something from the front of a list of tokens and leaves the rest. -/
def Reader (α : Type) := List Token → Except Unexpected (α × List Token)

namespace Reader

variable {α β : Type}

instance : Monad Reader where
  pure a := fun tokens => .ok (a, tokens)
  bind reader next := fun tokens =>
    match reader tokens with
    | .ok (a, rest) => next a rest
    | .error unexpected => .error unexpected

def fail (expected : Expectation) : Reader α
  | [] => .error ⟨none, .eof, expected⟩
  | token :: _ => .error ⟨some token, token.kind, expected⟩

/-- A token that was read before, or the end, does not fit. -/
def failAt (token : Option Token) (found : Kind) (expected : Expectation) : Reader α :=
  fun _ => .error ⟨token, found, expected⟩

def peek : Reader (Option Token) := fun tokens => .ok (tokens.head?, tokens)

def peekKind : Reader Kind := fun tokens => .ok ((tokens.head?.map (·.kind)).getD .eof, tokens)

/-- Takes the next token if it is of one of the given kinds. -/
def takeAny (kinds : List Kind) : Reader (Option Token)
  | [] => .ok (none, [])
  | token :: rest =>
    if token.kind ∈ kinds then .ok (some token, rest) else .ok (none, token :: rest)

/-- Takes the next token if it is of the given kind. -/
def take (kind : Kind) : Reader (Option Token) := takeAny [kind]

/-- Takes the next token if it is of the given kind, and tells whether it did. -/
def eat (kind : Kind) : Reader Bool := do return (← take kind).isSome

/-- Takes the next token, which has to be of the given kind. -/
def expect (kind : Kind) (expected : Expectation) : Reader Token
  | [] => fail expected []
  | token :: rest => if token.kind = kind then .ok (token, rest) else fail expected (token :: rest)

/-- Takes a punctuation mark or a word that has to stand here. -/
def expectMark (kind : Kind) (spelling : String) : Reader Token := expect kind (.mark spelling)

/-- Repeats a step as long as it yields something and takes a token. -/
def many (step : Reader (Option α)) (tokens : List Token) :
    Except Unexpected (List α × List Token) :=
  match step tokens with
  | .error unexpected => .error unexpected
  | .ok (none, rest) => .ok ([], rest)
  | .ok (some item, rest) =>
    if rest.length < tokens.length then
      match many step rest with
      | .error unexpected => .error unexpected
      | .ok (items, rest) => .ok (item :: items, rest)
    else .ok ([item], rest)
  termination_by tokens.length

/-- Items with commas between them, at least one. -/
def separated (item : Reader α) : Reader (List α) := do
  let first ← item
  let others ← many do
    if ← eat .comma then return some (← item) else return none
  return first :: others

/-- Items with commas between them, up to a closing mark that stays. -/
def listUpTo (close : Kind) (item : Reader α) : Reader (List α) := do
  if (← peekKind) = close then return [] else separated item

/-- Reads only from lists shorter than a given one. A grammar that refers to itself does so after
taking a token, so the test never fails; it is what makes the recursion end. -/
def shorterThan (tokens : List Token) (reader : (rest : List Token) → rest.length < tokens.length →
    Except Unexpected (α × List Token)) (expected : Expectation) : Reader α :=
  fun rest => if shorter : rest.length < tokens.length then reader rest shorter
    else fail expected rest

@[simp] theorem pure_apply (a : α) (tokens : List Token) :
    (pure a : Reader α) tokens = .ok (a, tokens) := rfl

theorem bind_apply (reader : Reader α) (next : α → Reader β) (tokens : List Token) :
    (reader >>= next) tokens =
      match reader tokens with
      | .ok (a, rest) => next a rest
      | .error unexpected => .error unexpected := rfl

theorem many_of_none {step : Reader (Option α)} {tokens rest : List Token}
    (stops : step tokens = .ok (none, rest)) : many step tokens = .ok ([], rest) := by
  rw [many, stops]

theorem many_of_some {step : Reader (Option α)} {tokens rest : List Token} {item : α}
    (goesOn : step tokens = .ok (some item, rest)) (shorter : rest.length < tokens.length) :
    many step tokens =
      match many step rest with
      | .error unexpected => .error unexpected
      | .ok (items, rest) => .ok (item :: items, rest) := by
  rw [many, goesOn]
  simp only [shorter, ↓reduceIte]

theorem shorterThan_of_lt {tokens rest : List Token} {expected : Expectation}
    {reader : (rest : List Token) → rest.length < tokens.length →
      Except Unexpected (α × List Token)}
    (shorter : rest.length < tokens.length) :
    shorterThan tokens reader expected rest = reader rest shorter := by
  simp only [shorterThan, shorter, ↓reduceDIte]

end Reader

end Treecode
