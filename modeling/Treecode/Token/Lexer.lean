import Treecode.Error
import Treecode.Text.Blank
import Treecode.Text.Letter
import Treecode.Text.Numeral

set_option autoImplicit false

namespace Treecode.Lexer

open Treecode.Text

/-- The operators and the punctuation marks. Of two marks that start alike the longer comes
first. -/
def marks : List (List Char × Kind) :=
  [(['+', '+'], .operatorIncrement), (['+', '='], .operatorAssignmentInc),
   (['-', '-'], .operatorDecrement), (['-', '='], .operatorAssignmentDec),
   (['*', '='], .operatorAssignmentMul), (['/', '='], .operatorAssignmentDiv),
   (['%', '='], .operatorAssignmentMod), (['^', '='], .operatorAssignmentPow),
   (['^', '^'], .xorStatement), (['=', '='], .comparatorEqual), (['=', '>'], .operatorArrow),
   (['<', '='], .comparatorLessThanEqual), (['>', '='], .comparatorGreaterThanEqual),
   (['!', '='], .comparatorNotEqual), (['&', '&'], .andStatement), (['|', '|'], .orStatement),
   (['[', ']'], .newArray), (['{', '}'], .newRecord),
   (['+'], .operatorAddition), (['-'], .operatorSubtraction), (['*'], .operatorMultiplication),
   (['/'], .operatorDivision), (['%'], .operatorModulus), (['^'], .operatorPower),
   (['='], .operatorAssignment), (['<'], .comparatorLessThan), (['>'], .comparatorGreaterThan),
   (['!'], .notStatement), (['&'], .bitwiseAnd), (['|'], .bitwiseOr), (['~'], .bitwiseNot),
   (['('], .leftParen), ([')'], .rightParen), (['['], .leftBracket), ([']'], .rightBracket),
   (['{'], .leftBrace), (['}'], .rightBrace), ([','], .comma), ([':'], .colon),
   ([';'], .semicolon), (['.'], .dot)]

def startsName (c : Char) : Bool := isLetter c || c == '_'

/-- Whether the character may stand in a name after the first one. -/
def continuesName (c : Char) : Bool := isLetter c || isNumeral c || c == '_'

/-- How many characters there are up to the end of a block comment, the end included. -/
def commentEnd? : List Char → Option Nat
  | [] => none
  | '*' :: '/' :: _ => some 2
  | _ :: rest => (commentEnd? rest).map (· + 1)

/-- The kind of a number that starts with a digit, and how many characters follow that digit. A
fraction needs digits on both sides of the point. -/
def number (rest : List Char) : Kind × Nat :=
  let whole := (rest.takeWhile Char.isDigit).length
  match rest.dropWhile Char.isDigit with
  | '.' :: d :: more =>
    if d.isDigit then (.float, whole + 2 + (more.takeWhile Char.isDigit).length)
    else (.integer, whole)
  | _ => (.integer, whole)

/-- The kind of a name: a reserved word has its own. -/
def nameKind (text : List Char) : Kind := (Kind.ofWord? (String.ofList text)).getD .identifier

/-- The kind of the token that starts with a given character, a quote excepted, and how many more
characters it has. -/
def plain (c : Char) (rest : List Char) : Except LexicalFault (Kind × Nat) :=
  if isBlank c then .ok (.whitespace, (rest.takeWhile isBlank).length)
  else if c = '#' ∨ c = '/' ∧ rest.head? = some '/' then
    .ok (.comment, (rest.takeWhile (· ≠ '\n')).length)
  else if c = '/' ∧ rest.head? = some '*' then
    match commentEnd? rest.tail with
    | some length => .ok (.comment, length + 1)
    | none => .error .unterminatedComment
  else if c.isDigit then .ok (number rest)
  else if startsName c then
    let more := rest.takeWhile continuesName
    .ok (nameKind (c :: more), more.length)
  else
    match marks.find? fun mark => mark.1.isPrefixOf (c :: rest) with
    | some (spelling, kind) => .ok (kind, spelling.length - 1)
    | none => .error (.invalidCharacter c)

/-- How a piece of a string ends: at the quote, or at the brace of an interpolation. -/
inductive PieceEnd where
  | quote
  | brace
  deriving DecidableEq, Repr

/-- How a piece of a string ends, and how many characters there are up to its end, the end included.
A backslash takes the next character with it. -/
def piece? (quote : Char) : List Char → Option (PieceEnd × Nat)
  | [] => none
  | ['\\'] => none
  | '\\' :: _ :: rest => (piece? quote rest).map fun (stop, length) => (stop, length + 2)
  | '{' :: '{' :: rest => (piece? quote rest).map fun (stop, length) => (stop, length + 2)
  | '{' :: _ => some (.brace, 1)
  | c :: rest =>
    if c = quote then some (.quote, 1)
    else (piece? quote rest).map fun (stop, length) => (stop, length + 1)

/-- An interpolation that is still open: the quote that ends its string, how many braces opened in
it wait for theirs, and where the piece before it starts. -/
structure Opening where
  quote : Char
  depth : Nat
  start : Position
  deriving DecidableEq, Repr

/-- What a token starts with: its kind, how many characters follow the first, and the interpolations
open after it, innermost first. -/
structure Lexeme where
  kind : Kind
  more : Nat
  openings : List Opening

/-- Changes the depth of the innermost open interpolation. -/
def deepen (change : Nat → Nat) : List Opening → List Opening
  | [] => []
  | opening :: outer => { opening with depth := change opening.depth } :: outer

/-- The token that starts at a place with a given character. A closing brace that no opening one of
the same interpolation waits for goes on with the string. -/
def lexemeAt (openings : List Opening) (p : Position) (c : Char) (rest : List Char) :
    Except LexicalFault Lexeme :=
  match c, openings with
  | '}', ⟨quote, 0, _⟩ :: outer =>
    match piece? quote rest with
    | none => .error .unterminatedString
    | some (.brace, length) =>
      .ok ⟨.stringInterpolationStringPart, length, ⟨quote, 0, p⟩ :: outer⟩
    | some (.quote, length) => .ok ⟨.stringInterpolationEnd, length, outer⟩
  | _, _ =>
    if Literal.isQuote c then
      match piece? c rest with
      | none => .error .unterminatedString
      | some (.brace, length) => .ok ⟨.stringInterpolationStart, length, ⟨c, 0, p⟩ :: openings⟩
      | some (.quote, length) => .ok ⟨.string, length, openings⟩
    else
      match plain c rest with
      | .error fault => .error fault
      | .ok (.leftBrace, more) => .ok ⟨.leftBrace, more, deepen (· + 1) openings⟩
      | .ok (.rightBrace, more) => .ok ⟨.rightBrace, more, deepen (· - 1) openings⟩
      | .ok (kind, more) => .ok ⟨kind, more, openings⟩

/-- The tokens of a text that starts at a place inside given interpolations, or the place of a
fault. -/
def tokensFrom (openings : List Opening) (p : Position) :
    List Char → Except (Position × LexicalFault) (List Token)
  | [] =>
    match openings with
    | [] => .ok [⟨.eof, none, p⟩]
    | opening :: _ => .error (opening.start, .unterminatedInterpolation)
  | c :: rest =>
    match lexemeAt openings p c rest with
    | .error fault => .error (p, fault)
    | .ok lexeme =>
      let text := c :: rest.take lexeme.more
      match tokensFrom lexeme.openings (p.after text) (rest.drop lexeme.more) with
      | .error fault => .error fault
      | .ok tokens => .ok (⟨lexeme.kind, some (String.ofList text), p⟩ :: tokens)
  termination_by text => text.length
  decreasing_by simp only [List.length_cons, List.length_drop]; omega

/-- A text that starts with a token has the tokens of the rest after it. -/
theorem tokensFrom_cons_ok {openings : List Opening} {p : Position} {c : Char} {rest : List Char}
    {tokens : List Token} (success : tokensFrom openings p (c :: rest) = .ok tokens) :
    ∃ lexeme more, lexemeAt openings p c rest = .ok lexeme ∧
      tokensFrom lexeme.openings (p.after (c :: rest.take lexeme.more)) (rest.drop lexeme.more) =
        .ok more ∧
      tokens = ⟨lexeme.kind, some (String.ofList (c :: rest.take lexeme.more)), p⟩ :: more := by
  rw [tokensFrom] at success
  split at success
  · cases success
  · next lexeme found =>
    dsimp only at success
    split at success
    · cases success
    · next more following => exact ⟨lexeme, more, found, following, (Except.ok.inj success).symm⟩

/-- An empty text has no token but the mark of the end, and no interpolation is open there. -/
theorem tokensFrom_nil_ok {openings : List Opening} {p : Position} {tokens : List Token}
    (success : tokensFrom openings p [] = .ok tokens) :
    openings = [] ∧ tokens = [⟨.eof, none, p⟩] := by
  rw [tokensFrom.eq_def] at success
  cases openings with
  | nil => exact ⟨rfl, (Except.ok.inj success).symm⟩
  | cons opening outer => cases success

/-- Induction over the tokens of a text: at its end there is the mark of the end, and before that
one token is read off after the other. -/
theorem tokensFrom_induct
    {motive : ∀ openings p text tokens, tokensFrom openings p text = .ok tokens → Prop}
    (stop : ∀ p success, motive [] p [] [⟨.eof, none, p⟩] success)
    (lexeme : ∀ openings p c rest lexeme tokens, lexemeAt openings p c rest = .ok lexeme →
      ∀ (following : tokensFrom lexeme.openings (p.after (c :: rest.take lexeme.more))
        (rest.drop lexeme.more) = .ok tokens) success, motive _ _ _ _ following →
      motive openings p (c :: rest)
        (⟨lexeme.kind, some (String.ofList (c :: rest.take lexeme.more)), p⟩ :: tokens) success)
    (openings : List Opening) (p : Position) (text : List Char) (tokens : List Token)
    (success : tokensFrom openings p text = .ok tokens) :
    motive openings p text tokens success := by
  induction length : text.length using Nat.strongRecOn generalizing openings p text tokens with
  | ind count ih =>
    cases text with
    | nil =>
      obtain ⟨rfl, rfl⟩ := tokensFrom_nil_ok success
      exact stop p success
    | cons c rest =>
      obtain ⟨first, more, found, following, rfl⟩ := tokensFrom_cons_ok success
      have shorter : (rest.drop first.more).length < count := by
        simp only [List.length_drop, ← length, List.length_cons]
        omega
      exact lexeme openings p c rest first more found following success
        (ih _ shorter _ _ _ _ following rfl)

theorem flatMap_text_of_tokensFrom {openings : List Opening} {p : Position} {text : List Char}
    {tokens : List Token} (success : tokensFrom openings p text = .ok tokens) :
    tokens.flatMap (·.text.toList) = text := by
  induction openings, p, text, tokens, success using tokensFrom_induct with
  | stop p => simp [Token.text]
  | lexeme openings p c rest lexeme tokens _ _ _ tail =>
    rw [List.flatMap_cons, tail]
    simp [Token.text]

/-- What is left of a text after a number of bytes. -/
def afterBytes : Nat → List Char → List Char
  | 0, text => text
  | _ + 1, [] => []
  | count + 1, c :: rest => afterBytes (count + 1 - c.utf8Size) rest

/-- The text at a fault that an error quotes: up to twenty characters of the line. -/
def snippet (source : String) (p : Position) : String :=
  String.ofList (((afterBytes p.offset source.toList).takeWhile (· ≠ '\n')).take 20)

end Lexer

/-- The tokens of a script, the mark of its end last. -/
def tokenize (source file : String) : Except Error (List Token) :=
  match Lexer.tokensFrom [] .start source.toList with
  | .ok tokens => .ok tokens
  | .error (p, fault) =>
    .error (.lexical ⟨file, p.line, p.column⟩ fault (Lexer.snippet source p))

end Treecode
