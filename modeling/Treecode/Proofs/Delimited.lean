import Treecode.Proofs.Boundaries
import Treecode.Proofs.Numerals
import Treecode.Proofs.Overflow

set_option autoImplicit false

namespace Treecode

namespace Literal

/-- The units of the content of a string: an escape, a doubled brace, or a character of its own. -/
def units : List Char → List (List Char)
  | [] => []
  | ['\\'] => [['\\']]
  | '\\' :: c :: rest => ['\\', c] :: units rest
  | '{' :: '{' :: rest => ['{', '{'] :: units rest
  | c :: rest => [c] :: units rest

def resolved : List Char → List Char
  | [c] => [c]
  | ['\\', c] => escaped c
  | ['{', '{'] => ['{']
  | unit => unit

theorem unescape_eq (text : List Char) : unescape text = (units text).flatMap resolved := by
  fun_induction unescape text with
  | case1 => rfl
  | case2 => rfl
  | case3 c rest ih => rw [units, List.flatMap_cons, ← ih]; rfl
  | case4 rest ih => rw [units, List.flatMap_cons, ← ih]; rfl
  | case5 c rest alone noEscape noBrace ih =>
    rw [units, List.flatMap_cons, ← ih]
    · rfl
    all_goals assumption

/-- Content that no quote and no single brace ends. -/
inductive Inside (quote : Char) : List Char → Prop where
  | nil : Inside quote []
  | escape (c : Char) {rest : List Char} (inner : Inside quote rest) :
      Inside quote ('\\' :: c :: rest)
  | braces {rest : List Char} (inner : Inside quote rest) : Inside quote ('{' :: '{' :: rest)
  | character {c : Char} {rest : List Char} (noEscape : c ≠ '\\') (noBrace : c ≠ '{')
      (noQuote : c ≠ quote) (inner : Inside quote rest) : Inside quote (c :: rest)

theorem units_cons {c : Char} (rest : List Char) (noEscape : c ≠ '\\') (noBrace : c ≠ '{') :
    units (c :: rest) = [c] :: units rest := by
  rw [units]
  · exact fun backslash _ => noEscape backslash
  · exact fun _ _ backslash _ => noEscape backslash
  · exact fun _ brace _ => noBrace brace

theorem units_singleton (c : Char) : units [c] = [[c]] := by
  by_cases escape : c = '\\'
  · rw [escape]
    rfl
  · by_cases brace : c = '{'
    · rw [brace]
      rfl
    · exact units_cons [] escape brace

namespace Inside

variable {quote : Char} {content : List Char}

/-- What follows the content begins with a unit of its own. -/
theorem units_append (inside : Inside quote content) (rest : List Char) :
    units (content ++ rest) = units content ++ units rest := by
  induction inside with
  | nil => rfl
  | escape c inner ih =>
    rw [List.cons_append, List.cons_append, units, units, ih]
    rfl
  | braces inner ih =>
    rw [List.cons_append, List.cons_append, units, units, ih]
    rfl
  | character noEscape noBrace noQuote inner ih =>
    rw [List.cons_append, units_cons _ noEscape noBrace, units_cons _ noEscape noBrace, ih]
    rfl

/-- No unit of the content is a backslash, a brace or the quote. -/
theorem unit_ne (inside : Inside quote content) :
    ∀ unit ∈ units content, unit ≠ ['\\'] ∧ unit ≠ ['{'] ∧ unit ≠ [quote] := by
  induction inside with
  | nil => simp [units]
  | escape c inner ih => simpa [units] using ih
  | braces inner ih => simpa [units] using ih
  | character noEscape noBrace noQuote inner ih =>
    rw [units_cons _ noEscape noBrace]
    simpa [noEscape, noBrace, noQuote] using ih

end Inside

/-- The characters around the content of a string or of a piece of one, by the kind of its token. -/
inductive Delimits : Kind → Char → Char → Prop where
  | string {quote : Char} (marks : isQuote quote = true) : Delimits .string quote quote
  | start {quote : Char} (marks : isQuote quote = true) :
      Delimits .stringInterpolationStart quote '{'
  | part : Delimits .stringInterpolationStringPart '}' '{'
  | last {quote : Char} (marks : isQuote quote = true) : Delimits .stringInterpolationEnd '}' quote

theorem isQuote_iff {c : Char} : isQuote c = true ↔ c = '"' ∨ c = '\'' := by
  simp [isQuote]

theorem content_delimited {kind : Kind} {opening closing : Char}
    (delimits : Delimits kind opening closing)
    (content : List Char) : Literal.content kind (opening :: (content ++ [closing])) = content := by
  cases delimits with
  | string marks =>
    rcases isQuote_iff.1 marks with rfl | rfl <;> simp [Literal.content, unquoted, between?]
  | start marks => simp [Literal.content, between?, marks]
  | part => simp [Literal.content, between?]
  | last marks => simp [Literal.content, between?, marks]

end Literal

open Literal in
/-- A token is content between two delimiters, which are what is taken off it, and spells the
content with its units resolved. The closing delimiter is a unit of its own behind the content, and
the first one that could close it. -/
structure Token.Encloses (token : Token) (opening : Char) (content : List Char) (closing : Char) :
    Prop where
  text : token.text.toList = opening :: (content ++ [closing])
  delimits : Delimits token.kind opening closing
  removed : Literal.content token.kind token.text.toList = content
  apart : units (content ++ [closing]) = units content ++ [[closing]]
  inside : ∀ unit ∈ units content, unit ≠ ['\\'] ∧ unit ≠ ['{'] ∧ unit ≠ [closing]
  spells : token.value = .ok (.string (String.ofList ((units content).flatMap resolved)))

open Decimal in
/-- A token is digits, and spells the integer that they denote if it has 64 bits. -/
structure Token.Counts (token : Token) : Prop where
  nonempty : token.text.toList ≠ []
  digits : ∀ c ∈ token.text.toList, c.isDigit
  beyond : Int64.maxValue.toInt < valueOf token.text.toList →
    token.value = .error (.integerOutOfRange token.text)
  spells : valueOf token.text.toList ≤ Int64.maxValue.toInt →
    ∃ n : Int64, n.toInt = valueOf token.text.toList ∧ token.value = .ok (.integer n)

/-- The number that digits with a point between them denote. -/
def Decimal.rational (whole fraction : List Char) : ℚ :=
  valueOf (whole ++ fraction) / 10 ^ fraction.length

open Decimal in
/-- A token is digits with a point between them, and spells a double nearest to the number that they
denote, unless the number rounds to infinity. -/
structure Token.Measures (token : Token) (whole fraction : List Char) : Prop where
  text : token.text.toList = whole ++ '.' :: fraction
  someWhole : whole ≠ []
  someFraction : fraction ≠ []
  digits : ∀ c ∈ whole ++ fraction, c.isDigit
  beyond : Double.overflow ≤ rational whole fraction →
    token.value = .error (.floatOutOfRange token.text)
  spells : rational whole fraction < Double.overflow →
    ∃ x : Double, x.negative = false ∧ x.Nearest (rational whole fraction) ∧
      token.value = .ok (.float x)

def Lexer.stringKinds : List Kind := .string :: Expression.pieces

/-- What the literal of a token is, by its kind. -/
structure Token.Readable (token : Token) : Prop where
  string : token.kind ∈ Lexer.stringKinds → ∃ opening content closing,
    token.Encloses opening content closing
  integer : token.kind = .integer → token.Counts
  float : token.kind = .float → ∃ whole fraction, token.Measures whole fraction
  boolean : token.kind = .boolean →
    token.text = "true" ∧ token.value = .ok (.boolean true) ∨
      token.text = "false" ∧ token.value = .ok (.boolean false)
  nil : token.kind = .nil → token.value = .ok .nil

namespace Lexer

open Text Literal

def PieceEnd.mark (quote : Char) : PieceEnd → Char
  | .quote => quote
  | .brace => '{'

theorem exists_inside {quote : Char} {rest : List Char} {stop : PieceEnd} {length : Nat}
    (found : piece? quote rest = some (stop, length)) :
    ∃ content, Inside quote content ∧ rest.take length = content ++ [stop.mark quote] := by
  fun_induction piece? quote rest generalizing stop length with
  | case1 => cases found
  | case2 => cases found
  | case3 c rest ih =>
    obtain ⟨⟨stop, inner⟩, ended, same⟩ := Option.map_eq_some_iff.1 found
    cases same
    obtain ⟨content, inside, split⟩ := ih ended
    exact ⟨_, .escape c inside, by rw [List.take_succ_cons, List.take_succ_cons, split]; rfl⟩
  | case4 rest ih =>
    obtain ⟨⟨stop, inner⟩, ended, same⟩ := Option.map_eq_some_iff.1 found
    cases same
    obtain ⟨content, inside, split⟩ := ih ended
    exact ⟨_, .braces inside, by rw [List.take_succ_cons, List.take_succ_cons, split]; rfl⟩
  | case5 rest alone =>
    cases found
    exact ⟨[], .nil, rfl⟩
  | case6 rest last escape _ brace =>
    cases found
    exact ⟨[], .nil, rfl⟩
  | case7 c rest last escape _ brace noQuote ih =>
    obtain ⟨⟨stop, inner⟩, ended, same⟩ := Option.map_eq_some_iff.1 found
    cases same
    obtain ⟨content, inside, split⟩ := ih ended
    exact ⟨_, .character (ne_of_cases last escape) brace noQuote inside, by
      rw [List.take_succ_cons, split]; rfl⟩

/-- No plain token is a string or a piece of one. -/
theorem plain_unquoted {c : Char} {rest : List Char} {kind : Kind} {more : Nat}
    (found : plain c rest = .ok (kind, more)) : kind ∉ stringKinds := by
  refine plain_kind (· ∉ stringKinds) (fun kind => ?_) ⟨by decide, by decide⟩ (fun text => ?_)
    (by decide) found
  · cases kind <;> decide
  · unfold nameKind Kind.ofWord?
    split <;> decide

section Lexemes

variable {openings : List Opening} {p : Position} {c : Char} {rest : List Char} {lexeme : Lexeme}

/-- A string, or a piece of one, is an opening delimiter and a piece up to a closing one. -/
theorem delimits_of_lexemeAt (quotes : ∀ opening ∈ openings, isQuote opening.quote = true)
    (found : lexemeAt openings p c rest = .ok lexeme) (string : lexeme.kind ∈ stringKinds) :
    ∃ quote stop, piece? quote rest = some (stop, lexeme.more) ∧
      Delimits lexeme.kind c (stop.mark quote) := by
  unfold lexemeAt at found
  split at found
  · split at found
    · cases found
    · next ended =>
      cases found
      exact ⟨_, _, ended, .part⟩
    · next ended =>
      cases found
      exact ⟨_, _, ended, .last (quotes _ (List.mem_cons_self ..))⟩
  · split at found
    · next quote =>
      split at found
      · cases found
      · next ended =>
        cases found
        exact ⟨_, _, ended, .start quote⟩
      · next ended =>
        cases found
        exact ⟨_, _, ended, .string quote⟩
    · split at found
      · cases found
      all_goals
        next plainly =>
        cases found
        exact absurd string (plain_unquoted plainly)

/-- The open interpolations stand in strings that start with quotes. -/
theorem quotes_of_lexemeAt (quotes : ∀ opening ∈ openings, isQuote opening.quote = true)
    (found : lexemeAt openings p c rest = .ok lexeme) :
    ∀ opening ∈ lexeme.openings, isQuote opening.quote = true := by
  have deeper : ∀ change, ∀ opening ∈ deepen change openings, isQuote opening.quote = true := by
    intro change
    cases openings with
    | nil => exact quotes
    | cons opening outer => exact List.forall_mem_cons.2 (List.forall_mem_cons.1 quotes)
  unfold lexemeAt at found
  split at found
  · split at found
    · cases found
    · cases found
      exact List.forall_mem_cons.2 (List.forall_mem_cons.1 quotes)
    · cases found
      exact (List.forall_mem_cons.1 quotes).2
  · split at found
    · next quote =>
      split at found
      · cases found
      · cases found
        exact List.forall_mem_cons.2 ⟨quote, quotes⟩
      · cases found
        exact quotes
    · split at found
      · cases found
      · cases found
        exact deeper (· + 1)
      · cases found
        exact deeper (· - 1)
      · cases found
        exact quotes

theorem number_of_lexemeAt (found : lexemeAt openings p c rest = .ok lexeme)
    (numeric : lexeme.kind = .integer ∨ lexeme.kind = .float) :
    c.isDigit = true ∧ number rest = (lexeme.kind, lexeme.more) := by
  rcases lexemeAt_cases found with string | plainly
  · rcases numeric with kind | kind <;> rw [kind] at string <;> exact absurd string (by decide)
  · rcases plain_cases plainly with trivia | numeral | ⟨_, word, _⟩ | ⟨spelling, mark, _⟩
    · rcases numeric with kind | kind <;> rw [kind] at trivia <;> cases trivia
    · exact numeral
    · have others := nameKind_ne (c :: rest.takeWhile continuesName)
      rw [← word] at others
      exact absurd numeric (not_or.2 ⟨others.1, others.2.1⟩)
    · have others := mark_kinds _ mark
      exact absurd numeric (not_or.2 ⟨others.2.1, others.2.2.1⟩)

theorem digits_of_lexemeAt (found : lexemeAt openings p c rest = .ok lexeme)
    (integer : lexeme.kind = .integer) : ∀ d ∈ c :: rest.take lexeme.more, d.isDigit := by
  obtain ⟨digit, numeral⟩ := number_of_lexemeAt found (.inl integer)
  rw [integer] at numeral
  rcases number_cases rest with
    ⟨body, more, rfl, same, digits, _⟩ | ⟨whole, d, fraction, more, rfl, same, _⟩
  · rw [same, Prod.mk.injEq] at numeral
    rw [← numeral.2, List.take_left]
    exact List.forall_mem_cons.2 ⟨digit, digits⟩
  · rw [same] at numeral
    cases numeral

theorem pointed_of_lexemeAt (found : lexemeAt openings p c rest = .ok lexeme)
    (float : lexeme.kind = .float) :
    ∃ whole fraction, c :: rest.take lexeme.more = whole ++ '.' :: fraction ∧ whole ≠ [] ∧
      fraction ≠ [] ∧ ∀ d ∈ whole ++ fraction, d.isDigit := by
  obtain ⟨digit, numeral⟩ := number_of_lexemeAt found (.inr float)
  rw [float] at numeral
  rcases number_cases rest with
    ⟨body, more, rfl, same, _⟩ | ⟨whole, d, fraction, more, rfl, same, digits, digit', digits', _⟩
  · rw [same] at numeral
    cases numeral
  · rw [same, Prod.mk.injEq] at numeral
    refine ⟨c :: whole, d :: fraction, ?_, List.cons_ne_nil _ _, List.cons_ne_nil _ _, ?_⟩
    · rw [← numeral.2, List.take_left, List.cons_append]
    · exact List.forall_mem_append.2
        ⟨List.forall_mem_cons.2 ⟨digit, digits⟩, List.forall_mem_cons.2 ⟨digit', digits'⟩⟩

/-- Truth values have two words. -/
theorem boolean_of_nameKind {text : List Char} (boolean : nameKind text = .boolean) :
    String.ofList text = "true" ∨ String.ofList text = "false" := by
  unfold nameKind Kind.ofWord? at boolean
  split at boolean
  all_goals first
    | exact absurd boolean (by decide)
    | next word => simp [word]

/-- A truth value is one of two words. -/
theorem boolean_of_lexemeAt (found : lexemeAt openings p c rest = .ok lexeme)
    (boolean : lexeme.kind = .boolean) :
    String.ofList (c :: rest.take lexeme.more) = "true" ∨
      String.ofList (c :: rest.take lexeme.more) = "false" := by
  rcases lexemeAt_cases found with string | plainly
  · rw [boolean] at string
    exact absurd string (by decide)
  · rcases plain_cases plainly with trivia | ⟨_, numeral⟩ | ⟨_, word, more⟩ | ⟨spelling, mark, _⟩
    · rw [boolean] at trivia
      cases trivia
    · have kinds := number_kind rest
      rw [numeral] at kinds
      dsimp only at kinds
      rw [boolean] at kinds
      exact absurd kinds (by decide)
    · have run : rest.take lexeme.more = rest.takeWhile continuesName := by
        rw [more]
        exact (List.prefix_iff_eq_take.1 (List.takeWhile_prefix _)).symm
      rw [run]
      exact boolean_of_nameKind (word.symm.trans boolean)
    · have others : ∀ mark ∈ marks, mark.2 ≠ .boolean := by decide
      exact absurd boolean (others _ mark)

open Decimal

variable {token : Token}

theorem encloses_of_lexemeAt (quotes : ∀ opening ∈ openings, isQuote opening.quote = true)
    (found : lexemeAt openings p c rest = .ok lexeme) (string : lexeme.kind ∈ stringKinds)
    (kind : token.kind = lexeme.kind) (text : token.text.toList = c :: rest.take lexeme.more) :
    ∃ opening content closing, token.Encloses opening content closing := by
  obtain ⟨quote, stop, ended, delimits⟩ := delimits_of_lexemeAt quotes found string
  obtain ⟨content, inside, split⟩ := exists_inside ended
  rw [split] at text
  have removed : Literal.content token.kind token.text.toList = content := by
    rw [text, kind]
    exact content_delimited delimits content
  refine ⟨c, content, stop.mark quote, text, kind ▸ delimits, removed, ?_, ?_, ?_⟩
  · rw [inside.units_append, units_singleton]
  · intro unit member
    obtain ⟨noEscape, noBrace, noQuote⟩ := inside.unit_ne unit member
    cases stop with
    | brace => exact ⟨noEscape, noBrace, noBrace⟩
    | quote => exact ⟨noEscape, noBrace, noQuote⟩
  · rw [← unescape_eq, ← removed]
    unfold Token.value Literal.value
    rw [kind]
    revert string
    generalize lexeme.kind = kind
    cases kind <;> first
      | exact fun _ => rfl
      | exact fun string => absurd string (by decide)

theorem counts_of_lexemeAt (found : lexemeAt openings p c rest = .ok lexeme)
    (integer : lexeme.kind = .integer)
    (kind : token.kind = lexeme.kind) (text : token.text.toList = c :: rest.take lexeme.more) :
    token.Counts := by
  have nonempty : token.text.toList ≠ [] := by
    rw [text]
    exact List.cons_ne_nil _ _
  have digits : ∀ c ∈ token.text.toList, c.isDigit := by
    rw [text]
    exact digits_of_lexemeAt found integer
  have read := integer?_digits nonempty digits
  have value : token.value = if (valueOf token.text.toList : ℤ) ≤ Int64.maxValue.toInt
      then .ok (.integer (Int64.ofInt (valueOf token.text.toList)))
          else .error (.integerOutOfRange token.text) := by
    unfold Token.value Literal.value
    rw [kind, integer]
    dsimp only
    rw [read]
    by_cases room : (valueOf token.text.toList : ℤ) ≤ Int64.maxValue.toInt <;>
      simp only [room, ↓reduceIte]
  refine ⟨nonempty, digits, fun beyond => ?_, fun room => ?_⟩
  · rw [value, if_neg (not_le.2 beyond)]
  · refine ⟨Int64.ofInt (valueOf token.text.toList), ?_, ?_⟩
    · exact Int64.toInt_ofInt_of_le (le_trans (by decide) (Int.natCast_nonneg _))
        (Int.lt_of_le_sub_one room)
    · rw [value, if_pos room]

theorem measures_of_lexemeAt (found : lexemeAt openings p c rest = .ok lexeme)
    (float : lexeme.kind = .float)
    (kind : token.kind = lexeme.kind) (text : token.text.toList = c :: rest.take lexeme.more) :
    ∃ whole fraction, token.Measures whole fraction := by
  obtain ⟨whole, fraction, shape, someWhole, someFraction, digits⟩ :=
    pointed_of_lexemeAt found float
  rw [shape] at text
  obtain ⟨wholeDigits, fractionDigits⟩ := List.forall_mem_append.1 digits
  have read := double?_pointed someWhole wholeDigits fractionDigits
  have decimal : (valueOf (whole ++ fraction) : ℚ) * (10 : ℚ) ^ (-(fraction.length : ℤ)) =
      rational whole fraction := by
    rw [rational, zpow_neg, zpow_natCast, div_eq_mul_inv]
  have finite := fieldOf_lt_iff (c := valueOf (whole ++ fraction)) (e := -(fraction.length : ℤ))
  have bounded : fieldOf (valueOf (whole ++ fraction)) (-(fraction.length : ℤ)) <
      Double.signWeight :=
    Nat.lt_of_le_of_lt (fieldOf_le _ _) (by decide)
  have nearest := nearest_fieldOf (c := valueOf (whole ++ fraction)) (e := -(fraction.length : ℤ))
  rw [decimal] at finite nearest
  generalize fieldOf (valueOf (whole ++ fraction)) (-(fraction.length : ℤ)) = field at *
  have value : token.value = if field < Double.infinityField
    then .ok (.float (Double.ofField false field))
      else .error (.floatOutOfRange token.text) := by
    unfold Token.value Literal.value
    rw [kind, float]
    dsimp only
    rw [text, read]
    dsimp only
    rw [Double.isFinite, Double.field_ofField bounded]
    simp only [decide_eq_true_eq]
  refine ⟨whole, fraction, text, someWhole, someFraction, digits, fun beyond => ?_, fun room => ?_⟩
  · rw [value, if_neg (mt finite.1 (not_lt.2 beyond))]
  · have small := finite.2 room
    exact ⟨_, Double.negative_ofField bounded, nearest small, by rw [value, if_pos small]⟩

/-- A token that is read off a text spells what it shows. -/
theorem readable_of_lexemeAt (quotes : ∀ opening ∈ openings, isQuote opening.quote = true)
    (found : lexemeAt openings p c rest = .ok lexeme) (kind : token.kind = lexeme.kind)
    (spelling : token.text = String.ofList (c :: rest.take lexeme.more)) : token.Readable := by
  have text : token.text.toList = c :: rest.take lexeme.more := by
    rw [spelling]
    exact String.toList_ofList
  refine ⟨fun string => ?_, fun integer => ?_, fun float => ?_, fun boolean => ?_, fun nil => ?_⟩
  · exact encloses_of_lexemeAt quotes found (kind ▸ string) kind text
  · exact counts_of_lexemeAt found (kind.symm.trans integer) kind text
  · exact measures_of_lexemeAt found (kind.symm.trans float) kind text
  · have words := boolean_of_lexemeAt found (kind.symm.trans boolean)
    rw [← spelling] at words
    unfold Token.value Literal.value
    rw [boolean]
    exact words.imp (fun word => ⟨word, by rw [word]; rfl⟩) fun word => ⟨word, by rw [word]; rfl⟩
  · unfold Token.value Literal.value
    rw [nil]

end Lexemes

end Lexer

/-- The tokens of a script spell what they show. -/
theorem readable_of_tokenize {source file : String} {tokens : List Token}
    (success : tokenize source file = .ok tokens) : ∀ token ∈ tokens, token.Readable := by
  have stop : ∀ p, Token.Readable ⟨.eof, none, p⟩ := by
    intro p
    refine ⟨fun kind => absurd kind (show Kind.eof ∉ Lexer.stringKinds by decide), ?_,
      ?_, ?_, ?_⟩ <;>
      exact fun kind => nomatch kind
  unfold tokenize at success
  split at success
  · rename_i found
    cases success
    exact Lexer.forall_of_tokensFrom (fun openings => ∀ opening ∈ openings,
      Literal.isQuote opening.quote = true) (fun _ _ _ _ _ quotes found =>
        ⟨Lexer.readable_of_lexemeAt quotes found rfl rfl, Lexer.quotes_of_lexemeAt quotes found⟩)
      stop (List.forall_mem_nil _) found
  · cases success

/-- A string of three pieces with an escaped quote, a doubled brace in front of a single one and an
escaped backslash, around a float and an integer for which there is no room. -/
theorem readable_of_tokenize_pieces :
    ∃ tokens, tokenize "'\\'\x7b\x7b\x7b1.5\x7d\\\\\x7b9223372036854775808\x7d'" "main.mcl" =
      .ok tokens ∧ ∀ token ∈ tokens, token.Readable := by
  have success : tokenize "'\\'\x7b\x7b\x7b1.5\x7d\\\\\x7b9223372036854775808\x7d'" "main.mcl" = .ok
      [⟨.stringInterpolationStart, some "'\\'\x7b\x7b\x7b", ⟨1, 1, 0⟩⟩,
        ⟨.float, some "1.5", ⟨1, 7, 6⟩⟩,
        ⟨.stringInterpolationStringPart, some "\x7d\\\\\x7b", ⟨1, 10, 9⟩⟩,
        ⟨.integer, some "9223372036854775808", ⟨1, 14, 13⟩⟩,
          ⟨.stringInterpolationEnd, some "\x7d'", ⟨1, 33, 32⟩⟩,
        ⟨.eof, none, ⟨1, 35, 34⟩⟩] := by cbv
  exact ⟨_, success, readable_of_tokenize success⟩

end Treecode
