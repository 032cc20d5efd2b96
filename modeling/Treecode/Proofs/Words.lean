import Treecode.Program.Reading
import Treecode.Value.Text

set_option autoImplicit false

namespace Treecode

/-- A token without its place. -/
abbrev Word := Kind × String

/-- What a token is and says, wherever it stands. -/
def Token.word (token : Token) : Word := (token.kind, token.text)

namespace TokenList

/-- The words of a list of tokens up to the mark of the end. -/
def wordsOf (tokens : List Token) : List Word := (ofTokens tokens).tokens.map Token.word

theorem tokens_trivia {token : Token} (rest : List Token) (trivia : token.kind.isTrivia) :
    (ofTokens (token :: rest)).tokens = (ofTokens rest).tokens := by
  simp [ofTokens, trivia]

theorem tokens_cons {token : Token} (rest : List Token) (meaningful : token.kind.isTrivia = false)
    (inner : token.kind ≠ .eof) :
    (ofTokens (token :: rest)).tokens = token :: (ofTokens rest).tokens := by
  simp [ofTokens, meaningful, inner]

theorem wordsOf_trivia {token : Token} (rest : List Token) (trivia : token.kind.isTrivia) :
    wordsOf (token :: rest) = wordsOf rest := by
  rw [wordsOf, tokens_trivia rest trivia, wordsOf]

theorem wordsOf_cons {token : Token} (rest : List Token) (meaningful : token.kind.isTrivia = false)
    (inner : token.kind ≠ .eof) : wordsOf (token :: rest) = token.word :: wordsOf rest := by
  rw [wordsOf, tokens_cons rest meaningful inner, List.map_cons, wordsOf]

end TokenList

namespace Lexer

open Text TokenList

def Reads (text : List Char) (words : List Word) : Prop :=
  ∀ p, ∃ tokens, tokensFrom [] p text = .ok tokens ∧ wordsOf tokens = words

theorem reads_nil : Reads [] [] := by
  intro p
  refine ⟨[⟨.eof, none, p⟩], ?_, rfl⟩
  rw [tokensFrom]

theorem tokensFrom_lexeme {openings inner : List Opening} {p : Position} {c : Char}
    {front back : List Char} {kind : Kind} {tokens : List Token}
    (found : lexemeAt openings p c (front ++ back) = .ok ⟨kind, front.length, inner⟩)
    (following : tokensFrom inner (p.after (c :: front)) back = .ok tokens) :
    tokensFrom openings p (c :: (front ++ back)) =
      .ok (⟨kind, some (String.ofList (c :: front)), p⟩ :: tokens) := by
  rw [tokensFrom, found]
  simp only [List.take_left, List.drop_left]
  rw [following]

theorem reads_lexeme {c : Char} {front back : List Char} {kind : Kind} {words : List Word}
    (found : ∀ p, lexemeAt [] p c (front ++ back) = .ok ⟨kind, front.length, []⟩)
    (meaningful : kind.isTrivia = false) (inner : kind ≠ .eof) (next : Reads back words) :
    Reads (c :: (front ++ back)) ((kind, String.ofList (c :: front)) :: words) := by
  intro p
  obtain ⟨tokens, following, same⟩ := next (p.after (c :: front))
  refine ⟨_, tokensFrom_lexeme (found p) following, ?_⟩
  rw [wordsOf_cons _ meaningful inner, same]
  rfl

theorem reads_trivia {c : Char} {front back : List Char} {kind : Kind} {words : List Word}
    (found : ∀ p, lexemeAt [] p c (front ++ back) = .ok ⟨kind, front.length, []⟩)
    (trivia : kind.isTrivia) (next : Reads back words) : Reads (c :: (front ++ back)) words := by
  intro p
  obtain ⟨tokens, following, same⟩ := next (p.after (c :: front))
  refine ⟨_, tokensFrom_lexeme (found p) following, ?_⟩
  rw [wordsOf_trivia _ trivia, same]

/-- Outside interpolations only a quote starts anything but a plain token. -/
theorem lexemeAt_plain {c : Char} {rest : List Char} {kind : Kind} {more : Nat}
    (unquoted : Literal.isQuote c = false) (found : plain c rest = .ok (kind, more))
    (p : Position) :
    lexemeAt [] p c rest = .ok ⟨kind, more, []⟩ := by
  unfold lexemeAt
  split
  · rename_i nothing
    cases nothing
  · rw [if_neg (by simp only [unquoted, Bool.false_eq_true, not_false_eq_true]), found]
    split
    · rename_i same
      cases same
    · rename_i same
      cases same
      rfl
    · rename_i same
      cases same
      rfl
    · rename_i same
      cases same
      rfl

/-- A token that is no string, in front of a text. -/
theorem reads_plain {c : Char} {front back : List Char} {kind : Kind} {words : List Word}
    (unquoted : Literal.isQuote c = false)
    (found : plain c (front ++ back) = .ok (kind, front.length))
    (meaningful : kind.isTrivia = false) (inner : kind ≠ .eof) (next : Reads back words) :
    Reads (c :: (front ++ back)) ((kind, String.ofList (c :: front)) :: words) :=
  reads_lexeme (lexemeAt_plain unquoted found) meaningful inner next

/-- A mark of one character in front of a text. -/
theorem reads_mark {c : Char} {back : List Char} {kind : Kind} {words : List Word}
    (unquoted : Literal.isQuote c = false) (found : plain c back = .ok (kind, 0))
    (meaningful : kind.isTrivia = false) (inner : kind ≠ .eof) (next : Reads back words) :
    Reads (c :: back) ((kind, String.ofList [c]) :: words) :=
  @reads_plain c [] back kind words unquoted found meaningful inner next

theorem unquoted_of_isBlank {c : Char} (blank : isBlank c) : Literal.isQuote c = false := by
  rw [Bool.eq_false_iff]
  intro quote
  simp only [Literal.isQuote, Bool.or_eq_true, beq_iff_eq] at quote
  rcases quote with rfl | rfl <;> exact absurd blank (by decide)

/-- White space outside strings leaves the open interpolations as they are. -/
theorem lexemeAt_blank {openings : List Opening} {c : Char} (rest : List Char) (p : Position)
    (blank : isBlank c) :
    lexemeAt openings p c rest = .ok ⟨.whitespace, (rest.takeWhile isBlank).length, openings⟩ := by
  rw [lexemeAt.eq_2, if_neg (by rw [unquoted_of_isBlank blank]; exact Bool.false_ne_true)]
  · simp only [plain, blank, ↓reduceIte]
  · rintro _ _ _ rfl _
    exact absurd blank (by decide)

/-- A comment to the end of its line leaves the open interpolations as they are. -/
theorem lexemeAt_comment {openings : List Opening} {c : Char} {rest : List Char} (p : Position)
    (opens : c = '#' ∨ c = '/' ∧ rest.head? = some '/') :
    lexemeAt openings p c rest = .ok ⟨.comment, (rest.takeWhile (· ≠ '\n')).length, openings⟩ := by
  have mark : c = '#' ∨ c = '/' := opens.imp_right And.left
  have unquoted : Literal.isQuote c = false := by rcases mark with rfl | rfl <;> decide
  have solid : isBlank c = false := by rcases mark with rfl | rfl <;> decide
  rw [lexemeAt.eq_2, if_neg (by rw [unquoted]; exact Bool.false_ne_true)]
  · simp only [plain, solid, Bool.false_eq_true, if_pos opens, ↓reduceIte]
  · rintro _ _ _ rfl _
    rcases mark with brace | brace <;> cases brace

/-- White space in front of a text is one token, which takes all the white space there. -/
theorem tokensFrom_blank {openings : List Opening} {p : Position} {c : Char} {text : List Char}
    {tokens : List Token} (blank : isBlank c)
    (following : tokensFrom openings (p.after (c :: text.takeWhile isBlank))
      (text.dropWhile isBlank) = .ok tokens) :
    ∃ token, tokensFrom openings p (c :: text) = .ok (token :: tokens) ∧
      token.kind = .whitespace := by
  have cut := List.takeWhile_append_dropWhile (p := isBlank) (l := text)
  have found : lexemeAt openings p c text = _ := lexemeAt_blank text p blank
  rw [← cut, cut] at found
  have whole := tokensFrom_lexeme (p := p) (c := c) (by rw [cut]; exact found) following
  rw [cut] at whole
  exact ⟨_, whole, rfl⟩

/-- Without the white space in front of it a text has the same tokens that carry meaning. -/
theorem tokens_dropWhile_blank {openings : List Opening} {p : Position} {text : List Char}
    {tokens : List Token} (success : tokensFrom openings p text = .ok tokens) :
    ∃ tokens', tokensFrom openings (p.after (text.takeWhile isBlank)) (text.dropWhile isBlank) =
      .ok tokens' ∧ (ofTokens tokens').tokens = (ofTokens tokens).tokens := by
  cases text with
  | nil => exact ⟨tokens, success, rfl⟩
  | cons c rest =>
    by_cases blank : isBlank c
    · obtain ⟨found, tokens', lexed, tail, rfl⟩ := tokensFrom_cons_ok success
      rw [lexemeAt_blank rest _ blank] at lexed
      cases lexed
      have cut := List.takeWhile_append_dropWhile (p := isBlank) (l := rest)
      have front : rest.take (rest.takeWhile isBlank).length = rest.takeWhile isBlank := by
        conv => lhs; arg 2; rw [← cut]
        exact List.take_left
      have last : rest.drop (rest.takeWhile isBlank).length = rest.dropWhile isBlank := by
        conv => lhs; arg 2; rw [← cut]
        exact List.drop_left
      dsimp only at tail
      rw [front, last] at tail
      rw [List.takeWhile_cons_of_pos blank, List.dropWhile_cons_of_pos blank]
      exact ⟨tokens', tail, (tokens_trivia tokens' rfl).symm⟩
    · rw [List.takeWhile_cons_of_neg blank, List.dropWhile_cons_of_neg blank]
      exact ⟨tokens, success, rfl⟩

/-- A blank in front of a text adds no token that carries meaning. -/
theorem tokensFrom_cons_blank {openings : List Opening} {p : Position} {c : Char} {back : List Char}
    {tokens : List Token} (blank : isBlank c)
    (following : tokensFrom openings (p.next c) back = .ok tokens) :
    ∃ tokens', tokensFrom openings p (c :: back) = .ok tokens' ∧
      (ofTokens tokens').tokens = (ofTokens tokens).tokens := by
  obtain ⟨tokens', tail, same⟩ := tokens_dropWhile_blank following
  obtain ⟨token, whole, trivia⟩ := tokensFrom_blank blank tail
  exact ⟨token :: tokens', whole, (tokens_trivia _ (by rw [trivia]; rfl)).trans same⟩

theorem tokensFrom_append_blank {openings : List Opening} {p : Position} {front back : List Char}
    {tokens : List Token} (blank : ∀ c ∈ front, isBlank c)
    (following : tokensFrom openings (p.after front) back = .ok tokens) :
    ∃ tokens', tokensFrom openings p (front ++ back) = .ok tokens' ∧
      (ofTokens tokens').tokens = (ofTokens tokens).tokens := by
  induction front generalizing p with
  | nil => exact ⟨tokens, following, rfl⟩
  | cons c front ih =>
    obtain ⟨tokens', tail, same⟩ :=
      ih (fun d member => blank d (List.mem_cons_of_mem _ member)) following
    obtain ⟨tokens'', whole, same'⟩ := tokensFrom_cons_blank (blank c (List.mem_cons_self ..)) tail
    exact ⟨tokens'', whole, same'.trans same⟩

/-- White space in front of a text says nothing. -/
theorem reads_blanks {front back : List Char} {words : List Word} (blank : ∀ c ∈ front, isBlank c)
    (next : Reads back words) : Reads (front ++ back) words := by
  intro p
  obtain ⟨tokens, following, said⟩ := next (p.after front)
  obtain ⟨tokens', whole, same⟩ := tokensFrom_append_blank blank following
  exact ⟨tokens', whole, by rw [wordsOf, same, ← said, wordsOf]⟩

theorem reads_blank {c : Char} {back : List Char} {words : List Word} (blank : isBlank c)
    (next : Reads back words) : Reads (c :: back) words :=
  @reads_blanks [c] back words (List.forall_mem_singleton.2 blank) next

/-- A comment goes on to the end of its line. -/
theorem reads_comment {body back : List Char} {words : List Word} (inLine : '\n' ∉ body)
    (next : Reads ('\n' :: back) words) :
    Reads ('/' :: (('/' :: body) ++ '\n' :: back)) words := by
  have taken : ('/' :: body ++ '\n' :: back).takeWhile (· ≠ '\n') = '/' :: body := by
    rw [List.takeWhile_append_of_pos]
    · simp
    · intro c member
      simp only [decide_eq_true_eq]
      rintro rfl
      simp [inLine] at member
  refine @reads_trivia '/' ('/' :: body) ('\n' :: back) .comment words ?_ rfl next
  intro p
  rw [lexemeAt_comment p (.inr ⟨rfl, rfl⟩), taken]

/-- The characters that end a name or a number where a script is printed. -/
def separators : List Char := [' ', ';', ',', ')', ']', '[', '(', ':', '\n', '\x7d']

/-- A text that no name and no number runs into. -/
def Apart (back : List Char) : Prop := ∀ c ∈ back.head?, c ∈ separators

theorem apart_cons {c : Char} (back : List Char) (separates : c ∈ separators) :
    Apart (c :: back) := by
  intro d member
  cases Option.mem_some.1 member
  exact separates

theorem takeWhile_of_apart {property : Char → Bool} {front back : List Char} (apart : Apart back)
    (all : ∀ c ∈ front, property c) (stops : ∀ c ∈ separators, property c = false) :
    (front ++ back).takeWhile property = front ∧ (front ++ back).dropWhile property = back := by
  have nothing : back.takeWhile property = [] ∧ back.dropWhile property = back := by
    cases back with
    | nil => exact ⟨rfl, rfl⟩
    | cons c rest =>
      have ends := stops c (apart c rfl)
      rw [List.takeWhile_cons_of_neg (by simp [ends]), List.dropWhile_cons_of_neg (by simp [ends])]
      exact ⟨rfl, rfl⟩
  rw [List.takeWhile_append_of_pos all, List.dropWhile_append_of_pos all, nothing.1, nothing.2,
    List.append_nil]
  exact ⟨rfl, rfl⟩

/-- The numbers of the characters that are white space. -/
def blankPoints : List Nat :=
  [0x9, 0xA, 0xB, 0xC, 0xD, 0x20, 0x85, 0xA0, 0x1680, 0x2000, 0x2001, 0x2002, 0x2003, 0x2004,
    0x2005, 0x2006, 0x2007, 0x2008, 0x2009, 0x200A, 0x2028, 0x2029, 0x202F, 0x205F, 0x3000]

theorem mem_blankPoints {c : Char} (blank : isBlank c) : c.toNat ∈ blankPoints := by
  obtain ⟨range, listed, lower, upper⟩ := (CodeRanges.contains_iff _ c).1 blank
  simp only [blankRanges, List.mem_cons, List.not_mem_nil, or_false] at listed
  simp only [blankPoints, List.mem_cons, List.not_mem_nil, or_false]
  rcases listed with rfl | rfl | rfl | rfl | rfl | rfl | rfl | rfl | rfl | rfl <;>
    dsimp only at lower upper <;>
    omega

theorem not_continuesName_of_isBlank {c : Char} (blank : isBlank c) : continuesName c = false := by
  have all : ∀ n ∈ blankPoints, continuesName (Char.ofNat n) = false := by decide +kernel
  rw [← Char.ofNat_toNat c]
  exact all _ (mem_blankPoints blank)

/-- Whether a text is one word: a name or a reserved word. -/
def isWord : List Char → Bool
  | [] => false
  | c :: more => !isBlank c && !c.isDigit && startsName c && more.all continuesName

theorem not_continuesName_of_separator : ∀ c ∈ separators, continuesName c = false := by
  simp only [separators, List.forall_mem_cons, List.not_mem_nil, false_implies,
    implies_true, and_true]
  decide

theorem unquoted_of_startsName {c : Char} (starts : startsName c) : Literal.isQuote c = false := by
  rw [Bool.eq_false_iff]
  intro quote
  simp only [Literal.isQuote, Bool.or_eq_true, beq_iff_eq] at quote
  rcases quote with rfl | rfl <;> exact absurd starts (by decide)

/-- A name or a reserved word in front of a text that it does not run into. -/
theorem reads_word {text back : List Char} {words : List Word} (word : isWord text)
    (meaningful : (nameKind text).isTrivia = false) (inner : nameKind text ≠ .eof)
    (apart : Apart back)
    (next : Reads back words) :
    Reads (text ++ back) ((nameKind text, String.ofList text) :: words) := by
  cases text with
  | nil => cases word
  | cons c more =>
    simp only [isWord, Bool.and_eq_true, Bool.not_eq_true', List.all_eq_true] at word
    obtain ⟨⟨⟨notBlank, notDigit⟩, starts⟩, continues⟩ := word
    apply reads_plain (unquoted_of_startsName starts) _ meaningful inner next
    have noComment : ¬ (c = '#' ∨ c = '/' ∧ (more ++ back).head? = some '/') := by
      rintro (rfl | ⟨rfl, _⟩) <;> exact absurd starts (by decide)
    have noBlock : ¬ (c = '/' ∧ (more ++ back).head? = some '*') := by
      rintro ⟨rfl, _⟩
      exact absurd starts (by decide)
    have taken := (takeWhile_of_apart apart continues not_continuesName_of_separator).1
    simp only [plain, notBlank, notDigit, starts, noComment, noBlock, taken, Bool.false_eq_true,
      ↓reduceIte]

theorem not_isDigit_of_separator : ∀ c ∈ separators, c.isDigit = false := by
  simp only [separators, List.forall_mem_cons, List.not_mem_nil, false_implies,
    implies_true, and_true]
  decide

theorem digit_bounds {c : Char} (digit : c.isDigit) : 48 ≤ c.toNat ∧ c.toNat ≤ 57 := by
  simp only [Char.isDigit, Bool.and_eq_true, decide_eq_true_eq, ge_iff_le,
    UInt32.le_iff_toNat_le] at digit
  exact digit

theorem not_isDigit_of_isBlank {c : Char} (blank : isBlank c) : c.isDigit = false := by
  refine Bool.eq_false_iff.2 fun digit => ?_
  have bounds := digit_bounds digit
  have points := mem_blankPoints blank
  simp only [blankPoints, List.mem_cons, List.not_mem_nil, or_false] at points
  omega

theorem plain_digit {c : Char} (rest : List Char) (digit : c.isDigit) :
    plain c rest = .ok (number rest) := by
  have notBlank : isBlank c = false := by
    refine Bool.eq_false_iff.2 fun blank => ?_
    rw [not_isDigit_of_isBlank blank] at digit
    cases digit
  have noComment : ¬ (c = '#' ∨ c = '/' ∧ rest.head? = some '/') := by
    rintro (rfl | ⟨rfl, _⟩) <;> cases digit
  have noBlock : ¬ (c = '/' ∧ rest.head? = some '*') := by
    rintro ⟨rfl, _⟩
    cases digit
  simp only [plain, notBlank, digit, noComment, noBlock, Bool.false_eq_true, ↓reduceIte]

theorem unquoted_of_isDigit {c : Char} (digit : c.isDigit) : Literal.isQuote c = false := by
  rw [Bool.eq_false_iff]
  intro quote
  simp only [Literal.isQuote, Bool.or_eq_true, beq_iff_eq] at quote
  rcases quote with rfl | rfl <;> cases digit

theorem reads_integer {digits back : List Char} {words : List Word} (nonempty : digits ≠ [])
    (all : ∀ c ∈ digits, c.isDigit) (apart : Apart back) (next : Reads back words) :
    Reads (digits ++ back) ((.integer, String.ofList digits) :: words) := by
  cases digits with
  | nil => exact absurd rfl nonempty
  | cons c more =>
    have digit := all c (List.mem_cons_self ..)
    apply reads_plain (unquoted_of_isDigit digit) _ rfl (by decide) next
    rw [plain_digit _ digit]
    have cut := takeWhile_of_apart apart (fun d member => all d (List.mem_cons_of_mem _ member))
      not_isDigit_of_separator
    unfold number
    rw [cut.1, cut.2]
    dsimp only
    split
    · have separates := apart '.' rfl
      exact absurd separates (by decide)
    · rfl

/-- Digits, a point and digits in front of a text are a float. -/
theorem reads_float {whole fraction back : List Char} {words : List Word} (nonempty : whole ≠ [])
    (all : ∀ c ∈ whole, c.isDigit) (someFraction : fraction ≠ [])
    (allFraction : ∀ c ∈ fraction, c.isDigit)
    (apart : Apart back) (next : Reads back words) :
    Reads ((whole ++ '.' :: fraction) ++ back)
      ((.float, String.ofList (whole ++ '.' :: fraction)) :: words) := by
  cases whole with
  | nil => exact absurd rfl nonempty
  | cons c more =>
    cases fraction with
    | nil => exact absurd rfl someFraction
    | cons d others =>
      have digit := all c (List.mem_cons_self ..)
      have digit' := allFraction d (List.mem_cons_self ..)
      refine @reads_plain c (more ++ '.' :: d :: others) back .float words
        (unquoted_of_isDigit digit) ?_ rfl (by decide) next
      rw [plain_digit _ digit]
      have whole : ∀ e ∈ more, e.isDigit := fun e member => all e (List.mem_cons_of_mem _ member)
      have rest := takeWhile_of_apart apart
        (fun e member => allFraction e (List.mem_cons_of_mem _ member)) not_isDigit_of_separator
      have shape : more ++ '.' :: d :: others ++ back = more ++ '.' :: d :: (others ++ back) := by
        simp only [List.append_assoc, List.cons_append]
      rw [shape]
      unfold number
      rw [List.takeWhile_append_of_pos whole, List.dropWhile_append_of_pos whole,
        List.takeWhile_cons_of_neg (by decide), List.dropWhile_cons_of_neg (by decide)]
      simp only [digit', ↓reduceIte, rest.1, List.append_nil, List.length_append, List.length_cons,
        Except.ok.injEq, Prod.mk.injEq, true_and]
      omega

theorem piece?_character (c : Char) (rest : List Char) :
    piece? '"' (Value.stringCharacter c ++ rest) =
      (piece? '"' rest).map fun (stop, length) =>
      (stop, length + (Value.stringCharacter c).length) := by
  unfold Value.stringCharacter
  split
  case h_7 quote backslash _ _ _ brace =>
    rw [List.cons_append, List.nil_append]
    rw [piece?, if_neg quote]
    · rfl
    · exact fun same _ => backslash same
    · exact fun _ _ same _ => backslash same
    · exact fun _ same _ => brace same
    · exact brace
  all_goals simp only [List.cons_append, List.nil_append, piece?, List.length_cons, List.length_nil]

/-- What a string is printed as ends at its own quote. -/
theorem piece?_stringText (text back : List Char) :
    piece? '"' (text.flatMap Value.stringCharacter ++ '"' :: back) =
      some (.quote, (text.flatMap Value.stringCharacter).length + 1) := by
  induction text with
  | nil => simp [piece?]
  | cons c text ih =>
    rw [List.flatMap_cons, List.append_assoc, piece?_character, ih, List.length_append,
      Option.map_some]
    simp only [Option.some.injEq, Prod.mk.injEq, true_and]
    omega

theorem reads_string (text : String) {back : List Char} {words : List Word}
    (next : Reads back words) :
    Reads ((Value.stringText text).toList ++ back) ((.string, Value.stringText text) :: words) := by
  have shape : (Value.stringText text).toList ++ back =
      '"' :: ((text.toList.flatMap Value.stringCharacter ++ ['"']) ++ back) := by
    unfold Value.stringText
    rw [String.toList_ofList, List.cons_append, List.cons_append, List.append_assoc]
  rw [shape]
  refine reads_lexeme ?_ rfl (by decide) next
  intro p
  have piece := piece?_stringText text.toList back
  have length : (text.toList.flatMap Value.stringCharacter ++ ['"']).length =
      (text.toList.flatMap Value.stringCharacter).length + 1 := List.length_append
  rw [List.append_assoc, List.singleton_append, length]
  unfold lexemeAt
  split
  · rename_i nothing
    cases nothing
  · rw [if_pos (by decide), piece]

end Lexer

namespace Literal

theorem unescape_character (c : Char) (rest : List Char) :
    unescape (Value.stringCharacter c ++ rest) = c :: unescape rest := by
  unfold Value.stringCharacter
  split
  case h_7 quote backslash _ _ _ brace =>
    rw [List.cons_append, List.nil_append, unescape]
    · exact fun same _ => backslash same
    · exact fun _ _ same _ => backslash same
    · exact fun _ same _ => brace same
  all_goals rfl

theorem unescape_stringText (text : List Char) :
    unescape (text.flatMap Value.stringCharacter) = text := by
  induction text with
  | nil => rfl
  | cons c text ih => rw [List.flatMap_cons, unescape_character, ih]

theorem value_stringText (text : String) :
    value .string (Value.stringText text) = .ok (.string text) := by
  have content : unquoted ('"' :: text.toList.flatMap Value.stringCharacter ++ ['"']) =
      text.toList.flatMap Value.stringCharacter := by
    simp [unquoted, between?]
  show Except.ok (Value.string
    (String.ofList (unescape (unquoted (Value.stringText text).toList)))) = _
  rw [Value.stringText, String.toList_ofList, content, unescape_stringText, String.ofList_toList]

end Literal

end Treecode
