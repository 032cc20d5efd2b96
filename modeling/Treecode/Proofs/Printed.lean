import Mathlib.Data.List.Forall2
import Treecode.Instruction.Script
import Treecode.Proofs.Numerals
import Treecode.Proofs.Writable

set_option autoImplicit false

namespace Treecode

namespace Word

def comma : Word := (.comma, ",")
def colon : Word := (.colon, ":")
def semicolon : Word := (.semicolon, ";")
def leftParen : Word := (.leftParen, "(")
def rightParen : Word := (.rightParen, ")")
def leftBracket : Word := (.leftBracket, "[")
def rightBracket : Word := (.rightBracket, "]")
def leftBrace : Word := (.leftBrace, "\x7b")
def rightBrace : Word := (.rightBrace, "\x7d")

def reserved (text : String) : Word := (Lexer.nameKind text.toList, text)

def name (text : String) : Word := (.identifier, text)

def withCommas : List (List Word) → List Word
  | [] => []
  | [words] => words
  | words :: rest => words ++ comma :: withCommas rest

theorem withCommas_cons_cons (first second : List Word) (rest : List (List Word)) :
    withCommas (first :: second :: rest) = first ++ comma :: withCommas (second :: rest) := by
  rw [withCommas]
  intro nothing
  cases nothing

end Word

open Word

mutual

def Value.words : Value → List Word
  | .nil => [(.nil, "nil")]
  | .integer n => [(.integer, Value.integerText n)]
  | .float x => [(.float, Value.floatText x)]
  | .boolean b => [(.boolean, if b then "true" else "false")]
  | .string text => [(.string, Value.stringText text)]
  | .array items =>
    if items.isEmpty then [(.newArray, "[]")]
    else leftBracket :: (withCommas (Value.itemWords items) ++ [rightBracket])
  | .record entries =>
    if entries.isEmpty then [(.newRecord, "\x7b\x7d")]
    else leftBrace :: (withCommas (Value.entryWords entries) ++ [rightBrace])

def Value.itemWords : List Value → List (List Word)
  | [] => []
  | item :: items => item.words :: Value.itemWords items

def Value.entryWords : List (Value × Value) → List (List Word)
  | [] => []
  | (key, value) :: entries => (key.words ++ colon :: value.words) :: Value.entryWords entries

end

namespace Instruction

/-- An operand stands in parentheses where it applies an operator itself. -/
def operandWords (operand : Instruction) (words : List Word) : List Word :=
  if operand.isOperator then leftParen :: (words ++ [rightParen]) else words

def operatorWord (kind : Option Kind) (opcode : Opcode) : Word :=
  (kind.getD .eof, opcode.operatorText?.getD "")

mutual

def words : Instruction → List Word
  | .binary opcode left right =>
    operandWords left left.words ++ operatorWord opcode.between? opcode ::
      operandWords right right.words
  | .unary opcode operand =>
    operatorWord opcode.before? opcode :: operandWords operand operand.words
  | .loadConstant value => value.words
  | .loadVariable name index => Word.name name :: indexWords index
  | .call name args => Word.name name :: leftParen :: (withCommas (listWords args) ++ [rightParen])
  | .isType operand kind =>
    reserved (kind.testWord?.getD "") :: leftParen :: (operand.words ++ [rightParen])
  | .typeOf operand => reserved "Type" :: leftParen :: (operand.words ++ [rightParen])
  | _ => []

def listWords : List Instruction → List (List Word)
  | [] => []
  | first :: rest => first.words :: listWords rest

def indexWords : List Instruction → List Word
  | [] => []
  | key :: rest => leftBracket :: (key.words ++ rightBracket :: indexWords rest)

end

end Instruction

namespace Lexer

open Text

section Marks

variable {back : List Char} {words : List Word}

/-- A mark of one character, where the next character makes no longer mark with it. -/
theorem plain_single {c : Char} {kind : Kind}
    (plainly : isBlank c = false ∧ c ≠ '#' ∧ c ≠ '/' ∧ c.isDigit = false ∧ startsName c = false)
    (found : marks.find? (fun mark => mark.1.isPrefixOf (c :: back)) = some ([c], kind)) :
    plain c back = .ok (kind, 0) := by
  obtain ⟨notBlank, noHash, noSlash, notDigit, notName⟩ := plainly
  simp [plain, notBlank, noHash, noSlash, notDigit, notName, found]

/-- The marks of one character with which no longer mark begins. -/
def singles : List (Char × Word) :=
  [('(', leftParen), (')', rightParen), (']', rightBracket), ('\x7d', rightBrace),
    (',', comma), (':', colon), (';', semicolon)]

theorem reads_single {c : Char} {word : Word} (single : (c, word) ∈ singles)
    (next : Reads back words) : Reads (c :: back) (word :: words) := by
  simp only [singles, List.mem_cons, Prod.mk.injEq, List.not_mem_nil, or_false] at single
  rcases single with ⟨rfl, rfl⟩ | ⟨rfl, rfl⟩ | ⟨rfl, rfl⟩ | ⟨rfl, rfl⟩ | ⟨rfl, rfl⟩ | ⟨rfl, rfl⟩ |
    ⟨rfl, rfl⟩
  all_goals exact reads_mark rfl rfl rfl (by decide) next

theorem reads_space (next : Reads back words) : Reads (' ' :: back) words :=
  reads_blank (by decide) next

/-- The marks that make a longer one with what closes them. -/
def openings : List (Char × Char × Word) := [('[', ']', leftBracket), ('\x7b', '\x7d', leftBrace)]

theorem reads_opening {c close d : Char} {word : Word} (opening : (c, close, word) ∈ openings)
    (different : d ≠ close) (next : Reads (d :: back) words) :
    Reads (c :: d :: back) (word :: words) := by
  have found : plain c (d :: back) = .ok (word.1, 0) := by
    simp only [openings, List.mem_cons, Prod.mk.injEq, List.not_mem_nil, or_false] at opening
    rcases opening with ⟨rfl, rfl, rfl⟩ | ⟨rfl, rfl, rfl⟩
    all_goals
      apply plain_single (by decide)
      simp [marks, List.isPrefixOf, different.symm]
      rfl
  simp only [openings, List.mem_cons, Prod.mk.injEq, List.not_mem_nil, or_false] at opening
  rcases opening with ⟨rfl, rfl, rfl⟩ | ⟨rfl, rfl, rfl⟩
  all_goals exact reads_mark rfl found rfl (by decide) next

/-- A name in front of a text that it does not run into. -/
theorem reads_name {name : String} (named : IsName name) (apart : Apart back)
    (next : Reads back words) : Reads (name.toList ++ back) (Word.name name :: words) := by
  have read := reads_word named.1 (by rw [named.2]; rfl) (by rw [named.2]; decide) apart next
  rw [named.2, String.ofList_toList] at read
  exact read

/-- A reserved word in front of a text that it does not run into. -/
theorem reads_reserved {text : String} (word : isWord text.toList = true)
    (meaningful : (nameKind text.toList).isTrivia = false ∧ nameKind text.toList ≠ .eof)
    (apart : Apart back) (next : Reads back words) :
    Reads (text.toList ++ back) (reserved text :: words) := by
  have read := reads_word word meaningful.1 meaningful.2 apart next
  rw [String.ofList_toList] at read
  exact read

end Marks

/-- The characters that a text starts with when it is no operator before an operand. -/
def opensTerm (c : Char) : Bool :=
  startsName c || c.isDigit || c == '"' || c == '[' || c == '\x7b' || c == '('

def opensExpression (c : Char) : Bool := opensTerm c || c == '-' || c == '+' || c == '~'

/-- A text reads as words wherever what follows is apart from it, and it starts as it should. -/
structure Prints (opens : Char → Bool) (text : List Char) (words : List Word) : Prop where
  begins : text.head?.any opens = true
  reads : ∀ back rest, Apart back → Reads back rest → Reads (text ++ back) (words ++ rest)

section Prints

variable {opens : Char → Bool} {text : List Char} {words : List Word}

theorem Prints.cons (prints : Prints opens text words) : ∃ c more, text = c :: more ∧ opens c := by
  have begins := prints.begins
  cases text with
  | nil => cases begins
  | cons c more => exact ⟨c, more, rfl, begins⟩

theorem Prints.mono {wider : Char → Bool} (prints : Prints opens text words)
    (imp : ∀ c, opens c → wider c) : Prints wider text words := by
  obtain ⟨c, more, rfl, begins⟩ := prints.cons
  exact ⟨imp c begins, prints.reads⟩

theorem opensExpression_of_opensTerm (c : Char) (opens : opensTerm c) : opensExpression c := by
  simp only [opensExpression, opens, Bool.true_or]

theorem Prints.append {text' : List Char} {words' : List Word} (prints : Prints opens text words)
    (next : ∀ back rest, Apart back → Reads back rest → Apart (text' ++ back) ∧
      Reads (text' ++ back) (words' ++ rest)) : Prints opens (text ++ text') (words ++ words') := by
  obtain ⟨c, more, rfl, begins⟩ := prints.cons
  refine ⟨begins, ?_⟩
  intro back rest apart read
  obtain ⟨apart', read'⟩ := next back rest apart read
  rw [List.append_assoc, List.append_assoc]
  exact prints.reads _ _ apart' read'

/-- Texts with commas between them read as their words with commas between them. -/
theorem prints_withCommas {texts : List (List Char)} {lists : List (List Word)}
    (all : List.Forall₂ (Prints opens) texts lists) (nonempty : texts ≠ []) :
    Prints opens ([',', ' '].intercalate texts) (withCommas lists) := by
  induction all with
  | nil => exact absurd rfl nonempty
  | @cons text words texts lists first others ih =>
    cases others with
    | nil =>
      rw [List.intercalate_singleton]
      exact first
    | cons second others =>
      rw [List.intercalate_cons_cons, withCommas_cons_cons, List.append_assoc]
      apply first.append
      intro back rest apart read
      have tail := (ih (List.cons_ne_nil _ _)).reads back rest apart read
      exact ⟨apart_cons _ (by decide), reads_single (by decide) (reads_space tail)⟩

theorem reads_withCommas {texts : List (List Char)} {lists : List (List Word)} {back : List Char}
    {rest : List Word} (all : List.Forall₂ (Prints opens) texts lists)
    (next : Reads back rest) :
    Reads ([',', ' '].intercalate texts ++ ')' :: back)
      (withCommas lists ++ rightParen :: rest) := by
  by_cases nothing : texts = []
  · subst nothing
    cases all
    exact reads_single (by decide) next
  · exact (prints_withCommas all nothing).reads _ _ (apart_cons _ (by decide))
      (reads_single (by decide) next)

end Prints

end Lexer

open Lexer

theorem opensTerm_of_isDigit {c : Char} (digit : c.isDigit) : opensTerm c := by
  simp only [opensTerm, digit, Bool.or_true, Bool.true_or]

theorem prints_integer {text : String} {digits : List Char} (shape : text.toList = digits)
    (nonempty : digits ≠ []) (all : ∀ c ∈ digits, c.isDigit) :
    Prints opensTerm text.toList [(.integer, text)] := by
  have same : text = String.ofList digits := by rw [← shape, String.ofList_toList]
  rw [shape, same]
  constructor
  · cases digits with
    | nil => exact absurd rfl nonempty
    | cons c more => exact opensTerm_of_isDigit (all c (List.mem_cons_self ..))
  · intro back rest apart read
    exact reads_integer nonempty all apart read

theorem prints_float {text : String} {field : Nat} {whole fraction : List Char}
    (spells : Decimal.Spells text.toList field whole fraction) :
    Prints opensTerm text.toList [(.float, text)] := by
  have same : text = String.ofList (whole ++ '.' :: fraction) := by
    rw [← spells.shape, String.ofList_toList]
  rw [spells.shape, same]
  constructor
  · have nonempty := spells.someWhole
    have all := spells.wholeDigits
    cases whole with
    | nil => exact absurd rfl nonempty
    | cons c more => exact opensTerm_of_isDigit (all c (List.mem_cons_self ..))
  · intro back rest apart read
    exact reads_float spells.someWhole spells.wholeDigits spells.someFraction spells.fractionDigits
      apart read

theorem prints_reserved {text : String} (word : isWord text.toList = true)
    (meaningful : (nameKind text.toList).isTrivia = false ∧ nameKind text.toList ≠ .eof)
    (begins : text.toList.head?.any opensTerm = true) :
    Prints opensTerm text.toList [reserved text] :=
  ⟨begins, fun _ _ apart read => reads_reserved word meaningful apart read⟩

theorem prints_brackets {opens : Char → Bool} {text : List Char} {words : List Word}
    (closes : opens ']' = false) (prints : Prints opens text words) :
    Prints opensTerm ('[' :: (text ++ [']'])) (leftBracket :: (words ++ [rightBracket])) := by
  obtain ⟨c, more, rfl, begins⟩ := prints.cons
  have different : c ≠ ']' := by
    rintro rfl
    rw [closes] at begins
    cases begins
  refine ⟨rfl, ?_⟩
  intro back rest apart read
  have inner := prints.reads (']' :: back) (rightBracket :: rest) (apart_cons _ (by decide))
    (reads_single (by decide) read)
  have whole := reads_opening (show ('[', ']', leftBracket) ∈ openings by decide) different inner
  simpa using whole

theorem prints_braces {text : List Char} {words : List Word}
    (prints : Prints opensTerm text words) :
    Prints opensTerm ('\x7b' :: (text ++ ['\x7d'])) (leftBrace :: (words ++ [rightBrace])) := by
  obtain ⟨c, more, rfl, begins⟩ := prints.cons
  have different : c ≠ '\x7d' := by
    rintro rfl
    exact absurd begins (by decide)
  refine ⟨rfl, ?_⟩
  intro back rest apart read
  have inner := prints.reads ('\x7d' :: back) (rightBrace :: rest) (apart_cons _ (by decide))
    (reads_single (by decide) read)
  have whole := reads_opening (show ('\x7b', '\x7d', leftBrace) ∈ openings by decide)
    different inner
  simpa using whole

namespace Value

mutual

/-- The text of a literal reads as its words. -/
theorem prints (v : Value) (literal : v.IsLiteral) : Prints opensTerm v.text.toList v.words := by
  cases v with
  | nil => exact @prints_reserved "nil" (by decide) (by decide) (by decide)
  | integer n =>
    have shape := (Literal.value_integerText literal).1
    exact prints_integer shape (List.ne_nil_of_length_pos (Decimal.length_digits_pos _))
      (Decimal.isDigit_of_mem_digits _)
  | float x =>
    obtain ⟨whole, fraction, spells⟩ := floatText_shape literal.1 literal.2
    exact prints_float spells
  | boolean b =>
    cases b with
    | true => exact @prints_reserved "true" (by decide) (by decide) (by decide)
    | false => exact @prints_reserved "false" (by decide) (by decide) (by decide)
  | string text =>
    refine ⟨?_, fun _ _ _ read => reads_string text read⟩
    show (stringText text).toList.head?.any opensTerm = true
    rw [stringText, String.toList_ofList]
    rfl
  | array items =>
    have shape : (Value.array items).text.toList =
        '[' :: ([',', ' '].intercalate ((itemTexts items).map String.toList) ++ [']']) := by
      simp [text]
    rw [shape]
    cases items with
    | nil =>
      refine ⟨rfl, ?_⟩
      intro back rest apart read
      exact @reads_plain '[' [']'] back .newArray rest rfl rfl rfl (by decide) read
    | cons item items =>
      have all := prints_items (item :: items) literal
      exact prints_brackets (by decide) (prints_withCommas all (List.cons_ne_nil _ _))
  | record entries =>
    have shape : (Value.record entries).text.toList =
        '\x7b' :: ([',', ' '].intercalate ((entryTexts entries).map String.toList) ++
            ['\x7d']) := by
      simp [text]
    rw [shape]
    cases entries with
    | nil =>
      refine ⟨rfl, ?_⟩
      intro back rest apart read
      exact @reads_plain '\x7b' ['\x7d'] back .newRecord rest rfl rfl rfl (by decide) read
    | cons entry entries =>
      have all := prints_entries (entry :: entries) literal.1
      refine prints_braces (prints_withCommas all ?_)
      obtain ⟨key, value⟩ := entry
      exact List.cons_ne_nil _ _

theorem prints_items (items : List Value) (literal : AllLiteral items) :
    List.Forall₂ (Prints opensTerm) ((itemTexts items).map String.toList) (itemWords items) := by
  cases items with
  | nil => exact .nil
  | cons item items => exact .cons (prints item literal.1) (prints_items items literal.2)

theorem prints_entries (entries : List (Value × Value)) (literal : EntriesLiteral entries) :
    List.Forall₂ (Prints opensTerm) ((entryTexts entries).map String.toList)
      (entryWords entries) := by
  match entries with
  | [] => exact .nil
  | (key, value) :: entries =>
    refine .cons ?_ (prints_entries entries literal.2.2.2)
    have shape : (key.text ++ ": " ++ value.text).toList =
        key.text.toList ++ ':' :: ' ' :: value.text.toList := by simp
    rw [shape]
    apply (prints key literal.2.1).append
    intro back rest apart read
    have last := (prints value literal.2.2.1).reads back rest apart read
    exact ⟨apart_cons _ (by decide), reads_single (by decide) (reads_space last)⟩

end

end Value

namespace Instruction

theorem reads_operator {text : String} {c : Char} {front back : List Char} {kind : Kind}
    {words : List Word} (shape : text.toList = c :: front) (unquoted : Literal.isQuote c = false)
    (found : plain c (front ++ ' ' :: back) = .ok (kind, front.length))
    (meaningful : kind.isTrivia = false ∧ kind ≠ .eof) (next : Reads back words) :
    Reads (text.toList ++ ' ' :: back) ((kind, text) :: words) := by
  have same : text = String.ofList (c :: front) := by rw [← shape, String.ofList_toList]
  rw [shape, same]
  exact reads_plain unquoted found meaningful.1 meaningful.2 (reads_space next)

theorem reads_between {opcode : Opcode} (known : opcode.between?.isSome) :
    ∃ text, operatorText opcode = .ok text ∧ ∀ back words, Reads back words →
      Reads (text.toList ++ ' ' :: back) (operatorWord opcode.between? opcode :: words) := by
  cases opcode
  all_goals first
    | exact absurd known (by decide)
    | exact ⟨_, rfl, fun back words next => reads_operator rfl rfl rfl (by decide) next⟩

/-- The space between an operator before an operand and the operand, if there is one. -/
def gap (opcode : Opcode) : String := if opcode = .not then " " else ""

theorem reads_sign {c d : Char} {back : List Char} {kind : Kind} {words : List Word}
    (sign : c = '-' ∧ kind = .operatorSubtraction ∨ c = '+' ∧ kind = .operatorAddition)
    (begins : opensTerm d) (next : Reads (d :: back) words) :
    Reads (c :: d :: back) ((kind, String.ofList [c]) :: words) := by
  have apart : d ≠ '-' ∧ d ≠ '+' ∧ d ≠ '=' := by
    refine ⟨?_, ?_, ?_⟩ <;> rintro rfl <;> exact absurd begins (by decide)
  have found : plain c (d :: back) = .ok (kind, 0) := by
    rcases sign with ⟨rfl, rfl⟩ | ⟨rfl, rfl⟩
    · apply plain_single (by decide)
      simp [marks, List.isPrefixOf, apart.1.symm, apart.2.2.symm]
    · apply plain_single (by decide)
      simp [marks, List.isPrefixOf, apart.2.1.symm, apart.2.2.symm]
  have meaningful : kind.isTrivia = false ∧ kind ≠ .eof := by
    rcases sign with ⟨_, rfl⟩ | ⟨_, rfl⟩ <;> decide
  have unquoted : Literal.isQuote c = false := by
    rcases sign with ⟨rfl, _⟩ | ⟨rfl, _⟩ <;> decide
  exact reads_mark unquoted found meaningful.1 meaningful.2 next

theorem reads_before {opcode : Opcode} (known : opcode.before?.isSome) :
    ∃ text, operatorText opcode = .ok text ∧ text.toList.head?.any opensExpression = true ∧
      ∀ d back words, opensTerm d → Reads (d :: back) words →
        Reads (text.toList ++ ((gap opcode).toList ++ d :: back))
          (operatorWord opcode.before? opcode :: words) := by
  cases opcode
  case sub =>
    exact ⟨"-", rfl, by decide, fun d back words begins next =>
      reads_sign (.inl ⟨rfl, rfl⟩) begins next⟩
  case add =>
    exact ⟨"+", rfl, by decide, fun d back words begins next =>
      reads_sign (.inr ⟨rfl, rfl⟩) begins next⟩
  case bitwiseNot =>
    exact ⟨"~", rfl, by decide, fun d back words _ next => reads_mark rfl rfl rfl (by decide) next⟩
  case not =>
    refine ⟨"not", rfl, by decide, fun d back words _ next => ?_⟩
    exact @reads_operator "not" 'n' ['o', 't'] (d :: back) .notStatement words rfl rfl rfl
      (by decide) next
  all_goals exact absurd known (by decide)

def leads (i : Instruction) : Char → Bool := if i.isOperator then opensExpression else opensTerm

def Prints (i : Instruction) : Prop :=
  ∃ text, i.expression = .ok text ∧ Lexer.Prints i.leads text.toList i.words

theorem opensExpression_of_leads {i : Instruction} (c : Char) (begins : i.leads c) :
    opensExpression c := by
  unfold leads at begins
  split at begins
  · exact begins
  · exact opensExpression_of_opensTerm c begins

theorem prints_parens {opens : Char → Bool} {text : List Char} {words : List Word}
    (prints : Lexer.Prints opens text words) :
    Lexer.Prints opensTerm ('(' :: (text ++ [')'])) (leftParen :: (words ++ [rightParen])) := by
  refine ⟨rfl, ?_⟩
  intro back rest apart read
  have inner := prints.reads (')' :: back) (rightParen :: rest) (apart_cons _ (by decide))
    (reads_single (by decide) read)
  have whole := reads_single (show ('(', leftParen) ∈ singles by decide) inner
  simpa using whole

theorem prints_operand {i : Instruction} {text : String}
    (prints : Lexer.Prints i.leads text.toList i.words) :
    Lexer.Prints opensTerm (operandText i text).toList (operandWords i i.words) := by
  unfold operandText operandWords
  cases operator : i.isOperator with
  | true =>
    rw [if_pos rfl, if_pos rfl]
    have shape : ("(" ++ text ++ ")").toList = '(' :: (text.toList ++ [')']) := by simp
    rw [shape]
    exact prints_parens prints
  | false =>
    rw [if_neg Bool.false_ne_true, if_neg Bool.false_ne_true]
    have leads : i.leads = opensTerm := by
      unfold Instruction.leads
      rw [operator, if_neg Bool.false_ne_true]
    rw [leads] at prints
    exact prints

theorem prints_wordOf {word : String} {opens : Char → Bool} {text : List Char} {words : List Word}
    (wordText : isWord word.toList = true)
    (meaningful : (nameKind word.toList).isTrivia = false ∧ nameKind word.toList ≠ .eof)
    (begins : word.toList.head?.any opensTerm = true) (prints : Lexer.Prints opens text words) :
    Lexer.Prints opensTerm (word.toList ++ '(' :: (text ++ [')']))
      (reserved word :: leftParen :: (words ++ [rightParen])) := by
  apply (prints_reserved wordText meaningful begins).append
  intro back rest apart read
  exact ⟨apart_cons _ (by decide), (prints_parens prints).reads back rest apart read⟩

theorem testWord_isWord {kind : Kind} {word : String} (tests : kind.testWord? = some word) :
    isWord word.toList = true ∧
      ((nameKind word.toList).isTrivia = false ∧ nameKind word.toList ≠ .eof) ∧
      word.toList.head?.any opensTerm = true := by
  cases kind
  all_goals first
    | (cases tests; decide)
    | cases tests

theorem head_name {name : String} (named : IsName name) (rest : List Char) :
    (name.toList ++ rest).head?.any opensTerm = true := by
  have word := named.1
  cases characters : name.toList with
  | nil =>
    rw [characters] at word
    cases word
  | cons c more =>
    rw [characters] at word
    simp only [isWord, Bool.and_eq_true] at word
    show opensTerm c = true
    simp only [opensTerm, word.1.2, Bool.true_or]

mutual

/-- The text of an instruction that can be written as an expression reads as its words. -/
theorem prints_expression (i : Instruction) (written : i.IsExpression) : i.Prints := by
  cases i with
  | binary opcode left right =>
    obtain ⟨leftText, leftPrinted, leftPrints⟩ := prints_expression left written.2.1
    obtain ⟨rightText, rightPrinted, rightPrints⟩ := prints_expression right written.2.2
    obtain ⟨operator, operatorPrinted, between⟩ := reads_between written.1
    refine ⟨operandText left leftText ++ " " ++ operator ++ " " ++ operandText right rightText, ?_,
      ?_⟩
    · simp only [expression, leftPrinted, rightPrinted, operatorPrinted]
      rfl
    · have shape : (operandText left leftText ++ " " ++ operator ++ " " ++
          operandText right rightText).toList = (operandText left leftText).toList ++
            ' ' :: (operator.toList ++ ' ' :: (operandText right rightText).toList) := by simp
      rw [shape]
      have leftRead := (prints_operand leftPrints).mono opensExpression_of_opensTerm
      apply leftRead.append
      intro back rest apart read
      have last := between _ _ ((prints_operand rightPrints).reads back rest apart read)
      refine ⟨apart_cons _ (by decide), ?_⟩
      have whole := reads_space last
      simpa using whole
  | unary opcode operand =>
    obtain ⟨text, printed, prints⟩ := prints_expression operand written.2
    obtain ⟨operator, operatorPrinted, begins, before⟩ := reads_before written.1
    refine ⟨operator ++ gap opcode ++ operandText operand text, ?_, ?_, ?_⟩
    · simp only [expression, printed, operatorPrinted]
      rfl
    · show (operator ++ gap opcode ++ operandText operand text).toList.head?.any opensExpression =
        true
      obtain ⟨c, more, same⟩ : ∃ c more, operator.toList = c :: more := by
        cases characters : operator.toList with
        | nil =>
          rw [characters] at begins
          cases begins
        | cons c more => exact ⟨c, more, rfl⟩
      rw [same] at begins
      simp only [String.toList_append, same, List.cons_append, List.head?_cons]
      exact begins
    · intro back rest apart read
      have inner := prints_operand prints
      obtain ⟨d, more, same, opens⟩ := inner.cons
      have operandRead := inner.reads back rest apart read
      rw [same] at operandRead
      have whole := before d (more ++ back) _ opens operandRead
      simpa [same, words] using whole
  | loadConstant value => exact ⟨value.text, rfl, value.prints written⟩
  | loadVariable name index =>
    obtain ⟨texts, printed, reads⟩ := prints_index index written.2
    refine ⟨name ++ String.join (texts.map fun text => "[" ++ text ++ "]"), ?_, ?_⟩
    · simp only [expression, printed]
      rfl
    · have shape : (name ++ String.join (texts.map fun text => "[" ++ text ++ "]")).toList =
          name.toList ++ texts.flatMap fun text => '[' :: (text.toList ++ [']']) := by
        rw [String.toList_append, String.toList_join, List.flatMap_map]
        simp
      rw [shape]
      refine ⟨head_name written.1 _, ?_⟩
      intro back rest apart read
      have tail := reads back rest apart read
      rw [List.append_assoc]
      exact reads_name written.1 tail.1 tail.2
  | call name args =>
    obtain ⟨texts, printed, all⟩ := prints_list args written.2
    refine ⟨name ++ "(" ++ commaList texts ++ ")", ?_, ?_⟩
    · simp only [expression, printed]
      rfl
    · have shape : (name ++ "(" ++ commaList texts ++ ")").toList =
          name.toList ++ '(' :: ([',', ' '].intercalate (texts.map String.toList) ++ [')']) := by
        simp [commaList]
      rw [shape]
      refine ⟨head_name written.1 _, ?_⟩
      intro back rest apart read
      have inner := reads_single (show ('(', leftParen) ∈ singles by decide)
        (reads_withCommas all read)
      have whole := reads_name written.1 (apart_cons _ (by decide)) inner
      simpa [words] using whole
  | isType operand kind =>
    obtain ⟨text, printed, prints⟩ := prints_expression operand written.2
    obtain ⟨word, tests⟩ := Option.isSome_iff_exists.1 written.1
    obtain ⟨wordText, meaningful, begins⟩ := testWord_isWord tests
    refine ⟨word ++ ("(" ++ text ++ ")"), ?_, ?_⟩
    · simp only [expression, tests, printed]
      show Except.ok (word ++ "(" ++ text ++ ")") = _
      rw [String.append_assoc, String.append_assoc, String.append_assoc]
    · have shape : (word ++ ("(" ++ text ++ ")")).toList = word.toList ++ '(' ::
          (text.toList ++ [')']) := by
        simp
      have same : (isType operand kind).words = reserved word :: leftParen ::
          (operand.words ++ [rightParen]) := by
        rw [words, tests]
        rfl
      rw [shape, same]
      exact prints_wordOf wordText meaningful begins prints
  | typeOf operand =>
    obtain ⟨text, printed, prints⟩ := prints_expression operand written
    refine ⟨"Type(" ++ text ++ ")", ?_, ?_⟩
    · simp only [expression, printed]
      rfl
    · have shape : ("Type(" ++ text ++ ")").toList = "Type".toList ++ '(' ::
          (text.toList ++ [')']) := by
        simp
      rw [shape]
      exact prints_wordOf (by decide) (by decide) (by decide) prints
  | _ => cases written

theorem prints_list (is : List Instruction) (written : AllExpressions is) :
    ∃ texts, expressions is = .ok texts ∧
      List.Forall₂ (Lexer.Prints opensExpression) (texts.map String.toList) (listWords is) := by
  cases is with
  | nil => exact ⟨[], rfl, .nil⟩
  | cons first rest =>
    obtain ⟨text, printed, prints⟩ := prints_expression first written.1
    obtain ⟨texts, others, all⟩ := prints_list rest written.2
    refine ⟨text :: texts, ?_, .cons (prints.mono opensExpression_of_leads) all⟩
    simp only [expressions, printed, others]
    rfl

theorem prints_index (is : List Instruction) (written : AllExpressions is) :
    ∃ texts, expressions is = .ok texts ∧ ∀ back rest, Apart back → Reads back rest →
      Apart ((texts.flatMap fun text => '[' :: (text.toList ++ [']'])) ++ back) ∧
      Reads ((texts.flatMap fun text => '[' :: (text.toList ++ [']'])) ++ back)
        (indexWords is ++ rest) := by
  cases is with
  | nil => exact ⟨[], rfl, fun back rest apart read => ⟨apart, read⟩⟩
  | cons first rest =>
    obtain ⟨text, printed, prints⟩ := prints_expression first written.1
    obtain ⟨texts, others, all⟩ := prints_index rest written.2
    refine ⟨text :: texts, ?_, ?_⟩
    · simp only [expressions, printed, others]
      rfl
    · intro back words apart read
      obtain ⟨apart', tail⟩ := all back words apart read
      have bracketed := prints_brackets (by decide) (prints.mono opensExpression_of_leads)
      have whole := bracketed.reads _ _ apart' tail
      refine ⟨apart_cons _ (by decide), ?_⟩
      simpa [indexWords] using whole

end

end Instruction

end Treecode
