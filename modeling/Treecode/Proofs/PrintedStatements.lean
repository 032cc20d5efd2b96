import Treecode.Proofs.Printed

set_option autoImplicit false

namespace Treecode

open Word Lexer

namespace Word

/-- What stands between braces. -/
def block (words : List Word) : List Word := leftBrace :: (words ++ [rightBrace])

def arrow : Word := (.operatorArrow, "=>")
def assignment : Word := (.operatorAssignment, "=")
def newArray : Word := (.newArray, "[]")
def star : Word := (.operatorMultiplication, "*")

def onlyIf (condition : Bool) (words : List Word) : List Word := if condition then words else []

end Word

namespace Instruction

def optionalWords : Option Instruction → List Word
  | none => []
  | some value => value.words

def fieldWords : String × Option String → List Word
  | (name, none) => if name = "*" then [star] else [Word.name name]
  | (name, some newName) => [Word.name name, reserved "as", Word.name newName]

def filterWords : Option Instruction → List Word
  | none => []
  | some condition => reserved "where" :: condition.words

def parameterWords (params : List String) : List Word :=
  withCommas (params.map fun param => [Word.name param]) ++ [rightParen]

def selectWords (fields : List (String × Option String)) (source : Instruction)
    (filter : Option Instruction) (distinct merge : Bool) (target : Instruction) : List Word :=
  reserved "select" :: (onlyIf distinct [reserved "distinct"] ++
    (withCommas (fields.map fieldWords) ++
      reserved "from" :: (source.words ++ (filterWords filter ++
        (onlyIf merge [reserved "merge"] ++
          reserved "into" :: (target.words ++ [semicolon]))))))

mutual

def statementWords : Instruction → List Word
  | .newVariable _ => []
  | .storeVariable target value append =>
    target.words ++ (onlyIf append [newArray] ++ assignment :: (value.words ++ [semicolon]))
  | .returnValue value => reserved "return" :: (optionalWords value ++ [semicolon])
  | .halt value => reserved "halt" :: (optionalWords value ++ [semicolon])
  | .breakLoop => [reserved "break", semicolon]
  | .continueLoop => [reserved "continue", semicolon]
  | .print args =>
    reserved "print" :: leftParen :: ((withCommas (listWords args) ++ [rightParen]) ++ [semicolon])
  | .ifElse condition body elifs otherwise =>
    reserved "if" :: (condition.words ++ (block (bodyWords body) ++ (elifWords elifs ++
      onlyIf (!otherwise.isEmpty) (reserved "else" :: block (bodyWords otherwise)))))
  | .whileLoop condition body => reserved "while" :: (condition.words ++ block (bodyWords body))
  | .foreach iterable body => reserved "foreach" :: (iterable.words ++ block (bodyWords body))
  | .switch head cases default =>
    reserved "switch" :: (head.words ++ block (caseWords cases ++
      onlyIf (!default.isEmpty) (reserved "default" :: colon :: block (bodyWords default))))
  | .define name params body =>
    Word.name name :: arrow :: leftParen :: (parameterWords params ++ block (bodyWords body))
  | .defineExternal name params module function =>
    Word.name name :: arrow :: leftParen :: (parameterWords params ++ reserved "external" ::
      (.string, Value.stringText module) :: comma :: (.string, Value.stringText function) ::
        [semicolon])
  | .select fields source filter distinct merge target =>
    selectWords fields source filter distinct merge target
  | other => other.words ++ [semicolon]

def bodyWords : List Instruction → List Word
  | [] => []
  | first :: rest => first.statementWords ++ bodyWords rest

def elifWords : List (Instruction × List Instruction) → List Word
  | [] => []
  | (condition, body) :: rest =>
    reserved "elif" :: (condition.words ++ block (bodyWords body)) ++ elifWords rest

def caseWords : List (Value × List Instruction) → List Word
  | [] => []
  | (label, body) :: rest =>
    reserved "case" :: (label.words ++ colon :: block (bodyWords body)) ++ caseWords rest

end

end Instruction

namespace Lexer

section Pieces

variable {opens opens' : Char → Bool} {text text' : List Char} {words words' : List Word}

theorem Prints.spaced (first : Prints opens text words) (second : Prints opens' text' words') :
    Prints opens (text ++ ' ' :: text') (words ++ words') := by
  apply first.append
  intro back rest apart read
  exact ⟨apart_cons _ (by decide), reads_space (second.reads back rest apart read)⟩

theorem Prints.ended (first : Prints opens text words) :
    Prints opens (text ++ [';']) (words ++ [semicolon]) := by
  apply first.append
  intro back rest apart read
  exact ⟨apart_cons _ (by decide), reads_single (by decide) read⟩

theorem Prints.colon (first : Prints opens text words) :
    Prints opens (text ++ [':']) (words ++ [Word.colon]) := by
  apply first.append
  intro back rest apart read
  exact ⟨apart_cons _ (by decide), reads_mark rfl rfl rfl (by decide) read⟩

theorem Prints.appended (first : Prints opens text words) :
    Prints opens (text ++ ['[', ']']) (words ++ [newArray]) := by
  apply first.append
  intro back rest apart read
  exact ⟨apart_cons _ (by decide),
    @reads_plain '[' [']'] back .newArray rest rfl rfl rfl (by decide) read⟩

/-- A text that an operator stands before, between spaces. -/
theorem Prints.assigned (first : Prints opens text words) (second : Prints opens' text' words') :
    Prints opens (text ++ ' ' :: '=' :: ' ' :: text') (words ++ assignment :: words') := by
  apply first.append
  intro back rest apart read
  refine ⟨apart_cons _ (by decide), reads_space ?_⟩
  have last := second.reads back rest apart read
  exact @Instruction.reads_operator "=" '=' [] _ .operatorAssignment _ rfl rfl rfl (by decide) last

theorem Prints.comma (first : Prints opens text words) (second : Prints opens' text' words') :
    Prints opens (text ++ ',' :: ' ' :: text') (words ++ Word.comma :: words') := by
  apply first.append
  intro back rest apart read
  exact ⟨apart_cons _ (by decide),
    reads_single (by decide) (reads_space (second.reads back rest apart read))⟩

theorem prints_name {name : String} (named : IsName name) :
    Prints opensTerm name.toList [Word.name name] := by
  constructor
  · have begins := Instruction.head_name named []
    rwa [List.append_nil] at begins
  · intro back rest apart read
    exact reads_name named apart read

def keywords : List String :=
  ["if", "elif", "else", "while", "foreach", "switch", "case", "default", "break", "continue",
    "return", "halt",
    "print", "external", "select", "distinct", "as", "from", "where", "merge", "into"]

theorem prints_keyword {text : String} (known : text ∈ keywords) :
    Prints opensTerm text.toList [reserved text] := by
  have fits : ∀ text ∈ keywords, isWord text.toList = true ∧
      ((nameKind text.toList).isTrivia = false ∧ nameKind text.toList ≠ .eof) ∧
      text.toList.head?.any opensTerm = true := by decide
  obtain ⟨word, meaningful, begins⟩ := fits text known
  exact prints_reserved word meaningful begins

theorem prints_star : Prints (fun _ => true) ['*'] [star] := by
  refine ⟨rfl, ?_⟩
  intro back rest apart read
  have found : plain '*' back = .ok (.operatorMultiplication, 0) := by
    apply plain_single (by decide)
    cases back with
    | nil => rfl
    | cons c more =>
      have different : '=' ≠ c := by
        rintro rfl
        exact absurd (apart '=' rfl) (by decide)
      simp [marks, List.isPrefixOf, different]
  exact reads_mark rfl found rfl (by decide) read

end Pieces

def textOf (lines : List String) : List Char := lines.flatMap fun line => line.toList ++ ['\n']

def Tells (lines : List String) (words : List Word) : Prop :=
  ∀ back rest, Reads back rest → Reads (textOf lines ++ back) (words ++ rest)

theorem Tells.nil : Tells [] [] := fun _ _ read => read

theorem Tells.append {lines lines' : List String} {words words' : List Word}
    (first : Tells lines words)
    (second : Tells lines' words') : Tells (lines ++ lines') (words ++ words') := by
  intro back rest read
  have whole := first _ _ (second back rest read)
  unfold textOf at whole ⊢
  rw [List.flatMap_append, List.append_assoc, List.append_assoc]
  exact whole

theorem reads_line (level : Nat) {text : String} {back : List Char} {words : List Word}
    (read : Reads (text.toList ++ '\n' :: back) words) :
    Reads (textOf [Instruction.line level text] ++ back) words := by
  have shape : textOf [Instruction.line level text] ++ back =
      List.replicate (4 * level) ' ' ++ (text.toList ++ '\n' :: back) := by
    simp [textOf, Instruction.line]
  rw [shape]
  apply reads_blanks _ read
  intro c member
  rw [List.eq_of_mem_replicate member]
  decide

theorem tells_line {opens : Char → Bool} (level : Nat) {text : String} {words : List Word}
    (prints : Prints opens text.toList words) : Tells [Instruction.line level text] words := by
  intro back rest read
  exact reads_line level (prints.reads _ _ (apart_cons _ (by decide))
    (reads_blank (by decide) read))

theorem tells_block {opens : Char → Bool} (level : Nat) {head : String} {body : List String}
    {words inner : List Word} (prints : Prints opens head.toList words) (tells : Tells body inner) :
    Tells (Instruction.blockLines level head body) (words ++ block inner) := by
  intro back rest read
  have close : Reads (textOf [Instruction.line level "\x7d"] ++ back) (rightBrace :: rest) :=
    reads_line level (reads_single (by decide) (reads_blank (by decide) read))
  have inside := tells _ _ close
  have opened := reads_opening (show ('\x7b', '\x7d', leftBrace) ∈ openings by decide) (by decide)
    (@reads_blank '\n' _ _ (by decide) inside)
  have first := prints.reads _ _ (apart_cons _ (by decide)) (reads_space opened)
  have shape : (head ++ " \x7b").toList = head.toList ++ [' ', '\x7b'] := by simp
  have whole := @reads_line level (head ++ " \x7b")
    (textOf body ++ (textOf [Instruction.line level "\x7d"] ++ back)) _
    (by rw [shape, List.append_assoc]; exact first)
  unfold Instruction.blockLines
  unfold textOf block at *
  simpa using whole

end Lexer

namespace Instruction

theorem tells_word (level : Nat) {word : String} {value : Option Instruction}
    (prints : Lexer.Prints opensTerm word.toList [reserved word])
    (written : OptionalExpression value) :
    ∃ text, wordStatement word value = .ok text ∧
      Tells [line level text] (reserved word :: (optionalWords value ++ [semicolon])) := by
  cases value with
  | none =>
    have shape : (word ++ ";").toList = word.toList ++ [';'] := by simp
    have line := prints.ended
    rw [← shape] at line
    exact ⟨word ++ ";", rfl, tells_line level line⟩
  | some value =>
    obtain ⟨text, printed, reads⟩ := prints_expression value written
    have shape : (word ++ " " ++ text ++ ";").toList =
        (word.toList ++ ' ' :: text.toList) ++ [';'] := by
      simp
    have line := (prints.spaced reads).ended
    rw [← shape] at line
    refine ⟨word ++ " " ++ text ++ ";", ?_, tells_line level line⟩
    simp only [wordStatement, printed]
    rfl

def fieldText : String × Option String → String
  | (name, none) => name
  | (name, some newName) => name ++ " as " ++ newName

theorem fieldList_eq (fields : List (String × Option String)) :
    fieldList fields = commaList (fields.map fieldText) := by
  unfold fieldList
  congr 2
  funext field
  obtain ⟨name, newName⟩ := field
  cases newName <;> rfl

theorem prints_field {name : String} {newName : Option String} (isName : IsName name)
    (named : ∀ other ∈ newName, IsName other) :
    Lexer.Prints opensTerm (fieldText (name, newName)).toList (fieldWords (name, newName)) := by
  cases newName with
  | none =>
    have other : name ≠ "*" := by
      intro same
      rw [same] at isName
      exact absurd isName.1 (by decide)
    have single : fieldWords (name, none) = [Word.name name] := if_neg other
    rw [single]
    exact prints_name isName
  | some newName =>
    have shape : (name ++ " as " ++ newName).toList =
        (name.toList ++ ' ' :: "as".toList) ++ ' ' :: newName.toList := by simp
    have word := prints_keyword (by decide : "as" ∈ keywords)
    show Lexer.Prints opensTerm (name ++ " as " ++ newName).toList _
    rw [shape]
    exact ((prints_name isName).spaced word).spaced (prints_name (named newName rfl))

theorem prints_fields {fields : List (String × Option String)} (named : FieldsNamed fields) :
    Lexer.Prints (fun _ => true) (fieldList fields).toList
      (withCommas (fields.map fieldWords)) := by
  rcases named with single | ⟨nonempty, named⟩
  · rw [single]
    exact prints_star
  · have all : List.Forall₂ (Lexer.Prints opensTerm) ((fields.map fieldText).map String.toList)
        (fields.map fieldWords) := by
      rw [List.map_map, List.forall₂_map_left_iff, List.forall₂_map_right_iff, List.forall₂_same]
      intro field member
      exact prints_field (named field member).1 (named field member).2
    rw [fieldList_eq, commaList, String.toList_intercalate]
    exact (prints_withCommas all (by simpa using nonempty)).mono fun _ _ => rfl

theorem prints_definition {name : String} {params : List String} (isName : IsName name)
    (named : ∀ param ∈ params, IsName param) :
    Lexer.Prints opensTerm (name ++ " => (" ++ commaList params ++ ")").toList
      (Word.name name :: arrow :: leftParen :: parameterWords params) := by
  have all : List.Forall₂ (Lexer.Prints opensTerm) (params.map String.toList)
      (params.map fun param => [Word.name param]) := by
    rw [List.forall₂_map_left_iff, List.forall₂_map_right_iff, List.forall₂_same]
    intro param member
    exact prints_name (named param member)
  have shape : (name ++ " => (" ++ commaList params ++ ")").toList =
      name.toList ++ ' ' :: '=' :: '>' :: ' ' :: '(' ::
        ([',', ' '].intercalate (params.map String.toList) ++ [')']) := by
    simp [commaList]
  rw [shape]
  apply (prints_name isName).append
  intro back rest apart read
  refine ⟨apart_cons _ (by decide), reads_space ?_⟩
  have inner := reads_single (show ('(', leftParen) ∈ singles by decide) (reads_withCommas all read)
  have whole := @reads_operator "=>" '=' ['>'] _ .operatorArrow _ rfl rfl rfl (by decide) inner
  simpa [parameterWords, arrow] using whole

theorem prints_string (text : String) :
    Lexer.Prints opensTerm (Value.stringText text).toList [(.string, Value.stringText text)] :=
  Value.prints (.string text) trivial

theorem newline_not_mem {name : String} (named : IsName name) : '\n' ∉ name.toList := by
  intro member
  have word := named.1
  cases characters : name.toList with
  | nil =>
    rw [characters] at member
    cases member
  | cons c more =>
    rw [characters] at word member
    simp only [isWord, Bool.and_eq_true, List.all_eq_true] at word
    rcases List.mem_cons.1 member with rfl | inside
    · exact absurd word.1.2 (by decide)
    · have continues := word.2 '\n' inside
      rw [not_continuesName_of_separator '\n' (by decide)] at continues
      cases continues

theorem tells_newVariable (level : Nat) {name : String} (named : IsName name) :
    Tells [line level ("// new variable " ++ name)] [] := by
  intro back rest read
  have inLine : '\n' ∉ " new variable ".toList ++ name.toList := by
    rw [List.mem_append, not_or]
    exact ⟨by decide, newline_not_mem named⟩
  have comment := reads_comment inLine (@reads_blank '\n' _ _ (by decide) read)
  have shape : ("// new variable " ++ name).toList ++ '\n' :: back =
      '/' :: (('/' :: (" new variable ".toList ++ name.toList)) ++ '\n' :: back) := by simp
  apply reads_line level
  rw [shape]
  exact comment

theorem tells_store (level : Nat) {target value : Instruction} (append : Bool)
    (targetWritten : target.IsExpression) (valueWritten : value.IsExpression) :
    ∃ lines, statementLines level (.storeVariable target value append) = .ok lines ∧
      Tells lines (statementWords (.storeVariable target value append)) := by
  obtain ⟨targetText, targetPrinted, targetReads⟩ := prints_expression target targetWritten
  obtain ⟨valueText, valuePrinted, valueReads⟩ := prints_expression value valueWritten
  refine ⟨[line level (targetText ++ (if append then "[]" else "") ++ " = " ++ valueText ++ ";")],
    ?_, ?_⟩
  · simp only [statementLines, targetPrinted, valuePrinted]
    rfl
  · cases append with
    | false =>
      have prints := (targetReads.assigned valueReads).ended
      have shape : (targetText ++ (if false = true then "[]" else "") ++ " = " ++
        valueText ++ ";").toList =
          targetText.toList ++ ' ' :: '=' :: ' ' :: valueText.toList ++ [';'] := by simp
      rw [← shape] at prints
      have tells := tells_line level prints
      simpa [statementWords, onlyIf] using tells
    | true =>
      have prints := (targetReads.appended.assigned valueReads).ended
      have shape : (targetText ++ (if true = true then "[]" else "") ++ " = " ++
        valueText ++ ";").toList =
          (targetText.toList ++ ['[', ']']) ++ ' ' :: '=' :: ' ' :: valueText.toList ++ [';'] := by
            simp
      rw [← shape] at prints
      have tells := tells_line level prints
      simpa [statementWords, onlyIf] using tells

theorem prints_arguments {opens : Char → Bool} {text : List Char} {words : List Word}
    {args : List Instruction} {texts : List String} (prints : Lexer.Prints opens text words)
    (all : List.Forall₂ (Lexer.Prints opensExpression) (texts.map String.toList) (listWords args)) :
    Lexer.Prints opens (text ++ '(' :: ((commaList texts).toList ++ [')']))
      (words ++ leftParen :: (withCommas (listWords args) ++ [rightParen])) := by
  apply prints.append
  intro back rest apart read
  have inner := reads_single (show ('(', leftParen) ∈ singles by decide) (reads_withCommas all read)
  refine ⟨apart_cons _ (by decide), ?_⟩
  simpa [commaList] using inner

theorem tells_print (level : Nat) {args : List Instruction} (written : AllExpressions args) :
    ∃ lines, statementLines level (.print args) = .ok lines ∧
      Tells lines (statementWords (.print args)) := by
  obtain ⟨texts, printed, all⟩ := prints_list args written
  refine ⟨[line level ("print(" ++ commaList texts ++ ");")], ?_, ?_⟩
  · simp only [statementLines, printed]
    rfl
  · have prints := (prints_arguments (prints_keyword (by decide : "print" ∈ keywords)) all).ended
    have shape : ("print(" ++ commaList texts ++ ");").toList =
        "print".toList ++ '(' :: ((commaList texts).toList ++ [')']) ++ [';'] := by simp
    rw [← shape] at prints
    have tells := tells_line level prints
    simpa [statementWords] using tells

def filterText : Option Instruction → Except Error String
  | some condition => do return " where " ++ (← condition.expression)
  | none => .ok ""

theorem selectStatement_eq (fields : List (String × Option String)) (source : Instruction)
    (filter : Option Instruction) (distinct merge : Bool) (target : Instruction) :
    selectStatement fields source filter distinct merge target = do
      let sourceText ← source.expression
      let between ← filterText filter
      let targetText ← target.expression
      return "select " ++ (if distinct then "distinct " else "") ++ fieldList fields ++
        " from " ++ sourceText
        ++ between ++ (if merge then " merge" else "") ++ " into " ++ targetText ++ ";" := by
  cases filter with
  | none => rfl
  | some condition =>
    unfold selectStatement filterText
    dsimp only
    cases source.expression <;> cases condition.expression <;> rfl

theorem prints_filter {filter : Option Instruction} (written : OptionalExpression filter) :
    ∃ text, filterText filter = .ok text ∧ ∀ {opens : Char → Bool} {front : List Char}
      {words : List Word},
      Lexer.Prints opens front words →
        Lexer.Prints opens (front ++ text.toList) (words ++ filterWords filter) := by
  cases filter with
  | none =>
    refine ⟨"", rfl, fun prints => ?_⟩
    simpa [filterWords] using prints
  | some condition =>
    obtain ⟨text, printed, reads⟩ := prints_expression condition written
    refine ⟨" where " ++ text, ?_, fun prints => ?_⟩
    · simp only [filterText, printed]
      rfl
    · have word := prints_keyword (by decide : "where" ∈ keywords)
      have whole := prints.spaced (word.spaced reads)
      simpa [filterWords] using whole

theorem tells_select (level : Nat) {fields : List (String × Option String)}
    {source target : Instruction}
    {filter : Option Instruction} (distinct merge : Bool) (named : FieldsNamed fields)
    (sourceWritten : source.IsExpression) (filterWritten : OptionalExpression filter)
    (targetWritten : target.IsExpression) :
    ∃ lines, statementLines level (.select fields source filter distinct merge target) = .ok lines ∧
      Tells lines (statementWords (.select fields source filter distinct merge target)) := by
  obtain ⟨sourceText, sourcePrinted, sourceReads⟩ := prints_expression source sourceWritten
  obtain ⟨between, betweenPrinted, extending⟩ := prints_filter filterWritten
  obtain ⟨targetText, targetPrinted, targetReads⟩ := prints_expression target targetWritten
  have selectWord : Lexer.Prints opensTerm "select".toList [reserved "select"] :=
    prints_keyword (by decide : "select" ∈ keywords)
  have head : Lexer.Prints opensTerm
    ("select".toList ++ if distinct then ' ' :: "distinct".toList else [])
      (reserved "select" :: onlyIf distinct [reserved "distinct"]) := by
    cases distinct with
    | false => simpa [onlyIf] using selectWord
    | true =>
      simpa [onlyIf] using selectWord.spaced (prints_keyword (by decide : "distinct" ∈ keywords))
  have upToSource := (head.spaced (prints_fields named)).spaced
    (prints_keyword (by decide : "from" ∈ keywords))
  have upToFilter := extending (upToSource.spaced sourceReads)
  have upToTarget : ∀ {opens : Char → Bool} {front : List Char} {words : List Word},
      Lexer.Prints opens front words → Lexer.Prints opens
        (front ++ (if merge then ' ' :: "merge".toList else []) ++ ' ' :: "into".toList)
        (words ++ onlyIf merge [reserved "merge"] ++ [reserved "into"]) := by
    intro opens front words prints
    have intoWord := prints_keyword (by decide : "into" ∈ keywords)
    cases merge with
    | false => simpa [onlyIf] using prints.spaced intoWord
    | true =>
      simpa [onlyIf] using (prints.spaced (prints_keyword (by decide : "merge" ∈ keywords))).spaced
        intoWord
  have whole := ((upToTarget upToFilter).spaced targetReads).ended
  obtain ⟨script, isScript⟩ :
    ∃ script, script = "select " ++ (if distinct then "distinct " else "") ++
    fieldList fields ++ " from " ++ sourceText ++ between ++ (if merge then " merge" else "") ++
      " into " ++
    targetText ++ ";" := ⟨_, rfl⟩
  refine ⟨[line level script], ?_, ?_⟩
  · rw [statementLines, selectStatement_eq, sourcePrinted, betweenPrinted, targetPrinted, isScript]
    rfl
  · have shape : script.toList =
        (((((("select".toList ++ if distinct then ' ' :: "distinct".toList else []) ++
          ' ' :: (fieldList fields).toList) ++ ' ' :: "from".toList) ++ ' ' :: sourceText.toList) ++
          between.toList) ++ (if merge then ' ' :: "merge".toList else []) ++ ' ' ::
            "into".toList) ++
          ' ' :: targetText.toList ++ [';'] := by
      rw [isScript]
      cases distinct <;> cases merge <;> simp
    rw [← shape] at whole
    simpa [statementWords, selectWords] using tells_line level whole

theorem tells_headed (level : Nat) {word : String} {head : Instruction} {body : List String}
    {inner : List Word}
    (known : Lexer.Prints opensTerm word.toList [reserved word]) (written : head.IsExpression)
    (tells : Tells body inner) :
    ∃ text, head.expression = .ok text ∧
      Tells (blockLines level (word ++ " " ++ text) body)
        (reserved word :: (head.words ++ block inner)) := by
  obtain ⟨text, printed, reads⟩ := prints_expression head written
  have prints := known.spaced reads
  have shape : (word ++ " " ++ text).toList = word.toList ++ ' ' :: text.toList := by simp
  rw [← shape] at prints
  exact ⟨text, printed, tells_block level prints tells⟩

theorem tells_definition (level : Nat) {name : String} {params : List String} {body : List String}
    {inner : List Word} (isName : IsName name) (named : ∀ param ∈ params, IsName param)
    (tells : Tells body inner) :
    Tells (blockLines level (name ++ " => (" ++ commaList params ++ ")") body)
      (Word.name name :: arrow :: leftParen :: (parameterWords params ++ block inner)) :=
  tells_block level (prints_definition isName named) tells

theorem tells_external (level : Nat) {name module function : String} {params : List String}
    (isName : IsName name) (named : ∀ param ∈ params, IsName param) :
    Tells [line level (name ++ " => (" ++ commaList params ++ ") external " ++
      Value.stringText module ++ ", " ++
      Value.stringText function ++ ";")]
        (statementWords (.defineExternal name params module function)) := by
  have word := prints_keyword (by decide : "external" ∈ keywords)
  have prints :=
    ((((prints_definition isName named).spaced word).spaced (prints_string module)).comma
      (prints_string function)).ended
  have shape : (name ++ " => (" ++ commaList params ++ ") external " ++ Value.stringText module ++
    ", " ++ Value.stringText function ++ ";").toList =
      ((((name ++ " => (" ++ commaList params ++ ")").toList ++ ' ' :: "external".toList) ++
        ' ' :: (Value.stringText module).toList) ++ ',' :: ' ' ::
            (Value.stringText function).toList) ++ [';'] := by
    simp
  rw [← shape] at prints
  simpa [statementWords] using tells_line level prints

theorem tells_last (level : Nat) {head : String} {words inner : List Word} {body : List String}
    (prints : Lexer.Prints opensTerm head.toList words) (tells : Tells body inner) (empty : Bool) :
    Tells (if empty then [] else blockLines level head body)
      (onlyIf (!empty) (words ++ block inner)) := by
  cases empty with
  | true => exact .nil
  | false => exact tells_block level prints tells

theorem tells_call (level : Nat) {name : String} {args : List Instruction} (isName : IsName name)
    (written : AllExpressions args) :
    ∃ lines, statementLines level (.call name args) = .ok lines ∧
      Tells lines (statementWords (.call name args)) := by
  obtain ⟨text, printed, reads⟩ := prints_expression (.call name args) ⟨isName, written⟩
  refine ⟨[line level (text ++ ";")], ?_, ?_⟩
  · simp only [statementLines, printed]
    rfl
  · have prints := reads.ended
    have shape : (text ++ ";").toList = text.toList ++ [';'] := by simp
    rw [← shape] at prints
    exact tells_line level prints

mutual

/-- The lines of an instruction that can be written as a statement read as its words. -/
theorem tells_statement (level : Nat) (i : Instruction) (written : i.IsStatement) :
    ∃ lines, statementLines level i = .ok lines ∧ Tells lines i.statementWords := by
  cases i with
  | newVariable name => exact ⟨_, rfl, tells_newVariable level written⟩
  | storeVariable target value append => exact tells_store level append written.2.1 written.2.2
  | call name args => exact tells_call level written.1 written.2
  | returnValue value =>
    obtain ⟨text, printed, tells⟩ := tells_word level
      (prints_keyword (by decide : "return" ∈ keywords)) written
    refine ⟨[line level text], ?_, tells⟩
    simp only [statementLines, printed]
    rfl
  | halt value =>
    obtain ⟨text, printed, tells⟩ := tells_word level
      (prints_keyword (by decide : "halt" ∈ keywords)) written
    refine ⟨[line level text], ?_, tells⟩
    simp only [statementLines, printed]
    rfl
  | breakLoop =>
    have prints := (prints_keyword (by decide : "break" ∈ keywords)).ended
    exact ⟨_, rfl, @tells_line _ level "break;" _ prints⟩
  | continueLoop =>
    have prints := (prints_keyword (by decide : "continue" ∈ keywords)).ended
    exact ⟨_, rfl, @tells_line _ level "continue;" _ prints⟩
  | print args => exact tells_print level written
  | ifElse condition body elifs otherwise =>
    obtain ⟨bodyPart, bodyPrinted, bodyTells⟩ := tells_body (level + 1) body written.2.1
    obtain ⟨elifPart, elifPrinted, elifTells⟩ := tells_elifs level elifs written.2.2.1
    obtain ⟨lastPart, lastPrinted, lastTells⟩ := tells_body (level + 1) otherwise written.2.2.2
    obtain ⟨text, printed, tells⟩ := tells_headed level
      (prints_keyword (by decide : "if" ∈ keywords)) written.1 bodyTells
    have last := tells_last level (prints_keyword (by decide : "else" ∈ keywords)) lastTells
      otherwise.isEmpty
    have words : statementWords (.ifElse condition body elifs otherwise) =
        reserved "if" :: (condition.words ++ block (bodyWords body)) ++ elifWords elifs ++
          onlyIf (!otherwise.isEmpty) ([reserved "else"] ++ block (bodyWords otherwise)) := by
      simp [statementWords]
    rw [words]
    refine ⟨_, ?_, (tells.append elifTells).append last⟩
    simp only [statementLines, printed, bodyPrinted, elifPrinted, lastPrinted]
    rfl
  | whileLoop condition body =>
    obtain ⟨bodyPart, bodyPrinted, bodyTells⟩ := tells_body (level + 1) body written.2
    obtain ⟨text, printed, tells⟩ := tells_headed level
      (prints_keyword (by decide : "while" ∈ keywords)) written.1 bodyTells
    refine ⟨_, ?_, tells⟩
    simp only [statementLines, printed, bodyPrinted]
    rfl
  | foreach iterable body =>
    obtain ⟨bodyPart, bodyPrinted, bodyTells⟩ := tells_body (level + 1) body written.2
    obtain ⟨text, printed, tells⟩ := tells_headed level
      (prints_keyword (by decide : "foreach" ∈ keywords)) written.1 bodyTells
    refine ⟨_, ?_, tells⟩
    simp only [statementLines, printed, bodyPrinted]
    rfl
  | switch head cases default =>
    obtain ⟨casePart, casePrinted, caseTells⟩ := tells_cases (level + 1) cases written.2.2.1
    obtain ⟨lastPart, lastPrinted, lastTells⟩ := tells_body (level + 2) default written.2.2.2
    have word : Lexer.Prints opensTerm "default:".toList ([reserved "default"] ++ [colon]) :=
      (prints_keyword (by decide : "default" ∈ keywords)).colon
    have last := tells_last (level + 1) word lastTells default.isEmpty
    obtain ⟨text, printed, tells⟩ :=
      tells_headed level (prints_keyword (by decide : "switch" ∈ keywords))
      written.2.1 (caseTells.append last)
    refine ⟨_, ?_, tells⟩
    simp only [statementLines, printed, casePrinted, lastPrinted]
    rfl
  | define name params body =>
    obtain ⟨bodyPart, bodyPrinted, bodyTells⟩ := tells_body (level + 1) body written.2.2
    refine ⟨_, ?_, tells_definition level written.1 written.2.1 bodyTells⟩
    simp only [statementLines, bodyPrinted]
    rfl
  | defineExternal name params module function =>
    exact ⟨_, rfl, tells_external level written.1 written.2⟩
  | select fields source filter distinct merge target =>
    exact tells_select level distinct merge written.1 written.2.1 written.2.2.1 written.2.2.2.2
  | _ => cases written

theorem tells_body (level : Nat) (list : List Instruction) (written : AllStatements list) :
    ∃ lines, bodyLines level list = .ok lines ∧ Tells lines (bodyWords list) := by
  cases list with
  | nil => exact ⟨[], rfl, .nil⟩
  | cons first rest =>
    obtain ⟨lines, printed, tells⟩ := tells_statement level first written.1
    obtain ⟨others, printed', tells'⟩ := tells_body level rest written.2
    refine ⟨lines ++ others, ?_, tells.append tells'⟩
    simp only [bodyLines, printed, printed']
    rfl

theorem tells_elifs (level : Nat) (list : List (Instruction × List Instruction))
    (written : ElifStatements list) :
    ∃ lines, elifLines level list = .ok lines ∧ Tells lines (elifWords list) := by
  match list with
  | [] => exact ⟨[], rfl, .nil⟩
  | (condition, body) :: rest =>
    obtain ⟨bodyPart, bodyPrinted, bodyTells⟩ := tells_body (level + 1) body written.2.1
    obtain ⟨others, printed', tells'⟩ := tells_elifs level rest written.2.2
    obtain ⟨text, printed, tells⟩ := tells_headed level
      (prints_keyword (by decide : "elif" ∈ keywords)) written.1 bodyTells
    refine ⟨_, ?_, tells.append tells'⟩
    simp only [elifLines, printed, bodyPrinted, printed']
    rfl

theorem tells_cases (level : Nat) (list : List (Value × List Instruction))
    (written : CaseStatements list) :
    ∃ lines, caseLines level list = .ok lines ∧ Tells lines (caseWords list) := by
  match list with
  | [] => exact ⟨[], rfl, .nil⟩
  | (label, body) :: rest =>
    obtain ⟨bodyPart, bodyPrinted, bodyTells⟩ := tells_body (level + 1) body written.2.1
    obtain ⟨others, printed', tells'⟩ := tells_cases level rest written.2.2
    have prints := ((prints_keyword (by decide : "case" ∈ keywords)).spaced
      (label.prints written.1)).colon
    have shape : ("case " ++ label.text ++ ":").toList =
        ("case".toList ++ ' ' :: label.text.toList) ++ [':'] := by
      simp
    rw [← shape] at prints
    have tells := tells_block level prints bodyTells
    have words : caseWords ((label, body) :: rest) =
        [reserved "case"] ++ label.words ++ [colon] ++ block (bodyWords body) ++
            caseWords rest := by
      simp [caseWords]
    rw [words]
    refine ⟨_, ?_, tells.append tells'⟩
    simp only [caseLines, bodyPrinted, printed']
    rfl

end

/-- The halt that ends a program is not written. -/
theorem withoutFinalHalt_append (list : List Instruction) :
    withoutFinalHalt (list ++ [finalHalt]) = list := by
  unfold withoutFinalHalt finalHalt
  rw [List.getLast?_concat, List.dropLast_concat]
  rfl

theorem programScript_reads {list : List Instruction} (written : AllStatements list) :
    ∃ text, programScript (list ++ [finalHalt]) = .ok text ∧
      Reads text.toList (bodyWords list) := by
  obtain ⟨lines, printed, tells⟩ := tells_body 0 list written
  refine ⟨String.join (lines.map (· ++ "\n")), ?_, ?_⟩
  · rw [programScript, withoutFinalHalt_append, script, printed]
    rfl
  · have whole := tells [] [] reads_nil
    have shape : (String.join (lines.map (· ++ "\n"))).toList = textOf lines := by
      rw [String.toList_join, List.flatMap_map]
      simp [textOf]
    rw [shape]
    simpa using whole

end Instruction

end Treecode
