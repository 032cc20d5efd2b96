import Treecode.Program.Reading

set_option autoImplicit false

namespace Treecode

/-- What is known of the tokens of a program and of its literals. -/
structure Spelling where
  token : Token → Prop
  value : Value → Prop

namespace Spelling

/-- Nothing is known. -/
def any : Spelling := ⟨fun _ => True, fun _ => True⟩

def Name (spelling : Spelling) (name : Token) : Prop :=
  name.kind = .identifier ∧ spelling.token name

/-- What is known of tokens tells what is known of the values that they spell. -/
structure LiteralsFrom (spelling : Spelling) : Prop where
  ofToken : ∀ token v, spelling.token token → token.value = .ok v → spelling.value v
  string : ∀ text, spelling.value (.string text)
  array : ∀ items, (∀ item ∈ items, spelling.value item) → spelling.value (.array items)
  record : ∀ entries : List (Value × Value),
    (∀ entry ∈ entries, entry.1.isScalar ∧ spelling.value entry.1 ∧ spelling.value entry.2) →
    spelling.value
      (.record (entries.foldl (fun known entry => Value.insertEntry entry.1 entry.2 known) []))

theorem any_literalsFrom : LiteralsFrom .any :=
  ⟨fun _ _ _ _ => trivial, fun _ => trivial, fun _ _ => trivial, fun _ _ => trivial⟩

end Spelling

variable (spelling : Spelling)

mutual

def Expression.Regular : Expression → Prop
  | .plain name => spelling.Name name
  | .indexed name index => spelling.Name name ∧ index ≠ [] ∧ Expression.AllRegular index
  | .call name args => spelling.Name name ∧ Expression.AllRegular args
  | .indexedCall _ _ _ => True
  | .literal _ value => spelling.value value
  | .unary operator operand => operator.kind ∈ Expression.signs ∧ operand.Regular
  | .binary operator left right =>
    operator.kind ∈ Expression.levels.flatten ∧ left.Regular ∧ right.Regular
  | .isType _ operand target => target.testWord?.isSome ∧ operand.Regular
  | .typeOf _ operand => operand.Regular

def Expression.AllRegular : List Expression → Prop
  | [] => True
  | first :: rest => first.Regular ∧ Expression.AllRegular rest

end

def Expression.OptionRegular : Option Expression → Prop
  | none => True
  | some e => e.Regular spelling

def Field.ListRegular (fields : List Field) : Prop :=
  (∃ star, fields = [⟨star, none⟩] ∧ star.kind = .operatorMultiplication ∧ spelling.token star) ∨
    (fields ≠ [] ∧ ∀ field ∈ fields, spelling.Name field.name ∧
      ∀ newName ∈ field.newName, spelling.Name newName)

mutual

def Statement.Regular : Statement → Prop
  | .assign target operator value _ _ =>
    target.isVariable ∧ target.Regular spelling ∧ operator.kind.isAssignment ∧
      value.Regular spelling
  | .define name params _ body =>
    spelling.Name name ∧ (∀ param ∈ params, spelling.Name param.name) ∧ body.Regular
  | .ifElse _ condition body elifs otherwise =>
    condition.Regular spelling ∧ body.Regular ∧ Clause.AllRegular elifs ∧
      LastClause.OptionRegular otherwise
  | .whileLoop _ condition body => condition.Regular spelling ∧ body.Regular
  | .foreach _ iterable body => iterable.Regular spelling ∧ body.Regular
  | .switch _ head cases default =>
    head.isCallOrVariable ∧ head.Regular spelling ∧ Clause.AllRegular cases ∧
      LastClause.OptionRegular default
  | .breakLoop _ | .continueLoop _ => True
  | .returnValue _ value | .halt _ value => Expression.OptionRegular spelling value
  | .print _ args => Expression.AllRegular spelling args
  | .includes _ libraries => ∀ library ∈ libraries, spelling.Name library
  | .select _ _ fields source filter _ target =>
    Field.ListRegular spelling fields ∧ source.Regular spelling ∧
      Expression.OptionRegular spelling filter ∧ target.isVariable ∧ target.Regular spelling
  | .call name args => spelling.Name name ∧ Expression.AllRegular spelling args
  | .indexedCall _ _ _ => True
  | .block body => body.Regular

def Block.Regular : Block → Prop
  | .mk _ body => Statement.AllRegular body

def Statement.AllRegular : List Statement → Prop
  | [] => True
  | first :: rest => first.Regular ∧ Statement.AllRegular rest

def Clause.Regular : Clause → Prop
  | .mk _ guard body => guard.Regular spelling ∧ body.Regular

def Clause.AllRegular : List Clause → Prop
  | [] => True
  | first :: rest => first.Regular ∧ Clause.AllRegular rest

def LastClause.Regular : LastClause → Prop
  | .mk _ body => body.Regular

def LastClause.OptionRegular : Option LastClause → Prop
  | none => True
  | some clause => clause.Regular

def FunctionBody.Regular : FunctionBody → Prop
  | .block body => body.Regular
  | .external _ _ => True

end

variable {spelling}

theorem Expression.allRegular_iff {list : List Expression} :
    Expression.AllRegular spelling list ↔ ∀ e ∈ list, e.Regular spelling := by
  induction list with
  | nil => simp [Expression.AllRegular]
  | cons first rest ih => simp [Expression.AllRegular, ih]

theorem Statement.allRegular_iff {list : List Statement} :
    Statement.AllRegular spelling list ↔ ∀ s ∈ list, s.Regular spelling := by
  induction list with
  | nil => simp [Statement.AllRegular]
  | cons first rest ih => simp [Statement.AllRegular, ih]

theorem Clause.allRegular_iff {list : List Clause} :
    Clause.AllRegular spelling list ↔ ∀ c ∈ list, c.Regular spelling := by
  induction list with
  | nil => simp [Clause.AllRegular]
  | cons first rest ih => simp [Clause.AllRegular, ih]

end Treecode
