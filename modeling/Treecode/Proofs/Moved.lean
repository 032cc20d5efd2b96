import Treecode.Program.Reading

set_option autoImplicit false

namespace Treecode

section

variable (move : Position → Position)

def Token.moved (token : Token) : Token := { token with position := move token.position }

@[simp] theorem Token.kind_moved (token : Token) : (token.moved move).kind = token.kind := rfl

@[simp] theorem Token.spelling_moved (token : Token) :
    (token.moved move).spelling = token.spelling := rfl

@[simp] theorem Token.text_moved (token : Token) : (token.moved move).text = token.text := rfl

@[simp] theorem Token.position_moved (token : Token) :
    (token.moved move).position = move token.position := rfl

@[simp] theorem Token.value_moved (token : Token) : (token.moved move).value = token.value := rfl

mutual

/-- The expression with all its tokens moved. -/
def Expression.moved : Expression → Expression
  | .plain name => .plain (name.moved move)
  | .indexed name index => .indexed (name.moved move) (Expression.allMoved index)
  | .call name args => .call (name.moved move) (Expression.allMoved args)
  | .indexedCall name index args =>
    .indexedCall (name.moved move) (Expression.allMoved index) (Expression.allMoved args)
  | .literal token value => .literal (token.moved move) value
  | .unary operator operand => .unary (operator.moved move) operand.moved
  | .binary operator left right => .binary (operator.moved move) left.moved right.moved
  | .isType word operand target => .isType (word.moved move) operand.moved target
  | .typeOf word operand => .typeOf (word.moved move) operand.moved

def Expression.allMoved : List Expression → List Expression
  | [] => []
  | first :: rest => first.moved :: Expression.allMoved rest

end

theorem Expression.allMoved_eq (list : List Expression) :
    Expression.allMoved move list = list.map (Expression.moved move) := by
  induction list with
  | nil => rfl
  | cons first rest ih => simp [Expression.allMoved, ih]

@[simp] theorem Expression.token_moved (e : Expression) :
    (e.moved move).token = e.token.moved move := by
  cases e <;> rfl

@[simp] theorem Expression.kind_moved (e : Expression) : (e.moved move).kind = e.kind := by
  cases e <;> rfl

@[simp] theorem Expression.isVariable_moved (e : Expression) :
    (e.moved move).isVariable = e.isVariable := by
  cases e <;> rfl

@[simp] theorem Expression.isCallOrVariable_moved (e : Expression) :
    (e.moved move).isCallOrVariable = e.isCallOrVariable := by
  cases e <;> rfl

def Parameter.moved (param : Parameter) : Parameter := { param with name := param.name.moved move }

def Field.moved (field : Field) : Field :=
  ⟨field.name.moved move, field.newName.map (Token.moved move)⟩

mutual

/-- The statement with all its tokens moved. -/
def Statement.moved : Statement → Statement
  | .assign target operator value append constant =>
    .assign (target.moved move) (operator.moved move) (value.moved move) append constant
  | .define name params result body =>
    .define (name.moved move) (params.map (Parameter.moved move)) result body.moved
  | .ifElse word condition body elifs otherwise =>
    .ifElse (word.moved move) (condition.moved move) body.moved (Clause.allMoved elifs)
      (LastClause.optionMoved otherwise)
  | .whileLoop word condition body => .whileLoop (word.moved move) (condition.moved move) body.moved
  | .foreach word iterable body => .foreach (word.moved move) (iterable.moved move) body.moved
  | .switch word head cases default =>
    .switch (word.moved move) (head.moved move) (Clause.allMoved cases)
      (LastClause.optionMoved default)
  | .breakLoop word => .breakLoop (word.moved move)
  | .continueLoop word => .continueLoop (word.moved move)
  | .returnValue word value => .returnValue (word.moved move) (value.map (Expression.moved move))
  | .halt word value => .halt (word.moved move) (value.map (Expression.moved move))
  | .print word args => .print (word.moved move) (args.map (Expression.moved move))
  | .includes word libraries => .includes (word.moved move) (libraries.map (Token.moved move))
  | .select word distinct fields source filter merge target =>
    .select (word.moved move) distinct (fields.map (Field.moved move)) (source.moved move)
      (filter.map (Expression.moved move)) merge (target.moved move)
  | .call name args => .call (name.moved move) (args.map (Expression.moved move))
  | .indexedCall name index args =>
    .indexedCall (name.moved move) (index.map (Expression.moved move))
      (args.map (Expression.moved move))
  | .block body => .block body.moved

def Block.moved : Block → Block
  | .mk brace body => .mk (brace.moved move) (Statement.allMoved body)

def Statement.allMoved : List Statement → List Statement
  | [] => []
  | first :: rest => first.moved :: Statement.allMoved rest

def Clause.moved : Clause → Clause
  | .mk word guard body => .mk (word.moved move) (guard.moved move) body.moved

def Clause.allMoved : List Clause → List Clause
  | [] => []
  | first :: rest => first.moved :: Clause.allMoved rest

def LastClause.moved : LastClause → LastClause
  | .mk word body => .mk (word.moved move) body.moved

def LastClause.optionMoved : Option LastClause → Option LastClause
  | none => none
  | some clause => some clause.moved

def FunctionBody.moved : FunctionBody → FunctionBody
  | .block body => .block body.moved
  | .external module function => .external module function

end

theorem Statement.allMoved_eq (list : List Statement) :
    Statement.allMoved move list = list.map (Statement.moved move) := by
  induction list with
  | nil => rfl
  | cons first rest ih => simp [Statement.allMoved, ih]

theorem Clause.allMoved_eq (list : List Clause) :
    Clause.allMoved move list = list.map (Clause.moved move) := by
  induction list with
  | nil => rfl
  | cons first rest ih => simp [Clause.allMoved, ih]

def Program.moved (program : Program) : Program :=
  { program with statements := program.statements.map (Statement.moved move) }

def Unexpected.moved (unexpected : Unexpected) : Unexpected :=
  { unexpected with token := unexpected.token.map (Token.moved move) }

end

theorem Token.moved_id (token : Token) : token.moved id = token := rfl

theorem Parameter.moved_id (param : Parameter) : param.moved id = param := rfl

theorem Field.moved_id (field : Field) : field.moved id = field := by
  cases field with
  | mk name newName => cases newName <;> rfl

mutual

theorem Expression.moved_id (e : Expression) : e.moved id = e := by
  cases e with
  | plain name | literal token value => rfl
  | indexed name index => rw [Expression.moved, Expression.allMoved_id index, Token.moved_id]
  | call name args => rw [Expression.moved, Expression.allMoved_id args, Token.moved_id]
  | indexedCall name index args =>
    rw [Expression.moved, Expression.allMoved_id index, Expression.allMoved_id args, Token.moved_id]
  | unary operator operand => rw [Expression.moved, Expression.moved_id operand, Token.moved_id]
  | binary operator left right =>
    rw [Expression.moved, Expression.moved_id left, Expression.moved_id right, Token.moved_id]
  | isType word operand target => rw [Expression.moved, Expression.moved_id operand, Token.moved_id]
  | typeOf word operand => rw [Expression.moved, Expression.moved_id operand, Token.moved_id]

theorem Expression.allMoved_id (list : List Expression) : Expression.allMoved id list = list := by
  cases list with
  | nil => rfl
  | cons first rest =>
    rw [Expression.allMoved, Expression.moved_id first, Expression.allMoved_id rest]

end

/-- Where no item moves, no list and no option of items does. -/
theorem Expression.map_moved_id (list : List Expression) : list.map (Expression.moved id) = list :=
  (List.map_congr_left fun e _ => e.moved_id).trans (List.map_id _)

theorem Expression.optionMoved_id (e : Option Expression) : e.map (Expression.moved id) = e := by
  cases e with
  | none => rfl
  | some e => rw [Option.map_some, e.moved_id]

mutual

theorem Statement.moved_id (source : Statement) : source.moved id = source := by
  cases source with
  | assign target operator value append constant =>
    rw [Statement.moved, target.moved_id, value.moved_id, Token.moved_id]
  | define name params result body =>
    rw [Statement.moved, FunctionBody.moved_id body, Token.moved_id,
      (List.map_congr_left fun param _ => param.moved_id).trans (List.map_id params)]
  | ifElse word condition body elifs otherwise =>
    rw [Statement.moved, condition.moved_id, Block.moved_id body, Clause.allMoved_id elifs,
      LastClause.optionMoved_id otherwise, Token.moved_id]
  | whileLoop word condition body =>
    rw [Statement.moved, condition.moved_id, Block.moved_id body, Token.moved_id]
  | foreach word iterable body =>
    rw [Statement.moved, iterable.moved_id, Block.moved_id body, Token.moved_id]
  | switch word head cases default =>
    rw [Statement.moved, head.moved_id, Clause.allMoved_id cases, LastClause.optionMoved_id default,
      Token.moved_id]
  | breakLoop word | continueLoop word => rfl
  | returnValue word value => rw [Statement.moved, Expression.optionMoved_id, Token.moved_id]
  | halt word value => rw [Statement.moved, Expression.optionMoved_id, Token.moved_id]
  | print word args => rw [Statement.moved, Expression.map_moved_id, Token.moved_id]
  | includes word libraries =>
    rw [Statement.moved, Token.moved_id,
      (List.map_congr_left fun name _ => name.moved_id).trans (List.map_id libraries)]
  | select word distinct fields source filter merge target =>
    rw [Statement.moved, source.moved_id, target.moved_id, Expression.optionMoved_id,
      Token.moved_id,
      (List.map_congr_left fun field _ => field.moved_id).trans (List.map_id fields)]
  | call name args => rw [Statement.moved, Expression.map_moved_id, Token.moved_id]
  | indexedCall name index args =>
    rw [Statement.moved, Expression.map_moved_id, Expression.map_moved_id, Token.moved_id]
  | block body => rw [Statement.moved, Block.moved_id body]

theorem Block.moved_id (body : Block) : body.moved id = body := by
  cases body with
  | mk brace source => rw [Block.moved, Statement.allMoved_id source, Token.moved_id]

theorem Statement.allMoved_id (list : List Statement) : Statement.allMoved id list = list := by
  cases list with
  | nil => rfl
  | cons first rest => rw [Statement.allMoved, Statement.moved_id first, Statement.allMoved_id rest]

theorem Clause.moved_id (clause : Clause) : clause.moved id = clause := by
  cases clause with
  | mk word guard body => rw [Clause.moved, guard.moved_id, Block.moved_id body, Token.moved_id]

theorem Clause.allMoved_id (list : List Clause) : Clause.allMoved id list = list := by
  cases list with
  | nil => rfl
  | cons first rest => rw [Clause.allMoved, Clause.moved_id first, Clause.allMoved_id rest]

theorem LastClause.moved_id (clause : LastClause) : clause.moved id = clause := by
  cases clause with
  | mk word body => rw [LastClause.moved, Block.moved_id body, Token.moved_id]

theorem LastClause.optionMoved_id (clause : Option LastClause) :
    LastClause.optionMoved id clause = clause := by
  cases clause with
  | none => rfl
  | some clause => rw [LastClause.optionMoved, LastClause.moved_id clause]

theorem FunctionBody.moved_id (body : FunctionBody) : body.moved id = body := by
  cases body with
  | block body => rw [FunctionBody.moved, Block.moved_id body]
  | external module function => rfl

end

end Treecode
