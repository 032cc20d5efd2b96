import Treecode.Proofs.FollowedStatements

set_option autoImplicit false

namespace Treecode.Cursor

open Reader

variable {s : Script} {bound : Nat}

def nextStatement : Walk (Option Statement) := do
  if ← check .eof then return none else return some (← language.statement)

theorem statements_eq (before : List Statement) :
    language.statements before = nextStatement >>= fun item =>
      item.elim (pure before) fun next => language.statements (before ++ [next]) := by
  unfold nextStatement
  rw [Grammar.statements, bind_assoc]
  congr
  funext ended
  cases ended with
  | false =>
    rw [if_neg Bool.false_ne_true, if_neg Bool.false_ne_true, bind_assoc]
    rfl
  | true => rfl

def readNextStatement : Reader (Option Statement) := do
  match ← peek with
  | none => return none
  | some _ => return some (← Statement.read)

theorem turns_statement : Turns s bound nextStatement readNextStatement := by
  constructor
  · intro position within short
    have follows : Follows s bound language.statement Statement.read := follows_statement
    have next := follows.map some position within short
    unfold nextStatement
    rw [runFrom_bind, runFrom_check within, Script.kind_ahead]
    cases here : s.rest position with
    | nil => exact ⟨position, Nat.le_refl _, within, here.symm, rfl⟩
    | cons token left =>
      have mark := (Script.rest_succ here).2
      rw [here] at next
      rw [show nextKind (token :: left) = token.kind from rfl, decide_eq_false mark]
      exact next
  · intro position short next left read
    cases here : s.rest position with
    | nil =>
      rw [here] at read
      cases read
    | cons token others =>
      rw [here] at read
      obtain ⟨statement, between, first, last⟩ := bind_ok read
      cases first
      obtain ⟨statement, between, first, last⟩ := bind_ok last
      cases last
      exact Statement.length_of_read first

theorem follows_statements : Follows s bound (language.statements []) Statement.readAll :=
  Follows.collect statements_eq turns_statement

theorem rest_of_readAll {tokens rest : List Token} {statements : List Statement}
    (success : Statement.readAll tokens = .ok (statements, rest)) : rest = [] := by
  induction count : tokens.length using Nat.strongRecOn generalizing tokens statements with
  | ind count ih =>
    cases tokens with
    | nil =>
      rw [Statement.readAll_nil] at success
      cases success
      rfl
    | cons token tokens =>
      obtain ⟨statement, others, between, read, following, _⟩ := Statement.readAll_ok success
      exact ih between.length (count ▸ Statement.length_of_read read) following rfl

/-- The tokens of a parser are those that a reader has, the mark of the end, and what is behind
it. -/
theorem tokensOf_eq (tokens : List Token) :
    ∃ after, tokensOf tokens = (TokenList.ofTokens tokens).tokens ++
      (TokenList.ofTokens tokens).stop :: after := by
  unfold tokensOf TokenList.ofTokens
  generalize tokens.filter (!·.kind.isTrivia) = meaningful
  dsimp only
  cases found : meaningful.find? (·.kind = .eof) with
  | some stop =>
    obtain ⟨mark, front, back, rfl, before⟩ := List.find?_eq_some_iff_append.1 found
    have taken : (front ++ stop :: back).takeWhile (·.kind ≠ .eof) = front := by
      rw [List.takeWhile_append_of_pos, List.takeWhile_cons_of_neg, List.append_nil]
      · simpa using mark
      · intro token member
        simpa using before token member
    rw [taken, Option.getD_some]
    split
    · exact ⟨back, rfl⟩
    · exact ⟨back ++ [TokenList.stopAfter (front ++ stop :: back)], List.append_assoc ..⟩
  | none =>
    have plain := List.find?_eq_none.1 found
    have taken : meaningful.takeWhile (·.kind ≠ .eof) = meaningful := by
      apply List.takeWhile_eq_self_iff.2
      intro token member
      simpa using plain token member
    have unended : meaningful.getLast?.any (·.kind = .eof) = false := by
      cases last : meaningful.getLast? with
      | none => rfl
      | some token => exact Bool.eq_false_iff.2 (plain token (List.mem_of_getLast? last))
    rw [taken, unended, if_neg Bool.false_ne_true, Option.getD_none]
    exact ⟨[], rfl⟩

theorem unended_ofTokens {tokens : List Token} {token : Token}
    (member : token ∈ (TokenList.ofTokens tokens).tokens) : token.kind ≠ .eof := by
  have kept : token ∈ (tokens.filter (!·.kind.isTrivia)).takeWhile (·.kind ≠ .eof) := member
  have plain := List.mem_takeWhile_imp kept
  exact of_decide_eq_true plain

theorem ended_ofTokens (tokens : List Token) : (TokenList.ofTokens tokens).stop.kind = .eof := by
  unfold TokenList.ofTokens
  dsimp only
  cases found : (tokens.filter (!·.kind.isTrivia)).find? (·.kind = .eof) with
  | none =>
    unfold TokenList.stopAfter
    rw [Option.getD_none]
    split <;> rfl
  | some stop =>
    have mark := List.find?_some found
    exact of_decide_eq_true mark

/-- The first mark of the end is behind the tokens that a reader has. -/
theorem Script.findIdx?_tokens (s : Script) :
    s.tokens.findIdx? (·.kind = .eof) = some s.front.length := by
  have noEnd : s.front.findIdx? (·.kind = .eof) = none := by
    rw [List.findIdx?_eq_none_iff]
    intro token member
    exact decide_eq_false (s.unended token member)
  unfold Script.tokens
  rw [List.findIdx?_append, noEnd, List.findIdx?_cons, decide_eq_true s.ended, Option.none_or]
  simp

theorem exists_script (tokens : List Token) :
    ∃ s : Script, s.tokens = tokensOf tokens ∧ s.front = (TokenList.ofTokens tokens).tokens ∧
      s.stop = (TokenList.ofTokens tokens).stop := by
  obtain ⟨after, split⟩ := tokensOf_eq tokens
  exact ⟨⟨_, _, after, fun _ member => unended_ofTokens member, ended_ofTokens tokens⟩,
    split.symm, rfl, rfl⟩

/-- Parsing ends for every list of tokens, without a fault. It comes to the program that a reader
finds, with the cursor on the first mark of the end, or to the error of the reader. -/
theorem parse_total (tokens : List Token) (file : String) :
    ∃ outcome, parse tokens file = some outcome ∧
      match outcome with
      | .ok (program, position) =>
        Program.ofTokens tokens file = .ok program ∧
          (tokensOf tokens).findIdx? (·.kind = .eof) = some position
      | .error (.misfit token found expected) =>
        Program.ofTokens tokens file =
          .error (.unexpected ⟨file, token.position.line,
            token.position.column⟩ found token.text expected)
      | .error (.fault _) => False := by
  obtain ⟨s, held, front, stop⟩ := exists_script tokens
  have agree := (follows_statements.map (Program.mk file)) 0 (Nat.zero_le _)
    (Nat.lt_succ_self (s.rest 0).length)
  have start : s.rest 0 = (TokenList.ofTokens tokens).tokens := front
  unfold parse Program.ofTokens TokenList.read
  rw [← held]
  rw [start] at agree
  cases read : Statement.readAll (TokenList.ofTokens tokens).tokens with
  | error unexpected =>
    rw [bind_of_error read] at agree
    refine ⟨_, agree, ?_⟩
    rw [stop]
  | ok result =>
    obtain ⟨statements, left⟩ := result
    rw [bind_of_ok read] at agree
    obtain ⟨position, _, within, same, outcome⟩ := agree
    refine ⟨_, outcome, rfl, ?_⟩
    have taken : s.rest position = [] := same.symm.trans (rest_of_readAll read)
    have last : position = s.front.length := Nat.le_antisymm within (List.drop_eq_nil_iff.1 taken)
    rw [s.findIdx?_tokens, last]

end Treecode.Cursor
