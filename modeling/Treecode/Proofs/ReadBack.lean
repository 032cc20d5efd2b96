import Treecode.Proofs.ExpressionWords
import Treecode.Proofs.SelfEqual
import Treecode.Proofs.Tiling

set_option autoImplicit false

namespace Treecode

namespace Value

mutual

theorem hasNumbers_of_isLiteral (v : Value) (literal : v.IsLiteral) : v.HasNumbers := by
  cases v with
  | nil | integer _ | boolean _ | string _ => trivial
  | float x =>
    have finite := literal.1
    simp only [Double.isFinite, decide_eq_true_eq] at finite
    exact decide_eq_false (Nat.not_lt.2 finite.le)
  | array items => exact allNumbers_of_allLiteral items literal
  | record entries => exact entriesNumbers_of_entriesLiteral entries literal.1

theorem allNumbers_of_allLiteral (items : List Value) (literal : AllLiteral items) :
    AllNumbers items := by
  cases items with
  | nil => trivial
  | cons item items =>
    exact ⟨hasNumbers_of_isLiteral item literal.1, allNumbers_of_allLiteral items literal.2⟩

theorem entriesNumbers_of_entriesLiteral (entries : List (Value × Value))
    (literal : EntriesLiteral entries) : EntriesNumbers entries := by
  match entries with
  | [] => trivial
  | (key, value) :: entries =>
    exact ⟨hasNumbers_of_isLiteral key literal.2.1, hasNumbers_of_isLiteral value literal.2.2.1,
      entriesNumbers_of_entriesLiteral entries literal.2.2.2⟩

end

/-- A value that can be written as a literal holds a number wherever it holds a float, so it equals
itself. -/
theorem equals_self (v : Value) (literal : v.IsLiteral) : v.equals v = true :=
  v.equals_of_hasNumbers (hasNumbers_of_isLiteral v literal)

/-- The text of a value that can be written as a literal has tokens. An expression that is read from
them is that literal, with the very same value, which equals itself; and of the tokens that carry
meaning only the mark of the end is left. -/
theorem text_readsBack (v : Value) (literal : v.IsLiteral) (file : String) :
    ∃ tokens token stop, tokenize v.text file = .ok tokens ∧
      tokens.filter (!·.kind.isTrivia) = (TokenList.ofTokens tokens).tokens ++ [stop] ∧
        stop.kind = .eof ∧
      Expression.read (TokenList.ofTokens tokens).tokens = .ok (.literal token v, []) ∧
      v.equals v = true := by
  have reads := (prints v literal).reads [] [] (fun _ missing => by cases missing) Lexer.reads_nil
  rw [List.append_nil, List.append_nil] at reads
  obtain ⟨tokens, lexed, words⟩ := reads .start
  have success : tokenize v.text file = .ok tokens := by
    unfold tokenize
    rw [lexed]
  obtain ⟨split, _, last, _⟩ := TokenList.meaningful_tokenize success
  -- the words of the value are all words of its text, so nothing follows the literal
  have all : (TokenList.ofTokens tokens).tokens.map Token.word = v.words ++ [] := by
    rw [List.append_nil]
    exact words
  obtain ⟨e, rest, read, left, token, rfl, _⟩ :=
    Expression.takes_value v literal _ _ [] (Nat.lt_succ_self _) all (by decide)
  rw [List.map_eq_nil_iff.1 left] at read
  exact ⟨tokens, token, _, success, split, last, read, equals_self v literal⟩

/-- A record with a brace and a quote in a key, an array with a float and an empty record inside. -/
theorem text_readsBack_record :
    ∃ v : Value,
      v = .record [(.string "\x7b\"", .array [.integer 1, .float ⟨0x3FF8000000000000⟩, .nil]),
        (.integer 2, .array [.record []])] ∧ v.IsLiteral ∧
      ∃ tokens token stop, tokenize v.text "main.mcl" = .ok tokens ∧
        tokens.filter (!·.kind.isTrivia) = (TokenList.ofTokens tokens).tokens ++ [stop] ∧
          stop.kind = .eof ∧
        Expression.read (TokenList.ofTokens tokens).tokens = .ok (.literal token v, []) ∧
        v.equals v = true := by
  have literal :
    (Value.record [(.string "\x7b\"", .array [.integer 1, .float ⟨0x3FF8000000000000⟩, .nil]),
      (.integer 2, .array [.record []])]).IsLiteral := by
    have one : (Value.integer 1).IsLiteral := (by decide : 0 ≤ (1 : Int64).toInt)
    have two : (Value.integer 2).IsLiteral := (by decide : 0 ≤ (2 : Int64).toInt)
    have float : (Value.float ⟨0x3FF8000000000000⟩).IsLiteral := ⟨by decide, by decide⟩
    have empty : (Value.record []).IsLiteral := ⟨trivial, .nil⟩
    exact ⟨⟨rfl, trivial, ⟨one, float, trivial, trivial⟩, rfl, two, ⟨empty, trivial⟩, trivial⟩, by
      decide⟩
  exact ⟨_, rfl, literal, text_readsBack _ literal "main.mcl"⟩

end Value

end Treecode
