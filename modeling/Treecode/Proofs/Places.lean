import Treecode.Proofs.StatementMovement
import Treecode.Proofs.Tiling

set_option autoImplicit false

namespace Treecode

/-- Whether an error was met on the way from a text to its tokens. -/
def Error.isLexical : Error → Bool
  | .lexical _ _ _ => true
  | _ => false

def Position.In (p : Position) (text : String) : Prop :=
  ∃ front rest : String, text = front ++ rest ∧ p = .counted front

/-- An error at a place points into a text under a file name: the place is one in the text, and
unless there is no token yet a token stands there. -/
structure PointsInto (text file : String) (error : Error) (place : Location) : Prop where
  named : place.file = file
  inside : ∃ p : Position, p.In text ∧ p.line = place.line ∧ p.column = place.column
  token : error.isLexical = false → ∃ tokens, tokenize text file = .ok tokens ∧
    ∃ token ∈ tokens, token.position.line = place.line ∧ token.position.column = place.column

/-- The move that leaves alone just the given places. -/
def Position.leaving (places : List Position) (p : Position) : Position :=
  if p ∈ places then p else { p with line := p.line + 1 }

/-- The move that leaves alone just the places of the tokens of a text. -/
def leavingTokens (tokens : List Token) : Position → Position :=
  Position.leaving (tokens.map Token.position)

theorem Position.leaving_eq {places : List Position} {p : Position} :
    leaving places p = p ↔ p ∈ places := by
  unfold leaving
  split
  · rename_i member
    exact iff_of_true rfl member
  · rename_i other
    refine iff_of_false (fun same => ?_) other
    have lines : p.line + 1 = p.line := congrArg Position.line same
    omega

/-- A token is left alone when it stands where one of the tokens stands. -/
theorem moved_leavingTokens {tokens : List Token} {token : Token} :
    token.moved (leavingTokens tokens) = token ↔
      ∃ other ∈ tokens, other.position = token.position := by
  have whole : token.moved (leavingTokens tokens) = token ↔
      leavingTokens tokens token.position = token.position := by
    constructor
    · exact congrArg Token.position
    · intro same
      unfold Token.moved
      rw [same]
  rw [whole, leavingTokens, Position.leaving_eq, List.mem_map]

theorem map_leavingTokens {tokens nonempty : List Token}
    (among : ∀ token ∈ nonempty, token ∈ tokens) :
    nonempty.map (Token.moved (leavingTokens tokens)) = nonempty := by
  refine (List.map_congr_left fun token member => ?_).trans (List.map_id _)
  exact moved_leavingTokens.2 ⟨token, among token member, rfl⟩

namespace Lexer

theorem start_deepen {change : Nat → Nat} {openings : List Opening} {opening : Opening}
    (member : opening ∈ deepen change openings) : ∃ old ∈ openings, old.start = opening.start := by
  cases openings with
  | nil => cases member
  | cons first outer =>
    rcases List.mem_cons.1 member with rfl | later
    · exact ⟨first, List.mem_cons_self .., rfl⟩
    · exact ⟨opening, List.mem_cons_of_mem _ later, rfl⟩

/-- An interpolation that is open after a token was open before it, or its piece before is that
token. -/
theorem start_lexemeAt {openings : List Opening} {p : Position} {c : Char} {rest : List Char}
    {lexeme : Lexeme}
    (found : lexemeAt openings p c rest = .ok lexeme) {opening : Opening}
    (member : opening ∈ lexeme.openings) :
    opening.start = p ∨ ∃ old ∈ openings, old.start = opening.start := by
  have opened : ∀ {quote : Char} {outer : List Opening}, outer ⊆ openings →
      opening ∈ (⟨quote, 0, p⟩ :: outer : List Opening) →
      opening.start = p ∨ ∃ old ∈ openings, old.start = opening.start := by
    intro quote outer known among
    rcases List.mem_cons.1 among with rfl | before
    · exact .inl rfl
    · exact .inr ⟨opening, known before, rfl⟩
  unfold lexemeAt at found
  split at found
  · split at found
    · cases found
    · cases found
      exact opened (List.subset_cons_self _ _) member
    · cases found
      exact .inr ⟨opening, List.mem_cons_of_mem _ member, rfl⟩
  · split at found
    · split at found
      · cases found
      · cases found
        exact opened (List.Subset.refl _) member
      · cases found
        exact .inr ⟨opening, member, rfl⟩
    · split at found
      · cases found
      · cases found
        exact .inr (start_deepen (show opening ∈ deepen (· + 1) openings from member))
      · cases found
        exact .inr (start_deepen (show opening ∈ deepen (· - 1) openings from member))
      · cases found
        exact .inr ⟨opening, member, rfl⟩

/-- A fault is at a character of the text or at its end, or where an interpolation was open before
it. -/
theorem fault_of_tokensFrom {openings : List Opening} {p q : Position} {text : List Char}
    {fault : LexicalFault} (failed : tokensFrom openings p text = .error (q, fault)) :
    (∃ opening ∈ openings, opening.start = q) ∨ ∃ front rest, text = front ++ rest ∧
    q = p.after front := by
  induction length : text.length using Nat.strongRecOn generalizing openings p text with
  | ind count ih =>
    rw [tokensFrom.eq_def] at failed
    cases text with
    | nil =>
      cases openings with
      | nil => cases failed
      | cons opening outer =>
        cases failed
        exact .inl ⟨opening, List.mem_cons_self .., rfl⟩
    | cons c rest =>
      dsimp only at failed
      split at failed
      · cases failed
        exact .inr ⟨[], c :: rest, rfl, rfl⟩
      · rename_i lexeme found
        split at failed
        · rename_i following
          cases failed
          have shorter : (rest.drop lexeme.more).length < count := by
            simp only [List.length_drop, ← length, List.length_cons]
            omega
          have whole : c :: rest = (c :: rest.take lexeme.more) ++ rest.drop lexeme.more := by
            rw [List.cons_append, List.take_append_drop]
          rcases ih _ shorter following rfl with ⟨opening, member, same⟩ |
            ⟨front, last, split, same⟩
          · rcases start_lexemeAt found member with here | ⟨old, known, start⟩
            · exact .inr ⟨[], c :: rest, rfl, same.symm.trans here⟩
            · exact .inl ⟨old, known, start.trans same⟩
          · refine .inr ⟨(c :: rest.take lexeme.more) ++ front, last, ?_, ?_⟩
            · rw [whole, split, List.append_assoc]
            · rw [same, Position.after_append]
        · cases failed

end Lexer

/-- The place after some characters of a text is in the text. -/
theorem Position.in_of_after {text : String} {front rest : List Char}
    (split : text.toList = front ++ rest) : (start.after front).In text := by
  refine ⟨String.ofList front, String.ofList rest, ?_, after_start front⟩
  rw [← String.toList_inj, String.toList_append, String.toList_ofList, String.toList_ofList, split]

theorem pointsInto_tokenize {text file : String} {error : Error}
    (failed : tokenize text file = .error error)
    {place : Location} (located : error.location? = some place) :
    PointsInto text file error place := by
  unfold tokenize at failed
  split at failed
  · cases failed
  · rename_i p fault found
    cases failed
    cases located
    refine ⟨rfl, ⟨p, ?_, rfl, rfl⟩, nofun⟩
    rcases Lexer.fault_of_tokensFrom found with ⟨opening, member, _⟩ | ⟨front, rest, split, rfl⟩
    · cases member
    · exact Position.in_of_after split

/-- Where a token stands is a place in its text. -/
theorem position_in {text file : String} {tokens : List Token}
    (success : tokenize text file = .ok tokens)
    {token : Token} (member : token ∈ tokens) : token.position.In text := by
  obtain ⟨before, after, split⟩ := List.append_of_mem member
  obtain ⟨pieces, stop, whole, joined, _, _, unspelled, _, standing⟩ := tokenize_tiles success
  refine ⟨Token.joined before, Token.joined (token :: after), ?_, standing before token after split⟩
  have bare : stop.text = "" := by
    unfold Token.text
    rw [unspelled]
    rfl
  have tiled : Token.joined tokens = text := by
    rw [whole, ← joined, ← String.toList_inj, Token.toList_joined, Token.toList_joined,
      List.flatMap_append]
    simp only [List.flatMap_cons, List.flatMap_nil, bare, String.toList_empty, List.append_nil]
  rw [← tiled, split, ← String.toList_inj, String.toList_append]
  simp only [Token.toList_joined, List.flatMap_append]

theorem pointsInto_of_token {text file : String} {error : Error} {place : Location}
    {tokens : List Token} (success : tokenize text file = .ok tokens) (named : place.file = file)
    (standing : ∃ token ∈ tokens, token.position.line = place.line ∧
      token.position.column = place.column) :
    PointsInto text file error place := by
  obtain ⟨token, member, line, column⟩ := standing
  exact ⟨named, ⟨token.position, position_in success member, line, column⟩,
    fun _ => ⟨tokens, success, token, member, line, column⟩⟩

/-- What a program is read from are tokens of its text, the mark of the end among them. -/
theorem ofTokens_among {text file : String} {tokens : List Token}
    (success : tokenize text file = .ok tokens) :
    (∀ token ∈ (TokenList.ofTokens tokens).tokens, token ∈ tokens) ∧
    (TokenList.ofTokens tokens).stop ∈ tokens := by
  have meaningful := (TokenList.meaningful_tokenize success).1
  have among : ∀ token ∈ (TokenList.ofTokens tokens).tokens ++ [(TokenList.ofTokens tokens).stop],
      token ∈ tokens := by
    intro token member
    rw [← meaningful] at member
    exact (List.mem_filter.1 member).1
  exact ⟨fun token member => among token (List.mem_append_left _ member),
    among _ (List.mem_append_right _ (List.mem_singleton.2 rfl))⟩

/-- What is read from tokens that a move leaves alone is left alone by it. -/
theorem outcome_of_moved {move : Position → Position} {tokens : List Token}
    (still : tokens.map (Token.moved move) = tokens) :
    Statement.readAll tokens =
      Reader.outcomeMoved move (List.map (Statement.moved move)) (Statement.readAll tokens) := by
  have moves := Statement.moves_readAll move tokens
  rwa [still] at moves

/-- A program is read under the name of its file, and each of its tokens stands where a token of its
text stands. -/
theorem moved_ofSource {text file : String} {tokens : List Token} {program : Program}
    (success : tokenize text file = .ok tokens) (read : Program.ofSource text file = .ok program) :
    program.file = file ∧
      Statement.allMoved (leavingTokens tokens) program.statements = program.statements := by
  unfold Program.ofSource at read
  rw [success] at read
  dsimp only at read
  unfold Program.ofTokens TokenList.read at read
  have outcome := outcome_of_moved (map_leavingTokens (ofTokens_among success).1)
  cases result : Statement.readAll (TokenList.ofTokens tokens).tokens with
  | ok yield =>
    rw [result] at read outcome
    cases read
    refine ⟨rfl, ?_⟩
    rw [Statement.allMoved_eq]
    exact (congrArg Prod.fst (Except.ok.inj outcome)).symm
  | error unexpected =>
    rw [result] at read
    cases read

theorem pointsInto_ofSource {text file : String} {error : Error}
    (failed : Program.ofSource text file = .error error)
    {place : Location} (located : error.location? = some place) :
    PointsInto text file error place := by
  unfold Program.ofSource at failed
  split at failed
  · rename_i tokens success
    unfold Program.ofTokens TokenList.read at failed
    have outcome := outcome_of_moved (map_leavingTokens (ofTokens_among success).1)
    cases result : Statement.readAll (TokenList.ofTokens tokens).tokens with
    | ok yield =>
      rw [result] at failed
      cases failed
    | error unexpected =>
      rw [result] at failed outcome
      cases failed
      cases located
      refine pointsInto_of_token success rfl ?_
      have still : unexpected = unexpected.moved (leavingTokens tokens) := Except.error.inj outcome
      cases stands : unexpected.token with
      | none => exact ⟨_, (ofTokens_among success).2, rfl, rfl⟩
      | some token =>
        have token_still : token = token.moved (leavingTokens tokens) := by
          have both := congrArg Unexpected.token still
          rw [Unexpected.moved, stands] at both
          exact Option.some.inj both
        obtain ⟨other, member, same⟩ := moved_leavingTokens.1 token_still.symm
        exact ⟨other, member, congrArg Position.line same, congrArg Position.column same⟩
  · rename_i error' failed'
    cases failed
    exact pointsInto_tokenize failed' located

end Treecode
