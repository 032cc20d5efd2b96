import Treecode.Proofs.Boundaries
import Treecode.Proofs.Tiling

set_option autoImplicit false

namespace Treecode

namespace TokenList

/-- The words of tokens are told by their kinds and texts. -/
theorem wordsOf_eq (tokens : List Token) :
    wordsOf tokens = ((tokens.map Token.word).filter (!·.1.isTrivia)).takeWhile (·.1 ≠ .eof) := by
  rw [List.filter_map, List.takeWhile_map]
  rfl

/-- One more token in front says the same in front of the same words. -/
theorem wordsOf_cons_congr {tokens tokens' : List Token} (token : Token)
    (same : wordsOf tokens' = wordsOf tokens) :
    wordsOf (token :: tokens') = wordsOf (token :: tokens) := by
  rw [wordsOf_eq, wordsOf_eq] at same
  rw [wordsOf_eq, wordsOf_eq, List.map_cons, List.map_cons, List.filter_cons, List.filter_cons]
  split
  · rw [List.takeWhile_cons, List.takeWhile_cons, same]
  · exact same

end TokenList

namespace Lexer

open Text TokenList

theorem holes_eq_cons {openings : List Opening} {hole : Hole} {outer : List Hole}
    (same : holes openings = hole :: outer) :
    ∃ start inner, openings = ⟨hole.quote, hole.depth, start⟩ :: inner ∧ holes inner = outer := by
  obtain ⟨opening, inner, rfl, opened, outside⟩ := List.map_eq_cons_iff.1 same
  subst opened
  exact ⟨opening.start, inner, rfl, outside⟩

theorem holes_deepen {openings openings' : List Opening} {change : Nat → Nat}
    (same : holes openings' = holes openings) :
    holes (deepen change openings') = holes (deepen change openings) := by
  cases openings with
  | nil =>
    cases List.map_eq_nil_iff.1 same
    rfl
  | cons opening outer =>
    obtain ⟨start, outer', rfl, outside⟩ := holes_eq_cons same
    exact congrArg (_ :: ·) outside

/-- What starts at a place is told by the text there and by the quotes and the depths of the
interpolations that are open. -/
theorem lexemeAt_elsewhere {openings openings' : List Opening} {p : Position} {c : Char}
    {rest : List Char} {lexeme : Lexeme} (same : holes openings' = holes openings) (p' : Position)
    (found : lexemeAt openings p c rest = .ok lexeme) :
    ∃ openings'', lexemeAt openings' p' c rest = .ok ⟨lexeme.kind, lexeme.more, openings''⟩ ∧
      holes openings'' = holes lexeme.openings := by
  unfold lexemeAt at found
  split at found
  · next quote start outer =>
    obtain ⟨start', outer', rfl, outside⟩ := holes_eq_cons same
    split at found
    · cases found
    · next length ended =>
      cases found
      exact ⟨⟨quote, 0, p'⟩ :: outer', by simp only [lexemeAt, ended], congrArg (_ :: ·) outside⟩
    · next length ended =>
      cases found
      exact ⟨outer', by simp only [lexemeAt, ended], outside⟩
  · next closes =>
    have closes' : ∀ quote start outer, c = '}' → openings' = ⟨quote, 0, start⟩ :: outer →
        False := by
      rintro quote start outer brace rfl
      obtain ⟨start', outer', rfl, _⟩ := holes_eq_cons same.symm
      exact closes _ _ _ brace rfl
    rw [lexemeAt.eq_2 _ _ _ _ closes']
    split at found
    · next quoted =>
      rw [if_pos quoted]
      split at found
      · cases found
      · next length ended =>
        cases found
        exact ⟨⟨c, 0, p'⟩ :: openings', rfl, congrArg (_ :: ·) same⟩
      · next length ended =>
        cases found
        exact ⟨openings', rfl, same⟩
    · next unquoted =>
      rw [if_neg unquoted]
      split at found
      · cases found
      all_goals cases found
      · exact ⟨_, rfl, holes_deepen same⟩
      · exact ⟨_, rfl, holes_deepen same⟩
      · next kind more noLeft noRight plainly =>
        exact ⟨openings', rfl, same⟩

theorem tokensFrom_elsewhere {openings openings' : List Opening} {p : Position} {text : List Char}
    {tokens : List Token} (same : holes openings' = holes openings) (p' : Position)
    (success : tokensFrom openings p text = .ok tokens) :
    ∃ tokens', tokensFrom openings' p' text = .ok tokens' ∧
      tokens'.map Token.word = tokens.map Token.word := by
  induction openings, p, text, tokens,
      success using tokensFrom_induct generalizing openings' p' with
  | stop p =>
    cases List.map_eq_nil_iff.1 same
    exact ⟨[⟨.eof, none, p'⟩], by rw [tokensFrom], rfl⟩
  | lexeme openings p c rest lexeme tokens found _ _ ih =>
    obtain ⟨inner, found', same'⟩ := lexemeAt_elsewhere same p' found
    obtain ⟨tokens', tail, words⟩ := ih same' (p'.after (c :: rest.take lexeme.more))
    refine ⟨⟨lexeme.kind, some (String.ofList (c :: rest.take lexeme.more)), p'⟩ :: tokens', ?_, ?_⟩
    · rw [tokensFrom, found']
      simp only [tail]
    · rw [List.map_cons, List.map_cons, words]
      rfl

/-- Behind white space a text goes on with white space or as it did. -/
theorem head?_spaced {space : List Char} (blank : ∀ c ∈ space, isBlank c) (front back : List Char) :
    ∀ e ∈ (front ++ (space ++ back)).head?, isBlank e = false → (front ++ back).head? = some e := by
  intro e member solid
  cases front with
  | cons d front => exact member
  | nil =>
    cases space with
    | nil => exact member
    | cons d space =>
      cases Option.mem_some.1 member
      rw [blank e (List.mem_cons_self ..)] at solid
      cases solid

/-- White space, and a comment to the end of its line, in front of more white space: both say
nothing. -/
theorem tokensFrom_taken {openings : List Opening} {p : Position} {c : Char}
    {body more space : List Char} {lexeme : Lexeme} {tokens : List Token}
    (takes : isBlank c ∨ c = '#' ∨ c = '/' ∧ body.head? = some '/')
    (found : lexemeAt openings p c (body ++ more) = .ok lexeme) (length : lexeme.more = body.length)
    (following : tokensFrom lexeme.openings (p.after (c :: body)) more = .ok tokens)
    (blank : ∀ c ∈ space, isBlank c) :
    lexeme.kind.isTrivia ∧ ∃ tokens', tokensFrom openings p (c :: (body ++ (space ++ more))) =
      .ok tokens' ∧ wordsOf tokens' = wordsOf tokens := by
  rcases takes with start | start
  · rw [lexemeAt_blank _ _ start] at found
    cases found
    refine ⟨rfl, ?_⟩
    have blanks := (takeWhile_eq_iff.1 (takeWhile_of_length length)).1
    have all : ∀ d ∈ c :: (body ++ space), isBlank d := by
      simp only [List.mem_cons, List.mem_append]
      rintro d (rfl | inside | added)
      exacts [start, blanks d inside, blank d added]
    obtain ⟨tokens', tail, words⟩ :=
      tokensFrom_elsewhere rfl (p.after (c :: (body ++ space))) following
    obtain ⟨whole, lexed, same⟩ := tokensFrom_append_blank all tail
    refine ⟨whole, by simpa using lexed, ?_⟩
    rw [wordsOf, same, ← wordsOf, wordsOf_eq, words, ← wordsOf_eq]
  · have opens (back : List Char) : c = '#' ∨ c = '/' ∧ (body ++ back).head? = some '/' := by
      refine start.imp_right (And.imp_right fun slash => ?_)
      rw [List.head?_append, slash]
      rfl
    rw [lexemeAt_comment _ (opens more)] at found
    cases found
    refine ⟨rfl, ?_⟩
    obtain ⟨inLine, stops⟩ := takeWhile_eq_iff.1 (takeWhile_of_length length)
    -- the comment takes the white space up to its first new line
    obtain ⟨line, others, rfl, inLine', stops'⟩ := exists_run (· ≠ '\n') space
    have taken : (body ++ (line ++ (others ++ more))).takeWhile (· ≠ '\n') = body ++ line := by
      rw [← List.append_assoc, takeWhile_eq_iff]
      refine ⟨List.forall_mem_append.2 ⟨inLine, inLine'⟩, fun d member => ?_⟩
      cases others with
      | nil => exact stops d member
      | cons e others => exact stops' d member
    have blank' : ∀ d ∈ others, isBlank d := fun d member =>
      blank d (List.mem_append_right _ member)
    obtain ⟨tokens', tail, words⟩ :=
      tokensFrom_elsewhere rfl ((p.after (c :: (body ++ line))).after others) following
    obtain ⟨whole, lexed, same⟩ := tokensFrom_append_blank blank' tail
    refine ⟨⟨.comment, some (String.ofList (c :: (body ++ line))), p⟩ :: whole, ?_, ?_⟩
    · rw [List.append_assoc, ← List.append_assoc body]
      refine tokensFrom_lexeme ?_ lexed
      rw [List.append_assoc, lexemeAt_comment _ (opens _), taken]
    · rw [wordsOf_trivia _ rfl, wordsOf, same, ← wordsOf, wordsOf_eq, words, ← wordsOf_eq]

/-- A text with white space between two of its tokens says what the text says. -/
theorem tokensFrom_spaced {openings : List Opening} {p : Position} {text space : List Char}
    {tokens front back : List Token} (blank : ∀ c ∈ space, isBlank c)
    (success : tokensFrom openings p text = .ok tokens) (split : tokens = front ++ back)
    (inner : back ≠ []) :
    ∃ tokens', tokensFrom openings p
        (front.flatMap (·.text.toList) ++ (space ++ back.flatMap (·.text.toList))) = .ok tokens' ∧
      wordsOf tokens' = wordsOf tokens := by
  induction front generalizing openings p text tokens with
  | nil =>
    have whole := flatMap_text_of_tokensFrom success
    rw [split, List.nil_append] at whole
    obtain ⟨tokens', tail, words⟩ := tokensFrom_elsewhere rfl (p.after space) success
    obtain ⟨tokens'', lexed, same⟩ := tokensFrom_append_blank blank tail
    refine ⟨tokens'', by rw [whole]; exact lexed, ?_⟩
    rw [wordsOf, same, ← wordsOf, wordsOf_eq, words, ← wordsOf_eq]
  | cons first front ih =>
    cases text with
    | nil =>
      have single := congrArg List.length (split.symm.trans (tokensFrom_nil_ok success).2)
      have positive := List.length_pos_iff.2 inner
      simp only [List.length_append, List.length_cons, List.length_nil] at single
      omega
    | cons c rest =>
      obtain ⟨lexeme, more, found, following, rfl⟩ := tokensFrom_cons_ok success
      rw [List.cons_append, List.cons.injEq] at split
      obtain ⟨rfl, rfl⟩ := split
      obtain ⟨body, behind, rfl, length⟩ := exists_cut found
      rw [length, List.take_left, List.drop_left] at following
      rw [length, List.take_left, List.flatMap_cons, Token.text, Option.getD_some,
        String.toList_ofList, List.cons_append, List.cons_append, List.append_assoc]
      have texts := flatMap_text_of_tokensFrom following
      rw [List.flatMap_append] at texts
      obtain ⟨tokens', tail, words⟩ := ih following rfl
      -- a token that stays as it is has the spaced rest behind it
      have stays (alike : Alike c body behind
          (front.flatMap (·.text.toList) ++ (space ++ back.flatMap (·.text.toList)))) :
          tokensFrom openings p (c :: (body ++ (front.flatMap (·.text.toList) ++
            (space ++ back.flatMap (·.text.toList))))) =
          .ok (⟨lexeme.kind, some (String.ofList (c :: body)), p⟩ :: tokens') :=
        tokensFrom_lexeme (by rw [← length]; exact lexemeAt_alike alike length found) tail
      cases before : front.flatMap (·.text.toList) with
      | cons d others =>
        rw [before] at stays texts
        rw [← texts] at stays
        exact ⟨_, stays (.same (head?_spaced blank others _)), wordsOf_cons_congr _ words⟩
      | nil =>
        rw [before, List.nil_append] at stays texts
        rw [texts] at stays ⊢
        rw [List.nil_append]
        by_cases takes : isBlank c ∨ c = '#' ∨ c = '/' ∧ body.head? = some '/'
        · obtain ⟨trivia, whole, lexed, same⟩ := tokensFrom_taken takes found length following blank
          exact ⟨whole, lexed, by rw [same, wordsOf_trivia _ trivia]⟩
        · cases space with
          | nil => exact ⟨_, tokensFrom_lexeme (by rw [← length]; exact found) following, rfl⟩
          | cons d space =>
            have ends : ¬ takesBlank c body d := fun goes => takes (goes.imp_right And.left)
            exact ⟨_, stays (.blank (blank d (List.mem_cons_self ..)) ends),
              wordsOf_cons_congr _ words⟩

end Lexer

/-- The words of a script, and the mark of its end. -/
theorem TokenList.words_tokenize {source file : String} {tokens : List Token}
    (success : tokenize source file = .ok tokens) :
    (tokens.filter (!·.kind.isTrivia)).map Token.word = wordsOf tokens ++ [(.eof, "")] := by
  obtain ⟨split, _, stop, unspelled⟩ := meaningful_tokenize success
  rw [split, List.map_append, wordsOf, List.map_singleton, Token.word, Token.text, stop, unspelled]
  rfl

/-- White space can stand between any two tokens of a script, before the first one and before its
end. With white space put in there the script has, but for white space and comments, tokens of the
same kinds and texts in the same order. -/
theorem tokenize_spaced {source file : String} {front back : List Token}
    (lexed : tokenize source file = .ok (front ++ back)) (inner : back ≠ []) {space : String}
    (blank : ∀ c ∈ space.toList, Text.isBlank c) :
    source = Token.joined front ++ Token.joined back ∧
      ∃ tokens, tokenize (Token.joined front ++ space ++ Token.joined back) file = .ok tokens ∧
        (tokens.filter (!·.kind.isTrivia)).map Token.word =
          ((front ++ back).filter (!·.kind.isTrivia)).map Token.word := by
  have read : Lexer.tokensFrom [] .start source.toList = .ok (front ++ back) := by
    unfold tokenize at lexed
    split at lexed
    · next found => rw [found, Except.ok.inj lexed]
    · cases lexed
  obtain ⟨tokens, spaced, words⟩ := Lexer.tokensFrom_spaced blank read rfl inner
  have lexed' : tokenize (Token.joined front ++ space ++ Token.joined back) file = .ok tokens := by
    unfold tokenize
    rw [String.toList_append, String.toList_append, Token.toList_joined, Token.toList_joined,
      List.append_assoc, spaced]
  refine ⟨?_, tokens, lexed', ?_⟩
  · rw [← String.toList_inj, String.toList_append, Token.toList_joined, Token.toList_joined,
      ← List.flatMap_append, Lexer.flatMap_text_of_tokensFrom read]
  · rw [TokenList.words_tokenize lexed', TokenList.words_tokenize lexed, words]

/-- White space behind the number of an interpolation, in front of the point. -/
theorem tokenize_spaced_interpolated :
    ∃ front back tokens, tokenize "'a\x7b1.b\x7d'" "main.mcl" = .ok (front ++ back) ∧ back ≠ [] ∧
      (∀ c ∈ "\n ".toList, Text.isBlank c) ∧
      Token.joined front ++ "\n " ++ Token.joined back = "'a\x7b1\n .b\x7d'" ∧
      tokenize (Token.joined front ++ "\n " ++ Token.joined back) "main.mcl" = .ok tokens ∧
      (tokens.filter (!·.kind.isTrivia)).map Token.word =
        ((front ++ back).filter (!·.kind.isTrivia)).map Token.word := by
  have lexed : tokenize "'a\x7b1.b\x7d'" "main.mcl" = .ok
      ([⟨.stringInterpolationStart, some "'a\x7b", ⟨1, 1, 0⟩⟩, ⟨.integer, some "1", ⟨1, 4, 3⟩⟩] ++
        [⟨.dot, some ".", ⟨1, 5, 4⟩⟩, ⟨.identifier, some "b", ⟨1, 6, 5⟩⟩,
          ⟨.stringInterpolationEnd, some "\x7d'", ⟨1, 7, 6⟩⟩, ⟨.eof, none, ⟨1, 9, 8⟩⟩]) := by cbv
  have blank : ∀ c ∈ "\n ".toList, Text.isBlank c :=
    List.all_eq_true.1 (by rfl : "\n ".toList.all Text.isBlank = true)
  obtain ⟨_, tokens, lexed', words⟩ := tokenize_spaced lexed (by decide) blank
  exact ⟨_, _, tokens, lexed, by decide, blank, by decide, lexed', words⟩

end Treecode
