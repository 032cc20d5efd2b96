import Treecode.Proofs.Interpolations

set_option autoImplicit false

namespace Treecode.Lexer

open Text

/-- Whether a token that starts so goes on over a blank: white space does, and so does a comment up
to the end of its line. -/
def takesBlank (c : Char) (body : List Char) (blank : Char) : Prop :=
  isBlank c ∨ (c = '#' ∨ c = '/' ∧ body.head? = some '/') ∧ blank ≠ '\n'

/-- A text that may stand behind a token instead of another one: it starts with white space that the
token does not go on over, or with the same character and then with the same one again or with white
space. -/
inductive Alike (c : Char) (body : List Char) : List Char → List Char → Prop where
  | blank {more back : List Char} {d : Char} (blank : isBlank d) (ends : ¬ takesBlank c body d) :
      Alike c body more (d :: back)
  | same {d : Char} {more more' : List Char}
      (second : ∀ e ∈ more'.head?, isBlank e = false → more.head? = some e) :
      Alike c body (d :: more) (d :: more')

namespace Alike

variable {c : Char} {body more more' : List Char}

/-- What does not stand first behind the token, and is not white space, does not do so in the other
text. -/
theorem first {property : Char → Bool} (alike : Alike c body more more')
    (blanks : ∀ d, isBlank d → property d = false) (stops : ∀ d ∈ more.head?, property d = false) :
    ∀ d ∈ more'.head?, property d = false := by
  intro d member
  cases alike with
  | blank blank ends =>
    cases Option.mem_some.1 member
    exact blanks d blank
  | same second => exact stops d member

/-- A character that is no white space stands behind the first one in both texts or in the first
text only. -/
theorem head (alike : Alike c body more more') {d : Char} (solid : isBlank d = false)
    (next : (body ++ more').head? = some d) : (body ++ more).head? = some d := by
  cases body with
  | cons e body => exact next
  | nil =>
    cases alike with
    | blank blank ends =>
      cases Option.some.inj next
      rw [solid] at blank
      cases blank
    | same second => exact next

end Alike

/-- A run of characters ends where a text does exactly if it holds of the text and not of what
follows. -/
theorem takeWhile_eq_iff {property : Char → Bool} {body more : List Char} :
    (body ++ more).takeWhile property = body ↔
      (∀ c ∈ body, property c) ∧ ∀ d ∈ more.head?, property d = false := by
  constructor
  · intro run
    have all : ∀ c ∈ body, property c := by
      intro c member
      rw [← run] at member
      exact List.all_eq_true.1 List.all_takeWhile c member
    refine ⟨all, fun d member => ?_⟩
    rw [List.takeWhile_append_of_pos all, List.append_right_eq_self] at run
    cases more with
    | nil => cases member
    | cons e more =>
      cases Option.mem_some.1 member
      refine Bool.eq_false_iff.2 fun goesOn => ?_
      rw [List.takeWhile_cons_of_pos goesOn] at run
      cases run
  · rintro ⟨all, stops⟩
    rw [List.takeWhile_append_of_pos all]
    cases more with
    | nil => simp
    | cons d more => rw [List.takeWhile_cons_of_neg (by simp [stops d rfl]), List.append_nil]

/-- A text is a run of characters and what stands behind it. -/
theorem exists_run (property : Char → Bool) (text : List Char) :
    ∃ body more, text = body ++ more ∧ (∀ c ∈ body, property c) ∧ ∀ d ∈ more.head?,
      property d = false := by
  have pieces := List.takeWhile_append_dropWhile (p := property) (l := text)
  have run : (text.takeWhile property ++ text.dropWhile property).takeWhile property =
      text.takeWhile property := by
    rw [pieces]
  exact ⟨_, _, pieces.symm, takeWhile_eq_iff.1 run⟩

/-- A run as long as a text at the front is that text. -/
theorem takeWhile_of_length {property : Char → Bool} {body more : List Char}
    (length : ((body ++ more).takeWhile property).length = body.length) :
    (body ++ more).takeWhile property = body :=
  (List.prefix_of_prefix_length_le (List.takeWhile_prefix property) (List.prefix_append body more)
    (Nat.le_of_eq length)).eq_of_length length

/-- A run ends at the same place in front of another text. -/
theorem takeWhile_alike {property : Char → Bool} {c : Char} {body more more' : List Char}
    (alike : Alike c body more more') (blanks : ∀ d, isBlank d → property d = false)
    (length : ((body ++ more).takeWhile property).length = body.length) :
    (body ++ more').takeWhile property = (body ++ more).takeWhile property := by
  have run := takeWhile_of_length length
  obtain ⟨all, stops⟩ := takeWhile_eq_iff.1 run
  rw [run, takeWhile_eq_iff]
  exact ⟨all, alike.first blanks stops⟩

/-- Digits are an integer unless a point and a digit follow them. -/
theorem number_integer {body more : List Char} (digits : ∀ c ∈ body, c.isDigit)
    (stops : ∀ d ∈ more.head?, d.isDigit = false)
    (noFraction : ∀ d rest, more = '.' :: d :: rest → d.isDigit = false) :
    number (body ++ more) = (.integer, body.length) := by
  have run := takeWhile_eq_iff.2 ⟨digits, stops⟩
  have others : (body ++ more).dropWhile Char.isDigit = more := by
    have cut := List.takeWhile_append_dropWhile (p := Char.isDigit) (l := body ++ more)
    rw [run] at cut
    exact List.append_cancel_left cut
  unfold number
  rw [run, others]
  split
  · next d rest => simp [noFraction d rest rfl]
  · rfl

theorem number_float {whole fraction more : List Char} {d : Char} (digits : ∀ c ∈ whole, c.isDigit)
    (digit : d.isDigit) (digits' : ∀ c ∈ fraction, c.isDigit)
    (stops : ∀ d ∈ more.head?, d.isDigit = false) :
    number (whole ++ '.' :: d :: fraction ++ more) =
      (.float, (whole ++ '.' :: d :: fraction).length) := by
  have run := takeWhile_eq_iff.2 ⟨digits', stops⟩
  unfold number
  rw [List.append_assoc, List.takeWhile_append_of_pos digits, List.dropWhile_append_of_pos digits,
    List.cons_append, List.cons_append, List.takeWhile_cons_of_neg (by decide),
    List.dropWhile_cons_of_neg (by decide)]
  simp only [digit, ↓reduceIte, run, List.append_nil, List.length_append, List.length_cons,
    Prod.mk.injEq, true_and]
  omega

/-- A number is digits, or digits with a point between them. -/
theorem number_cases (rest : List Char) :
    (∃ body more, rest = body ++ more ∧ number rest = (.integer, body.length) ∧
      (∀ c ∈ body, c.isDigit) ∧ (∀ d ∈ more.head?, d.isDigit = false) ∧
      ∀ d after, more = '.' :: d :: after → d.isDigit = false) ∨
    ∃ whole d fraction more, rest = whole ++ '.' :: d :: fraction ++ more ∧
      number rest = (.float, (whole ++ '.' :: d :: fraction).length) ∧ (∀ c ∈ whole, c.isDigit) ∧
        d.isDigit ∧
      (∀ c ∈ fraction, c.isDigit) ∧ ∀ d ∈ more.head?, d.isDigit = false := by
  obtain ⟨whole, more, rfl, digits, stops⟩ := exists_run Char.isDigit rest
  by_cases fraction : ∃ d after, more = '.' :: d :: after ∧ d.isDigit
  · obtain ⟨d, after, rfl, digit⟩ := fraction
    obtain ⟨others, more, rfl, digits', stops'⟩ := exists_run Char.isDigit after
    refine .inr ⟨whole, d, others, more, by simp, ?_, digits, digit, digits', stops'⟩
    have shape : whole ++ '.' :: d :: (others ++ more) = whole ++ '.' :: d :: others ++ more := by
      simp
    rw [shape, number_float digits digit digits' stops']
  · have noFraction : ∀ d after, more = '.' :: d :: after → d.isDigit = false := by
      intro d after point
      exact Bool.eq_false_iff.2 fun digit => fraction ⟨d, after, point, digit⟩
    exact .inl ⟨whole, more, rfl, number_integer digits stops noFraction, digits, stops, noFraction⟩

/-- A number ends at the same place in front of another text. -/
theorem number_alike {c : Char} {body more more' : List Char} {kind : Kind}
    (alike : Alike c body more more')
    (found : number (body ++ more) = (kind, body.length)) :
    number (body ++ more') = (kind, body.length) := by
  rcases number_cases (body ++ more) with
    ⟨digits, rest, split, same, all, stops, noFraction⟩ |
      ⟨whole, d, fraction, rest, split, same, all, digit, all', stops⟩
  · rw [same, Prod.mk.injEq] at found
    obtain ⟨rfl, length⟩ := found
    obtain ⟨rfl, rfl⟩ := List.append_inj split length.symm
    refine number_integer all (alike.first (fun _ => not_isDigit_of_isBlank) stops) ?_
    rintro d after rfl
    cases alike with
    | blank blank ends => exact absurd blank (by decide)
    | same second =>
      by_cases blank : isBlank d
      · exact not_isDigit_of_isBlank blank
      · have next := second d rfl (Bool.eq_false_iff.2 blank)
        obtain ⟨after', rfl⟩ := List.head?_eq_some_iff.1 next
        exact noFraction d after' rfl
  · rw [same, Prod.mk.injEq] at found
    obtain ⟨rfl, length⟩ := found
    obtain ⟨rfl, rfl⟩ := List.append_inj split length.symm
    exact number_float all digit all' (alike.first (fun _ => not_isDigit_of_isBlank) stops)

theorem commentEnd?_ne_zero (rest : List Char) : commentEnd? rest ≠ some 0 := by
  fun_cases commentEnd? rest <;> simp

/-- A block comment ends at its end, whatever follows. -/
theorem commentEnd?_alike {rest body more : List Char} (split : rest = body ++ more)
    (found : commentEnd? rest = some body.length) (more' : List Char) :
    commentEnd? (body ++ more') = some body.length := by
  fun_induction commentEnd? rest generalizing body with
  | case1 => cases found
  | case2 rest =>
    match body, found with
    | [c, d], _ =>
      rw [List.cons_append, List.cons_append, List.cons.injEq, List.cons.injEq] at split
      obtain ⟨rfl, rfl, _⟩ := split
      rfl
  | case3 c rest unclosed ih =>
    obtain ⟨inner, ended, length⟩ := Option.map_eq_some_iff.1 found
    cases body with
    | nil => cases length
    | cons e body =>
      rw [List.cons_append, List.cons.injEq] at split
      obtain ⟨rfl, rfl⟩ := split
      have ended : commentEnd? (body ++ more) = some body.length := by
        rw [ended, Nat.succ.inj length]
      rw [List.cons_append, commentEnd?, ih rfl ended]
      · rfl
      · intro after star slash
        cases body with
        | nil => exact commentEnd?_ne_zero _ ended
        | cons d body =>
          rw [List.cons_append, List.cons.injEq] at slash
          obtain ⟨rfl, _⟩ := slash
          exact unclosed (body ++ more) star rfl

/-- A character that neither escapes another nor opens a brace ends a piece of a string or belongs
to it. -/
theorem piece?_other {quote c : Char} {rest : List Char} (noEscape : c ≠ '\\') (noBrace : c ≠ '{') :
    piece? quote (c :: rest) =
      if c = quote then some (.quote, 1)
      else (piece? quote rest).map fun (stop, length) => (stop, length + 1) := by
  rw [piece?]
  · exact fun backslash _ => noEscape backslash
  · exact fun _ _ backslash _ => noEscape backslash
  · exact fun _ brace _ => noBrace brace
  · exact noBrace

theorem ne_of_cases {c d : Char} {rest : List Char} (last : c = d → rest = [] → False)
    (inner : ∀ head tail, c = d → rest = head :: tail → False) : c ≠ d := by
  intro same
  cases rest with
  | nil => exact last same rfl
  | cons head tail => exact inner head tail same rfl

theorem exists_cons_cons {body : List Char} {n : Nat} (length : body.length = n + 2) :
    ∃ d e front, body = d :: e :: front := by
  cases body with
  | nil => cases length
  | cons d body =>
    cases body with
    | nil => cases length
    | cons e body => exact ⟨d, e, body, rfl⟩

/-- A piece of a string ends at its end, in front of everything but a brace where it ends at one. -/
theorem piece?_alike {quote : Char} {rest body more more' : List Char} {stop : PieceEnd}
    (split : rest = body ++ more) (found : piece? quote rest = some (stop, body.length))
    (single : (∀ d ∈ more.head?, (d == '{') = false) → ∀ d ∈ more'.head?, (d == '{') = false) :
    piece? quote (body ++ more') = some (stop, body.length) := by
  fun_induction piece? quote rest generalizing body stop with
  | case1 => cases found
  | case2 => cases found
  | case3 c rest ih | case4 rest ih =>
    obtain ⟨⟨stop, inner⟩, ended, same⟩ := Option.map_eq_some_iff.1 found
    obtain ⟨rfl, length⟩ := Prod.mk.inj (show (stop, inner + 2) = _ from same)
    obtain ⟨d, e, body, rfl⟩ : ∃ d e front, body = d :: e :: front := exists_cons_cons length.symm
    rw [List.cons_append, List.cons_append, List.cons.injEq, List.cons.injEq] at split
    obtain ⟨rfl, rfl, rfl⟩ := split
    have ended : piece? quote (body ++ more) = some (stop, body.length) := by
      rw [ended, Nat.add_right_cancel length]
    rw [List.cons_append, List.cons_append, piece?, ih rfl ended]
    rfl
  | case5 rest alone =>
    obtain ⟨rfl, length⟩ := Prod.mk.inj (Option.some.inj found)
    obtain ⟨d, rfl⟩ := List.length_eq_one_iff.1 length.symm
    rw [List.cons_append, List.cons.injEq] at split
    obtain ⟨rfl, rfl⟩ := split
    rw [List.cons_append, List.nil_append, piece?]
    · rfl
    intro after doubled
    refine absurd (single ?_ '{' (by rw [doubled]; rfl)) (by decide)
    intro d member
    obtain ⟨after, rfl⟩ := List.head?_eq_some_iff.1 member
    exact beq_eq_false_iff_ne.2 fun brace => alone after (by rw [brace])
  | case6 rest last escape _ brace =>
    obtain ⟨rfl, length⟩ := Prod.mk.inj (Option.some.inj found)
    obtain ⟨d, rfl⟩ := List.length_eq_one_iff.1 length.symm
    rw [List.cons_append, List.cons.injEq] at split
    obtain ⟨rfl, rfl⟩ := split
    rw [List.cons_append, piece?_other (ne_of_cases last escape) brace, if_pos rfl]
    rfl
  | case7 c rest last escape _ brace inside ih =>
    obtain ⟨⟨stop, inner⟩, ended, same⟩ := Option.map_eq_some_iff.1 found
    obtain ⟨rfl, length⟩ := Prod.mk.inj (show (stop, inner + 1) = _ from same)
    cases body with
    | nil => cases length
    | cons d body =>
      rw [List.cons_append, List.cons.injEq] at split
      obtain ⟨rfl, rfl⟩ := split
      have ended : piece? quote (body ++ more) = some (stop, body.length) := by
        rw [ended, Nat.add_right_cancel length]
      rw [List.cons_append, piece?_other (ne_of_cases last escape) brace,
        if_neg inside, ih rfl ended]
      rfl

/-- A mark in front of one text is a mark in front of the other. -/
theorem isPrefixOf_alike {c : Char} {mark body more more' : List Char}
    (alike : Alike c body more more')
    (short : mark.length ≤ 2) (solid : ∀ d ∈ mark, isBlank d = false)
    (fits : mark.isPrefixOf (c :: (body ++ more'))) : mark.isPrefixOf (c :: (body ++ more)) := by
  match mark with
  | [] => rfl
  | [d] => simpa [List.isPrefixOf] using fits
  | [d, e] =>
    obtain ⟨rest, split⟩ := List.isPrefixOf_iff_prefix.1 fits
    rw [List.cons_append, List.cons_append, List.cons.injEq] at split
    obtain ⟨rfl, split⟩ := split
    have next : (body ++ more').head? = some e := by
      rw [← split]
      rfl
    obtain ⟨after, split'⟩ := List.head?_eq_some_iff.1 (alike.head (solid e (by simp)) next)
    rw [split']
    simp [List.isPrefixOf]

/-- A mark has one or two characters, none of them white space. -/
theorem short_of_mem_marks {mark : List Char × Kind} (listed : mark ∈ marks) :
    mark.1.length ≤ 2 ∧ ∀ d ∈ mark.1, isBlank d = false := by
  have all : marks.all (fun mark => mark.1.length ≤ 2 && mark.1.all (!isBlank ·)) = true := by rfl
  simpa using List.all_eq_true.1 all mark listed

theorem find?_marks_alike {c : Char} {body more more' spelling : List Char} {kind : Kind}
    (alike : Alike c body more more') (length : spelling.length = body.length + 1)
    (found : (marks.find? fun mark => mark.1.isPrefixOf (c :: (body ++ more))) =
      some (spelling, kind)) :
    (marks.find? fun mark => mark.1.isPrefixOf (c :: (body ++ more'))) = some (spelling, kind) := by
  obtain ⟨fits, before, after, listed, others⟩ := List.find?_eq_some_iff_append.1 found
  have spelled : spelling = c :: body := by
    have front := List.isPrefixOf_iff_prefix.1 fits
    exact (List.prefix_of_prefix_length_le front (List.prefix_append (c :: body) more)
      (Nat.le_of_eq length)).eq_of_length length
  refine List.find?_eq_some_iff_append.2 ⟨?_, before, after, listed, fun mark member => ?_⟩
  · rw [spelled, ← List.cons_append]
    exact List.isPrefixOf_iff_prefix.2 (List.prefix_append _ _)
  · obtain ⟨short, solid⟩ := short_of_mem_marks (listed ▸ List.mem_append_left _ member)
    have apart := others mark member
    simp only [Bool.not_eq_true', Bool.eq_false_iff] at apart ⊢
    exact fun fits => apart (isPrefixOf_alike alike short solid fits)

/-- White space ends in front of a text that starts alike. -/
theorem blanks_alike {c : Char} {body more more' : List Char} (alike : Alike c body more more')
    (blank : isBlank c)
    (run : (body ++ more).takeWhile isBlank = body) : (body ++ more').takeWhile isBlank = body := by
  cases alike with
  | blank _ ends => exact absurd (.inl blank) ends
  | same second =>
    obtain ⟨inside, ends⟩ := takeWhile_eq_iff.1 run
    exact takeWhile_eq_iff.2 ⟨inside, ends⟩

/-- So does a comment to the end of its line. It has both slashes, if it starts with one. -/
theorem line_alike {c : Char} {body more more' : List Char} (alike : Alike c body more more')
    (comment : c = '#' ∨ c = '/' ∧ (body ++ more).head? = some '/')
    (run : (body ++ more).takeWhile (· ≠ '\n') = body) :
    (c = '#' ∨ c = '/' ∧ (body ++ more').head? = some '/') ∧ (body ++ more').takeWhile
    (· ≠ '\n') = body := by
  have opens : c = '#' ∨ c = '/' ∧ body.head? = some '/' := by
    refine comment.imp_right (And.imp_right fun slash => ?_)
    cases body with
    | cons d body => exact slash
    | nil => simpa using (takeWhile_eq_iff.1 run).2 '/' slash
  refine ⟨opens.imp_right (And.imp_right fun slash => ?_), ?_⟩
  · rw [List.head?_append, slash]
    rfl
  · refine takeWhile_eq_iff.2 ⟨(takeWhile_eq_iff.1 run).1, fun d member => ?_⟩
    cases alike with
    | same second => exact (takeWhile_eq_iff.1 run).2 d member
    | blank _ ends =>
      cases Option.mem_some.1 member
      simp only [decide_not, Bool.not_eq_false', decide_eq_true_eq]
      exact Decidable.of_not_not fun other => ends (.inr ⟨opens, other⟩)

/-- A comment in a block ends where it ended, whatever follows it. -/
theorem block_ends {c : Char} {body more : List Char} {n : Nat}
    (block : c = '/' ∧ (body ++ more).head? = some '*')
    (ended : commentEnd? (body ++ more).tail = some n) (length : n + 1 = body.length)
    (more' : List Char) :
    (c = '/' ∧ (body ++ more').head? = some '*') ∧ commentEnd? (body ++ more').tail = some n := by
  cases body with
  | nil => cases length
  | cons d body =>
    have inner : n = body.length := Nat.succ.inj length
    exact ⟨block, (commentEnd?_alike rfl (ended.trans (congrArg some inner)) more').trans
      (congrArg some inner.symm)⟩

/-- A token that is no string is the same in front of a text that starts alike. -/
theorem plain_alike {c : Char} {body more more' : List Char} {kind : Kind}
    (alike : Alike c body more more') (found : plain c (body ++ more) = .ok (kind, body.length)) :
    plain c (body ++ more') = .ok (kind, body.length) := by
  unfold plain at found ⊢
  split at found
  · next blank =>
    have run := takeWhile_of_length (congrArg Prod.snd (Except.ok.inj found))
    rw [run] at found
    rw [if_pos blank, blanks_alike alike blank run]
    exact found
  · next notBlank =>
    rw [if_neg notBlank]
    split at found
    · next comment =>
      have run := takeWhile_of_length (congrArg Prod.snd (Except.ok.inj found))
      obtain ⟨again, same⟩ := line_alike alike comment run
      rw [run] at found
      rw [if_pos again, same]
      exact found
    · next noComment =>
      rw [if_neg fun comment =>
        noComment (comment.imp_right (And.imp_right (alike.head (by decide))))]
      split at found
      · next block =>
        split at found
        · next n ended =>
          obtain ⟨again, same⟩ := block_ends block ended
            (congrArg Prod.snd (Except.ok.inj found)) more'
          rw [if_pos again, same]
          exact found
        · cases found
      · next noBlock =>
        rw [if_neg fun block => noBlock (block.imp_right (alike.head (by decide)))]
        split at found
        · next digit =>
          rw [if_pos digit, number_alike alike (Except.ok.inj found)]
        · next noDigit =>
          rw [if_neg noDigit]
          split at found
          · next starts =>
            have length := congrArg Prod.snd (Except.ok.inj found)
            have same := takeWhile_alike alike (fun _ => not_continuesName_of_isBlank) length
            rw [if_pos starts, same]
            exact found
          · next noName =>
            rw [if_neg noName]
            split at found
            · next spelling kind' mark =>
              obtain ⟨rfl, length⟩ := Prod.mk.inj (Except.ok.inj found)
              have full : spelling.length = body.length + 1 := by
                have positive := List.length_pos_iff.2
                  (mark_ne_nil _ (List.mem_of_find?_eq_some mark))
                dsimp only at positive
                omega
              rw [find?_marks_alike alike full mark]
              exact found
            · cases found

/-- A token is the same in front of a text that starts alike. -/
theorem lexemeAt_alike {openings : List Opening} {p : Position} {c : Char}
    {body more more' : List Char}
    {lexeme : Lexeme} (alike : Alike c body more more') (length : lexeme.more = body.length)
    (found : lexemeAt openings p c (body ++ more) = .ok lexeme) :
    lexemeAt openings p c (body ++ more') = .ok lexeme := by
  have solid : ∀ d, isBlank d → (d == '{') = false := by
    rintro d blank
    refine beq_eq_false_iff_ne.2 ?_
    rintro rfl
    exact absurd blank (by decide)
  have single := alike.first solid
  unfold lexemeAt at found
  split at found
  · split at found
    · cases found
    all_goals
      next ended =>
      cases found
      dsimp only at length
      subst length
      simp only [lexemeAt, piece?_alike rfl ended single]
  · next closes =>
    rw [lexemeAt.eq_2 _ _ _ _ closes]
    split at found
    · next quoted =>
      rw [if_pos quoted]
      split at found
      · cases found
      all_goals
        next ended =>
        cases found
        dsimp only at length
        subst length
        rw [piece?_alike rfl ended single]
    · next unquoted =>
      rw [if_neg unquoted]
      cases plainly : plain c (body ++ more) with
      | error fault =>
        rw [plainly] at found
        cases found
      | ok result =>
        obtain ⟨kind, more''⟩ := result
        have same : more'' = body.length := by
          rw [← length]
          rw [plainly] at found
          split at found
          · cases found
          all_goals
            next outcome =>
            cases outcome
            cases found
            rfl
        rw [plain_alike alike (plainly.trans (by rw [same])), ← same, ← plainly]
        exact found

theorem number_le (rest : List Char) : (number rest).2 ≤ rest.length := by
  rcases number_cases rest with ⟨body, more, split, same, _⟩ |
    ⟨whole, d, fraction, more, split, same, _⟩
  all_goals
    rw [same, split]
    simp only [List.length_append]
    omega

theorem commentEnd?_le {rest : List Char} {length : Nat} (found : commentEnd? rest = some length) :
    length ≤ rest.length := by
  fun_induction commentEnd? rest generalizing length with
  | case1 => cases found
  | case2 rest =>
    cases found
    simp
  | case3 c rest unclosed ih =>
    obtain ⟨inner, ended, rfl⟩ := Option.map_eq_some_iff.1 found
    exact Nat.succ_le_succ (ih ended)

theorem piece?_le {quote : Char} {rest : List Char} {stop : PieceEnd} {length : Nat}
    (found : piece? quote rest = some (stop, length)) : length ≤ rest.length := by
  fun_induction piece? quote rest generalizing stop length with
  | case1 | case2 => cases found
  | case5 rest | case6 rest =>
    cases found
    exact Nat.succ_le_succ (Nat.zero_le _)
  | case3 c rest ih | case4 rest ih | case7 c rest _ _ _ _ _ ih =>
    obtain ⟨⟨stop, inner⟩, ended, same⟩ := Option.map_eq_some_iff.1 found
    cases same
    have inside := ih ended
    simp only [List.length_cons]
    omega

theorem plain_le {c : Char} {rest : List Char} {kind : Kind} {more : Nat}
    (found : plain c rest = .ok (kind, more)) : more ≤ rest.length := by
  have run (property : Char → Bool) : (rest.takeWhile property).length ≤ rest.length :=
    (List.takeWhile_sublist property).length_le
  unfold plain at found
  split at found
  · cases found
    exact run _
  · split at found
    · cases found
      exact run _
    · split at found
      · next block =>
        split at found
        · next length ended =>
          cases found
          cases rest with
          | nil => cases block.2
          | cons d rest => exact Nat.succ_le_succ (commentEnd?_le ended)
        · cases found
      · split at found
        · have inside := number_le rest
          rw [Except.ok.inj found] at inside
          exact inside
        · split at found
          · cases found
            exact run _
          · split at found
            · next mark =>
              cases found
              have fits := List.find?_some mark
              have short := (List.isPrefixOf_iff_prefix.1 fits).length_le
              dsimp only [List.length_cons] at short
              omega
            · cases found

/-- A token lies in its text. -/
theorem lexemeAt_le {openings : List Opening} {p : Position} {c : Char} {rest : List Char}
    {lexeme : Lexeme}
    (found : lexemeAt openings p c rest = .ok lexeme) : lexeme.more ≤ rest.length := by
  unfold lexemeAt at found
  split at found
  · split at found
    · cases found
    all_goals
      next ended =>
      cases found
      exact piece?_le ended
  · split at found
    · split at found
      · cases found
      all_goals
        next ended =>
        cases found
        exact piece?_le ended
    · split at found
      · cases found
      all_goals
        next plainly =>
        cases found
        exact plain_le plainly

/-- A text that starts with a token is the rest of the token's text and what stands behind it. -/
theorem exists_cut {openings : List Opening} {p : Position} {c : Char} {rest : List Char}
    {lexeme : Lexeme} (found : lexemeAt openings p c rest = .ok lexeme) :
    ∃ body more, rest = body ++ more ∧ lexeme.more = body.length :=
  ⟨rest.take lexeme.more, rest.drop lexeme.more, (List.take_append_drop _ _).symm,
    (List.length_take_of_le (lexemeAt_le found)).symm⟩

end Treecode.Lexer
