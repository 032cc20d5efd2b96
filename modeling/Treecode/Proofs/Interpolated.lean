import Treecode.Proofs.FollowedExpressions
import Treecode.Proofs.Interpolations
import Treecode.Proofs.Lookahead
import Treecode.Proofs.Precedence
import Treecode.Proofs.Tiling

set_option autoImplicit false

namespace Treecode.Expression

open Reader
open Cursor (closers)

/-- A hole of a string, with the piece that ends it. -/
structure Part where
  hole : List Token
  piece : Token

def partTokens (parts : List Part) : List Token :=
  parts.flatMap fun part => part.hole ++ [part.piece]

/-- What may stand behind the start of an interpolated string. -/
inductive Interpolates : List Part → Prop where
  | last {part : Part} (nests : Nests part.hole 0 0)
      (ends : part.piece.kind = .stringInterpolationEnd) : Interpolates [part]
  | more {part : Part} {parts : List Part} (nests : Nests part.hole 0 0)
    (goesOn : part.piece.kind = .stringInterpolationStringPart) (others : Interpolates parts) :
    Interpolates (part :: parts)

theorem openAfter_closer {piece : Token} (closes : piece.kind ∈ closers) :
    openAfter 0 piece = none := by
  simp only [closers, List.mem_cons, List.not_mem_nil, or_false] at closes
  rcases closes with part | last
  · rw [openAfter_part part, if_neg (Nat.lt_irrefl 0)]
  · rw [openAfter_end last, if_neg (Nat.lt_irrefl 0)]

theorem openAfter_inside {depth : Nat} {token : Token}
    (inside : ¬(depth = 0 ∧ token.kind ∈ closers)) :
    ∃ inner, openAfter depth token = some inner := by
  by_cases closes : token.kind ∈ closers
  · have deep : 0 < depth := Nat.pos_of_ne_zero fun notTaken => inside ⟨notTaken, closes⟩
    simp only [closers, List.mem_cons, List.not_mem_nil, or_false] at closes
    rcases closes with part | last
    · exact ⟨depth, (openAfter_part part depth).trans (if_pos deep)⟩
    · exact ⟨depth - 1, (openAfter_end last depth).trans (if_pos deep)⟩
  · by_cases starts : token.kind = .stringInterpolationStart
    · exact ⟨depth + 1, openAfter_start starts depth⟩
    · exact ⟨depth, openAfter_other depth fun member => (List.mem_cons.1 member).elim starts closes⟩

theorem inside_of_nests {hole taken behind rest : List Token} {piece : Token}
    (nests : Nests hole 0 0)
    (closes : piece.kind ∈ closers) (front : Nests taken 0 0)
    (same : hole ++ piece :: behind = taken ++ rest) :
    ∃ left, hole = taken ++ left ∧ rest = left ++ piece :: behind ∧ Nests left 0 0 := by
  rcases List.append_eq_append_iff.1 same with ⟨more, whole, split⟩ | ⟨left, whole, split⟩
  · cases more with
    | nil =>
      rw [List.append_nil] at whole
      exact ⟨[], by rw [whole, List.append_nil], split.symm, .nil⟩
    | cons first more =>
      cases split
      rw [whole] at front
      obtain ⟨between, before, after⟩ := nests_append.1 front
      obtain ⟨next, opens, _⟩ := nests_cons.1 after
      cases nests.symm.trans before
      rw [openAfter_closer closes] at opens
      cases opens
  · rw [whole] at nests
    obtain ⟨between, before, after⟩ := nests_append.1 nests
    cases front.symm.trans before
    exact ⟨left, whole, split, after⟩

theorem hole_unique {hole hole' behind behind' : List Token} {piece piece' : Token}
    (nests : Nests hole 0 0)
    (closes : piece.kind ∈ closers) (nests' : Nests hole' 0 0) (closes' : piece'.kind ∈ closers)
    (same : hole ++ piece :: behind = hole' ++ piece' :: behind') :
    hole' = hole ∧ piece' = piece ∧ behind' = behind := by
  obtain ⟨left, whole, split, inner⟩ := inside_of_nests nests closes nests' same
  cases left with
  | nil =>
    cases split
    exact ⟨by rw [whole, List.append_nil], rfl, rfl⟩
  | cons first left =>
    cases split
    obtain ⟨next, opens, _⟩ := nests_cons.1 inner
    rw [openAfter_closer closes'] at opens
    cases opens

theorem partTokens_cons (part : Part) (parts : List Part) (left : List Token) :
    partTokens (part :: parts) ++ left = part.hole ++ part.piece :: (partTokens parts ++ left) := by
  simp [partTokens]

theorem Interpolates.first {part : Part} {parts : List Part}
    (string : Interpolates (part :: parts)) : Nests part.hole 0 0 ∧ part.piece.kind ∈ closers := by
  cases string with
  | last nests ends => exact ⟨nests, by rw [ends]; decide⟩
  | more nests goesOn => exact ⟨nests, by rw [goesOn]; decide⟩

theorem Interpolates.first_unique {part part' : Part} {parts others : List Part}
    {left left' : List Token}
    (string : Interpolates (part :: parts)) (again : Interpolates (part' :: others))
    (same : partTokens (part :: parts) ++ left = partTokens (part' :: others) ++ left') :
    part' = part ∧ partTokens others ++ left' = partTokens parts ++ left := by
  rw [partTokens_cons, partTokens_cons] at same
  obtain ⟨hole, piece⟩ := part
  obtain ⟨hole', piece'⟩ := part'
  obtain ⟨rfl, rfl, rest⟩ :=
    hole_unique string.first.1 string.first.2 again.first.1 again.first.2 same
  exact ⟨rfl, rest⟩

theorem Interpolates.unique {parts others : List Part} {left left' : List Token}
    (string : Interpolates parts)
    (again : Interpolates others) (same : partTokens parts ++ left = partTokens others ++ left') :
    others = parts ∧ left' = left := by
  induction string generalizing others with
  | last nests ends =>
    cases again with
    | last nests' ends' =>
      obtain ⟨rfl, rest⟩ := (Interpolates.last nests ends).first_unique (.last nests' ends') same
      exact ⟨rfl, rest⟩
    | more nests' goesOn' again =>
      obtain ⟨rfl, _⟩ := (Interpolates.last nests ends).first_unique
        (.more nests' goesOn' again) same
      cases ends.symm.trans goesOn'
  | more nests goesOn string ih =>
    cases again with
    | last nests' ends' =>
      obtain ⟨rfl, _⟩ := (Interpolates.more nests goesOn string).first_unique
        (.last nests' ends') same
      cases goesOn.symm.trans ends'
    | more nests' goesOn' again =>
      obtain ⟨rfl, rest⟩ := (Interpolates.more nests goesOn string).first_unique
        (.more nests' goesOn' again) same
      obtain ⟨rfl, last⟩ := ih again rest.symm
      exact ⟨rfl, last⟩

/-- Where an interpolation is open that is closed later, the next piece ends the hole that one is
in. -/
theorem exists_hole {tokens : List Token} {depth outer after : Nat}
    (nests : Nests tokens (depth + outer + 1) after)
    (closed : after ≤ outer) :
    ∃ hole piece rest, tokens = hole ++ piece :: rest ∧ Nests hole depth 0 ∧ piece.kind ∈ closers ∧
      Nests (piece :: rest) (outer + 1) after := by
  induction tokens generalizing depth with
  | nil =>
    cases nests
    omega
  | cons token tokens ih =>
    by_cases closes : depth = 0 ∧ token.kind ∈ closers
    · obtain ⟨rfl, closes⟩ := closes
      rw [Nat.zero_add] at nests
      exact ⟨[], token, tokens, rfl, .nil, closes, nests⟩
    · obtain ⟨next, opens, rest⟩ := nests_cons.1 nests
      obtain ⟨inner, inside⟩ := openAfter_inside closes
      have deeper := openAfter_deeper inside (outer + 1)
      rw [← Nat.add_assoc, opens, Option.some.injEq] at deeper
      rw [deeper] at rest
      obtain ⟨hole, piece, behind, rfl, within, closes, last⟩ := ih rest
      exact ⟨token :: hole, piece, behind, rfl, nests_cons.2 ⟨inner, inside, within⟩, closes, last⟩

/-- Behind the start of a string that is closed stand the parts of the string. -/
theorem exists_parts {tokens : List Token} {outer after : Nat}
    (nests : Nests tokens (outer + 1) after)
    (closed : after ≤ outer) :
    ∃ parts left, Interpolates parts ∧ tokens = partTokens parts ++ left := by
  induction length : tokens.length using Nat.strongRecOn generalizing tokens with
  | ind count ih =>
    rw [← Nat.zero_add outer] at nests
    obtain ⟨hole, piece, rest, rfl, within, closes, following⟩ := exists_hole nests closed
    obtain ⟨next, opens, last⟩ := nests_cons.1 following
    simp only [closers, List.mem_cons, List.not_mem_nil, or_false] at closes
    rcases closes with part | ends
    · rw [openAfter_part part, if_pos (Nat.succ_pos _)] at opens
      cases opens
      have shorter : rest.length < count := by
        rw [← length, List.length_append, List.length_cons]
        omega
      obtain ⟨parts, left, string, rfl⟩ := ih rest.length shorter last rfl
      exact ⟨⟨hole, piece⟩ :: parts, left, .more within part string,
        (partTokens_cons ⟨hole, piece⟩ parts left).symm⟩
    · exact ⟨[⟨hole, piece⟩], rest, .last within ends, (partTokens_cons ⟨hole, piece⟩ [] rest).symm⟩

/-- In front of the piece that ends it, the tokens of a hole are read as expressions, one after
another. -/
inductive Filled (piece : Token) : List Token → List Expression → Prop where
  | empty : Filled piece [] []
  | more {hole left : List Token} {e : Expression} {es : List Expression}
    (first : read (hole ++ [piece]) = .ok (e, left ++ [piece])) (others : Filled piece left es) :
    Filled piece hole (e :: es)

theorem Filled.of_nil {piece : Token} {es : List Expression} (filled : Filled piece [] es) :
    es = [] := by
  cases filled with
  | empty => rfl
  | more first others =>
    have shorter := length_of_read first
    rw [List.length_append, List.nil_append] at shorter
    omega

/-- Reading an expression in a hole never goes past the piece that ends the hole. It is the
expression that is read where nothing stands behind that piece. -/
theorem read_in_hole {hole behind rest : List Token} {piece : Token} {e : Expression}
    (nests : Nests hole 0 0)
    (closes : piece.kind ∈ closers) (success : read (hole ++ piece :: behind) = .ok (e, rest)) :
    ∃ left, rest = left ++ piece :: behind ∧ read (hole ++ [piece]) = .ok (e, left ++ [piece]) ∧
      Nests left 0 0 ∧ left.length < hole.length := by
  have locally : Local behind 0 0 read read := local_read
  obtain ⟨taken, same, front, alone⟩ := locally _ e rest success
  obtain ⟨left, rfl, rfl, inner⟩ := inside_of_nests nests closes front.nests same
  have found := alone (left ++ [piece]) (by simp) (by simp)
  have shorter := length_of_read success
  simp only [List.length_append, List.length_cons] at shorter
  rw [← List.append_assoc] at found
  exact ⟨left, rfl, found, inner, by rw [List.length_append]; omega⟩

theorem read_behind {hole left behind : List Token} {piece : Token} {e : Expression}
    (success : read (hole ++ [piece]) = .ok (e, left ++ [piece])) :
    read (hole ++ piece :: behind) = .ok (e, left ++ piece :: behind) := by
  have extending : Extends behind False read read := extends_read
  have goesOn := (extending _ e _ success).2 (.inl (by simp))
  simpa using goesOn

def pieceText (piece : Token) : String :=
  String.ofList (Literal.unescape (Literal.content piece.kind piece.text.toList))

def pieceLiteral (piece : Token) : Expression := .literal piece (.string (pieceText piece))

theorem value_of_piece {piece : Token} (fits : piece.kind ∈ pieces) :
    piece.value = .ok (.string (pieceText piece)) := by
  unfold Token.value pieceText
  generalize piece.kind = kind at fits
  simp only [pieces, List.mem_cons, List.not_mem_nil, or_false] at fits
  rcases fits with rfl | rfl | rfl <;> rfl

theorem literalOf_piece {piece : Token} (fits : piece.kind ∈ pieces) (tokens : List Token) :
    literalOf piece tokens = .ok (pieceLiteral piece, tokens) := by
  unfold literalOf
  rw [value_of_piece fits]
  rfl

/-- What is added up to a sum: holes and pieces, up to the last piece. -/
def sumFrom (self : Reader Expression) (plus : Token) (first : Expression) : Reader Expression := do
  let middle ← many (Cursor.readPiece self plus)
  let stop ← expect .stringInterpolationEnd .expression
  let last ← literalOf stop
  return chain first (middle ++ [(plus, last)])

def plusOf (start : Token) : Token := ⟨.operatorAddition, some "+", start.position⟩

section Loop

variable {self : Reader Expression} {plus piece start stop : Token} {first : Expression}
  {tokens behind left : List Token}

theorem interpolated_eq (other : nextKind tokens ≠ .stringInterpolationEnd)
    (starts : start.kind = .stringInterpolationStart) :
    interpolated self start tokens = sumFrom self (plusOf start) (pieceLiteral start) tokens := by
  have notTaken : take .stringInterpolationEnd tokens = .ok (none, tokens) :=
    takeAny_of_not_mem fun member => other (List.mem_singleton.1 member)
  have first : literalOf start tokens = .ok (pieceLiteral start, tokens) :=
    literalOf_piece (by rw [starts]; decide) tokens
  have loop : interpolated self start tokens =
      (literalOf start >>= fun first => sumFrom self (plusOf start) first) tokens := by
    unfold interpolated
    rw [bind_of_ok notTaken]
    rfl
  rw [loop, bind_of_ok first]

theorem interpolated_adjacent (starts : start.kind = .stringInterpolationStart)
    (stops : stop.kind = .stringInterpolationEnd) :
    interpolated self start (stop :: left) =
      .ok (.literal start (.string (pieceText start ++ pieceText stop)), left) := by
  have stopTaken : take .stringInterpolationEnd (stop :: left) = .ok (some stop, left) :=
    takeAny_of_mem (List.mem_singleton.2 stops)
  have front : start.value = .ok (.string (pieceText start)) :=
    value_of_piece (by rw [starts]; decide)
  have back : stop.value = .ok (.string (pieceText stop)) := value_of_piece (by rw [stops]; decide)
  unfold interpolated
  rw [bind_of_ok stopTaken]
  dsimp only
  rw [front, back]
  rfl

theorem sumFrom_last (ends : piece.kind = .stringInterpolationEnd) :
    sumFrom self plus first (piece :: behind) =
      .ok (.binary plus first (pieceLiteral piece), behind) := by
  have stops : Cursor.readPiece self plus (piece :: behind) = .ok (none, piece :: behind) := by
    rw [Cursor.readPiece_eq, show nextKind (piece :: behind) = _ from ends]
    rfl
  unfold sumFrom
  rw [bind_of_ok (many_of_none stops), bind_of_ok (expect_of_kind ends),
    bind_of_ok (literalOf_piece (by rw [ends]; decide) behind)]
  rfl

theorem sumFrom_turn {e : Expression}
    (turn : Cursor.readPiece self plus tokens = .ok (some (plus, e), behind))
    (shorter : behind.length < tokens.length) :
    sumFrom self plus first tokens = sumFrom self plus (.binary plus first e) behind := by
  unfold sumFrom
  rw [bind_many_of_some turn shorter]
  rfl

theorem sumFrom_error {unexpected : Unexpected}
    (stops : Cursor.readPiece self plus tokens = .error unexpected) :
    sumFrom self plus first tokens = .error unexpected := by
  have fails : many (Cursor.readPiece self plus) tokens = .error unexpected := by rw [many, stops]
  unfold sumFrom
  rw [bind_of_error fails]

theorem sumFrom_part (part : piece.kind = .stringInterpolationStringPart) :
    sumFrom self plus first (piece :: behind) =
      sumFrom self plus (.binary plus first (pieceLiteral piece)) behind := by
  apply sumFrom_turn _ (Nat.lt_succ_self _)
  rw [Cursor.readPiece_eq, show nextKind (piece :: behind) = _ from part]
  show (expect .stringInterpolationStringPart .expression >>= fun part => _ : Reader _)
    (piece :: behind) = _
  rw [bind_of_ok (expect_of_kind part), bind_of_ok (literalOf_piece (by rw [part]; decide) behind)]
  rfl

/-- The loop at the front of a hole comes to the piece that ends it with the expressions of the
hole. -/
theorem sumFrom_hole {size : Nat} (agree : Agrees size self) {hole : List Token}
    (nests : Nests hole 0 0)
    (closes : piece.kind ∈ closers) (short : (hole ++ piece :: behind).length < size)
    {sum : Expression} :
    sumFrom self plus first (hole ++ piece :: behind) = .ok (sum, left) ↔
      ∃ es, Filled piece hole es ∧
      sumFrom self plus (es.foldl (.binary plus) first) (piece :: behind) = .ok (sum, left) := by
  induction length : hole.length using Nat.strongRecOn generalizing hole first with
  | ind count ih =>
    cases hole with
    | nil =>
      constructor
      · intro success
        exact ⟨[], .empty, success⟩
      · rintro ⟨es, filled, success⟩
        rw [filled.of_nil] at success
        exact success
    | cons token hole =>
      have other : nextKind (token :: hole ++ piece :: behind) ∉ closers := by
        intro member
        obtain ⟨next, opens, _⟩ := nests_cons.1 nests
        rw [openAfter_closer member] at opens
        cases opens
      have turn : ∀ {e rest}, read (token :: hole ++ piece :: behind) = .ok (e, rest) →
          Cursor.readPiece self plus (token :: hole ++ piece :: behind) =
              .ok (some (plus, e), rest) := by
        intro e rest found
        rw [Cursor.readPiece_other other, bind_of_ok ((agree _ short).trans found)]
        rfl
      constructor
      · intro success
        cases found : read (token :: hole ++ piece :: behind) with
        | error unexpected =>
          have stops : Cursor.readPiece self plus (token :: hole ++ piece :: behind) =
              .error unexpected := by
            rw [Cursor.readPiece_other other, bind_of_error ((agree _ short).trans found)]
          rw [sumFrom_error stops] at success
          cases success
        | ok result =>
          obtain ⟨e, rest⟩ := result
          obtain ⟨rest, rfl, alone, inner, shorter⟩ := read_in_hole nests closes found
          rw [sumFrom_turn (turn found) (length_of_read found)] at success
          have short' : (rest ++ piece :: behind).length < size :=
            Nat.lt_trans (length_of_read found) short
          obtain ⟨es, filled, success⟩ :=
            (ih rest.length (length ▸ shorter) inner short' rfl).1 success
          exact ⟨e :: es, .more alone filled, success⟩
      · rintro ⟨es, filled, success⟩
        cases filled with
        | @more _ rest e es alone filled =>
          have found : read (token :: hole ++ piece :: behind) = .ok (e, rest ++ piece :: behind) :=
            read_behind alone
          obtain ⟨rest', same, _, inner, shorter⟩ := read_in_hole nests closes found
          rw [← List.append_cancel_right same] at inner shorter
          rw [sumFrom_turn (turn found) (length_of_read found)]
          have short' : (rest ++ piece :: behind).length < size :=
            Nat.lt_trans (length_of_read found) short
          exact (ih rest.length (length ▸ shorter) inner short' rfl).2 ⟨es, filled, success⟩

end Loop

/-- Each hole is read as a list of expressions. -/
def Contents (parts : List Part) (contents : List (List Expression)) : Prop :=
  List.Forall₂ (fun part es => Filled part.piece part.hole es) parts contents

/-- The expressions of the holes and the texts of the pieces, in their order. -/
def summands : List Part → List (List Expression) → List Expression
  | part :: parts, es :: contents => es ++ pieceLiteral part.piece :: summands parts contents
  | _, _ => []

/-- What a string is read as: the sum of everything in it, or one text where its only hole has no
tokens. -/
def interpolation (start : Token) : List Part → List (List Expression) → Expression
  | [⟨[], stop⟩], _ => .literal start (.string (pieceText start ++ pieceText stop))
  | parts, contents => (summands parts contents).foldl (.binary (plusOf start)) (pieceLiteral start)

/-- The loop over the pieces takes the parts of the string, and no other tokens. -/
theorem sumFrom_iff {self : Reader Expression} {size : Nat} (agree : Agrees size self)
    {parts : List Part}
    (string : Interpolates parts) {plus : Token} {first sum : Expression} {left rest : List Token}
    (short : (partTokens parts ++ left).length < size) :
    sumFrom self plus first (partTokens parts ++ left) = .ok (sum, rest) ↔
      rest = left ∧ ∃ contents, Contents parts contents ∧
        sum = (summands parts contents).foldl (.binary plus) first := by
  induction string generalizing first with
  | @last part nests ends =>
    rw [partTokens_cons] at short ⊢
    rw [sumFrom_hole agree nests (by rw [ends]; decide) short]
    constructor
    · rintro ⟨es, filled, success⟩
      rw [sumFrom_last ends] at success
      cases success
      exact ⟨rfl, [es], .cons filled .nil, by rw [summands, List.foldl_append]; rfl⟩
    · rintro ⟨rfl, contents, all, rfl⟩
      cases all with
      | @cons _ es _ _ filled notTaken =>
        cases notTaken
        refine ⟨es, filled, ?_⟩
        rw [sumFrom_last ends, summands, List.foldl_append]
        rfl
  | @more part parts nests goesOn others ih =>
    rw [partTokens_cons] at short ⊢
    rw [sumFrom_hole agree nests (by rw [goesOn]; decide) short]
    have fewer : (partTokens parts ++ left).length < size := by
      rw [List.length_append, List.length_cons] at short
      omega
    constructor
    · rintro ⟨es, filled, success⟩
      rw [sumFrom_part goesOn, ih fewer] at success
      obtain ⟨same, contents, all, rfl⟩ := success
      exact ⟨same, es :: contents, .cons filled all, by rw [summands, List.foldl_append]; rfl⟩
    · rintro ⟨same, contents, all, rfl⟩
      cases all with
      | @cons _ es _ contents filled all =>
        refine ⟨es, filled, ?_⟩
        rw [sumFrom_part goesOn, ih fewer]
        exact ⟨same, contents, all, by rw [summands, List.foldl_append]; rfl⟩

/-- A string whose only hole has no tokens is one whose end stands right behind its start. -/
theorem Interpolates.adjacent {parts : List Part} {left : List Token} (string : Interpolates parts)
    (stops : nextKind (partTokens parts ++ left) = .stringInterpolationEnd) :
    ∃ stop, parts = [⟨[], stop⟩] ∧ stop.kind = .stringInterpolationEnd := by
  have inside : ∀ {part : Part} {parts : List Part}, Nests part.hole 0 0 →
      nextKind (partTokens (part :: parts) ++ left) = .stringInterpolationEnd →
      part.hole = [] ∧ part.piece.kind = .stringInterpolationEnd := by
    intro part parts nests stops
    rw [partTokens_cons] at stops
    cases hole : part.hole with
    | nil =>
      rw [hole] at stops
      exact ⟨rfl, stops⟩
    | cons token tokens =>
      rw [hole] at nests stops
      obtain ⟨next, opens, _⟩ := nests_cons.1 nests
      have closes : token.kind ∈ closers := by
        rw [show token.kind = _ from stops]
        decide
      rw [openAfter_closer closes] at opens
      cases opens
  cases string with
  | @last part nests ends =>
    obtain ⟨empty, _⟩ := inside nests stops
    obtain ⟨hole, stop⟩ := part
    cases empty
    exact ⟨stop, rfl, ends⟩
  | more nests goesOn others => cases goesOn.symm.trans (inside nests stops).2

theorem interpolation_of_ne {parts : List Part} {left : List Token} (string : Interpolates parts)
    (other : nextKind (partTokens parts ++ left) ≠ .stringInterpolationEnd) (start : Token)
    (contents : List (List Expression)) :
    interpolation start parts contents =
      (summands parts contents).foldl (.binary (plusOf start)) (pieceLiteral start) := by
  unfold interpolation
  split
  · cases string with
    | last nests ends => exact absurd ends other
    | more nests goesOn others => cases others
  · rfl

/-- A string is read, by every reader that reads expressions on shorter lists, if each of its holes
is read as a list of expressions. Nothing else is taken. -/
theorem operand_interpolation {self : Reader Expression} {size : Nat} (agree : Agrees size self)
    {parts : List Part}
    (string : Interpolates parts) {start : Token} (starts : start.kind = .stringInterpolationStart)
    {e : Expression} {left rest : List Token} (short : (partTokens parts ++ left).length < size) :
    operand self (start :: (partTokens parts ++ left)) = .ok (e, rest) ↔
      rest = left ∧ ∃ contents, Contents parts contents ∧
        e = interpolation start parts contents := by
  have reads : operand self (start :: (partTokens parts ++ left)) =
      interpolated self start (partTokens parts ++ left) := by
    simp only [operand, starts]
  rw [reads]
  by_cases adjacent : nextKind (partTokens parts ++ left) = .stringInterpolationEnd
  · obtain ⟨stop, rfl, ends⟩ := string.adjacent adjacent
    rw [show partTokens [⟨[], stop⟩] ++ left = stop :: left from rfl,
      interpolated_adjacent starts ends]
    constructor
    · intro success
      cases success
      exact ⟨rfl, [[]], .cons .empty .nil, rfl⟩
    · rintro ⟨rfl, contents, all, rfl⟩
      rfl
  · rw [interpolated_eq adjacent starts, sumFrom_iff agree string short]
    simp only [interpolation_of_ne string adjacent]

/-- The open interpolations of a text, counted. -/
theorem openAfter_of_nest {holes inner : List Hole} {token : Token}
    (fits : nest holes token = some inner) : openAfter holes.length token = some inner.length := by
  unfold nest at fits
  split at fits
  case h_1 starts =>
    obtain ⟨quote, _, rfl⟩ := Option.map_eq_some_iff.1 fits
    exact openAfter_start starts _
  case h_2 part =>
    cases fits
    exact (openAfter_part part _).trans (if_pos (Nat.succ_pos _))
  case h_4 ends =>
    split at fits
    · cases fits
      exact (openAfter_end ends _).trans (if_pos (Nat.succ_pos _))
    · cases fits
  case h_6 brace =>
    cases fits
    exact openAfter_other _ (by rw [brace]; decide)
  case h_7 brace =>
    cases fits
    exact openAfter_other _ (by rw [brace]; decide)
  case h_9 noStart noPart noEnd _ _ _ _ _ =>
    cases fits
    apply openAfter_other
    simp only [pieces, List.mem_cons, List.not_mem_nil, or_false, not_or]
    exact ⟨noStart, noPart, noEnd⟩
  all_goals cases fits

theorem nests_of_nest {holes inner : List Hole} {tokens : List Token}
    (fits : tokens.foldlM nest holes = some inner) : Nests tokens holes.length inner.length := by
  induction tokens generalizing holes with
  | nil =>
    cases fits
    exact .nil
  | cons token tokens ih =>
    rw [List.foldlM_cons] at fits
    obtain ⟨between, first, rest⟩ := Option.bind_eq_some_iff.1 fits
    exact nests_cons.2 ⟨between.length, openAfter_of_nest first, ih rest⟩

/-- White space and comments open nothing and close nothing. -/
theorem nests_meaningful {tokens : List Token} {before after : Nat}
    (nests : Nests tokens before after) :
    Nests (tokens.filter (!·.kind.isTrivia)) before after := by
  induction tokens generalizing before with
  | nil => exact nests
  | cons token tokens ih =>
    obtain ⟨between, first, rest⟩ := nests_cons.1 nests
    rw [List.filter_cons]
    split
    · exact nests_cons.2 ⟨between, first, ih rest⟩
    · next trivia =>
      have other : token.kind ∉ pieces := by
        intro member
        apply trivia
        revert member
        generalize token.kind = kind
        revert kind
        decide
      cases first.symm.trans (openAfter_other before other)
      exact ih rest

/-- The tokens that a program is read from close every interpolation that they open. -/
theorem nests_of_tokenize {source file : String} {tokens : List Token}
    (success : tokenize source file = .ok tokens) :
    Nests (TokenList.ofTokens tokens).tokens 0 0 := by
  have all : Nests (tokens.filter (!·.kind.isTrivia)) 0 0 :=
    nests_meaningful (nests_of_nest (tokenize_nests success))
  obtain ⟨same, _, last, _⟩ := TokenList.meaningful_tokenize success
  rw [same] at all
  obtain ⟨between, inner, stop⟩ := nests_append.1 all
  obtain ⟨next, first, rest⟩ := nests_cons.1 stop
  cases rest
  rw [openAfter_other between (by rw [last]; decide)] at first
  cases first
  exact inner

/-- Every interpolated string of a text has its parts: a start has exactly one row of holes and
pieces behind it, where the holes nest their own strings. Wherever the grammar comes to the string,
it is read if each of its holes is read as a list of expressions, and then as the sum of its texts
and these expressions in their order, or as one text where its end stands right behind its start.
Nothing behind the string is taken. -/
theorem interpolated_iff {source file : String} {tokens before rest : List Token} {start : Token}
    (lexed : tokenize source file = .ok tokens)
    (met : (TokenList.ofTokens tokens).tokens = before ++ start :: rest)
    (starts : start.kind = .stringInterpolationStart) :
    ∃ parts left, Interpolates parts ∧ rest = partTokens parts ++ left ∧
      (∀ parts' left', Interpolates parts' → rest = partTokens parts' ++ left' → parts' = parts ∧
        left' = left) ∧
      ∀ size self, Agrees size self → rest.length < size →
        ∀ e behind, operand self (start :: rest) = .ok (e, behind) ↔
        behind = left ∧ ∃ contents, Contents parts contents ∧
          e = interpolation start parts contents := by
  have all := nests_of_tokenize lexed
  rw [met] at all
  obtain ⟨outer, _, here⟩ := nests_append.1 all
  obtain ⟨next, opens, inside⟩ := nests_cons.1 here
  rw [openAfter_start starts] at opens
  cases opens
  obtain ⟨parts, left, string, rfl⟩ := exists_parts inside (Nat.zero_le outer)
  refine ⟨parts, left, string, rfl, fun parts' left' again same => string.unique again same, ?_⟩
  intro size self agree short e behind
  exact operand_interpolation agree string starts short

/-- Two expressions in one hole, without a mark between them, are two summands. -/
theorem interpolated_iff_two :
    tokenize "\"a\x7bx y\x7db\"" "main.mcl" = .ok
      [⟨.stringInterpolationStart, some "\"a\x7b", ⟨1, 1, 0⟩⟩, ⟨.identifier, some "x", ⟨1, 4, 3⟩⟩,
        ⟨.whitespace, some " ", ⟨1, 5, 4⟩⟩, ⟨.identifier, some "y", ⟨1, 6, 5⟩⟩,
        ⟨.stringInterpolationEnd, some "\x7db\"", ⟨1, 7, 6⟩⟩, ⟨.eof, none, ⟨1, 10, 9⟩⟩] ∧
      operand read
        [⟨.stringInterpolationStart, some "\"a\x7b", ⟨1, 1, 0⟩⟩, ⟨.identifier, some "x", ⟨1, 4, 3⟩⟩,
          ⟨.identifier, some "y", ⟨1, 6, 5⟩⟩,
            ⟨.stringInterpolationEnd, some "\x7db\"", ⟨1, 7, 6⟩⟩] =
        .ok (.binary ⟨.operatorAddition, some "+", ⟨1, 1, 0⟩⟩
          (.binary ⟨.operatorAddition, some "+", ⟨1, 1, 0⟩⟩
            (.binary ⟨.operatorAddition, some "+", ⟨1, 1, 0⟩⟩
              (.literal ⟨.stringInterpolationStart, some "\"a\x7b", ⟨1, 1, 0⟩⟩ (.string "a"))
              (.plain ⟨.identifier, some "x", ⟨1, 4, 3⟩⟩))
            (.plain ⟨.identifier, some "y", ⟨1, 6, 5⟩⟩))
          (.literal ⟨.stringInterpolationEnd, some "\x7db\"", ⟨1, 7, 6⟩⟩ (.string "b")), []) := by
  have lexed : tokenize "\"a\x7bx y\x7db\"" "main.mcl" = .ok
      [⟨.stringInterpolationStart, some "\"a\x7b", ⟨1, 1, 0⟩⟩, ⟨.identifier, some "x", ⟨1, 4, 3⟩⟩,
        ⟨.whitespace, some " ", ⟨1, 5, 4⟩⟩, ⟨.identifier, some "y", ⟨1, 6, 5⟩⟩,
        ⟨.stringInterpolationEnd, some "\x7db\"", ⟨1, 7, 6⟩⟩, ⟨.eof, none, ⟨1, 10, 9⟩⟩] := by cbv
  refine ⟨lexed, ?_⟩
  obtain ⟨parts, left, _, _, unique, reads⟩ :=
    interpolated_iff lexed (show _ = [] ++ _ from rfl) rfl
  obtain ⟨rfl, rfl⟩ := unique
    [⟨[⟨.identifier, some "x", ⟨1, 4, 3⟩⟩, ⟨.identifier, some "y", ⟨1, 6, 5⟩⟩],
      ⟨.stringInterpolationEnd, some "\x7db\"", ⟨1, 7, 6⟩⟩⟩] [] (.last (by decide) rfl) rfl
  have second : Filled ⟨.stringInterpolationEnd, some "\x7db\"", ⟨1, 7, 6⟩⟩
    [⟨.identifier, some "y", ⟨1, 6, 5⟩⟩] [.plain ⟨.identifier, some "y", ⟨1, 6, 5⟩⟩] :=
    .more ((Written.plain rfl).read_front (by decide)) .empty
  have both : Filled ⟨.stringInterpolationEnd, some "\x7db\"", ⟨1, 7, 6⟩⟩
      [⟨.identifier, some "x", ⟨1, 4, 3⟩⟩, ⟨.identifier, some "y", ⟨1, 6, 5⟩⟩]
      [.plain ⟨.identifier, some "x", ⟨1, 4, 3⟩⟩, .plain ⟨.identifier, some "y", ⟨1, 6, 5⟩⟩] :=
    .more ((Written.plain rfl).read_front (by decide)) second
  exact (reads 4 read (fun _ _ => rfl) (by decide) _ _).2 ⟨rfl, _, .cons both .nil, rfl⟩

end Treecode.Expression
