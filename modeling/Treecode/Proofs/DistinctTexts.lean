import Mathlib
import Treecode.Proofs.Bracketing
import Treecode.Proofs.Numerals
import Treecode.Text.Quoted

set_option autoImplicit false

namespace Treecode

namespace Text

open Dump (Escaped)

theorem digitChar_lt_sixteen : ∀ n < 16, ∀ m < 16, n.digitChar = m.digitChar → n = m := by decide

theorem plain_digitChar : ∀ n < 16, n.digitChar ≠ '"' ∧ n.digitChar ≠ '\\' ∧ n.digitChar ≠ '}' := by
    decide

theorem mem_toDigits {n : ℕ} {c : Char} (member : c ∈ Nat.toDigits 16 n) :
    ∃ k < 16, c = k.digitChar := by
  induction n using Nat.strongRecOn with
  | ind n ih =>
    by_cases small : n < 16
    · rw [Nat.toDigits_of_lt_base small, List.mem_singleton] at member
      exact ⟨n, small, member⟩
    · rw [Nat.toDigits_of_base_le (by decide) (by omega), List.mem_append,
        List.mem_singleton] at member
      obtain front | last := member
      · exact ih (n / 16) (by omega) front
      · exact ⟨n % 16, Nat.mod_lt _ (by decide), last⟩

theorem toDigits_injective : Function.Injective (Nat.toDigits 16) := by
  have step {n : ℕ} (big : ¬ n < 16) : Nat.toDigits 16 n = Nat.toDigits 16 (n / 16) ++
      [(n % 16).digitChar] :=
    Nat.toDigits_of_base_le (by decide) (Nat.le_of_not_lt big)
  have large {n : ℕ} (big : ¬ n < 16) : 1 < (Nat.toDigits 16 n).length := by
    rw [step big, List.length_append]
    exact Nat.lt_add_of_pos_left Nat.length_toDigits_pos
  intro n m same
  induction n using Nat.strongRecOn generalizing m with
  | ind n ih =>
    have lengths := congrArg List.length same
    by_cases small : n < 16
    · by_cases small' : m < 16
      · rw [Nat.toDigits_of_lt_base small, Nat.toDigits_of_lt_base small'] at same
        exact digitChar_lt_sixteen n small m small' (List.cons.inj same).1
      · have longer := large small'
        rw [← lengths, Nat.toDigits_of_lt_base small] at longer
        exact absurd longer (Nat.lt_irrefl 1)
    · by_cases small' : m < 16
      · have longer := large small
        rw [lengths, Nat.toDigits_of_lt_base small'] at longer
        exact absurd longer (Nat.lt_irrefl 1)
      · rw [step small, step small'] at same
        obtain ⟨fronts, lasts⟩ := List.append_inj' same rfl
        have quotients := ih (n / 16) (by omega) fronts
        have remainders := digitChar_lt_sixteen _ (Nat.mod_lt n (by decide))
          _ (Nat.mod_lt m (by decide)) (List.cons.inj lasts).1
        omega

/-- The character that a letter after a backslash stands for. -/
def ofLetter : Char → Char
  | '0' => '\x00'
  | 't' => '\t'
  | 'r' => '\r'
  | 'n' => '\n'
  | c => c

/-- A character is written as itself, as a backslash and a letter, or by its code point. -/
theorem quotedCharacter_cases (c : Char) :
    (quotedCharacter c = [c] ∧ c ≠ '\\' ∧ c ≠ '"') ∨
      (∃ letter, quotedCharacter c = ['\\', letter] ∧ letter ≠ 'u' ∧ ofLetter letter = c) ∨
        quotedCharacter c = codePointEscape c := by
  unfold quotedCharacter
  split
  case h_7 backslash quote =>
    split
    · exact .inr (.inr rfl)
    · exact .inl ⟨rfl, backslash, quote⟩
  all_goals exact .inr (.inl ⟨_, rfl, by decide, rfl⟩)

theorem codePointEscape_append (c : Char) (rest : List Char) :
    codePointEscape c ++ rest = '\\' :: 'u' :: '{' :: (Nat.toDigits 16 c.toNat ++ '}' :: rest) := by
  simp [codePointEscape]

/-- What a character is written as tells the character and where it ends. -/
theorem quotedCharacter_apart {c d : Char} {rest rest' : List Char}
    (same : quotedCharacter c ++ rest = quotedCharacter d ++ rest') : c = d ∧ rest = rest' := by
  obtain ⟨self, backslash, _⟩ | ⟨letter, escape, notCode, stands⟩ | code :=
    quotedCharacter_cases c <;>
    obtain ⟨self', backslash', _⟩ | ⟨letter', escape', notCode', stands'⟩ | code' :=
      quotedCharacter_cases d
  · rw [self, self'] at same
    exact List.cons.inj same
  · rw [self, escape'] at same
    exact absurd (List.cons.inj same).1 backslash
  · rw [self, code', codePointEscape_append] at same
    exact absurd (List.cons.inj same).1 backslash
  · rw [escape, self'] at same
    exact absurd (List.cons.inj same).1.symm backslash'
  · rw [escape, escape'] at same
    obtain ⟨rfl, rests⟩ := List.cons.inj (List.cons.inj same).2
    exact ⟨stands.symm.trans stands', rests⟩
  · rw [escape, code', codePointEscape_append] at same
    exact absurd (List.cons.inj (List.cons.inj same).2).1 notCode
  · rw [code, self', codePointEscape_append] at same
    exact absurd (List.cons.inj same).1.symm backslash'
  · rw [code, escape', codePointEscape_append] at same
    exact absurd (List.cons.inj (List.cons.inj same).2).1.symm notCode'
  · rw [code, code', codePointEscape_append, codePointEscape_append] at same
    have digits := (List.cons.inj (List.cons.inj (List.cons.inj same).2).2).2
    have inner (e : Char) : ∀ digit ∈ Nat.toDigits 16 e.toNat, (digit != '}') = true := by
      intro digit member
      obtain ⟨k, small, rfl⟩ := mem_toDigits member
      exact bne_iff_ne.2 (plain_digitChar k small).2.2
    have taken (e : Char) (back : List Char) :
        (Nat.toDigits 16 e.toNat ++ '}' :: back).takeWhile (· != '}') =
            Nat.toDigits 16 e.toNat := by
      rw [List.takeWhile_append_of_pos (inner e), List.takeWhile_cons_of_neg (by decide),
        List.append_nil]
    have points : Nat.toDigits 16 c.toNat = Nat.toDigits 16 d.toNat := by
      rw [← taken c rest, digits, taken d rest']
    obtain rfl := Char.toNat_inj.1 (toDigits_injective points)
    exact ⟨rfl, (List.cons.inj (List.append_cancel_left digits)).2⟩

theorem quotedCharacter_ne_nil (c : Char) : quotedCharacter c ≠ [] := by
  obtain ⟨self, _⟩ | ⟨letter, escape, _⟩ | code := quotedCharacter_cases c
  · rw [self]
    exact List.cons_ne_nil _ _
  · rw [escape]
    exact List.cons_ne_nil _ _
  · rw [code]
    exact List.cons_ne_nil _ _

theorem flatMap_quotedCharacter_injective : Function.Injective (List.flatMap quotedCharacter) := by
  intro text other same
  induction text generalizing other with
  | nil =>
    cases other with
    | nil => rfl
    | cons d other => exact absurd (List.append_eq_nil_iff.1 same.symm).1 (quotedCharacter_ne_nil d)
  | cons c text ih =>
    cases other with
    | nil => exact absurd (List.append_eq_nil_iff.1 same).1 (quotedCharacter_ne_nil c)
    | cons d other =>
      obtain ⟨rfl, rests⟩ := quotedCharacter_apart same
      rw [ih rests]

/-- Different texts are quoted in different ways. -/
theorem quoted_injective : Function.Injective quoted := by
  intro text other same
  have texts := String.ofList_inj.1 same
  have inner := List.append_cancel_right (List.cons.inj texts).2
  exact String.toList_injective (flatMap_quotedCharacter_injective inner)

theorem escaped_quotedCharacter (c : Char) : Escaped (quotedCharacter c) := by
  obtain ⟨self, backslash, quote⟩ | ⟨letter, escape, _⟩ | code := quotedCharacter_cases c
  · rw [self]
    exact .plain quote backslash .nil
  · rw [escape]
    exact .escape .nil
  · rw [code]
    have digits (text : List Char) (hexadecimal : ∀ digit ∈ text, ∃ k < 16, digit = k.digitChar) :
        Escaped (text ++ ['}']) := by
      induction text with
      | nil => exact .plain (by decide) (by decide) .nil
      | cons digit text ih =>
        obtain ⟨k, small, rfl⟩ := hexadecimal digit (List.mem_cons_self ..)
        have plain := plain_digitChar k small
        exact .plain plain.1 plain.2.1
          (ih fun digit member => hexadecimal digit (List.mem_cons_of_mem _ member))
    exact .escape (.plain (by decide) (by decide) (digits _ fun digit member =>
      mem_toDigits member))

end Text

namespace Dump

/-- Where each character is written in a way in which its quotes and backslashes are escaped, so is
a text. -/
theorem Escaped.flatMap {code : Char → List Char} (each : ∀ c, Escaped (code c))
    (text : List Char) : Escaped (text.flatMap code) := by
  induction text with
  | nil => exact .nil
  | cons c text ih => exact (each c).append ih

end Dump

namespace Value

open Dump (Escaped inAtom)

theorem escaped_stringCharacter (c : Char) : Escaped (stringCharacter c) := by
  unfold stringCharacter
  split
  case h_6 => exact .plain (by decide) (by decide) (.plain (by decide) (by decide) .nil)
  case h_7 quote backslash _ _ _ _ => exact .plain quote backslash .nil
  all_goals exact .escape .nil

theorem stringText_injective : Function.Injective stringText := by
  intro text other same
  have read := Literal.value_stringText text
  rw [same, Literal.value_stringText other] at read
  cases read
  rfl

theorem toList_integerText (n : Int64) :
    (integerText n).toList = if n.toInt < 0 then '-' :: Decimal.digits n.toInt.natAbs
      else Decimal.digits n.toInt.natAbs := by
  have minus : "-".toList = ['-'] := rfl
  unfold integerText
  dsimp only
  split
  · rw [String.toList_append, minus, String.toList_ofList]
    rfl
  · rw [String.toList_ofList]

/-- An integer is printed as digits, with a minus in front of them or not. -/
theorem integerText_chars (n : Int64) : ∀ c ∈ (integerText n).toList, c.isDigit ∨ c = '-' := by
  have digits : ∀ c ∈ Decimal.digits n.toInt.natAbs, c.isDigit := Decimal.isDigit_of_mem_digits _
  intro c member
  rw [toList_integerText] at member
  split at member
  · obtain minus | digit := List.mem_cons.1 member
    · exact .inr minus
    · exact .inl (digits c digit)
  · exact .inl (digits c member)

theorem integerText_ne_empty (n : Int64) : integerText n ≠ "" := by
  intro empty
  have nothing := toList_integerText n
  rw [empty] at nothing
  split at nothing
  · cases nothing
  · exact List.ne_nil_of_length_pos (Decimal.length_digits_pos _) nothing.symm

theorem digits_injective : Function.Injective Decimal.digits := by
  intro n m same
  rw [← Decimal.valueOf_digits n, same, Decimal.valueOf_digits m]

theorem digits_ne_minus (n : ℕ) (rest : List Char) : Decimal.digits n ≠ '-' :: rest := by
  intro same
  have digit := Decimal.isDigit_of_mem_digits n '-' (same ▸ List.mem_cons_self ..)
  cases digit

theorem integerText_injective : Function.Injective integerText := by
  intro n m same
  have texts := congrArg String.toList same
  rw [toList_integerText, toList_integerText] at texts
  apply Int64.toInt_inj.1
  split at texts
  · split at texts
    · have magnitudes := digits_injective (List.cons.inj texts).2
      omega
    · exact absurd texts.symm (digits_ne_minus _ _)
  · split at texts
    · exact absurd texts (digits_ne_minus _ _)
    · have magnitudes := digits_injective texts
      omega

def magnitude (x : Double) : Double := .ofField false x.field

theorem field_magnitude (x : Double) : (magnitude x).field = x.field :=
  Double.field_ofField x.field_lt

theorem negative_magnitude (x : Double) : (magnitude x).negative = false :=
  Double.negative_ofField x.field_lt

theorem doubleText_magnitude (x : Double) :
    Decimal.doubleText (magnitude x) = Decimal.magnitudeText x.field := by
  unfold Decimal.doubleText
  rw [negative_magnitude, Bool.false_and, if_neg Bool.false_ne_true, field_magnitude]

/-- A number is printed as its sign and what is printed of it without the sign. -/
theorem floatText_signed {x : Double} (number : x.isNaN = false) :
    (floatText x).toList = (if x.negative then ['-'] else []) ++
    (floatText (magnitude x)).toList := by
  have minus : "-".toList = ['-'] := rfl
  have text : Decimal.doubleText x =
      if x.negative then "-" ++ Decimal.magnitudeText x.field
          else Decimal.magnitudeText x.field := by
    unfold Decimal.doubleText
    rw [number, Bool.not_false, Bool.and_true]
  unfold floatText
  rw [doubleText_magnitude, text]
  dsimp only
  cases x.negative with
  | false => rfl
  | true =>
    rw [if_pos rfl, if_pos rfl, String.toList_append, minus]
    by_cases point : (Decimal.magnitudeText x.field).toList.contains '.'
    · have point' : (['-'] ++ (Decimal.magnitudeText x.field).toList).contains '.' := by
        rw [List.contains_append, point, Bool.or_true]
      rw [if_pos point, if_pos point', String.toList_append, minus]
    · have point' : ¬ (['-'] ++ (Decimal.magnitudeText x.field).toList).contains '.' := by
        rw [List.contains_append, Bool.eq_false_iff.2 point]
        decide
      rw [if_neg point, if_neg point', String.toList_append, String.toList_append,
        String.toList_append, minus, List.append_assoc]

theorem floatText_infinite {x : Double} (infinite : x.field = Double.infinityField)
    (positive : x.negative = false) : floatText x = "inf.0" := by
  have text : Decimal.doubleText x = "inf" := by
    unfold Decimal.doubleText Decimal.magnitudeText
    rw [positive, infinite]
    rfl
  unfold floatText
  rw [text]
  rfl

theorem floatText_nan {x : Double} (nan : x.isNaN) : floatText x = "NaN.0" := by
  have text : Decimal.doubleText x = "NaN" := by
    unfold Decimal.doubleText Decimal.magnitudeText
    rw [nan, Bool.not_true, Bool.and_false, if_neg Bool.false_ne_true,
      if_pos (of_decide_eq_true nan)]
  unfold floatText
  rw [text]
  rfl

/-- A number without a sign is finite, and so printed as digits, or infinite. -/
theorem magnitude_cases {x : Double} (number : x.isNaN = false) :
    (magnitude x).isFinite ∨ x.field = Double.infinityField ∧ floatText
    (magnitude x) = "inf.0" := by
  by_cases finite : x.field < Double.infinityField
  · exact .inl (decide_eq_true (field_magnitude x ▸ finite))
  · have bounded : ¬ Double.infinityField < x.field := of_decide_eq_false number
    have infinite : x.field = Double.infinityField := by omega
    exact .inr
      ⟨infinite, floatText_infinite ((field_magnitude x).trans infinite) (negative_magnitude x)⟩

theorem inAtom_digit {c : Char} (digit : c.isDigit) : inAtom c := by
  unfold inAtom Char.isAlphanum
  rw [digit, Bool.or_true]
  rfl

/-- A number without its sign is printed as an atom with a point in it and no minus. -/
theorem floatText_magnitude_chars {x : Double} (number : x.isNaN = false) :
    (∀ c ∈ (floatText (magnitude x)).toList, inAtom c ∧ c ≠ '-') ∧
    '.' ∈ (floatText (magnitude x)).toList := by
  obtain finite | ⟨_, infinite⟩ := magnitude_cases number
  · obtain ⟨whole, fraction, spells⟩ := floatText_shape finite (negative_magnitude x)
    have digit {c : Char} (digit : c.isDigit) : inAtom c ∧ c ≠ '-' := by
      refine ⟨inAtom_digit digit, ?_⟩
      rintro rfl
      cases digit
    rw [spells.shape]
    refine ⟨fun c member => ?_, List.mem_append_right _ (List.mem_cons_self ..)⟩
    obtain front | back := List.mem_append.1 member
    · exact digit (spells.wholeDigits c front)
    · obtain rfl | back := List.mem_cons.1 back
      · decide
      · exact digit (spells.fractionDigits c back)
  · have plain : ∀ c ∈ "inf.0".toList, inAtom c := List.all_eq_true.1 rfl
    rw [infinite]
    refine ⟨fun c member => ⟨plain c member, ?_⟩, by simp⟩
    rintro rfl
    simp at member

/-- A float is printed as an atom with a point in it. -/
theorem floatText_chars (x : Double) :
    (∀ c ∈ (floatText x).toList, inAtom c) ∧ '.' ∈ (floatText x).toList := by
  cases nan : x.isNaN with
  | true =>
    have plain : ∀ c ∈ "NaN.0".toList, inAtom c := List.all_eq_true.1 rfl
    rw [floatText_nan nan]
    exact ⟨plain, by simp⟩
  | false =>
    obtain ⟨plain, point⟩ := floatText_magnitude_chars nan
    rw [floatText_signed nan]
    refine ⟨fun c member => ?_, List.mem_append_right _ point⟩
    obtain sign | rest := List.mem_append.1 member
    · split at sign
      · rw [List.mem_singleton.1 sign]
        rfl
      · cases sign
    · exact (plain c rest).1

theorem floatText_magnitude_injective {x y : Double} (number : x.isNaN = false)
    (number' : y.isNaN = false)
    (same : floatText (magnitude x) = floatText (magnitude y)) : magnitude x = magnitude y := by
  -- an infinite number is printed with a letter, a finite one without
  have finite_ne {z : Double} (finite : (magnitude z).isFinite) :
      floatText (magnitude z) ≠ "inf.0" := by
    intro letters
    obtain ⟨whole, fraction, spells⟩ := floatText_shape finite (negative_magnitude z)
    have shape := spells.shape
    rw [letters] at shape
    cases whole with
    | nil => exact spells.someWhole rfl
    | cons c whole =>
      have digit := spells.wholeDigits c (List.mem_cons_self ..)
      have first : 'i' = c := (List.cons.inj shape).1
      rw [← first] at digit
      cases digit
  obtain finite | ⟨infinite, letters⟩ := magnitude_cases number
  · obtain finite' | ⟨_, letters'⟩ := magnitude_cases number'
    · have read := Literal.value_floatText finite (negative_magnitude x)
      rw [same, Literal.value_floatText finite' (negative_magnitude y)] at read
      exact (Value.float.inj (Except.ok.inj read)).symm
    · exact absurd (same.trans letters') (finite_ne finite)
  · obtain finite' | ⟨infinite', _⟩ := magnitude_cases number'
    · exact absurd (same.symm.trans letters) (finite_ne finite')
    · unfold magnitude
      rw [infinite, infinite']

/-- What is printed of a number tells the number, the sign of a zero included. -/
theorem floatText_injective {x y : Double} (number : x.isNaN = false) (number' : y.isNaN = false)
    (same : floatText x = floatText y) : x = y := by
  have texts := congrArg String.toList same
  rw [floatText_signed number, floatText_signed number'] at texts
  have noMinus {z : Double} (number : z.isNaN = false) (rest : List Char) :
      (floatText (magnitude z)).toList ≠ '-' :: rest := by
    intro same
    exact ((floatText_magnitude_chars number).1 '-' (same ▸ List.mem_cons_self ..)).2 rfl
  have magnitudes (unsigned : (floatText (magnitude x)).toList = (floatText (magnitude y)).toList) :
      x.field = y.field := by
    rw [← field_magnitude x, ← field_magnitude y,
      floatText_magnitude_injective number number' (String.toList_injective unsigned)]
  rw [← x.ofField_negative_field, ← y.ofField_negative_field]
  cases sign : x.negative <;> cases sign' : y.negative <;>
    simp only [sign, sign', Bool.false_eq_true, ↓reduceIte, List.nil_append, List.cons_append,
      List.cons.injEq, true_and] at texts
  · rw [magnitudes texts]
  · exact absurd texts (noMinus number _)
  · exact absurd texts.symm (noMinus number' _)
  · rw [magnitudes texts]

end Value

end Treecode
