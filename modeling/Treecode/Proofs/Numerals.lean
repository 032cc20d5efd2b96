import Mathlib
import Treecode.Proofs.Rounding
import Treecode.Proofs.Spelled

set_option autoImplicit false

namespace Treecode

namespace Decimal

open Double

/-- A text of digits with a point between that denotes the magnitude of a field. -/
structure Spells (text : List Char) (field : ℕ) (whole fraction : List Char) : Prop where
  shape : text = whole ++ '.' :: fraction
  someWhole : whole ≠ []
  wholeDigits : ∀ c ∈ whole, c.isDigit
  someFraction : fraction ≠ []
  fractionDigits : ∀ c ∈ fraction, c.isDigit
  denotes : fieldOf (valueOf (whole ++ fraction)) (-(fraction.length : ℤ)) = field

theorem not_digit_of_point {text : List Char} (digits : ∀ c ∈ text, c.isDigit) : '.' ∉ text := by
  intro member
  cases digits '.' member

theorem valueOf_replicate (places : ℕ) (text : List Char) :
    valueOf (List.replicate places '0' ++ text) = valueOf text := by
  induction places with
  | zero => rfl
  | succ places ih =>
    rw [List.replicate_succ, List.cons_append]
    exact ih

theorem digits_zero : ∀ c ∈ ['0'], c.isDigit := by
  intro c member
  rw [List.mem_singleton.1 member]
  rfl

/-- What is printed of a decimal, with a zero after the point where it has none. -/
def pointed (text : List Char) : List Char := if text.contains '.' then text else text ++ ['.', '0']

/-- The zeros that a decimal above one is filled up with move its point. -/
theorem spells_upward {c : ℕ} (positive : 0 < c) (k : ℕ) :
    Spells (pointed (digits c ++ List.replicate k '0')) (fieldOf c k)
      (digits (c * 10 ^ k)) ['0'] := by
  rw [← digits_mul_pow positive]
  have all := isDigit_of_mem_digits (c * 10 ^ k)
  have noPoint := not_digit_of_point all
  have nonempty := length_digits_pos (c * 10 ^ k)
  refine ⟨?_, List.ne_nil_of_length_pos nonempty, all, List.cons_ne_nil _ _, digits_zero, ?_⟩
  · unfold pointed
    rw [if_neg (by simpa using noPoint)]
  · rw [valueOf_append_singleton, valueOf_digits]
    have value : 10 * (c * 10 ^ k) + ('0'.toNat - '0'.toNat) = c * 10 ^ (k + 1) := by
      rw [Nat.sub_self, pow_succ]
      ring
    have exponent : (-(['0'].length : ℤ)) = (k : ℤ) - ((k + 1 : ℕ) : ℤ) := by
      rw [List.length_singleton]
      push_cast
      ring
    rw [value, exponent, fieldOf_scale positive]

/-- A decimal with its point inside or before its digits. -/
theorem spells_downward (c : ℕ) {places : ℕ} (nonempty : 0 < places) :
    ∃ whole fraction, Spells (pointed (positional c (-(places : ℤ)))) (fieldOf c (-(places : ℤ)))
      whole fraction := by
  have all := isDigit_of_mem_digits c
  have toNat : (-(-(places : ℤ))).toNat = places := by simp
  unfold positional
  dsimp only
  rw [if_neg (by omega), toNat]
  by_cases inside : places < (digits c).length
  · rw [if_pos inside]
    refine ⟨(digits c).take ((digits c).length - places),
      (digits c).drop ((digits c).length - places),
      ?_, ?_, fun d member => all d (List.mem_of_mem_take member), ?_,
      fun d member => all d (List.mem_of_mem_drop member), ?_⟩
    · unfold pointed
      rw [if_pos (by simp)]
    · apply List.ne_nil_of_length_pos
      rw [List.length_take]
      omega
    · apply List.ne_nil_of_length_pos
      rw [List.length_drop]
      omega
    · rw [List.take_append_drop, valueOf_digits, List.length_drop]
      congr 2
      omega
  · rw [if_neg inside]
    have zeros : ∀ d ∈ List.replicate (places - (digits c).length) '0' ++ digits c, d.isDigit := by
      intro d member
      rcases List.mem_append.1 member with zero | digit
      · rw [List.eq_of_mem_replicate zero]
        decide
      · exact all d digit
    refine ⟨['0'], List.replicate (places - (digits c).length) '0' ++ digits c, ?_,
      List.cons_ne_nil _ _, digits_zero, ?_, zeros, ?_⟩
    · unfold pointed
      rw [if_pos (by simp)]
      rfl
    · apply List.ne_nil_of_length_pos
      rw [List.length_append]
      exact Nat.add_pos_right _ (length_digits_pos c)
    · rw [List.singleton_append, ← List.cons_append, ← List.replicate_succ, valueOf_replicate,
        valueOf_digits, List.length_append, List.length_replicate]
      congr 2
      omega

/-- The decimal of a field is printed so that it denotes the field. -/
theorem spells_positional {field : ℕ} (positive : 0 < field) (finite : field < infinityField) :
    ∃ whole fraction, Spells (pointed (positional (shortest field).1 (shortest field).2)) field
      whole fraction := by
  have readsBack := fieldOf_shortest positive finite
  have something := shortest_pos positive finite
  revert readsBack something
  obtain ⟨c, s⟩ := shortest field
  dsimp only
  intro readsBack something
  rw [← readsBack]
  rcases le_or_gt 0 s with up | down
  · obtain ⟨k, rfl⟩ := Int.eq_ofNat_of_zero_le up
    have shape : positional c (k : ℤ) = digits c ++ List.replicate k '0' := by
      unfold positional
      dsimp only
      rw [if_pos up, Int.toNat_natCast]
    rw [shape]
    exact ⟨_, _, spells_upward something k⟩
  · obtain ⟨places, rfl⟩ := Int.exists_eq_neg_ofNat down.le
    exact spells_downward c (by omega)

end Decimal

namespace Decimal

theorem toLower_digit {c : Char} (digit : c.isDigit) : c.toLower = c := by
  have bounds := Lexer.digit_bounds digit
  unfold Char.toLower
  split
  · rename_i upper
    have low : 65 ≤ c.toNat := by
      have both := upper.1
      exact both
    omega
  · rfl

/-- Digits are read as the integer that they denote, if it has 64 bits. -/
theorem integer?_digits {text : List Char} (nonempty : text ≠ []) (digits : ∀ c ∈ text, c.isDigit) :
    integer? text =
      if (valueOf text : ℤ) ≤ Int64.maxValue.toInt then some (Int64.ofInt (valueOf text))
        else none := by
  have natural : natural? text = some (valueOf text) := by
    unfold natural?
    rw [List.isEmpty_eq_false_iff.2 nonempty, List.all_eq_true.2 digits, Bool.not_true,
      Bool.or_false, if_neg Bool.false_ne_true]
  have low : Int64.minValue.toInt ≤ (valueOf text : ℤ) :=
    le_trans (by decide) (Int.natCast_nonneg _)
  cases text with
  | nil => exact absurd rfl nonempty
  | cons c more =>
    unfold integer?
    rw [splitSign_digit more (digits c (List.mem_cons_self ..))]
    simp only [natural, Option.bind_eq_bind, Option.bind_some, Bool.false_eq_true, ↓reduceIte,
      low, true_and]

/-- Digits with a point in or behind them are read as the double of their decimal. -/
theorem double?_pointed {whole fraction : List Char} (nonempty : whole ≠ [])
    (digits : ∀ c ∈ whole, c.isDigit) (digits' : ∀ c ∈ fraction, c.isDigit) :
    double? (whole ++ '.' :: fraction) =
      some (Double.ofField false
        (fieldOf (valueOf (whole ++ fraction)) (-(fraction.length : ℤ)))) := by
  have magnitude : magnitude? (whole ++ '.' :: fraction) =
      some (fieldOf (valueOf (whole ++ fraction)) (-(fraction.length : ℤ))) := by
    have noPoint : ¬ ('.').isDigit := by decide
    have wholeTaken : (whole ++ '.' :: fraction).takeWhile Char.isDigit = whole := by
      rw [List.takeWhile_append_of_pos digits, List.takeWhile_cons_of_neg noPoint, List.append_nil]
    have wholeDropped : (whole ++ '.' :: fraction).dropWhile Char.isDigit = '.' :: fraction := by
      rw [List.dropWhile_append_of_pos digits, List.dropWhile_cons_of_neg noPoint]
    have cut : splitFraction ('.' :: fraction) = (fraction, []) := by
      show (fraction.takeWhile Char.isDigit, fraction.dropWhile Char.isDigit) = _
      rw [List.takeWhile_eq_self_iff.2 digits', List.dropWhile_eq_nil_iff.2 digits']
    unfold magnitude?
    rw [wholeTaken, wholeDropped, cut]
    simp [nonempty, exponent?]
  cases whole with
  | nil => exact absurd rfl nonempty
  | cons c more =>
    have digit := digits c (List.mem_cons_self ..)
    have different : c ≠ 'i' ∧ c ≠ 'n' := by
      constructor <;> rintro rfl <;> cases digit
    unfold double?
    rw [List.cons_append, splitSign_digit _ digit]
    rw [List.cons_append] at magnitude
    dsimp only
    rw [magnitude, List.map_cons, toLower_digit digit]
    simp [different.1, different.2]

end Decimal

namespace Value

open Decimal

/-- A float is printed as digits with a point between. -/
theorem floatText_shape {x : Double} (finite : x.isFinite) (positive : x.negative = false) :
    ∃ whole fraction, Spells (floatText x).toList x.field whole fraction := by
  have bounded : x.field < Double.infinityField := by
    simpa only [Double.isFinite, decide_eq_true_eq] using finite
  have printed : doubleText x = magnitudeText x.field := by
    unfold doubleText
    rw [positive, Bool.false_and, if_neg Bool.false_ne_true]
  have text : (floatText x).toList = pointed (magnitudeText x.field).toList := by
    unfold floatText pointed
    rw [printed]
    dsimp only
    split
    · rfl
    · rw [String.toList_append]
      rfl
  rw [text]
  unfold magnitudeText
  rw [if_neg (by omega), if_neg (by omega)]
  by_cases zero : x.field = 0
  · rw [if_pos zero, zero]
    exact ⟨['0'], ['0'], rfl, List.cons_ne_nil _ _, digits_zero, List.cons_ne_nil _ _,
      digits_zero, rfl⟩
  · rw [if_neg zero]
    have shortened : (String.ofList (positional (shortest x.field).1 (shortest x.field).2)).toList =
        positional (shortest x.field).1 (shortest x.field).2 := String.toList_ofList
    have spelled := spells_positional (Nat.pos_of_ne_zero zero) bounded
    rw [← shortened] at spelled
    exact spelled

end Value

namespace Literal

open Decimal

theorem value_integerText {n : Int64} (positive : 0 ≤ n.toInt) :
    (Value.integerText n).toList = digits n.toInt.natAbs ∧
      value .integer (Value.integerText n) = .ok (.integer n) := by
  have text : (Value.integerText n).toList = digits n.toInt.natAbs := by
    unfold Value.integerText
    dsimp only
    rw [if_neg (by omega), String.toList_ofList]
  have magnitude : ((n.toInt.natAbs : ℕ) : ℤ) = n.toInt := Int.natAbs_of_nonneg positive
  have read : integer? (digits n.toInt.natAbs) = some n := by
    have nonempty := List.ne_nil_of_length_pos (length_digits_pos n.toInt.natAbs)
    rw [integer?_digits nonempty (isDigit_of_mem_digits _), valueOf_digits, magnitude,
      if_pos n.toInt_le, Int64.ofInt_toInt]
  refine ⟨text, ?_⟩
  unfold value
  dsimp only
  rw [text, read]

theorem value_floatText {x : Double} (finite : x.isFinite) (positive : x.negative = false) :
    value .float (Value.floatText x) = .ok (.float x) := by
  obtain ⟨whole, fraction, spells⟩ := Value.floatText_shape finite positive
  have read := double?_pointed spells.someWhole spells.wholeDigits spells.fractionDigits
  have back := Double.ofField_negative_field x
  rw [positive] at back
  rw [spells.denotes, back] at read
  unfold value
  dsimp only
  rw [spells.shape, read]
  dsimp only
  rw [if_pos finite]

end Literal

end Treecode
