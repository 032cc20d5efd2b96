import Treecode.Proofs.Nearest

set_option autoImplicit false

namespace Treecode

namespace Double

/-- Where infinity starts for numbers that are rounded: halfway between the greatest finite double
and the power of two above it. -/
def overflow : ℚ := (2 : ℚ) ^ 1024 - (2 : ℚ) ^ 970

/-- The overflow in the unit of the greatest doubles. -/
theorem overflow_eq : overflow = (2 * hiddenBit - 1 / 2) * (2 : ℚ) ^ (971 : ℤ) := by
  have power : (2 : ℚ) ^ 1024 = 2 * (2 : ℚ) ^ (52 : ℤ) * (2 : ℚ) ^ (971 : ℤ) := by
    have exponents : (1024 : ℕ) = 1 + 52 + 971 := rfl
    rw [exponents, pow_add, pow_add, pow_one]
    rfl
  have half : (2 : ℚ) ^ (971 : ℤ) = 2 * (2 : ℚ) ^ 970 := (pow_succ' (2 : ℚ) 970 :)
  rw [overflow, power, hiddenBit_eq, sub_mul]
  generalize (2 : ℚ) ^ 970 = unit at *
  rw [half]
  ring

section Rounded

variable {r : ℚ} {q : ℤ} {m : ℕ}

/-- In the unit of the greatest doubles a number is rounded up to the power above them exactly if it
lies at least halfway towards it: the greatest mantissa is odd. -/
theorem Rounded.top_lt_iff (rounded : Rounded r 971 m) : m < 2 * hiddenBit ↔ r < overflow := by
  have unit : (0 : ℚ) < (2 : ℚ) ^ (971 : ℤ) := by positivity
  have nearest := rounded.nearest
  have small := rounded.small
  rw [overflow_eq, ← div_lt_iff₀ unit]
  generalize r / (2 : ℚ) ^ (971 : ℤ) = s at nearest ⊢
  constructor
  · intro below
    by_contra reached
    have least : (m : ℚ) + 1 ≤ 2 * hiddenBit := by exact_mod_cast below
    have near := (nearest (2 * hiddenBit : ℤ)).1
    have tie := (nearest (2 * hiddenBit : ℤ)).2 (by omega)
    push_cast at near tie
    have far : (2 : ℚ) * hiddenBit - 1 / 2 ≤ s := not_lt.1 reached
    rw [abs_of_nonpos (by linarith)] at near tie
    rcases le_total s (2 * hiddenBit) with inside | beyond
    · rw [abs_of_nonneg (by linarith)] at near tie
      have odd := (tie (by linarith)).2
      unfold hiddenBit at odd
      omega
    · rw [abs_of_nonpos (by linarith)] at near
      linarith
  · intro below
    refine Nat.lt_of_le_of_ne small fun top => ?_
    have near := (nearest (2 * hiddenBit - 1 : ℤ)).1
    have cast : (m : ℚ) = 2 * hiddenBit := by exact_mod_cast top
    push_cast at near
    rw [cast, abs_of_nonneg (by linarith)] at near
    rcases le_total s (2 * hiddenBit - 1) with under | past
    · rw [abs_of_nonneg (by linarith)] at near
      linarith
    · rw [abs_of_nonpos (by linarith)] at near
      linarith

/-- The field of a rounded number is finite exactly if the number lies below the overflow. -/
theorem Rounded.field_lt_iff (rounded : Rounded r q m) (below : r < 2 * hiddenBit * (2 : ℚ) ^ q) :
    (q + 1074).toNat * hiddenBit + m < infinityField ↔ r < overflow := by
  have small := rounded.small
  rcases lt_trichotomy q 971 with under | rfl | past
  · have steps : (q + 1074).toNat * hiddenBit ≤ 2044 * hiddenBit :=
      Nat.mul_le_mul_right _ (by omega)
    have finite : (q + 1074).toNat * hiddenBit + m < infinityField := by
      unfold infinityField hiddenBit at *
      omega
    have bound : r < overflow := by
      calc r < 2 * hiddenBit * (2 : ℚ) ^ q := below
        _ ≤ 2 * hiddenBit * (2 : ℚ) ^ (970 : ℤ) := by
            gcongr
            · exact one_le_two
            · omega
        _ = hiddenBit * (2 : ℚ) ^ ((970 : ℤ) + 1) := by
            rw [zpow_add₀ two_ne_zero, zpow_one]
            ring
        _ < (2 * hiddenBit - 1 / 2) * (2 : ℚ) ^ (971 : ℤ) := by
            have hidden : (1 : ℚ) ≤ hiddenBit := by exact_mod_cast (show 1 ≤ hiddenBit by decide)
            refine mul_lt_mul_of_pos_right ?_ (by positivity)
            linarith
        _ = overflow := overflow_eq.symm
    exact iff_of_true finite bound
  · rw [← rounded.top_lt_iff]
    unfold infinityField hiddenBit at *
    omega
  · have steps : 2046 * hiddenBit ≤ (q + 1074).toNat * hiddenBit :=
      Nat.mul_le_mul_right _ (by omega)
    have normal := rounded.normal (by omega)
    have infinite : ¬ (q + 1074).toNat * hiddenBit + m < infinityField := by
      unfold infinityField hiddenBit at *
      omega
    have reached : ¬ r < overflow := by
      rw [not_lt]
      calc overflow ≤ 2 * hiddenBit * (2 : ℚ) ^ (971 : ℤ) := by
            rw [overflow_eq]
            refine mul_le_mul_of_nonneg_right ?_ (by positivity)
            linarith
        _ = hiddenBit * (2 : ℚ) ^ ((971 : ℤ) + 1) := by
            rw [zpow_add₀ two_ne_zero, zpow_one]
            ring
        _ ≤ hiddenBit * (2 : ℚ) ^ q := by
            gcongr
            · exact one_le_two
            · omega
        _ ≤ r := rounded.above (by omega)
    exact iff_of_false infinite reached

end Rounded

/-- A ratio is rounded to a finite double exactly if it lies below the overflow. -/
theorem fieldOfRatio_lt_iff (num : ℕ) {den : ℕ} (positive : 0 < den) :
    fieldOfRatio num den < infinityField ↔ (num : ℚ) / den < overflow := by
  rcases Nat.eq_zero_or_pos num with rfl | something
  · have above : (0 : ℚ) < overflow := by
      have hidden : (1 : ℚ) ≤ hiddenBit := by exact_mod_cast (show 1 ≤ hiddenBit by decide)
      rw [overflow_eq]
      exact mul_pos (by linarith) (by positivity)
    rw [Nat.cast_zero, zero_div]
    exact iff_of_true (show 0 < infinityField by decide) above
  · obtain ⟨m, rounded, made⟩ := rounded_ratio something positive
    have below := (exponentOf_bounds something positive).2.1
    rw [made, min_lt_iff, or_iff_left (lt_irrefl _), rounded.field_lt_iff below]

/-- A ratio less than half of the least positive double is rounded to zero. -/
theorem fieldOfRatio_eq_zero {num den : ℕ} (positive : 0 < den)
    (small : (num : ℚ) / den < (2 : ℚ) ^ (-1075 : ℤ)) : fieldOfRatio num den = 0 := by
  rcases Nat.eq_zero_or_pos num with rfl | something
  · rfl
  · obtain ⟨m, rounded, made⟩ := rounded_ratio something positive
    have ratio : (0 : ℚ) < num / den := by positivity
    have log : Int.log 2 ((num : ℚ) / den) < -1075 := by
      rw [← Int.lt_zpow_iff_log_lt one_lt_two ratio]
      exact_mod_cast small
    have exponent : exponentOf num den = -1074 := by
      rw [exponentOf_eq something positive]
      omega
    rw [exponent] at rounded made
    have half : (num : ℚ) / den / (2 : ℚ) ^ (-1074 : ℤ) < 1 / 2 := by
      have splits : (2 : ℚ) ^ (-1075 : ℤ) = 1 / 2 * (2 : ℚ) ^ (-1074 : ℤ) := by
        rw [show (-1075 : ℤ) = -1 + -1074 from rfl, zpow_add₀ two_ne_zero]
        norm_num
      rw [div_lt_iff₀ (by positivity), ← splits]
      exact small
    have nonneg : 0 ≤ (num : ℚ) / den / (2 : ℚ) ^ (-1074 : ℤ) := by positivity
    have near := (rounded.nearest 0).1
    rw [Int.cast_zero, zero_sub, abs_neg, abs_of_nonneg nonneg] at near
    have nothing : m = 0 := by
      by_contra more
      have one : (1 : ℚ) ≤ m := by exact_mod_cast Nat.pos_of_ne_zero more
      rw [abs_of_nonneg (by linarith)] at near
      linarith
    rw [made, nothing]
    rfl

/-- A ratio below the overflow is rounded to a nearest double. -/
theorem nearest_fieldOfRatio {num den : ℕ} (positive : 0 < den)
    (finite : fieldOfRatio num den < infinityField) :
    (ofField false (fieldOfRatio num den)).Nearest (num / den) := by
  have inside : fieldOfRatio num den < signWeight := Nat.lt_trans finite (by decide)
  have number : (ofField false (fieldOfRatio num den)).number =
      magnitude (fieldOfRatio num den) := by
    rw [Double.number, field_ofField inside, negative_ofField inside, if_neg Bool.false_ne_true]
  have isFinite : (ofField false (fieldOfRatio num den)).isFinite = true := by
    rw [isFinite_iff, field_ofField inside]
    exact finite
  rcases Nat.eq_zero_or_pos num with rfl | something
  · refine .of_eq isFinite ?_
    rw [number, Nat.cast_zero, zero_div]
    exact magnitude_zero
  · have nearest := fun y : Double =>
      fieldOfRatio_nearest something positive finite (denotes_number y)
    rw [← number] at nearest
    refine ⟨isFinite, fun y _ => (nearest y).1, fun y _ other same => ?_⟩
    rw [field_ofField inside]
    exact ((nearest y).2 other same).1

end Double

namespace Decimal

open Double

theorem pow_ten_pos (n : ℕ) : 0 < Nat.pow 10 n := Nat.pow_pos (by decide)

/-- What is far beyond the doubles, or far below the least one, is read as rounding would have
it. -/
theorem fieldOf_eq (c : ℕ) (e : ℤ) :
    fieldOf c e = fieldOfRatio (c * Nat.pow 10 e.toNat) (Nat.pow 10 (-e).toNat) := by
  rcases Nat.eq_zero_or_pos c with rfl | something
  · unfold fieldOf fieldOfRatio
    rw [Nat.zero_mul, if_pos (.inl rfl), if_pos rfl]
  · obtain ⟨low, high⟩ := decimal_bounds something e
    rw [← ratio_decimal] at low high
    have den := pow_ten_pos (-e).toNat
    unfold fieldOf
    dsimp only
    split
    · rename_i tiny
      refine (fieldOfRatio_eq_zero den (high.trans_le ?_)).symm
      calc (10 : ℚ) ^ (((digits c).length : ℤ) + e) ≤ (10 : ℚ) ^ (-330 : ℤ) :=
            zpow_le_zpow_right₀ (by norm_num) (by omega)
        _ ≤ (2 : ℚ) ^ (-1075 : ℤ) := by
            have powers : (2 : ℕ) ^ 1075 ≤ 10 ^ 330 := by decide +kernel
            rw [zpow_neg, zpow_neg]
            apply inv_anti₀ (by positivity)
            exact_mod_cast powers
    · split
      · rename_i huge
        refine le_antisymm (not_lt.1 fun finite => ?_) (fieldOfRatio_le _ _)
        rw [fieldOfRatio_lt_iff _ den] at finite
        have beyond : overflow ≤ (10 : ℚ) ^ (((digits c).length : ℤ) + e - 1) := by
          calc overflow ≤ (2 : ℚ) ^ 1024 := sub_le_self _ (by positivity)
            _ ≤ (10 : ℚ) ^ (310 : ℤ) := by
                have powers : (2 : ℕ) ^ 1024 ≤ 10 ^ 310 := by decide +kernel
                exact_mod_cast powers
            _ ≤ _ := zpow_le_zpow_right₀ (by norm_num) (by omega)
        exact absurd (low.trans_lt finite) (not_lt.2 beyond)
      · rfl

variable {c : ℕ} {e : ℤ}

/-- A decimal is read as a finite double exactly if it lies below the overflow. -/
theorem fieldOf_lt_iff : fieldOf c e < infinityField ↔ c * (10 : ℚ) ^ e < overflow := by
  rw [fieldOf_eq, fieldOfRatio_lt_iff _ (pow_ten_pos _), ratio_decimal]

/-- A decimal below the overflow is read as a nearest double. -/
theorem nearest_fieldOf (finite : fieldOf c e < infinityField) :
    (ofField false (fieldOf c e)).Nearest (c * (10 : ℚ) ^ e) := by
  rw [fieldOf_eq] at finite ⊢
  rw [← ratio_decimal]
  exact nearest_fieldOfRatio (pow_ten_pos _) finite

end Decimal

end Treecode
