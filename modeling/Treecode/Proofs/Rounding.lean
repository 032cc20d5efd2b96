import Mathlib
import Treecode.Decimal.Shortest

set_option autoImplicit false

namespace Treecode

namespace Double

/-- Scaling down divides the ratio by the power of two. -/
theorem scaleDown_ratio (num : ℕ) {den : ℕ} (positive : 0 < den) (q : ℤ) :
    0 < (scaleDown num den q).2 ∧
      ((scaleDown num den q).1 : ℚ) / (scaleDown num den q).2 = num / den / (2 : ℚ) ^ q := by
  unfold scaleDown
  simp only [Nat.shiftLeft_eq]
  have nonzero : (den : ℚ) ≠ 0 := by positivity
  refine ⟨by positivity, ?_⟩
  rcases le_total 0 q with up | down
  · obtain ⟨n, rfl⟩ := Int.eq_ofNat_of_zero_le up
    simp only [Int.toNat_neg_natCast, Int.toNat_natCast, pow_zero, mul_one, zpow_natCast]
    push_cast
    field_simp
  · obtain ⟨n, rfl⟩ := Int.exists_eq_neg_ofNat down
    simp only [neg_neg, Int.toNat_natCast, Int.toNat_neg_natCast, pow_zero, mul_one, zpow_neg,
      zpow_natCast]
    push_cast
    field_simp

/-- The bits of a positive number place it between two powers of two. -/
theorem log2_bounds {n : ℕ} (positive : 0 < n) :
    (2 : ℚ) ^ (n.log2 : ℤ) ≤ n ∧ (n : ℚ) < (2 : ℚ) ^ ((n.log2 : ℤ) + 1) := by
  have below : 2 ^ n.log2 ≤ n := Nat.log2_self_le (by omega)
  have above : n < 2 ^ (n.log2 + 1) := Nat.lt_log2_self
  constructor
  · rw [zpow_natCast]
    exact_mod_cast below
  · have cast : (n.log2 : ℤ) + 1 = ((n.log2 + 1 : ℕ) : ℤ) := by push_cast; rfl
    rw [cast, zpow_natCast]
    exact_mod_cast above

/-- The exponent of a positive ratio is that of the power of two below it, less 52. -/
theorem exponentOf_eq {num den : ℕ} (positive : 0 < num) (positive' : 0 < den) :
    exponentOf num den = max (-1074) (Int.log 2 ((num : ℚ) / den) - 52) := by
  have ratio : (0 : ℚ) < num / den := by positivity
  obtain ⟨numBelow, numAbove⟩ := log2_bounds positive
  obtain ⟨denBelow, denAbove⟩ := log2_bounds positive'
  have pos' : (0 : ℚ) < den := by positivity
  have two : (2 : ℚ) ≠ 0 := by norm_num
  have below : (num.log2 : ℤ) - den.log2 - 1 ≤ Int.log 2 ((num : ℚ) / den) := by
    rw [← Int.zpow_le_iff_le_log one_lt_two ratio, le_div_iff₀ pos']
    calc ((2 : ℕ) : ℚ) ^ ((num.log2 : ℤ) - den.log2 - 1) * den
        ≤ (2 : ℚ) ^ ((num.log2 : ℤ) - den.log2 - 1) * (2 : ℚ) ^ ((den.log2 : ℤ) + 1) := by
          push_cast
          gcongr
      _ = (2 : ℚ) ^ (num.log2 : ℤ) := by
          rw [← zpow_add₀ two]
          congr 1
          ring
      _ ≤ num := numBelow
  have above : Int.log 2 ((num : ℚ) / den) < (num.log2 : ℤ) - den.log2 + 1 := by
    rw [← Int.lt_zpow_iff_log_lt one_lt_two ratio, div_lt_iff₀ pos']
    calc (num : ℚ) < (2 : ℚ) ^ ((num.log2 : ℤ) + 1) := numAbove
      _ = (2 : ℚ) ^ ((num.log2 : ℤ) - den.log2 + 1) * (2 : ℚ) ^ (den.log2 : ℤ) := by
          rw [← zpow_add₀ two]
          congr 1
          ring
      _ ≤ ((2 : ℕ) : ℚ) ^ ((num.log2 : ℤ) - den.log2 + 1) * den := by
          push_cast
          gcongr
  obtain ⟨scaledPos, scaled⟩ := scaleDown_ratio num positive' ((num.log2 : ℤ) - den.log2 - 52)
  have small : (scaleDown num den ((num.log2 : ℤ) - den.log2 - 52)).1 /
        (scaleDown num den ((num.log2 : ℤ) - den.log2 - 52)).2 < hiddenBit ↔
      Int.log 2 ((num : ℚ) / den) < (num.log2 : ℤ) - den.log2 := by
    rw [Nat.div_lt_iff_lt_mul scaledPos, ← Int.lt_zpow_iff_log_lt one_lt_two ratio]
    have cast : (scaleDown num den ((num.log2 : ℤ) - den.log2 - 52)).1 <
          hiddenBit * (scaleDown num den ((num.log2 : ℤ) - den.log2 - 52)).2 ↔
        (num : ℚ) / den / (2 : ℚ) ^ ((num.log2 : ℤ) - den.log2 - 52) < (2 : ℚ) ^ (52 : ℤ) := by
      rw [← scaled, div_lt_iff₀ (by exact_mod_cast scaledPos)]
      have hidden : (hiddenBit : ℚ) = (2 : ℚ) ^ (52 : ℤ) := by norm_num [hiddenBit]
      rw [← hidden]
      exact_mod_cast Iff.rfl
    rw [cast, div_lt_iff₀ (by positivity), ← zpow_add₀ two]
    push_cast
    rw [show (52 : ℤ) + ((num.log2 : ℤ) - den.log2 - 52) = (num.log2 : ℤ) - den.log2 by ring]
  unfold exponentOf
  dsimp only
  by_cases less : Int.log 2 ((num : ℚ) / den) < (num.log2 : ℤ) - den.log2
  · rw [if_pos (small.2 less)]
    congr 1
    omega
  · rw [if_neg (fun holds => less (small.1 holds))]
    congr 1
    omega

theorem roundHalfEven_mul (num den : ℕ) {k : ℕ} (positive : 0 < k) :
    roundHalfEven (k * num) (k * den) = roundHalfEven num den := by
  have quotient : k * num / (k * den) = num / den := Nat.mul_div_mul_left num den positive
  have remainder : 2 * (k * num % (k * den)) = k * (2 * (num % den)) := by
    rw [Nat.mul_mod_mul_left]
    ring
  unfold roundHalfEven
  simp only [quotient, remainder, Nat.mul_lt_mul_left positive]

/-- A whole ratio needs no rounding. -/
theorem roundHalfEven_exact (m : ℕ) {den : ℕ} (positive : 0 < den) :
    roundHalfEven (m * den) den = m := by
  unfold roundHalfEven
  simp [Nat.mul_div_cancel m positive, positive]

/-- Equal ratios round alike. -/
theorem roundHalfEven_congr {a b c d : ℕ} (positive : 0 < b) (positive' : 0 < d)
    (same : (a : ℚ) / b = c / d) : roundHalfEven a b = roundHalfEven c d := by
  have cross : a * d = c * b := by
    rw [div_eq_div_iff (by positivity) (by positivity)] at same
    exact_mod_cast same
  calc roundHalfEven a b = roundHalfEven (d * a) (d * b) := (roundHalfEven_mul a b positive').symm
    _ = roundHalfEven (b * c) (b * d) := by
      rw [Nat.mul_comm d a, cross, Nat.mul_comm c b, Nat.mul_comm d b]
    _ = roundHalfEven c d := roundHalfEven_mul c d positive

theorem fieldOfRatio_congr {a b c d : ℕ} (positive : 0 < b) (positive' : 0 < d)
    (same : (a : ℚ) / b = c / d) : fieldOfRatio a b = fieldOfRatio c d := by
  have zero : a = 0 ↔ c = 0 := by
    have left : (a : ℚ) / b = 0 ↔ a = 0 := by
      rw [div_eq_zero_iff, Nat.cast_eq_zero, Nat.cast_eq_zero]
      omega
    have right : (c : ℚ) / d = 0 ↔ c = 0 := by
      rw [div_eq_zero_iff, Nat.cast_eq_zero, Nat.cast_eq_zero]
      omega
    rw [← left, ← right, same]
  unfold fieldOfRatio
  by_cases nothing : a = 0
  · rw [if_pos nothing, if_pos (zero.1 nothing)]
  · rw [if_neg nothing, if_neg (fun vanishes => nothing (zero.2 vanishes))]
    have something : 0 < a := Nat.pos_of_ne_zero nothing
    have something' : 0 < c := Nat.pos_of_ne_zero fun vanishes => nothing (zero.2 vanishes)
    have exponent : exponentOf a b = exponentOf c d := by
      rw [exponentOf_eq something positive, exponentOf_eq something' positive', same]
    obtain ⟨pos, scaled⟩ := scaleDown_ratio a positive (exponentOf c d)
    obtain ⟨pos', scaled'⟩ := scaleDown_ratio c positive' (exponentOf c d)
    dsimp only
    rw [exponent, roundHalfEven_congr pos pos' (by rw [scaled, scaled', same])]

def magnitude (field : ℕ) : ℚ := (parts field).1 * (2 : ℚ) ^ (parts field).2

/-- A positive finite field denotes a mantissa and the exponent that a ratio of its magnitude
has. -/
theorem exponent_of_magnitude {field : ℕ} (positive : 0 < field) :
    max (-1074) (Int.log 2 (magnitude field) - 52) = (parts field).2 ∧
      ((parts field).2 + 1074).toNat * hiddenBit + (parts field).1 = field ∧
      0 < (parts field).1 := by
  have two : (2 : ℚ) ≠ 0 := by norm_num
  have hidden : (hiddenBit : ℚ) = (2 : ℚ) ^ (52 : ℤ) := by norm_num [hiddenBit]
  unfold magnitude
  unfold parts
  by_cases small : field < hiddenBit
  · rw [if_pos small]
    have real : (0 : ℚ) < field := by exact_mod_cast positive
    have below : (field : ℚ) < (2 : ℚ) ^ (52 : ℤ) := by
      rw [← hidden]
      exact_mod_cast small
    have log : Int.log 2 ((field : ℚ) * (2 : ℚ) ^ (-1074 : ℤ)) < 52 + -1074 := by
      rw [← Int.lt_zpow_iff_log_lt one_lt_two (by positivity)]
      rw [Nat.cast_ofNat, zpow_add₀ two]
      gcongr
    refine ⟨max_eq_left ?_, ?_, positive⟩
    · dsimp only
      omega
    · simp
  · rw [if_neg small]
    have mantissa : field % hiddenBit < hiddenBit := Nat.mod_lt _ (by decide)
    have pos : (0 : ℚ) < ((hiddenBit + field % hiddenBit : ℕ) : ℚ) := by
      exact_mod_cast Nat.lt_of_lt_of_le (by decide) (Nat.le_add_right hiddenBit (field % hiddenBit))
    have low : (2 : ℚ) ^ (52 : ℤ) ≤ ((hiddenBit + field % hiddenBit : ℕ) : ℚ) := by
      rw [← hidden]
      exact_mod_cast Nat.le_add_right hiddenBit (field % hiddenBit)
    have high : ((hiddenBit + field % hiddenBit : ℕ) : ℚ) < (2 : ℚ) ^ (53 : ℤ) := by
      have twice : (2 : ℚ) ^ (53 : ℤ) = ((hiddenBit + hiddenBit : ℕ) : ℚ) := by norm_num [hiddenBit]
      rw [twice]
      exact_mod_cast Nat.add_lt_add_left mantissa hiddenBit
    have exponent : 1 ≤ field / hiddenBit := (Nat.one_le_div_iff (by decide)).2 (by omega)
    have logLow : 52 + ((field / hiddenBit : ℕ) - 1075 : ℤ) ≤
        Int.log 2 (((hiddenBit + field % hiddenBit : ℕ) : ℚ) *
          (2 : ℚ) ^ ((field / hiddenBit : ℕ) - 1075 : ℤ)) := by
      rw [← Int.zpow_le_iff_le_log one_lt_two (by positivity)]
      rw [Nat.cast_ofNat, zpow_add₀ two]
      gcongr
    have logHigh : Int.log 2 (((hiddenBit + field % hiddenBit : ℕ) : ℚ) *
          (2 : ℚ) ^ ((field / hiddenBit : ℕ) - 1075 : ℤ)) <
        53 + ((field / hiddenBit : ℕ) - 1075 : ℤ) := by
      rw [← Int.lt_zpow_iff_log_lt one_lt_two (by positivity)]
      rw [Nat.cast_ofNat, zpow_add₀ two]
      gcongr
    refine ⟨?_, ?_, Nat.lt_of_lt_of_le (by decide) (Nat.le_add_right _ _)⟩
    · dsimp only
      omega
    · have whole := Nat.div_add_mod field hiddenBit
      dsimp only
      have steps : (((field / hiddenBit : ℕ) : ℤ) - 1075 + 1074).toNat = field / hiddenBit - 1 := by
        omega
      rw [steps, ← Nat.add_assoc, ← Nat.succ_mul, Nat.succ_eq_add_one, Nat.sub_add_cancel exponent,
        Nat.mul_comm, whole]

theorem fieldOfRatio_exact {field num den : ℕ} (positive : 0 < field)
    (finite : field < infinityField)
    (positive' : 0 < den) (exact : (num : ℚ) / den = magnitude field) :
    fieldOfRatio num den = field := by
  obtain ⟨exponent, whole, mantissa⟩ := exponent_of_magnitude positive
  have something : 0 < num := by
    apply Nat.pos_of_ne_zero
    rintro rfl
    have zero : magnitude field = 0 := by rw [← exact, Nat.cast_zero, zero_div]
    have nonzero : magnitude field ≠ 0 := by
      unfold magnitude
      positivity
    exact nonzero zero
  have same : exponentOf num den = (parts field).2 := by
    rw [exponentOf_eq something positive', exact, exponent]
  obtain ⟨pos, scaled⟩ := scaleDown_ratio num positive' (parts field).2
  have rounded : roundHalfEven (scaleDown num den (parts field).2).1
      (scaleDown num den (parts field).2).2 = (parts field).1 := by
    rw [← roundHalfEven_exact (parts field).1 Nat.one_pos]
    apply roundHalfEven_congr pos Nat.one_pos
    rw [scaled, exact, magnitude, mul_div_cancel_right₀ _ (by positivity)]
    simp
  unfold fieldOfRatio
  rw [if_neg (Nat.pos_iff_ne_zero.1 something)]
  dsimp only
  rw [same, rounded, whole]
  exact min_eq_left finite.le

/-- The magnitudes of the finite doubles lie between the least one and the power above the
greatest. -/
theorem magnitude_bounds {field : ℕ} (positive : 0 < field) (finite : field < infinityField) :
    (2 : ℚ) ^ (-1074 : ℤ) ≤ magnitude field ∧ magnitude field < (2 : ℚ) ^ (1024 : ℤ) := by
  obtain ⟨exponent, whole, mantissa⟩ := exponent_of_magnitude positive
  have least : (-1074 : ℤ) ≤ (parts field).2 := by omega
  have one : (1 : ℚ) ≤ (parts field).1 := by exact_mod_cast mantissa
  have small : (parts field).1 < 2 * hiddenBit ∧ (parts field).2 ≤ 971 := by
    unfold parts
    split
    · rename_i low
      dsimp only
      omega
    · dsimp only
      unfold infinityField at finite
      unfold hiddenBit
      omega
  have above : ((parts field).1 : ℚ) < (2 : ℚ) ^ (53 : ℤ) := by
    have twice : (2 : ℚ) ^ (53 : ℤ) = ((2 * hiddenBit : ℕ) : ℚ) := by norm_num [hiddenBit]
    rw [twice]
    exact_mod_cast small.1
  unfold magnitude
  constructor
  · calc (2 : ℚ) ^ (-1074 : ℤ) ≤ (2 : ℚ) ^ (parts field).2 := zpow_le_zpow_right₀ one_le_two least
      _ = 1 * (2 : ℚ) ^ (parts field).2 := (one_mul _).symm
      _ ≤ _ := by gcongr
  · calc ((parts field).1 : ℚ) * (2 : ℚ) ^ (parts field).2
        < (2 : ℚ) ^ (53 : ℤ) * (2 : ℚ) ^ (parts field).2 := by gcongr
      _ ≤ (2 : ℚ) ^ (53 : ℤ) * (2 : ℚ) ^ (971 : ℤ) := by
          gcongr
          · exact one_le_two
          · exact small.2
      _ = (2 : ℚ) ^ (1024 : ℤ) := by rw [← zpow_add₀ two_ne_zero]; rfl

end Double

namespace Decimal

open Double

theorem length_digits_pos (c : ℕ) : 0 < (digits c).length := by
  by_cases small : c < 10
  · rw [digits_of_lt_ten small]
    exact Nat.one_pos
  · rw [digits_step (Nat.le_of_not_lt small), List.length_append]
    exact Nat.add_pos_right _ Nat.one_pos

/-- A number has as many digits as the power of ten above it. -/
theorem digits_bounds {c : ℕ} (positive : 0 < c) :
    10 ^ ((digits c).length - 1) ≤ c ∧ c < 10 ^ (digits c).length := by
  induction c using Nat.strongRecOn with
  | ind c ih =>
    by_cases small : c < 10
    · rw [digits_of_lt_ten small]
      exact ⟨positive, by simpa using small⟩
    · have large : 10 ≤ c := Nat.le_of_not_lt small
      obtain ⟨low, high⟩ := ih (c / 10) (by omega) (by omega)
      rw [digits_step large, List.length_append, List.length_singleton, Nat.add_sub_cancel]
      have length := length_digits_pos (c / 10)
      obtain ⟨n, same⟩ : ∃ n, (digits (c / 10)).length = n + 1 :=
        ⟨_, (Nat.sub_add_cancel length).symm⟩
      rw [same] at low high ⊢
      rw [Nat.add_sub_cancel] at low
      rw [pow_succ] at high
      rw [pow_succ 10 (n + 1), pow_succ 10 n]
      omega

theorem digits_mul_ten {c : ℕ} (positive : 0 < c) : digits (c * 10) = digits c ++ ['0'] := by
  rw [digits_step (by omega), Nat.mul_div_cancel c (by decide), Nat.mul_mod_left]
  rfl

/-- Each power of ten adds a zero. -/
theorem digits_mul_pow {c : ℕ} (positive : 0 < c) (k : ℕ) :
    digits (c * 10 ^ k) = digits c ++ List.replicate k '0' := by
  induction k with
  | zero => simp
  | succ k ih =>
    rw [pow_succ, ← Nat.mul_assoc, digits_mul_ten (by positivity), ih, List.append_assoc,
      List.replicate_succ']

theorem ratio_decimal (c : ℕ) (e : ℤ) :
    ((c * Nat.pow 10 e.toNat : ℕ) : ℚ) / (Nat.pow 10 (-e).toNat : ℕ) = c * (10 : ℚ) ^ e := by
  simp only [Nat.pow_eq]
  rcases le_total 0 e with up | down
  · obtain ⟨n, rfl⟩ := Int.eq_ofNat_of_zero_le up
    simp only [Int.toNat_neg_natCast, Int.toNat_natCast, pow_zero, zpow_natCast]
    push_cast
    rw [div_one]
  · obtain ⟨n, rfl⟩ := Int.exists_eq_neg_ofNat down
    simp only [neg_neg, Int.toNat_natCast, Int.toNat_neg_natCast, pow_zero, mul_one, zpow_neg,
      zpow_natCast]
    push_cast
    rw [div_eq_mul_inv]

/-- Writing zeros at the end of a decimal changes nothing. -/
theorem fieldOf_scale {c : ℕ} (positive : 0 < c) (k : ℕ) (e : ℤ) :
    fieldOf (c * 10 ^ k) (e - k) = fieldOf c e := by
  have length : ((digits (c * 10 ^ k)).length : ℤ) + (e - k) = (digits c).length + e := by
    rw [digits_mul_pow positive, List.length_append, List.length_replicate]
    push_cast
    ring
  have nonzero : c * 10 ^ k ≠ 0 := by positivity
  have nonzero' : c ≠ 0 := by omega
  have ratio : fieldOfRatio (c * 10 ^ k * Nat.pow 10 (e - k).toNat) (Nat.pow 10 (-(e - k)).toNat) =
      fieldOfRatio (c * Nat.pow 10 e.toNat) (Nat.pow 10 (-e).toNat) := by
    apply fieldOfRatio_congr (by simp only [Nat.pow_eq]; positivity)
      (by simp only [Nat.pow_eq]; positivity)
    rw [ratio_decimal, ratio_decimal, zpow_sub₀ (by norm_num), zpow_natCast]
    push_cast
    field_simp
  unfold fieldOf
  dsimp only
  rw [length, ratio]
  simp only [nonzero, nonzero', false_or]

/-- The place of its first digit tells between which powers of ten a decimal lies. -/
theorem decimal_bounds {c : ℕ} (positive : 0 < c) (e : ℤ) :
    (10 : ℚ) ^ (((digits c).length : ℤ) + e - 1) ≤ c * (10 : ℚ) ^ e ∧
      c * (10 : ℚ) ^ e < (10 : ℚ) ^ (((digits c).length : ℤ) + e) := by
  have ten : (10 : ℚ) ≠ 0 := by norm_num
  obtain ⟨low, high⟩ := digits_bounds positive
  have length := length_digits_pos c
  constructor
  · have splits : ((digits c).length : ℤ) + e - 1 = (((digits c).length - 1 : ℕ) : ℤ) + e := by
      omega
    rw [splits, zpow_add₀ ten, zpow_natCast]
    gcongr
    exact_mod_cast low
  · rw [zpow_add₀ ten, zpow_natCast]
    gcongr
    exact_mod_cast high

/-- A decimal that is exactly the magnitude of a field reads back as the field. -/
theorem fieldOf_exact {field c : ℕ} {e : ℤ} (positive : 0 < field) (finite : field < infinityField)
    (exact : (c : ℚ) * (10 : ℚ) ^ e = magnitude field) : fieldOf c e = field := by
  obtain ⟨least, greatest⟩ := magnitude_bounds positive finite
  have something : 0 < c := by
    apply Nat.pos_of_ne_zero
    rintro rfl
    rw [Nat.cast_zero, zero_mul] at exact
    rw [← exact] at least
    have above : (0 : ℚ) < (2 : ℚ) ^ (-1074 : ℤ) := by positivity
    exact absurd least (not_le.2 above)
  obtain ⟨low, high⟩ := decimal_bounds something e
  rw [exact] at low high
  have notSmall : ¬ (((digits c).length : ℤ) + e < -330) := by
    intro small
    have tiny : (10 : ℚ) ^ (((digits c).length : ℤ) + e) ≤ (10 : ℚ) ^ (-330 : ℤ) :=
      zpow_le_zpow_right₀ (by norm_num) (by omega)
    have tinier : (10 : ℚ) ^ (-330 : ℤ) ≤ (2 : ℚ) ^ (-1074 : ℤ) := by
      have powers : (2 : ℕ) ^ 1074 ≤ 10 ^ 330 := by decide +kernel
      rw [zpow_neg, zpow_neg]
      apply inv_anti₀ (by positivity)
      exact_mod_cast powers
    exact absurd (least.trans_lt high) (not_lt.2 (tiny.trans tinier))
  have notLarge : ¬ (310 < ((digits c).length : ℤ) + e) := by
    intro large
    have huge : (10 : ℚ) ^ (310 : ℤ) ≤ (10 : ℚ) ^ (((digits c).length : ℤ) + e - 1) :=
      zpow_le_zpow_right₀ (by norm_num) (by omega)
    have huger : (2 : ℚ) ^ (1024 : ℤ) ≤ (10 : ℚ) ^ (310 : ℤ) := by
      have powers : (2 : ℕ) ^ 1024 ≤ 10 ^ 310 := by decide +kernel
      exact_mod_cast powers
    exact absurd (low.trans_lt greatest) (not_lt.2 (huger.trans huge))
  unfold fieldOf
  dsimp only
  rw [if_neg (by omega), if_neg notLarge]
  apply fieldOfRatio_exact positive finite (by simp only [Nat.pow_eq]; positivity)
  rw [ratio_decimal, exact]

theorem exactly_exact (field : ℕ) :
    ((exactly field).1 : ℚ) * (10 : ℚ) ^ (exactly field).2 = magnitude field := by
  unfold exactly magnitude
  obtain ⟨m, q⟩ := parts field
  dsimp only
  simp only [Nat.shiftLeft_eq, Nat.pow_eq]
  rcases le_total 0 q with up | down
  · rw [min_eq_right up]
    obtain ⟨n, rfl⟩ := Int.eq_ofNat_of_zero_le up
    simp
  · rw [min_eq_left down]
    obtain ⟨n, rfl⟩ := Int.exists_eq_neg_ofNat down
    simp only [neg_neg, Int.toNat_natCast, Int.toNat_neg_natCast, pow_zero, mul_one, zpow_neg,
      zpow_natCast]
    push_cast
    rw [show (10 : ℚ) = 5 * 2 by norm_num, mul_pow]
    field_simp

/-- The shortest decimal of a field reads back as the field. -/
theorem fieldOf_shortest {field : ℕ} (positive : 0 < field) (finite : field < infinityField) :
    fieldOf (shortest field).1 (shortest field).2 = field := by
  unfold shortest
  dsimp only
  cases found : ((List.range 24).map fun i => powerAbove field - (i : ℕ)).findSome?
      fun s => (readingBack? field s).map (·, s) with
  | none => exact fieldOf_exact positive finite (exactly_exact field)
  | some decimal =>
    obtain ⟨s, _, at_s⟩ := List.exists_of_findSome?_eq_some found
    obtain ⟨c, readsBack, rfl⟩ := Option.map_eq_some_iff.1 at_s
    exact fieldOf_of_readingBack? readsBack

theorem shortest_pos {field : ℕ} (positive : 0 < field) (finite : field < infinityField) :
    0 < (shortest field).1 := by
  apply Nat.pos_of_ne_zero
  intro zero
  have same := fieldOf_shortest positive finite
  rw [zero] at same
  unfold fieldOf at same
  simp only [true_or, ↓reduceIte] at same
  omega

end Decimal

end Treecode
