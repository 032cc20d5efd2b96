import Treecode.Proofs.Rounding

set_option autoImplicit false

namespace Treecode.Double

theorem ratio_split (num : ℕ) {den : ℕ} (positive : 0 < den) :
    ∃ rest : ℚ, (num : ℚ) / den = (num / den : ℕ) + rest ∧ 0 ≤ rest ∧ rest < 1 ∧
      (2 * (num % den) < den ↔ rest < 1 / 2) ∧ (den < 2 * (num % den) ↔ 1 / 2 < rest) := by
  have pos : (0 : ℚ) < den := by exact_mod_cast positive
  have whole : (num : ℚ) = den * (num / den : ℕ) + (num % den : ℕ) := by
    exact_mod_cast (Nat.div_add_mod num den).symm
  refine ⟨(num % den : ℕ) / den, ?_, by positivity, ?_, ?_, ?_⟩
  · rw [div_eq_iff pos.ne', add_mul, div_mul_cancel₀ _ pos.ne']
    linarith
  · rw [div_lt_one pos]
    exact_mod_cast Nat.mod_lt num positive
  · rw [div_lt_div_iff₀ pos two_pos, one_mul, mul_comm]
    exact_mod_cast Iff.rfl
  · rw [div_lt_div_iff₀ two_pos pos, one_mul, mul_comm]
    exact_mod_cast Iff.rfl

/-- How far a whole number is from a number between two others: one of the two, or farther away than
they are. -/
theorem distance_cases (below : ℕ) {rest : ℚ} (low : 0 ≤ rest) (high : rest < 1) (j : ℤ) :
    (j = below ∧ |(j : ℚ) - (below + rest)| = rest) ∨
    (j = below + 1 ∧ |(j : ℚ) - (below + rest)| = 1 - rest) ∨
      1 ≤ |(j : ℚ) - (below + rest)| := by
  rcases lt_trichotomy j below with under | same | above
  · have cast : (j : ℚ) + 1 ≤ below := by exact_mod_cast under
    rw [abs_of_nonpos (by linarith)]
    exact .inr (.inr (by linarith))
  · have cast : (j : ℚ) = below := by exact_mod_cast same
    rw [cast, abs_of_nonpos (by linarith)]
    exact .inl ⟨same, by ring⟩
  · rcases Int.le_iff_lt_or_eq.1 (Int.add_one_le_of_lt above) with beyond | next
    · have cast : (below : ℚ) + 2 ≤ j := by exact_mod_cast beyond
      rw [abs_of_nonneg (by linarith)]
      exact .inr (.inr (by linarith))
    · have cast : (j : ℚ) = below + 1 := by exact_mod_cast next.symm
      rw [cast, abs_of_nonneg (by linarith)]
      exact .inr (.inl ⟨next.symm, by ring⟩)

/-- No whole number is nearer to a ratio than the rounded one. Where another one is as near, the
rounded one is even and the other one is odd. -/
theorem roundHalfEven_nearest (num : ℕ) {den : ℕ} (positive : 0 < den) (j : ℤ) :
    |(roundHalfEven num den : ℚ) - num / den| ≤ |(j : ℚ) - num / den| ∧
      (j ≠ roundHalfEven num den → |(roundHalfEven num den : ℚ) - num / den| =
        |(j : ℚ) - num / den| → roundHalfEven num den % 2 = 0 ∧ j % 2 = 1) := by
  obtain ⟨rest, splits, low, high, less, more⟩ := ratio_split num positive
  unfold roundHalfEven
  rw [splits]
  dsimp only
  generalize num / den = below at *
  have down : |((below : ℕ) : ℚ) - (below + rest)| = rest := by
    rw [abs_of_nonpos (by linarith)]
    ring
  have up : |((below + 1 : ℕ) : ℚ) - (below + rest)| = 1 - rest := by
    push_cast
    rw [abs_of_nonneg (by linarith)]
    ring
  have distances := distance_cases below low high j
  split
  · rename_i twice
    have small := less.1 twice
    rw [down]
    rcases distances with ⟨same, distance⟩ | ⟨_, distance⟩ | far
    · exact ⟨distance.ge, fun other => absurd same other⟩
    · exact ⟨by linarith, fun _ equal => by linarith⟩
    · exact ⟨by linarith, fun _ equal => by linarith⟩
  · rename_i notLess
    split
    · rename_i twice
      have large := more.1 twice
      rw [up]
      rcases distances with ⟨_, distance⟩ | ⟨same, distance⟩ | far
      · exact ⟨by linarith, fun _ equal => by linarith⟩
      · exact ⟨distance.ge, fun other => absurd (by push_cast; exact same) other⟩
      · exact ⟨by linarith, fun _ equal => by linarith⟩
    · -- The ratio is halfway between two whole numbers, one of which is even.
      rename_i notMore
      have half : rest = 1 / 2 :=
        le_antisymm (not_lt.1 (mt more.2 notMore)) (not_lt.1 (mt less.2 notLess))
      have rounded : |((below + below % 2 : ℕ) : ℚ) - (below + rest)| = 1 / 2 := by
        rcases Nat.mod_two_eq_zero_or_one below with zero | one
        · rw [zero, Nat.add_zero, down, half]
        · rw [one, up, half]
          norm_num
      rw [rounded]
      rcases distances with ⟨same, distance⟩ | ⟨same, distance⟩ | far
      · exact ⟨by linarith, fun other _ => by omega⟩
      · exact ⟨by linarith, fun other _ => by omega⟩
      · exact ⟨by linarith, fun _ equal => by linarith⟩

/-- The mantissa of a field has at most 53 bits, and all of them above the least exponent. -/
theorem parts_bounds (field : ℕ) :
    (parts field).1 < 2 * hiddenBit ∧ -1074 ≤ (parts field).2 ∧
      (-1074 < (parts field).2 → hiddenBit ≤ (parts field).1) ∧
      ((parts field).2 + 1074).toNat * hiddenBit + (parts field).1 = field := by
  have below := Nat.mod_lt field (show 0 < hiddenBit by decide)
  have whole := Nat.div_add_mod field hiddenBit
  unfold parts
  split
  · rename_i small
    simp only [lt_self_iff_false, false_implies, true_and, le_refl]
    exact ⟨by omega, by simp⟩
  · rename_i large
    have steps : 1 ≤ field / hiddenBit := (Nat.one_le_div_iff (by decide)).2 (by omega)
    dsimp only
    refine ⟨by omega, by omega, fun _ => Nat.le_add_right _ _, ?_⟩
    have exponent : (((field / hiddenBit : ℕ) : ℤ) - 1075 + 1074).toNat =
      field / hiddenBit - 1 := by omega
    rw [exponent, ← Nat.add_assoc, ← Nat.succ_mul, Nat.succ_eq_add_one, Nat.sub_add_cancel steps,
      Nat.mul_comm, whole]

/-- Adding a mantissa to its exponent gives the field of their magnitude, also where the mantissa
carries. -/
theorem magnitude_carry (k : ℕ) {m : ℕ} (small : m ≤ 2 * hiddenBit)
    (normal : k = 0 ∨ hiddenBit ≤ m) :
    magnitude (k * hiddenBit + m) = m * (2 : ℚ) ^ ((k : ℤ) - 1074) := by
  have two : (2 : ℚ) ≠ 0 := two_ne_zero
  unfold magnitude parts
  rcases Nat.lt_or_ge m hiddenBit with low | high
  · obtain rfl : k = 0 := normal.resolve_right (Nat.not_le.2 low)
    rw [Nat.zero_mul, Nat.zero_add, if_pos low]
    rfl
  · have large : ¬ k * hiddenBit + m < hiddenBit := by omega
    rw [if_neg large]
    rcases Nat.lt_or_ge m (2 * hiddenBit) with fits | carries
    · have shape : k * hiddenBit + m = (m - hiddenBit) + hiddenBit * (k + 1) := by
        rw [Nat.mul_succ, Nat.mul_comm]
        omega
      have quotient : (k * hiddenBit + m) / hiddenBit = k + 1 := by
        rw [shape, Nat.add_mul_div_left _ _ (by decide), Nat.div_eq_of_lt (by omega), Nat.zero_add]
      have remainder : (k * hiddenBit + m) % hiddenBit = m - hiddenBit := by
        rw [shape, Nat.add_mul_mod_self_left, Nat.mod_eq_of_lt (by omega)]
      dsimp only
      rw [quotient, remainder, Nat.add_sub_cancel' high]
      congr 2
      push_cast
      ring
    · obtain rfl : m = 2 * hiddenBit := Nat.le_antisymm small carries
      have shape : k * hiddenBit + 2 * hiddenBit = hiddenBit * (k + 2) := by ring
      dsimp only
      rw [shape, Nat.mul_div_cancel_left _ (by decide), Nat.mul_mod_right, Nat.add_zero]
      have exponent : ((k + 2 : ℕ) : ℤ) - 1075 = 1 + ((k : ℤ) - 1074) := by
        push_cast
        ring
      rw [exponent, zpow_add₀ two, zpow_one]
      push_cast
      ring

theorem magnitude_nonneg (field : ℕ) : 0 ≤ magnitude field := by
  unfold magnitude
  positivity

@[simp] theorem magnitude_zero : magnitude 0 = 0 := by
  unfold magnitude parts
  rw [if_pos (by decide), Nat.cast_zero, zero_mul]

theorem magnitude_pos {field : ℕ} (positive : 0 < field) : 0 < magnitude field := by
  have mantissa := (exponent_of_magnitude positive).2.2
  unfold magnitude
  positivity

theorem magnitude_injective {f g : ℕ} (finite : f < infinityField) (finite' : g < infinityField)
    (same : magnitude f = magnitude g) : f = g := by
  rcases Nat.eq_zero_or_pos f with rfl | positive
  · rcases Nat.eq_zero_or_pos g with rfl | positive'
    · rfl
    · exact absurd (same.symm.trans magnitude_zero) (magnitude_pos positive').ne'
  · rcases Nat.eq_zero_or_pos g with rfl | positive'
    · exact absurd (same.trans magnitude_zero) (magnitude_pos positive).ne'
    · -- The magnitude as a ratio rounds to both fields.
      have ratio : ((magnitude f).num.toNat : ℚ) / (magnitude f).den = magnitude f := by
        have cast : (((magnitude f).num.toNat : ℕ) : ℤ) = (magnitude f).num :=
          Int.toNat_of_nonneg (Rat.num_nonneg.2 (magnitude_nonneg f))
        have cast' : (((magnitude f).num.toNat : ℕ) : ℚ) = ((magnitude f).num : ℚ) := by
          exact_mod_cast cast
        rw [cast', Rat.num_div_den]
      exact (fieldOfRatio_exact positive finite (magnitude f).den_pos ratio).symm.trans
        (fieldOfRatio_exact positive' finite' (magnitude f).den_pos (ratio.trans same))

/-- A positive ratio is rounded to `m · 2 ^ q`: to a whole multiple of the unit, of at most 53 bits,
and of as many above the least exponent. -/
structure Rounded (r : ℚ) (q : ℤ) (m : ℕ) : Prop where
  least : -1074 ≤ q
  small : m ≤ 2 * hiddenBit
  normal : -1074 < q → hiddenBit ≤ m
  above : -1074 < q → hiddenBit * (2 : ℚ) ^ q ≤ r
  nearest : ∀ j : ℤ, |(m : ℚ) - r / (2 : ℚ) ^ q| ≤ |(j : ℚ) - r / (2 : ℚ) ^ q| ∧
    (j ≠ m → |(m : ℚ) - r / (2 : ℚ) ^ q| = |(j : ℚ) - r / (2 : ℚ) ^ q| → m % 2 = 0 ∧ j % 2 = 1)

theorem hiddenBit_eq : (hiddenBit : ℚ) = (2 : ℚ) ^ (52 : ℤ) := by norm_num [hiddenBit]

/-- In the unit that is chosen for a ratio it has at most 53 bits, and as many above the least
exponent. -/
theorem exponentOf_bounds {num den : ℕ} (positive : 0 < num) (positive' : 0 < den) :
    -1074 ≤ exponentOf num den ∧ (num : ℚ) / den < 2 * hiddenBit * (2 : ℚ) ^ exponentOf num den ∧
      (-1074 < exponentOf num den → hiddenBit * (2 : ℚ) ^ exponentOf num den ≤ num / den) := by
  have ratio : (0 : ℚ) < num / den := by positivity
  have exponent := exponentOf_eq positive positive'
  have two : (2 : ℚ) ≠ 0 := two_ne_zero
  generalize exponentOf num den = q at *
  have low : Int.log 2 ((num : ℚ) / den) ≤ q + 52 := by omega
  refine ⟨by omega, ?_, ?_⟩
  · calc (num : ℚ) / den < (2 : ℚ) ^ (Int.log 2 ((num : ℚ) / den) + 1) := by
          have strict := Int.lt_zpow_succ_log_self (b := 2) one_lt_two ((num : ℚ) / den)
          exact_mod_cast strict
      _ ≤ (2 : ℚ) ^ (q + 52 + 1) := zpow_le_zpow_right₀ one_le_two (by omega)
      _ = 2 * hiddenBit * (2 : ℚ) ^ q := by
          rw [hiddenBit_eq, zpow_add₀ two, zpow_add₀ two, zpow_one]
          ring
  · intro high
    have log : q + 52 ≤ Int.log 2 ((num : ℚ) / den) := by omega
    rw [← Int.zpow_le_iff_le_log one_lt_two ratio] at log
    rw [hiddenBit_eq, ← zpow_add₀ two, add_comm]
    exact_mod_cast log

/-- The field of a ratio is made of the mantissa and the exponent that the ratio is rounded to. -/
theorem rounded_ratio {num den : ℕ} (positive : 0 < num) (positive' : 0 < den) :
    ∃ m, Rounded (num / den) (exponentOf num den) m ∧
      fieldOfRatio num den = min ((exponentOf num den + 1074).toNat * hiddenBit + m)
        infinityField := by
  obtain ⟨least, below, above⟩ := exponentOf_bounds positive positive'
  obtain ⟨scaledPos, scaled⟩ := scaleDown_ratio num positive' (exponentOf num den)
  have nearest := roundHalfEven_nearest (scaleDown num den (exponentOf num den)).1 scaledPos
  rw [scaled] at nearest
  generalize chosen : roundHalfEven (scaleDown num den (exponentOf num den)).1
    (scaleDown num den (exponentOf num den)).2 = m at nearest
  refine ⟨m, ?_, ?_⟩
  · generalize exponentOf num den = q at *
    have unit : (0 : ℚ) < (2 : ℚ) ^ q := by positivity
    rw [← div_lt_iff₀ unit] at below
    refine ⟨least, ?_, ?_, above, nearest⟩
    · -- The power above the ratio is nearer than anything beyond it.
      by_contra beyond
      have far : 2 * (hiddenBit : ℚ) < m := by exact_mod_cast Nat.not_le.1 beyond
      have near := (nearest (2 * hiddenBit : ℤ)).1
      rw [Int.cast_mul, Int.cast_ofNat, Int.cast_natCast, abs_of_pos (by linarith),
        abs_of_pos (by linarith)] at near
      linarith
    · intro high
      by_contra under
      have far : (m : ℚ) < hiddenBit := by exact_mod_cast Nat.not_le.1 under
      have reach : (hiddenBit : ℚ) ≤ (num : ℚ) / den / (2 : ℚ) ^ q :=
        (le_div_iff₀ unit).2 (above high)
      have near := (nearest (hiddenBit : ℤ)).1
      rw [Int.cast_natCast, abs_of_neg (by linarith), abs_of_nonpos (by linarith)] at near
      linarith
  · unfold fieldOfRatio
    rw [if_neg positive.ne']
    dsimp only
    rw [chosen]

theorem Rounded.magnitude {r : ℚ} {q : ℤ} {m : ℕ} (rounded : Rounded r q m) :
    magnitude ((q + 1074).toNat * hiddenBit + m) = m * (2 : ℚ) ^ q := by
  have least := rounded.least
  rw [magnitude_carry _ rounded.small ?_, Int.toNat_of_nonneg (by omega), add_sub_cancel_right]
  rcases eq_or_lt_of_le least with bottom | high
  · left
    omega
  · exact .inr (rounded.normal high)

/-- A number that a field denotes with either sign. -/
def Denotes (field : ℕ) (v : ℚ) : Prop := v = magnitude field ∨ v = -magnitude field

/-- What a field denotes is a whole multiple of every unit up to its own, and an odd one only of its
own. -/
theorem Denotes.multiple {field : ℕ} {v : ℚ} (denotes : Denotes field v) {q : ℤ}
    (fine : q ≤ (parts field).2) : ∃ j : ℤ, v = j * (2 : ℚ) ^ q ∧ (j % 2 = 1 → field % 2 = 1) := by
  obtain ⟨_, _, _, whole⟩ := parts_bounds field
  unfold Denotes Double.magnitude at denotes
  obtain ⟨t, steps⟩ := Int.eq_ofNat_of_zero_le (Int.sub_nonneg.2 fine)
  have exponent : (parts field).2 = q + t := by omega
  have odd : ((parts field).1 * 2 ^ t : ℕ) % 2 = 1 → field % 2 = 1 := by
    intro odd
    cases t with
    | zero =>
      unfold hiddenBit at whole
      omega
    | succ t =>
      rw [pow_succ, ← Nat.mul_assoc, Nat.mul_mod_left] at odd
      cases odd
  rw [exponent, zpow_add₀ two_ne_zero, zpow_natCast] at denotes
  rcases denotes with positive | negative
  · refine ⟨((parts field).1 * 2 ^ t : ℕ), ?_, fun high => odd (by omega)⟩
    rw [positive]
    push_cast
    ring
  · refine ⟨-((parts field).1 * 2 ^ t : ℕ), ?_, fun high => odd (by omega)⟩
    rw [negative]
    push_cast
    ring

/-- What a field of a smaller unit denotes is less than the normal numbers of the unit. -/
theorem Denotes.lt {field : ℕ} {v : ℚ} (denotes : Denotes field v) {q : ℤ}
    (coarse : (parts field).2 < q) : v < hiddenBit * (2 : ℚ) ^ q := by
  have small : ((parts field).1 : ℚ) < 2 * hiddenBit := by exact_mod_cast (parts_bounds field).1
  have bound : Double.magnitude field < hiddenBit * (2 : ℚ) ^ q := by
    calc Double.magnitude field < 2 * hiddenBit * (2 : ℚ) ^ (parts field).2 := by
          unfold Double.magnitude
          gcongr
      _ = hiddenBit * (2 : ℚ) ^ ((parts field).2 + 1) := by
          rw [zpow_add₀ two_ne_zero, zpow_one]
          ring
      _ ≤ hiddenBit * (2 : ℚ) ^ q := by
          gcongr
          · exact one_le_two
          · omega
  have nonneg := magnitude_nonneg field
  rcases denotes with rfl | rfl
  · exact bound
  · linarith

/-- No double is nearer to a positive ratio than the rounded one. Where another one is as near, the
rounded one is even and the other one is odd. -/
theorem fieldOfRatio_nearest {num den : ℕ} (positive : 0 < num) (positive' : 0 < den)
    (finite : fieldOfRatio num den < infinityField) {field : ℕ} {v : ℚ}
    (denotes : Denotes field v) :
    |magnitude (fieldOfRatio num den) - num / den| ≤ |v - num / den| ∧
      (v ≠ magnitude (fieldOfRatio num den) →
        |magnitude (fieldOfRatio num den) - num / den| = |v - num / den| →
          fieldOfRatio num den % 2 = 0 ∧ field % 2 = 1) := by
  obtain ⟨m, rounded, made⟩ := rounded_ratio positive positive'
  generalize exponentOf num den = q at *
  generalize (num : ℚ) / den = r at *
  have unit : (0 : ℚ) < (2 : ℚ) ^ q := by positivity
  -- Distances are counted in units.
  have counted : ∀ a : ℚ, |a * (2 : ℚ) ^ q - r| = |a - r / (2 : ℚ) ^ q| * (2 : ℚ) ^ q := by
    intro a
    rw [← abs_of_pos unit, ← abs_mul, sub_mul, abs_of_pos unit, div_mul_cancel₀ _ unit.ne']
  have same : fieldOfRatio num den = (q + 1074).toNat * hiddenBit + m := by omega
  rw [same, rounded.magnitude, counted]
  rcases le_or_gt q (parts field).2 with fine | coarse
  · obtain ⟨j, rfl, odd⟩ := denotes.multiple fine
    obtain ⟨near, tie⟩ := rounded.nearest j
    rw [counted]
    refine ⟨mul_le_mul_of_nonneg_right near unit.le, fun other equal => ?_⟩
    have apart : j ≠ m := by
      rintro rfl
      exact other (by push_cast; rfl)
    obtain ⟨even, odd'⟩ := tie apart (mul_right_cancel₀ unit.ne' equal)
    refine ⟨?_, odd odd'⟩
    unfold hiddenBit
    omega
  · -- A double of a smaller unit is farther away than the least normal one of the unit.
    have high : -1074 < q := lt_of_le_of_lt (parts_bounds field).2.1 coarse
    have reach := rounded.above high
    have under := denotes.lt coarse
    have near := mul_le_mul_of_nonneg_right (rounded.nearest (hiddenBit : ℤ)).1 unit.le
    have edge : |(hiddenBit : ℚ) * (2 : ℚ) ^ q - r| = r - hiddenBit * (2 : ℚ) ^ q := by
      rw [abs_of_nonpos (by linarith)]
      ring
    rw [← counted, ← counted, Int.cast_natCast, edge] at near
    rw [← counted, abs_of_neg (by linarith : v - r < 0)]
    exact ⟨by linarith, fun _ equal => by linarith⟩

/-- The number that a finite double denotes. -/
def number (x : Double) : ℚ := if x.negative then -magnitude x.field else magnitude x.field

theorem denotes_number (x : Double) : Denotes x.field x.number := by
  unfold number Denotes
  split
  · exact .inr rfl
  · exact .inl rfl

/-- The opposite of a number is denoted by the same field. -/
theorem Denotes.neg {field : ℕ} {v : ℚ} (denotes : Denotes field v) : Denotes field (-v) := by
  rcases denotes with rfl | rfl
  · exact .inr rfl
  · exact .inl (neg_neg _)

/-- A double is the nearest one to a number: no finite double is nearer, and where another one is as
near, the last bit of the double is zero. -/
structure Nearest (x : Double) (r : ℚ) : Prop where
  finite : x.isFinite = true
  near : ∀ y : Double, y.isFinite = true → |x.number - r| ≤ |y.number - r|
  even : ∀ y : Double, y.isFinite = true → y.number ≠ x.number → |x.number - r| = |y.number - r| →
    x.field % 2 = 0

theorem isFinite_iff (x : Double) : x.isFinite = true ↔ x.field < infinityField :=
  decide_eq_true_iff

theorem abs_number (x : Double) : |x.number| = magnitude x.field := by
  rcases denotes_number x with same | same <;> rw [same]
  · exact abs_of_nonneg (magnitude_nonneg _)
  · rw [abs_neg]
    exact abs_of_nonneg (magnitude_nonneg _)

theorem field_of_number {x y : Double} (finite : x.isFinite = true) (finite' : y.isFinite = true)
    (same : x.number = y.number) : x.field = y.field := by
  apply magnitude_injective ((isFinite_iff x).1 finite) ((isFinite_iff y).1 finite')
  rw [← abs_number, ← abs_number, same]

theorem isFinite_of_equals {x y : Double} (finite : x.isFinite = true) (equal : x.equals y = true) :
    y.isFinite = true := by
  simp only [equals, Bool.and_eq_true, Bool.or_eq_true, beq_iff_eq, isZero] at equal
  rcases equal.2 with rfl | ⟨_, zero⟩
  · exact finite
  · rw [isFinite_iff, zero]
    decide

theorem equals_iff {x y : Double} (finite : x.isFinite = true) (finite' : y.isFinite = true) :
    x.equals y = true ↔ x.number = y.number := by
  have real : ∀ z : Double, z.isFinite = true → z.isNaN = false := fun z small =>
    decide_eq_false (Nat.not_lt.2 ((isFinite_iff z).1 small).le)
  simp only [equals, real x finite, real y finite', Bool.not_false, Bool.true_and, Bool.or_eq_true,
    Bool.and_eq_true, beq_iff_eq, isZero]
  constructor
  · intro equal
    rcases equal with rfl | ⟨zero, zero'⟩
    · rfl
    · unfold number
      rw [zero, zero', magnitude_zero, neg_zero, ite_self, ite_self]
  · intro same
    have fields := field_of_number finite finite' same
    rcases Nat.eq_zero_or_pos x.field with zero | positive
    · exact .inr ⟨zero, fields ▸ zero⟩
    · left
      have large := magnitude_pos positive
      have signs : x.negative = y.negative := by
        unfold number at same
        rw [← fields] at same
        cases one : x.negative <;> cases two : y.negative <;> rw [one, two] at same <;>
          simp only [Bool.false_eq_true, ↓reduceIte] at same <;> first
            | rfl
            | linarith
      rw [← ofField_negative_field x, ← ofField_negative_field y, fields, signs]

theorem Nearest.of_eq {x : Double} {r : ℚ} (finite : x.isFinite = true) (exactly : x.number = r) :
    x.Nearest r := by
  have zero : |x.number - r| = 0 := by rw [exactly, sub_self, abs_zero]
  refine ⟨finite, fun y _ => ?_, fun y _ other same => absurd ?_ other⟩
  · rw [zero]
    exact abs_nonneg _
  · rw [zero] at same
    rw [exactly]
    exact sub_eq_zero.1 (abs_eq_zero.1 same.symm)

theorem Nearest.number_eq {x y : Double} {r : ℚ} (nearest : x.Nearest r)
    (finite : y.isFinite = true) (exactly : y.number = r) : x.number = r := by
  have near := nearest.near y finite
  rw [exactly, sub_self, abs_zero] at near
  exact sub_eq_zero.1 (abs_eq_zero.1 (le_antisymm near (abs_nonneg _)))

section Integers

variable {n : ℤ}

/-- A 64-bit integer is rounded to a finite double. -/
theorem fieldOfRatio_lt (room : n.natAbs ≤ 2 ^ 63) : fieldOfRatio n.natAbs 1 < infinityField := by
  rcases Nat.eq_zero_or_pos n.natAbs with nothing | positive
  · rw [nothing]
    decide
  · obtain ⟨m, rounded, made⟩ := rounded_ratio positive Nat.one_pos
    have ratio : (0 : ℚ) < (n.natAbs : ℚ) / (1 : ℕ) := by positivity
    have log : Int.log 2 ((n.natAbs : ℚ) / (1 : ℕ)) < 64 := by
      rw [← Int.lt_zpow_iff_log_lt one_lt_two ratio]
      have bound : (n.natAbs : ℚ) < 2 ^ 64 := by exact_mod_cast Nat.lt_of_le_of_lt room (by decide)
      rw [Nat.cast_one, div_one]
      exact_mod_cast bound
    have exponent := exponentOf_eq positive Nat.one_pos
    have small := rounded.small
    have steps : (exponentOf n.natAbs 1 + 1074).toNat ≤ 1085 := by omega
    have product : (exponentOf n.natAbs 1 + 1074).toNat * hiddenBit ≤ 1085 * hiddenBit :=
      Nat.mul_le_mul_right _ steps
    rw [made]
    refine Nat.lt_of_le_of_lt (Nat.min_le_left _ _) ?_
    unfold infinityField hiddenBit at *
    omega

theorem field_ofInt (n : ℤ) : (ofInt n).field = fieldOfRatio n.natAbs 1 :=
  field_ofField (Nat.lt_of_le_of_lt (fieldOfRatio_le _ _) (by decide))

theorem isFinite_ofInt (room : n.natAbs ≤ 2 ^ 63) : (ofInt n).isFinite = true := by
  rw [isFinite_iff, field_ofInt]
  exact fieldOfRatio_lt room

theorem number_ofInt (n : ℤ) : (ofInt n).number =
    if n < 0 then -magnitude (fieldOfRatio n.natAbs 1)
      else magnitude (fieldOfRatio n.natAbs 1) := by
  have negative : (ofInt n).negative = decide (n < 0) :=
    negative_ofField (Nat.lt_of_le_of_lt (fieldOfRatio_le _ _) (by decide))
  unfold number
  rw [negative, field_ofInt]
  simp only [decide_eq_true_eq]

/-- No double is nearer to an integer than the rounded one. Where another one is as near, the
rounded one is even and the other one is odd. -/
theorem ofInt_nearest (room : n.natAbs ≤ 2 ^ 63) (y : Double) :
    |(ofInt n).number - n| ≤ |y.number - n| ∧
      (y.number ≠ (ofInt n).number → |(ofInt n).number - n| = |y.number - n| →
        (ofInt n).field % 2 = 0 ∧ y.field % 2 = 1) := by
  have nearest := fun (positive : 0 < n.natAbs) {v : ℚ} (denotes : Denotes y.field v) =>
    fieldOfRatio_nearest positive Nat.one_pos (fieldOfRatio_lt room) denotes
  rw [number_ofInt, field_ofInt]
  rw [Nat.cast_one, div_one] at nearest
  rcases lt_trichotomy n 0 with below | rfl | above
  · -- Below zero all numbers are replaced by their opposites.
    have cast : (n : ℚ) = -(n.natAbs : ℚ) := by
      rw [Nat.cast_natAbs, abs_of_neg below, Int.cast_neg, neg_neg]
    have opposite : ∀ v : ℚ, |v - n| = |-v - n.natAbs| := by
      intro v
      rw [cast, ← abs_neg]
      congr 1
      ring
    obtain ⟨near, tie⟩ := nearest (by omega) (denotes_number y).neg
    rw [if_pos below, opposite, opposite, neg_neg]
    exact ⟨near, fun other => tie fun same => other (by rw [← same, neg_neg])⟩
  · have zero : magnitude (fieldOfRatio (0 : ℤ).natAbs 1) = 0 := magnitude_zero
    rw [if_neg (lt_irrefl _), zero, Int.cast_zero, sub_zero, sub_zero, abs_zero]
    exact ⟨abs_nonneg _, fun other same => absurd (abs_eq_zero.1 same.symm) other⟩
  · have cast : (n : ℚ) = (n.natAbs : ℚ) := by rw [Nat.cast_natAbs, abs_of_pos above]
    obtain ⟨near, tie⟩ := nearest (by omega) (denotes_number y)
    rw [if_neg (by omega), cast]
    exact ⟨near, tie⟩

theorem number_of_nearest (room : n.natAbs ≤ 2 ^ 63) {x : Double} (nearest : x.Nearest n) :
    x.number = (ofInt n).number := by
  by_contra other
  have finite := isFinite_ofInt room
  obtain ⟨near, tie⟩ := ofInt_nearest room x
  have same : |(ofInt n).number - n| = |x.number - n| := le_antisymm near (nearest.near _ finite)
  have odd := (tie other same).2
  rw [nearest.even _ finite (Ne.symm other) same.symm] at odd
  cases odd

/-- The rounded integer is a nearest double. -/
theorem nearest_ofInt (room : n.natAbs ≤ 2 ^ 63) : (ofInt n).Nearest n :=
  ⟨isFinite_ofInt room, fun y _ => (ofInt_nearest room y).1,
    fun y _ other same => ((ofInt_nearest room y).2 other same).1⟩

/-- A double equals a rounded integer exactly if it is the nearest one to the integer. -/
theorem equals_ofInt_iff (room : n.natAbs ≤ 2 ^ 63) (x : Double) :
    (ofInt n).equals x = true ↔ x.Nearest n := by
  have rounded := nearest_ofInt room
  constructor
  · intro equal
    have finite := isFinite_of_equals rounded.finite equal
    have same := (equals_iff rounded.finite finite).1 equal
    have parity := field_of_number rounded.finite finite same
    refine ⟨finite, fun y known => ?_, fun y known other tie => ?_⟩
    · rw [← same]
      exact rounded.near y known
    · rw [← same] at other tie
      rw [← parity]
      exact rounded.even y known other tie
  · intro nearest
    exact (equals_iff rounded.finite nearest.finite).2 (number_of_nearest room nearest).symm

/-- Every whole number of at most 53 bits is a magnitude. -/
theorem exists_magnitude {a : ℕ} (small : a ≤ 2 ^ 53) :
    ∃ field, field < infinityField ∧ magnitude field = a := by
  rcases Nat.eq_zero_or_pos a with rfl | positive
  · exact ⟨0, by decide, by rw [magnitude_zero, Nat.cast_zero]⟩
  · -- Doubling brings the number into the range of the normal mantissas.
    obtain ⟨t, bound, low, high⟩ : ∃ t, t ≤ 52 ∧ hiddenBit ≤ a * 2 ^ t ∧
        a * 2 ^ t ≤ 2 * hiddenBit := by
      have below : 2 ^ a.log2 ≤ a := Nat.log2_self_le positive.ne'
      have above : a < 2 ^ (a.log2 + 1) := Nat.lt_log2_self
      rcases Nat.lt_or_ge a.log2 53 with bits | top
      · have shift : a.log2 + (52 - a.log2) = 52 := by omega
        refine ⟨52 - a.log2, Nat.sub_le _ _, ?_, ?_⟩
        · calc hiddenBit = 2 ^ a.log2 * 2 ^ (52 - a.log2) := by
                rw [← pow_add, shift]
                rfl
            _ ≤ a * 2 ^ (52 - a.log2) := Nat.mul_le_mul_right _ below
        · calc a * 2 ^ (52 - a.log2) ≤ 2 ^ (a.log2 + 1) * 2 ^ (52 - a.log2) :=
            Nat.mul_le_mul_right _ above.le
            _ = 2 * hiddenBit := by
                rw [pow_succ, Nat.mul_right_comm, ← pow_add, shift]
                rfl
      · refine ⟨0, Nat.zero_le _, ?_, ?_⟩
        · have power : 2 ^ 53 ≤ 2 ^ a.log2 := Nat.pow_le_pow_right (by decide) top
          unfold hiddenBit
          omega
        · unfold hiddenBit
          omega
    refine ⟨(1074 - t) * hiddenBit + a * 2 ^ t, ?_, ?_⟩
    · unfold infinityField hiddenBit at *
      omega
    · have exponent : ((1074 - t : ℕ) : ℤ) - 1074 = -(t : ℤ) := by omega
      rw [magnitude_carry _ high (.inr low), exponent, zpow_neg, zpow_natCast]
      push_cast
      field_simp

/-- The nearest doubles to an integer of at most 53 bits are those that denote it. -/
theorem nearest_iff_number_eq (small : n.natAbs ≤ 2 ^ 53) (x : Double) :
    x.Nearest n ↔ x.isFinite = true ∧ x.number = n := by
  obtain ⟨field, bound, exactly⟩ := exists_magnitude small
  have inside : field < signWeight := Nat.lt_trans bound (by decide)
  have finite : (ofField (n < 0) field).isFinite = true := by
    rw [isFinite_iff, field_ofField inside]
    exact bound
  have denoted : (ofField (n < 0) field).number = n := by
    unfold number
    rw [field_ofField inside, negative_ofField inside, exactly, Nat.cast_natAbs]
    simp only [decide_eq_true_eq]
    split
    · rename_i below
      rw [abs_of_neg below, Int.cast_neg, neg_neg]
    · rename_i above
      rw [abs_of_nonneg (not_lt.1 above)]
  exact ⟨fun nearest => ⟨nearest.finite, nearest.number_eq finite denoted⟩,
    fun both => .of_eq both.1 both.2⟩

end Integers

end Treecode.Double
