set_option autoImplicit false

namespace Treecode.Decimal

/-- The digits of a number, without leading zeros; zero has one digit. -/
def digits (n : Nat) : List Char := Nat.toDigits 10 n

/-- The number that a list of digits denotes; no digits denote zero. -/
def valueOf (text : List Char) : Nat :=
  text.foldl (fun n c => 10 * n + (c.toNat - '0'.toNat)) 0

theorem digits_of_lt_ten {n : Nat} (small : n < 10) : digits n = [Nat.digitChar n] := by
  simpa [digits] using Nat.toDigits_of_lt_base small

theorem digits_step {n : Nat} (large : 10 ≤ n) :
    digits n = digits (n / 10) ++ [Nat.digitChar (n % 10)] := by
  simpa [digits] using Nat.toDigits_of_base_le (by decide) large

theorem digitChar_toNat {n : Nat} (small : n < 10) : (Nat.digitChar n).toNat - '0'.toNat = n := by
  match n, small with
  | 0, _ | 1, _ | 2, _ | 3, _ | 4, _ | 5, _ | 6, _ | 7, _ | 8, _ | 9, _ => rfl

theorem valueOf_append_singleton (text : List Char) (c : Char) :
    valueOf (text ++ [c]) = 10 * valueOf text + (c.toNat - '0'.toNat) := by
  simp [valueOf]

theorem valueOf_digits (n : Nat) : valueOf (digits n) = n := by
  induction n using Nat.strongRecOn with
  | ind n ih =>
    by_cases small : n < 10
    · rw [digits_of_lt_ten small]
      simpa [valueOf] using digitChar_toNat small
    · rw [digits_step (by omega), valueOf_append_singleton, ih (n / 10) (by omega),
        digitChar_toNat (Nat.mod_lt n (by decide))]
      omega

theorem isDigit_digitChar {n : Nat} (small : n < 10) : (Nat.digitChar n).isDigit := by
  match n, small with
  | 0, _ | 1, _ | 2, _ | 3, _ | 4, _ | 5, _ | 6, _ | 7, _ | 8, _ | 9, _ => rfl

theorem isDigit_of_mem_digits (n : Nat) : ∀ c ∈ digits n, c.isDigit := by
  induction n using Nat.strongRecOn with
  | ind n ih =>
    by_cases small : n < 10
    · simpa [digits_of_lt_ten small] using isDigit_digitChar small
    · intro c member
      rw [digits_step (by omega), List.mem_append, List.mem_singleton] at member
      rcases member with inner | rfl
      · exact ih (n / 10) (by omega) c inner
      · exact isDigit_digitChar (Nat.mod_lt n (by decide))

end Treecode.Decimal
