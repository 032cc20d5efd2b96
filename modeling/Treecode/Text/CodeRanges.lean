set_option autoImplicit false

namespace Treecode.Text

/-- A set of code points as closed ranges, the first and the last point of each. -/
abbrev CodeRanges := List (Nat × Nat)

/-- Whether some range of the table holds the character. -/
def CodeRanges.contains (table : CodeRanges) (c : Char) : Bool :=
  table.any fun (first, last) => first ≤ c.toNat && c.toNat ≤ last

theorem CodeRanges.contains_iff (table : CodeRanges) (c : Char) :
    table.contains c ↔ ∃ range ∈ table, range.1 ≤ c.toNat ∧ c.toNat ≤ range.2 := by
  simp [contains]

end Treecode.Text
