import Treecode.Decimal.Reading

set_option autoImplicit false

namespace Treecode.Decimal

/-- The quotient of a finite magnitude by `10 ^ s`, as a ratio. -/
def onGrid (field : Nat) (s : Int) : Nat × Nat :=
  let (m, q) := Double.parts field
  (m <<< q.toNat * Nat.pow 10 (-s).toNat, 1 <<< (-q).toNat * Nat.pow 10 s.toNat)

/-- The multiple `c · 10 ^ s` nearest to a magnitude among those that read back as it. -/
def readingBack? (field : Nat) (s : Int) : Option Nat :=
  let (num, den) := onGrid field s
  let below := num / den
  let above := below + 1
  match fieldOf below s == field, fieldOf above s == field with
  | true, true => some (if 2 * (num % den) < den then below else above)
  | true, false => some below
  | false, true => some above
  | false, false => none

def powerAbove (field : Nat) : Int :=
  let (m, q) := Double.parts field
  ((m.log2 : Int) + 1 + q) * 30103 / 100000 + 1

def exactly (field : Nat) : Nat × Int :=
  let (m, q) := Double.parts field
  (m <<< q.toNat * Nat.pow 5 (-q).toNat, min q 0)

/-- The decimal `c · 10 ^ s` with the fewest digits that reads back as a magnitude: the coarsest
grid on which some multiple does, and on it the nearest multiple or of two equally near ones the
larger. Seventeen digits always suffice, so the grids tried reach far enough. -/
def shortest (field : Nat) : Nat × Int :=
  let grids := (List.range 24).map fun i => powerAbove field - (i : Nat)
  (grids.findSome? fun s => (readingBack? field s).map (·, s)).getD (exactly field)

/-- A decimal `c · 10 ^ s` written out in full. -/
def positional (c : Nat) (s : Int) : List Char :=
  let text := digits c
  let places := (-s).toNat
  if 0 ≤ s then text ++ List.replicate s.toNat '0'
  else if places < text.length then
    text.take (text.length - places) ++ '.' :: text.drop (text.length - places)
  else '0' :: '.' :: List.replicate (places - text.length) '0' ++ text

def magnitudeText (field : Nat) : String :=
  if Double.infinityField < field then "NaN"
  else if field = Double.infinityField then "inf"
  else if field = 0 then "0"
  else
    let (c, s) := shortest field
    String.ofList (positional c s)

/-- The text of a double; what is no number has no sign. -/
def doubleText (x : Double) : String :=
  if x.negative && !x.isNaN then "-" ++ magnitudeText x.field else magnitudeText x.field

/-- A multiple found on a grid reads back. -/
theorem fieldOf_of_readingBack? {field : Nat} {s : Int} {c : Nat}
    (found : readingBack? field s = some c) : fieldOf c s = field := by
  simp only [readingBack?] at found
  split at found <;> simp_all
  subst found
  split <;> assumption

end Treecode.Decimal
