import Treecode.Decimal.Digits
import Treecode.Decimal.Double

set_option autoImplicit false

namespace Treecode.Decimal

/-- A sign, which may be missing, and what follows it; the flag tells a minus. -/
def splitSign : List Char → Bool × List Char
  | '-' :: rest => (true, rest)
  | '+' :: rest => (false, rest)
  | text => (false, text)

/-- The number that a whole text of digits denotes. -/
def natural? (text : List Char) : Option Nat :=
  if text.isEmpty || !text.all Char.isDigit then none else some (valueOf text)

/-- The 64-bit integer that a whole text denotes. -/
def integer? (text : List Char) : Option Int64 := do
  let (negative, body) := splitSign text
  let magnitude ← natural? body
  let n : Int := if negative then -magnitude else magnitude
  if Int64.minValue.toInt ≤ n ∧ n ≤ Int64.maxValue.toInt then some (Int64.ofInt n) else none

/-- The exponent at the end of a number: nothing, or `e` with a sign, which may be missing, and
digits. -/
def exponent? : List Char → Option Int
  | [] => some 0
  | c :: rest =>
    if c == 'e' || c == 'E' then do
      let (negative, body) := splitSign rest
      let magnitude ← natural? body
      return if negative then -magnitude else magnitude
    else none

/-- The digits after a point, and what follows them. -/
def splitFraction : List Char → List Char × List Char
  | '.' :: rest => (rest.takeWhile Char.isDigit, rest.dropWhile Char.isDigit)
  | text => ([], text)

/-- The field of the double nearest to `c · 10 ^ e`. A number far beyond the doubles is settled by
the place of its first digit, so that no huge power is ever computed. -/
def fieldOf (c : Nat) (e : Int) : Nat :=
  let top := (digits c).length + e
  if c = 0 ∨ top < -330 then 0
  else if 310 < top then Double.infinityField
  else Double.fieldOfRatio (c * Nat.pow 10 e.toNat) (Nat.pow 10 (-e).toNat)

/-- The field of an unsigned number written with digits. -/
def magnitude? (text : List Char) : Option Nat := do
  let whole := text.takeWhile Char.isDigit
  let (fraction, rest) := splitFraction (text.dropWhile Char.isDigit)
  if whole.isEmpty && fraction.isEmpty then none
  else
    let e ← exponent? rest
    return fieldOf (valueOf (whole ++ fraction)) (e - fraction.length)

def double? (text : List Char) : Option Double :=
  let (negative, body) := splitSign text
  let word := body.map Char.toLower
  if word = ['i', 'n', 'f'] ∨ word = ['i', 'n', 'f', 'i', 'n', 'i', 't', 'y'] then
    some (Double.ofField negative Double.infinityField)
  else if word = ['n', 'a', 'n'] then some (Double.ofField negative 0x7FF8000000000000)
  else (magnitude? body).map (Double.ofField negative)

end Treecode.Decimal
