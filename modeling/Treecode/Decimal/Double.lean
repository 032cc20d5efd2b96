set_option autoImplicit false

namespace Treecode

/-- A double-precision number, given by its bits. -/
structure Double where
  bits : UInt64
  deriving DecidableEq, Repr, Inhabited

namespace Double

def signWeight : Nat := 0x8000000000000000

/-- The weight of the bit that a mantissa has but does not store. -/
def hiddenBit : Nat := 0x10000000000000

/-- The bits of infinity. Smaller fields are finite, larger ones are no numbers. -/
def infinityField : Nat := 0x7FF0000000000000

def negative (x : Double) : Bool := signWeight ≤ x.bits.toNat

/-- All bits but the sign. They grow with the magnitude. -/
def field (x : Double) : Nat := x.bits.toNat % signWeight

def isNaN (x : Double) : Bool := infinityField < x.field
def isFinite (x : Double) : Bool := x.field < infinityField
def isZero (x : Double) : Bool := x.field == 0

def ofField (negative : Bool) (field : Nat) : Double :=
  ⟨UInt64.ofNat (if negative then signWeight + field else field)⟩

/-- The mantissa `m` and the exponent `q` of a finite magnitude `m · 2 ^ q`. -/
def parts (field : Nat) : Nat × Int :=
  if field < hiddenBit then (field, -1074)
  else (hiddenBit + field % hiddenBit, (field / hiddenBit : Nat) - 1075)

/-- Numeric equality: the two zeros are equal, and what is no number equals nothing. -/
def equals (x y : Double) : Bool :=
  !x.isNaN && !y.isNaN && (x == y || x.isZero && y.isZero)

/-- The natural number nearest to a ratio; a tie goes to the even one. -/
def roundHalfEven (num den : Nat) : Nat :=
  let below := num / den
  let twice := 2 * (num % den)
  if twice < den then below else if den < twice then below + 1 else below + below % 2

def scaleDown (num den : Nat) (q : Int) : Nat × Nat := (num <<< (-q).toNat, den <<< q.toNat)

/-- The exponent at which a positive ratio has a mantissa of 53 bits, or the least exponent. -/
def exponentOf (num den : Nat) : Int :=
  let high : Int := (num.log2 : Int) - den.log2 - 52
  let scaled := scaleDown num den high
  max (-1074) (if scaled.1 / scaled.2 < hiddenBit then high - 1 else high)

/-- The field of the double nearest to a ratio; a tie goes to the even mantissa, and what lies
beyond the largest finite double becomes infinity. Adding the mantissa carries into the exponent
when the mantissa rounds up to 54 bits. -/
def fieldOfRatio (num den : Nat) : Nat :=
  if num = 0 then 0
  else
    let q := exponentOf num den
    let scaled := scaleDown num den q
    min ((q + 1074).toNat * hiddenBit + roundHalfEven scaled.1 scaled.2) infinityField

def ofInt (n : Int) : Double := ofField (n < 0) (fieldOfRatio n.natAbs 1)

theorem field_lt (x : Double) : x.field < signWeight := Nat.mod_lt _ (by decide)

theorem fieldOfRatio_le (num den : Nat) : fieldOfRatio num den ≤ infinityField := by
  unfold fieldOfRatio
  split
  · exact Nat.zero_le _
  · exact Nat.min_le_right _ _

theorem field_ofField {negative : Bool} {field : Nat} (bounded : field < signWeight) :
    (ofField negative field).field = field := by
  unfold signWeight at bounded
  simp only [ofField, Double.field, signWeight, UInt64.toNat_ofNat']
  cases negative <;> simp <;> omega

theorem negative_ofField {negative : Bool} {field : Nat} (bounded : field < signWeight) :
    (ofField negative field).negative = negative := by
  unfold signWeight at bounded
  simp only [ofField, Double.negative, signWeight, UInt64.toNat_ofNat']
  cases negative <;> simp <;> omega

theorem ofField_negative_field (x : Double) : ofField x.negative x.field = x := by
  obtain ⟨bits⟩ := x
  have bounded := bits.toNat_lt
  have whole : (if signWeight ≤ bits.toNat then signWeight + bits.toNat % signWeight
      else bits.toNat % signWeight) = bits.toNat := by
    unfold signWeight
    split <;> omega
  simp only [ofField, Double.negative, Double.field, decide_eq_true_eq, whole, UInt64.ofNat_toNat]

theorem equals_comm (x y : Double) : x.equals y = y.equals x := by
  simp only [equals, Bool.and_comm, Bool.beq_comm]

end Double

end Treecode
