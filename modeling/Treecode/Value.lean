import Treecode.Kind
import Treecode.Decimal.Double

set_option autoImplicit false

namespace Treecode

/-- A value. A record keeps its entries in the order in which their keys came. -/
inductive Value where
  | nil
  | integer (n : Int64)
  | float (x : Double)
  | boolean (b : Bool)
  | string (text : String)
  | array (items : List Value)
  | record (entries : List (Value × Value))
  deriving Inhabited

namespace Value

/-- The type of a value. -/
def type : Value → Kind
  | .nil => .nil
  | .integer _ => .integer
  | .float _ => .float
  | .boolean _ => .boolean
  | .string _ => .string
  | .array _ => .array
  | .record _ => .record

/-- Arrays and records hold other values, all else is scalar. -/
def isScalar : Value → Bool
  | .array _ | .record _ => false
  | _ => true

mutual

/-- Equality of values. Floats compare as numbers, so that a value that holds no number differs from
itself; entries of records compare in order. -/
def equals : Value → Value → Bool
  | .nil, .nil => true
  | .integer m, .integer n => m == n
  | .float x, .float y => x.equals y
  | .boolean a, .boolean b => a == b
  | .string a, .string b => a == b
  | .array items, .array others => itemsEqual items others
  | .record entries, .record others => entriesEqual entries others
  | _, _ => false

def itemsEqual : List Value → List Value → Bool
  | [], [] => true
  | item :: items, other :: others => item.equals other && itemsEqual items others
  | _, _ => false

def entriesEqual : List (Value × Value) → List (Value × Value) → Bool
  | [], [] => true
  | (key, value) :: entries, (otherKey, other) :: others =>
    key.equals otherKey && value.equals other && entriesEqual entries others
  | _, _ => false

end

/-- Sets the value of a key: a key that is there keeps its place, a new one comes last. -/
def insertEntry (key value : Value) : List (Value × Value) → List (Value × Value)
  | [] => [(key, value)]
  | (known, old) :: entries =>
    if known.equals key then (known, value) :: entries
    else (known, old) :: insertEntry key value entries

/-- A key that a record has keeps its place and its spelling. -/
theorem keys_insertEntry_of_known {key : Value} (value : Value) {entries : List (Value × Value)}
    (known : entries.any (·.1.equals key)) :
    (insertEntry key value entries).map (·.1) = entries.map (·.1) := by
  induction entries with
  | nil => simp at known
  | cons entry entries ih =>
    by_cases same : entry.1.equals key
    · simp [insertEntry, same]
    · simp only [List.any_cons, same, Bool.false_or] at known
      simp [insertEntry, same, ih known]

theorem insertEntry_of_new {key : Value} (value : Value) {entries : List (Value × Value)}
    (new : entries.any (·.1.equals key) = false) :
    insertEntry key value entries = entries ++ [(key, value)] := by
  induction entries with
  | nil => rfl
  | cons entry entries ih =>
    simp only [List.any_cons, Bool.or_eq_false_iff] at new
    simp [insertEntry, new.1, ih new.2]

/-- Whether two values label the same case: equal values, or an integer and a float that denote the
same number after the integer is rounded to a double. -/
def sameLabel : Value → Value → Bool
  | .integer n, .float x | .float x, .integer n => (Double.ofInt n.toInt).equals x
  | a, b => a.equals b

end Value

end Treecode
