import Treecode.Value
import Treecode.Decimal.Shortest

set_option autoImplicit false

namespace Treecode.Value

/-- How a character stands between the quotes of a string. An opening brace is doubled, because a
single one starts an interpolation. -/
def stringCharacter : Char → List Char
  | '"' => ['\\', '"']
  | '\\' => ['\\', '\\']
  | '\n' => ['\\', 'n']
  | '\t' => ['\\', 't']
  | '\r' => ['\\', 'r']
  | '{' => ['{', '{']
  | c => [c]

def stringText (text : String) : String :=
  String.ofList ('"' :: text.toList.flatMap stringCharacter ++ ['"'])

/-- A float always shows a point. -/
def floatText (x : Double) : String :=
  let text := Decimal.doubleText x
  if text.toList.contains '.' then text else text ++ ".0"

/-- An integer in decimal, with a minus when it is negative. -/
def integerText (n : Int64) : String :=
  let magnitude := String.ofList (Decimal.digits n.toInt.natAbs)
  if n.toInt < 0 then "-" ++ magnitude else magnitude

mutual

/-- The text of a value. -/
def text : Value → String
  | .nil => "nil"
  | .integer n => integerText n
  | .float x => floatText x
  | .boolean b => if b then "true" else "false"
  | .string text => stringText text
  | .array items => "[" ++ ", ".intercalate (itemTexts items) ++ "]"
  | .record entries => "\x7b" ++ ", ".intercalate (entryTexts entries) ++ "\x7d"

def itemTexts : List Value → List String
  | [] => []
  | item :: items => item.text :: itemTexts items

def entryTexts : List (Value × Value) → List String
  | [] => []
  | (key, value) :: entries => (key.text ++ ": " ++ value.text) :: entryTexts entries

end

end Treecode.Value
