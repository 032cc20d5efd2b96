import Treecode.Token
import Treecode.Value
import Treecode.Decimal.Reading

set_option autoImplicit false

namespace Treecode

/-- Why a token spells no value. -/
inductive LiteralFault where
  | integerOutOfRange (text : String)
  | floatOutOfRange (text : String)
  | invalidFloat (text : String)
  | notALiteral (kind : Kind)
  deriving DecidableEq, Repr

def LiteralFault.message : LiteralFault → String
  | .integerOutOfRange text => "integer literal `" ++ text ++ "` is out of range"
  | .floatOutOfRange text => "float literal `" ++ text ++ "` is out of range"
  | .invalidFloat text => "invalid float literal `" ++ text ++ "`"
  | .notALiteral kind => kind.name ++ " is not a literal"

namespace Literal

def isQuote (c : Char) : Bool := c == '"' || c == '\''

/-- What stands between an opening and a closing character, if the text has both. -/
def between? (opens closes : Char → Bool) : List Char → Option (List Char)
  | [] => none
  | c :: rest =>
    match rest.getLast? with
    | some last => if opens c && closes last then some rest.dropLast else none
    | none => none

/-- The text without one pair of matching quotes around it; without such a pair it is unchanged. -/
def unquoted (text : List Char) : List Char :=
  ((between? (· == '"') (· == '"') text).or (between? (· == '\'') (· == '\'') text)).getD text

/-- The text between the delimiters of a string or of a piece of an interpolated one. A piece ends
or starts with the brace of an interpolation where a whole string has a quote. -/
def content (kind : Kind) (text : List Char) : List Char :=
  match kind with
  | .stringInterpolationStart => (between? isQuote (· == '{') text).getD text
  | .stringInterpolationStringPart => (between? (· == '}') (· == '{') text).getD text
  | .stringInterpolationEnd => (between? (· == '}') isQuote text).getD text
  | _ => unquoted text

/-- What an escaped character stands for; an unknown escape stands for itself, backslash and all. -/
def escaped : Char → List Char
  | 'n' => ['\n']
  | 't' => ['\t']
  | 'r' => ['\r']
  | '\\' => ['\\']
  | '"' => ['"']
  | '\'' => ['\'']
  | c => ['\\', c]

/-- The text with its escapes and doubled braces resolved. -/
def unescape : List Char → List Char
  | [] => []
  | ['\\'] => ['\\']
  | '\\' :: c :: rest => escaped c ++ unescape rest
  | '{' :: '{' :: rest => '{' :: unescape rest
  | c :: rest => c :: unescape rest

/-- The value that a text of a given kind spells. -/
def value (kind : Kind) (text : String) : Except LiteralFault Value :=
  match kind with
  | .integer =>
    match Decimal.integer? text.toList with
    | some n => .ok (.integer n)
    | none => .error (.integerOutOfRange text)
  | .float =>
    match Decimal.double? text.toList with
    | some x => if x.isFinite then .ok (.float x) else .error (.floatOutOfRange text)
    | none => .error (.invalidFloat text)
  | .boolean => .ok (.boolean (text == "true"))
  | .nil => .ok .nil
  | .string | .stringInterpolationStart | .stringInterpolationStringPart
  | .stringInterpolationEnd =>
    .ok (.string (String.ofList (unescape (content kind text.toList))))
  | other => .error (.notALiteral other)

end Literal

def Token.value (token : Token) : Except LiteralFault Value := Literal.value token.kind token.text

end Treecode
