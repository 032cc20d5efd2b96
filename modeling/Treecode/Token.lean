import Treecode.Kind

set_option autoImplicit false

namespace Treecode

/-- A place in a text: the line and the column, both from one and counted in characters, and the
number of bytes before it. -/
structure Position where
  line : Nat
  column : Nat
  offset : Nat
  deriving DecidableEq, Repr, Inhabited

namespace Position

/-- Where every text starts. -/
def start : Position := ⟨1, 1, 0⟩

/-- The place just after a character. -/
def next (p : Position) (c : Char) : Position :=
  if c = '\n' then ⟨p.line + 1, 1, p.offset + c.utf8Size⟩
  else ⟨p.line, p.column + 1, p.offset + c.utf8Size⟩

def after (p : Position) (text : List Char) : Position := text.foldl next p

@[simp] theorem after_nil (p : Position) : p.after [] = p := rfl

@[simp] theorem after_cons (p : Position) (c : Char) (text : List Char) :
    p.after (c :: text) = (p.next c).after text := rfl

theorem after_append (p : Position) (a b : List Char) : p.after (a ++ b) = (p.after a).after b := by
  simp [after]

end Position

/-- A token: what it is, its text as written, and where it starts. The mark of the end of a script
has no text. -/
structure Token where
  kind : Kind
  spelling : Option String
  position : Position
  deriving DecidableEq, Repr, Inhabited

namespace Token

/-- The text of a token; a token without one counts as empty. -/
def text (token : Token) : String := token.spelling.getD ""

end Token

end Treecode
