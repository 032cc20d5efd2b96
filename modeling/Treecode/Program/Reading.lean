import Treecode.Token.Lexer
import Treecode.Program.Statements

set_option autoImplicit false

namespace Treecode

/-- The tokens that a program is read from: those that carry meaning, up to the first mark of the
end, and that mark. -/
structure TokenList where
  tokens : List Token
  stop : Token

namespace TokenList

/-- The mark of the end just after a list of tokens. -/
def stopAfter (tokens : List Token) : Token :=
  match tokens.getLast? with
  | none => ⟨.eof, none, .start⟩
  | some last =>
    let p := last.position
    ⟨.eof, none, ⟨p.line, p.column + last.text.length, p.offset + last.text.utf8ByteSize⟩⟩

/-- Leaves out white space and comments. A list without a mark of the end ends after its last
token. -/
def ofTokens (tokens : List Token) : TokenList :=
  let meaningful := tokens.filter (!·.kind.isTrivia)
  ⟨meaningful.takeWhile (·.kind ≠ .eof),
    (meaningful.find? (·.kind = .eof)).getD (stopAfter meaningful)⟩

/-- What the tokens spell, with an error that names the file. -/
def read {α : Type} (input : TokenList) (file : String) (reader : Reader α) : Except Error α :=
  match reader input.tokens with
  | .ok (a, _) => .ok a
  | .error unexpected =>
    let token := unexpected.token.getD input.stop
    let place : Location := ⟨file, token.position.line, token.position.column⟩
    .error (.unexpected place unexpected.found token.text unexpected.expected)

end TokenList

/-- The program that a list of tokens spells. -/
def Program.ofTokens (tokens : List Token) (file : String) : Except Error Program :=
  match (TokenList.ofTokens tokens).read file Statement.readAll with
  | .ok statements => .ok ⟨file, statements⟩
  | .error error => .error error

/-- The program that a source text spells. -/
def Program.ofSource (source file : String) : Except Error Program :=
  match tokenize source file with
  | .ok tokens => Program.ofTokens tokens file
  | .error error => .error error

def Expression.ofTokens (tokens : List Token) (file : String) : Except Error Expression :=
  (TokenList.ofTokens tokens).read file Expression.read

end Treecode
