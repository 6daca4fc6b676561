import Modula.Text.Position
import Modula.Token.Kind

/-! # Tokens

A token is a kind with the exact text it was read from and the place of its first character. The
end of a text is a token too, with an empty text. -/

set_option autoImplicit false

namespace Modula

structure Token where
  kind : TokenKind
  lexeme : String
  position : Position
  deriving DecidableEq, Repr

namespace Token

/-- The token of a word: a keyword if the word spells one, an identifier otherwise. -/
def ofWord (word : String) (p : Position) : Token :=
  ⟨(TokenKind.keyword? word).getD .ident, word, p⟩

/-- The line of a token in a dump: its code aligned to the right in three columns, a space and
its text. -/
def dump (t : Token) : String :=
  let code := toString t.kind.code
  "".pushn ' ' (3 - code.length) ++ code ++ " " ++ t.lexeme

end Token
end Modula
