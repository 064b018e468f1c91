import DeclLang.Source.Span
import DeclLang.Vocab.Keyword
import DeclLang.Vocab.Punctuation

/-!
# Tokens: the words of a declaration file
-/

namespace DeclLang

inductive TokenKind where
  | keyword (k : Keyword)
  | punctuation (p : Punctuation)
  /-- A run of operator characters, which may name a method. -/
  | operator (text : String)
  | ident (name : String)
  /-- The text that a string literal stands for. -/
  | string (value : String)
  | int (value : Nat)
  | newline
  /-- The end of the file. -/
  | eof
deriving DecidableEq, Repr

namespace TokenKind

/-- How a message names a token. -/
def describe : TokenKind → String
  | .keyword k => s!"keyword `{k.spelling}`"
  | .punctuation p => s!"`{p.spelling}`"
  | .operator text => s!"operator `{text}`"
  | .ident name => s!"identifier `{name}`"
  | .string _ => "string literal"
  | .int value => s!"integer `{value}`"
  | .newline => "end of line"
  | .eof => "end of file"

end TokenKind

abbrev Token := Located TokenKind

end DeclLang
