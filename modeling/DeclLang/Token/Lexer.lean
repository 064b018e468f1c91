import DeclLang.Source.Diagnostic
import DeclLang.Token.Basic

/-!
# Lexer: from characters to tokens

`Lexeme.scan` reads one lexeme off the front of a text: a token, a blank, a comment, or something
that is no token. `Lexed.ofChars` reads lexemes until the text ends. Nothing is carried from one
lexeme to the next but the number of bytes read, and every problem met on the way is kept.
-/

namespace DeclLang

/-- What the lexer cannot make a token of. -/
inductive LexicalProblem where
  | unexpectedCharacter (c : Char)
  | unterminatedString
  | unknownEscape (c : Char)
  /-- The digits of an integer that takes more than 64 bits. -/
  | integerOutOfRange (digits : String)
deriving DecidableEq, Repr

namespace LexicalProblem

def message : LexicalProblem → String
  | .unexpectedCharacter c => s!"unexpected character '{c}'"
  | .unterminatedString => "unterminated string literal"
  | .unknownEscape c => s!"unknown escape sequence '\\{c}'"
  | .integerOutOfRange digits => s!"integer literal '{digits}' is out of range"

def hints : LexicalProblem → List String
  | .unterminatedString => ["string literals must close on the line they start"]
  | _ => []

end LexicalProblem

def Diagnostic.ofLexical (p : Located LexicalProblem) : Diagnostic :=
  ⟨.lexical, p.value.message, p.span, p.value.hints⟩

/-! ## Character classes -/

/-- Blanks separate tokens and are otherwise skipped; a line feed is a token. -/
def isBlank (c : Char) : Bool :=
  c == ' ' || c == '\t' || c == '\r'

def isIdentStart (c : Char) : Bool :=
  c.isAlpha || c == '_'

def isIdentRest (c : Char) : Bool :=
  c.isAlphanum || c == '_'

/-- Digits of an integer may be grouped by underscores. -/
def isIntegerRest (c : Char) : Bool :=
  c.isDigit || c == '_'

def isOperatorChar (c : Char) : Bool :=
  c ∈ ['+', '-', '*', '/', '%', '=', '<', '>', '!', '&', '|', '^', '~']

/-! ## String literals -/

/-- The character that is written as a backslash before another one. -/
def unescape? : Char → Option Char
  | 'n' => some '\n'
  | 't' => some '\t'
  | '\\' => some '\\'
  | '"' => some '"'
  | _ => none

/-- A string literal after its opening quote. -/
structure StringBody where
  /-- The characters read, the closing quote among them. -/
  text : List Char
  /-- The characters that the literal stands for. -/
  value : List Char
  problems : List (Located LexicalProblem)
  /-- Whether the closing quote was found on the line. -/
  closed : Bool
  rest : List Char

namespace StringBody

/-- Reads up to the closing quote, or stops before a line feed or at the end of the text. A
    backslash takes the next character with it, whatever that is. -/
def scan (pos : Nat) : List Char → StringBody
  | '\\' :: c :: cs =>
    let width := 1 + c.utf8Size
    let tail := scan (pos + width) cs
    match unescape? c with
    | some v => { tail with text := '\\' :: c :: tail.text, value := v :: tail.value }
    | none =>
      { tail with
        text := '\\' :: c :: tail.text
        problems := ⟨.unknownEscape c, ⟨pos, pos + width⟩⟩ :: tail.problems }
  | c :: cs =>
    if c = '\n' then ⟨[], [], [], false, c :: cs⟩
    else if c = '"' then ⟨[c], [], [], true, cs⟩
    else
      let tail := scan (pos + c.utf8Size) cs
      { tail with text := c :: tail.text, value := c :: tail.value }
  | [] => ⟨[], [], [], false, []⟩

theorem text_append_rest (pos : Nat) (cs : List Char) :
    (scan pos cs).text ++ (scan pos cs).rest = cs := by
  fun_induction scan pos cs <;> simp_all +zetaDelta

end StringBody

/-! ## One lexeme -/

/-- A stretch of the source, what it is, and what comes after it. -/
structure Lexeme where
  /-- The characters read. -/
  text : List Char
  /-- The token that they make up, if any. -/
  kind : Option TokenKind
  problems : List (Located LexicalProblem)
  rest : List Char

namespace Lexeme

/-- Everything up to the end of the line. -/
def comment (first : Char) (cs : List Char) : Lexeme :=
  ⟨first :: cs.takeWhile (· != '\n'), none, [], cs.dropWhile (· != '\n')⟩

def string (pos : Nat) (quote : Char) (cs : List Char) : Lexeme :=
  let body := StringBody.scan (pos + quote.utf8Size) cs
  let text := quote :: body.text
  if body.closed then ⟨text, some (.string (String.ofList body.value)), body.problems, body.rest⟩
  else
    let unterminated := ⟨.unterminatedString, ⟨pos, pos + utf8Length text⟩⟩
    ⟨text, none, body.problems ++ [unterminated], body.rest⟩

/-- Integers are those of 64 bits. -/
def integerLimit : Nat := 18446744073709551616

def integer (pos : Nat) (first : Char) (cs : List Char) : Lexeme :=
  let text := first :: cs.takeWhile isIntegerRest
  let rest := cs.dropWhile isIntegerRest
  let digits := text.filter (· != '_')
  let value := Nat.ofDigitChars 10 digits 0
  if value < integerLimit then ⟨text, some (.int value), [], rest⟩
  else
    let problem := .integerOutOfRange (String.ofList digits)
    ⟨text, none, [⟨problem, ⟨pos, pos + utf8Length text⟩⟩], rest⟩

/-- A `?` or `!` that ends a method name. Before `=` it is the start of an operator instead. -/
def suffix? : List Char → Option (Char × List Char)
  | s :: cs => if (s == '?' || s == '!') && cs.head? != some '=' then some (s, cs) else none
  | [] => none

/-- An identifier, or a keyword if it is spelled like one and has no suffix. -/
def word (first : Char) (cs : List Char) : Lexeme :=
  let letters := first :: cs.takeWhile isIdentRest
  let rest := cs.dropWhile isIdentRest
  match suffix? rest with
  | some (s, after) =>
    let text := letters ++ [s]
    ⟨text, some (.ident (String.ofList text)), [], after⟩
  | none =>
    let spelling := String.ofList letters
    let kind := (Keyword.ofSpelling? spelling).elim (.ident spelling) .keyword
    ⟨letters, some kind, [], rest⟩

/-- The longest run of operator characters. -/
def operator (first : Char) (cs : List Char) : Lexeme :=
  let text := first :: cs.takeWhile isOperatorChar
  ⟨text, some (.operator (String.ofList text)), [], cs.dropWhile isOperatorChar⟩

def mark (pos : Nat) (c : Char) (cs : List Char) : Lexeme :=
  match Punctuation.ofChar? c with
  | some p => ⟨[c], some (.punctuation p), [], cs⟩
  | none => ⟨[c], none, [⟨.unexpectedCharacter c, ⟨pos, pos + c.utf8Size⟩⟩], cs⟩

/-- The first lexeme of a text, whose first character stands at `pos`. -/
def scan (pos : Nat) (c : Char) (cs : List Char) : Lexeme :=
  if isBlank c then ⟨[c], none, [], cs⟩
  else if c = '\n' then ⟨[c], some .newline, [], cs⟩
  else if c = '#' then comment c cs
  else if c = '"' then string pos c cs
  else if c.isDigit then integer pos c cs
  else if isIdentStart c then word c cs
  else if isOperatorChar c then operator c cs
  else mark pos c cs

theorem suffix?_eq_some {cs after : List Char} {s : Char} (h : suffix? cs = some (s, after)) :
    cs = s :: after := by
  cases cs with
  | nil => simp [suffix?] at h
  | cons d ds =>
    simp only [suffix?] at h
    split at h <;> simp_all

/-- No character is lost. -/
theorem text_append_rest (pos : Nat) (c : Char) (cs : List Char) :
    (scan pos c cs).text ++ (scan pos c cs).rest = c :: cs := by
  have hword : (word c cs).text ++ (word c cs).rest = c :: cs := by
    simp only [word]
    split
    · rename_i s after h
      simp [← suffix?_eq_some h]
    · simp
  have hstring : (string pos c cs).text ++ (string pos c cs).rest = c :: cs := by
    simp only [string]
    split <;> simp [StringBody.text_append_rest]
  have hinteger : (integer pos c cs).text ++ (integer pos c cs).rest = c :: cs := by
    simp only [integer]
    split <;> simp
  have hmark : (mark pos c cs).text ++ (mark pos c cs).rest = c :: cs := by
    simp only [mark]
    split <;> simp
  simp only [scan]
  repeat' split
  all_goals simp_all [comment, operator]

/-- Every lexeme has a character at least. -/
theorem text_ne_nil (pos : Nat) (c : Char) (cs : List Char) : (scan pos c cs).text ≠ [] := by
  simp only [scan, comment, string, integer, word, operator, mark]
  repeat' split
  all_goals simp

theorem rest_length_lt (pos : Nat) (c : Char) (cs : List Char) :
    (scan pos c cs).rest.length < (c :: cs).length := by
  have happ := congrArg List.length (text_append_rest pos c cs)
  have hpos := List.length_pos_iff.mpr (text_ne_nil pos c cs)
  rw [List.length_append] at happ
  omega

/-- The token of a lexeme that starts at `pos`, if it has one. -/
def token (pos : Nat) (l : Lexeme) : List Token :=
  match l.kind with
  | some kind => [⟨kind, ⟨pos, pos + utf8Length l.text⟩⟩]
  | none => []

end Lexeme

/-! ## The whole text -/

/-- All that was read of a text: its tokens, and its problems in the order they were met. -/
structure Lexed where
  tokens : List Token
  problems : List (Located LexicalProblem)
deriving DecidableEq, Repr

namespace Lexed

/-- Reads a text whose first character stands at `pos`. The last token marks the end. -/
def ofChars (pos : Nat) : List Char → Lexed
  | [] => ⟨[⟨.eof, .point pos⟩], []⟩
  | c :: cs =>
    let lexeme := Lexeme.scan pos c cs
    let tail := ofChars (pos + utf8Length lexeme.text) lexeme.rest
    ⟨lexeme.token pos ++ tail.tokens, lexeme.problems ++ tail.problems⟩
termination_by cs => cs.length
decreasing_by exact Lexeme.rest_length_lt pos c cs

def ofSource (source : String) : Lexed :=
  ofChars 0 source.toList

/-- The tokens of a text without problems. -/
def toExcept (l : Lexed) : Except (List Diagnostic) (List Token) :=
  if l.problems.isEmpty then .ok l.tokens else .error (l.problems.map .ofLexical)

end Lexed

/-- The tokens of a source text, or everything in it that is no token. -/
def lex (source : String) : Except (List Diagnostic) (List Token) :=
  (Lexed.ofSource source).toExcept

end DeclLang
