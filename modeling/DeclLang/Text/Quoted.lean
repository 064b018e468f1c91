import DeclLang.Text.Invisible

/-!
# Quoted text: a string in double quotes, on one line and all to be seen

A quote and a backslash are written after a backslash, the common controls as a letter after one,
and any other invisible character as its code point in braces.
-/

namespace DeclLang.Text.Quoted

/-- The letter that stands for a character after a backslash. -/
def letter? : Char → Option Char
  | '"' => some '"'
  | '\\' => some '\\'
  | '\n' => some 'n'
  | '\t' => some 't'
  | '\r' => some 'r'
  | '\x00' => some '0'
  | _ => none

/-- A code point in hexadecimal. -/
def codePoint (c : Char) : List Char :=
  ['\\', 'u', '\x7b'] ++ Nat.toDigits 16 c.toNat ++ ['\x7d']

def encodeChar (c : Char) : List Char :=
  match letter? c with
  | some l => ['\\', l]
  | none => if isInvisible c then codePoint c else [c]

/-- A text as it is quoted. -/
def encode (text : String) : String :=
  String.ofList ('"' :: text.toList.flatMap encodeChar ++ ['"'])

end DeclLang.Text.Quoted
