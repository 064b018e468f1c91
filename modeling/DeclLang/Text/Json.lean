/-!
# JSON: values, and their text with two blanks of indentation a level
-/

namespace DeclLang

inductive JsonValue where
  | null
  | number (n : Nat)
  | string (text : String)
  | array (items : List JsonValue)
  | object (fields : List (String × JsonValue))

namespace JsonValue

def ofOption {α : Type} (f : α → JsonValue) : Option α → JsonValue
  | some a => f a
  | none => null

/-- An object whose keys are sorted. -/
def sorted (fields : List (String × JsonValue)) : JsonValue :=
  object (fields.mergeSort fun a b => decide (a.1 ≤ b.1))

/-! ## Text -/

/-- The letter that stands for a character after a backslash. -/
def letter? : Char → Option Char
  | '"' => some '"'
  | '\\' => some '\\'
  | '\x08' => some 'b'
  | '\x0c' => some 'f'
  | '\n' => some 'n'
  | '\r' => some 'r'
  | '\t' => some 't'
  | _ => none

/-- A code point in four hexadecimal digits at least. -/
def fourDigits (n : Nat) : List Char :=
  let digits := Nat.toDigits 16 n
  List.replicate (4 - digits.length) '0' ++ digits

/-- Only quotes, backslashes and controls are escaped. -/
def quoteChar (c : Char) : List Char :=
  match letter? c with
  | some l => ['\\', l]
  | none => if c.toNat < 0x20 then '\\' :: 'u' :: fourDigits c.toNat else [c]

def quote (text : String) : String :=
  String.ofList ('"' :: text.toList.flatMap quoteChar ++ ['"'])

/-- A new line at a level. -/
def newline (level : Nat) : String :=
  "\n" ++ String.ofList (List.replicate (2 * level) ' ')

/-- Items between brackets, each on a line one level below. Without items the brackets touch. -/
def block (first last : String) (level : Nat) (items : List String) : String :=
  if items.isEmpty then first ++ last
  else
    first ++ newline (level + 1) ++ ("," ++ newline (level + 1)).intercalate items ++
      newline level ++ last

mutual

def render (level : Nat) : JsonValue → String
  | null => "null"
  | number n => toString n
  | string text => quote text
  | array items => block "[" "]" level (renderItems (level + 1) items)
  | object fields => block "\x7b" "\x7d" level (renderFields (level + 1) fields)

def renderItems (level : Nat) : List JsonValue → List String
  | [] => []
  | v :: rest => render level v :: renderItems level rest

def renderFields (level : Nat) : List (String × JsonValue) → List String
  | [] => []
  | (key, v) :: rest => (quote key ++ ": " ++ render level v) :: renderFields level rest

end

def text (v : JsonValue) : String :=
  v.render 0

end JsonValue

end DeclLang
