/-!
# Punctuation: the delimiters and separators of the declaration syntax

Operator spellings may name methods and are therefore not punctuation.
-/

namespace DeclLang

inductive Punctuation where
  | comma
  | colon
  | leftParen
  | rightParen
  | leftBracket
  | rightBracket
deriving DecidableEq, Repr

namespace Punctuation

inductive Category where
  | delimiter
  | separator
deriving DecidableEq, Repr

/-- The identifier of a category in the reference tables. -/
def Category.id : Category → String
  | .delimiter => "Delimiter"
  | .separator => "Separator"

/-- Every punctuation mark, in the order of the reference table. -/
def all : List Punctuation :=
  [.comma, .colon, .leftParen, .rightParen, .leftBracket, .rightBracket]

theorem mem_all (p : Punctuation) : p ∈ all := by cases p <;> decide

/-- Every mark is one character. -/
def char : Punctuation → Char
  | .comma => ','
  | .colon => ':'
  | .leftParen => '('
  | .rightParen => ')'
  | .leftBracket => '['
  | .rightBracket => ']'

def spelling (p : Punctuation) : String :=
  String.singleton p.char

/-- The identifier of a mark in the reference tables. -/
def id : Punctuation → String
  | .comma => "Comma"
  | .colon => "Colon"
  | .leftParen => "LParen"
  | .rightParen => "RParen"
  | .leftBracket => "LBracket"
  | .rightBracket => "RBracket"

def category : Punctuation → Category
  | .comma | .colon => .separator
  | .leftParen | .rightParen | .leftBracket | .rightBracket => .delimiter

def ofChar? (c : Char) : Option Punctuation :=
  all.find? (·.char == c)

theorem char_of_ofChar? {c : Char} {p : Punctuation} (h : ofChar? c = some p) : p.char = c := by
  simpa using List.find?_some h

def ofSpelling? (text : String) : Option Punctuation :=
  all.find? (·.spelling == text)

end Punctuation

end DeclLang
