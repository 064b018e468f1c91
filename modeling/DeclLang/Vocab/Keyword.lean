/-!
# Keywords: the reserved words of the declaration syntax

A keyword is known by what it introduces; `spelling` is the word itself and `ofSpelling?` reads it
back. Spellings are case-sensitive.
-/

namespace DeclLang

inductive Keyword where
  | classBlock
  | moduleBlock
  | libBlock
  | primitive
  | method
  | function
  | inclusion
  | blockEnd
deriving DecidableEq, Repr

namespace Keyword

/-- What a keyword is for. -/
inductive Category where
  | typeDeclaration
  | member
  | structural
deriving DecidableEq, Repr

/-- The identifier of a category in the reference tables. -/
def Category.id : Category → String
  | .typeDeclaration => "TypeDeclaration"
  | .member => "Member"
  | .structural => "Structure"

/-- Every keyword, in the order of the reference table. -/
def all : List Keyword :=
  [.classBlock, .moduleBlock, .libBlock, .primitive, .method, .function, .inclusion, .blockEnd]

theorem mem_all (k : Keyword) : k ∈ all := by cases k <;> decide

def spelling : Keyword → String
  | .classBlock => "class"
  | .moduleBlock => "module"
  | .libBlock => "lib"
  | .primitive => "primitive"
  | .method => "def"
  | .function => "fun"
  | .inclusion => "include"
  | .blockEnd => "end"

/-- The identifier of a keyword in the reference tables. -/
def id : Keyword → String
  | .classBlock => "Class"
  | .moduleBlock => "Module"
  | .libBlock => "Lib"
  | .primitive => "Primitive"
  | .method => "Def"
  | .function => "Fun"
  | .inclusion => "Include"
  | .blockEnd => "End"

def category : Keyword → Category
  | .classBlock | .moduleBlock | .libBlock | .primitive => .typeDeclaration
  | .method | .function | .inclusion => .member
  | .blockEnd => .structural

def description : Keyword → String
  | .classBlock => "Declare or re-open a class (object, primitive, or array type)."
  | .moduleBlock => "Declare or re-open a capability module."
  | .libBlock => "Declare a foreign-library binding, optionally naming the native library."
  | .primitive => "Declare a primitive machine type with its representation and byte size."
  | .method => "Declare a method signature."
  | .function => "Declare a foreign function inside a `lib` block."
  | .inclusion => "Mix a capability module into the enclosing type."
  | .blockEnd => "Close a declaration block."

def ofSpelling? (text : String) : Option Keyword :=
  all.find? (·.spelling == text)

theorem ofSpelling?_spelling (k : Keyword) : ofSpelling? k.spelling = some k := by
  cases k <;> decide

theorem spelling_of_ofSpelling? {text : String} {k : Keyword} (h : ofSpelling? text = some k) :
    k.spelling = text := by
  simpa using List.find?_some h

theorem ofSpelling?_eq_some_iff {text : String} {k : Keyword} :
    ofSpelling? text = some k ↔ k.spelling = text :=
  ⟨spelling_of_ofSpelling?, fun h => h ▸ ofSpelling?_spelling k⟩

end Keyword

end DeclLang
