import DeclLang.Vocab.Builtin
import DeclLang.Vocab.Keyword
import DeclLang.Vocab.Punctuation
import DeclLang.Vocab.Representation

/-!
# Reference: the vocabulary as Markdown tables

Each section is a heading and a table with one row per word. A section is appended to the text
written so far, from which `startSection` keeps it apart by one blank line.
-/

namespace DeclLang.Reference

/-- Cells between bars. -/
def row (cells : List String) : String :=
  "| " ++ " | ".intercalate cells ++ " |\n"

def code (text : String) : String :=
  "`" ++ text ++ "`"

/-- The title row, the rule below it, and the rows. -/
def table (titles : List String) (rows : List (List String)) : String :=
  row titles ++ "|----" ++ String.join (titles.tail.map fun _ => "|---") ++ "|\n" ++
    String.join (rows.map row)

/-- Appends a heading, after a blank line unless the text is empty or ends in one. -/
def startSection (out heading : String) : String :=
  let gap := if out.isEmpty || out.endsWith "\n\n" then "" else "\n"
  out ++ gap ++ heading ++ "\n\n"

def keywordRow (k : Keyword) : List String :=
  [k.id, code k.spelling, k.category.id, k.description]

def keywords (out : String) : String :=
  startSection out "## Keywords" ++
    table ["Id", "Canonical", "Category", "Description"] (Keyword.all.map keywordRow)

def punctuationRow (p : Punctuation) : List String :=
  [p.id, code p.spelling, p.category.id]

def punctuation (out : String) : String :=
  startSection out "## Punctuation" ++
    table ["Id", "Canonical", "Category"] (Punctuation.all.map punctuationRow)

def representationRow (target : Target) (r : Representation) : List String :=
  [r.id, code r.spelling, toString (r.storageSize target), r.description]

def representations (out : String) : String :=
  let target := Target.standard
  startSection out "## Representation tags" ++
    s!"Sizes are for the default target ({target.pointerSize}-byte pointers).\n\n" ++
    table ["Id", "Spelling", "Bytes", "Description"]
      (Representation.all.map (representationRow target))

def builtinRow (b : Builtin) : List String :=
  [b.id, code b.name, b.kind.id, b.description]

def builtins (out : String) : String :=
  startSection out "## Builtin types" ++
    table ["Id", "Name", "Kind", "Description"] (Builtin.all.map builtinRow)

def preamble : String :=
  "# Quartz declaration reference\n\n" ++ "Generated file. Regenerate with: " ++
    code "cargo run -p quartz_core --bin generate_lang_reference" ++ "\n\n"

/-- The whole reference: every table, after the preamble. -/
def document : String :=
  builtins (representations (punctuation (keywords preamble)))

end DeclLang.Reference
