import DeclLang.Source.Position
import DeclLang.Source.Span

/-!
# Diagnostics: problems found in a source text, and how they are reported

A `Diagnostic` knows where its problem is; `render` is its text for a reader. A `Report` places it
in a named file, and a `FileReport` gathers all reports on one file under the first of them.
-/

namespace DeclLang

/-- The stage that found a problem. -/
inductive Diagnostic.Stage where
  | lexical
  | syntactic
deriving DecidableEq, Repr

def Diagnostic.Stage.label : Diagnostic.Stage → String
  | .lexical => "lexical error"
  | .syntactic => "syntax error"

structure Diagnostic where
  stage : Diagnostic.Stage
  message : String
  span : Span
  hints : List String
deriving DecidableEq, Repr

namespace Diagnostic

/-- The message after the stage that it comes from. -/
def headline (d : Diagnostic) : String :=
  s!"{d.stage.label}: {d.message}"

/-- File, line and column, then the headline, then one line per hint. -/
def render (file source : String) (d : Diagnostic) : String :=
  let p := Position.ofOffset source d.span.start
  s!"{file}:{p.line}:{p.column}: {d.headline}" ++
    String.join (d.hints.map ("\n  = hint: " ++ ·))

def shift (offset : Nat) (d : Diagnostic) : Diagnostic :=
  { d with span := d.span.shift offset }

end Diagnostic

/-- A problem placed in a named file. -/
structure Report where
  file : String
  position : Position
  /-- The headline. -/
  text : String
  /-- The hints, one a line, if there are any. -/
  help : Option String
  span : Span
deriving DecidableEq, Repr

namespace Report

def ofDiagnostic (file source : String) (d : Diagnostic) : Report where
  file := file
  position := Position.ofOffset source d.span.start
  text := d.headline
  help := if d.hints.isEmpty then none else some ("\n".intercalate d.hints)
  span := d.span

def message (r : Report) : String :=
  s!"{r.file}:{r.position.line}:{r.position.column}: {r.text}"

end Report

/-- Everything found in one file: the first report, and the others in the order they were found. -/
structure FileReport where
  primary : Report
  related : List Report
deriving DecidableEq, Repr

namespace FileReport

/-- What is reported of a file that failed without a diagnostic. -/
def unspecified : Diagnostic :=
  ⟨.syntactic, "invalid declaration file", .point 0, []⟩

def ofDiagnostics (file source : String) : List Diagnostic → FileReport
  | [] => ⟨.ofDiagnostic file source unspecified, []⟩
  | d :: ds => ⟨.ofDiagnostic file source d, ds.map (.ofDiagnostic file source)⟩

end FileReport

end DeclLang
