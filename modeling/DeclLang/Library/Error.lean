import DeclLang.Collection.Basic
import DeclLang.Files.Tree
import DeclLang.Source.Diagnostic

/-!
# Bootstrap errors: why the standard library is not loaded
-/

namespace DeclLang

inductive BootstrapError where
  | io (path : String) (error : ReadError)
  | libraryNotFound
  | rootMissing (path : String)
  | malformed (report : FileReport)
  | refused (file : String) (error : CollectError)
  | invariant (error : InvariantError)
  /-- An earlier load has failed and left the registry half filled. -/
  | poisoned
deriving DecidableEq, Repr

namespace BootstrapError

def message : BootstrapError → String
  | .io path _ => s!"cannot load standard library: {path}"
  | .libraryNotFound => "cannot locate the standard library"
  | .rootMissing path => s!"standard library root `{path}` is not a directory"
  | .malformed report => report.primary.message
  | .refused file error => s!"{file}: {error.value.message}"
  | .invariant error => error.message
  | .poisoned => "type registry is unusable after a failed standard-library bootstrap"

/-- The code under which an error is documented. -/
def code : BootstrapError → String
  | .io .. => "quartz::bootstrap::io"
  | .libraryNotFound | .rootMissing _ => "quartz::bootstrap::stdlib_not_found"
  | .malformed _ => "quartz::syntax"
  | .refused .. => "quartz::bootstrap::declaration"
  | .invariant error => error.code
  | .poisoned => "quartz::bootstrap::poisoned"

def help : BootstrapError → Option String
  | .libraryNotFound => some "set QUARTZ_STDLIB or pass --stdlib-root"
  | .malformed report => report.primary.help
  | _ => none

/-- The part of a source that an error is about, and what is said there. -/
def label? : BootstrapError → Option (String × Span)
  | .malformed report => some ("here", report.primary.span)
  | .refused _ error => some ("declared here", error.span)
  | _ => none

end BootstrapError

end DeclLang
