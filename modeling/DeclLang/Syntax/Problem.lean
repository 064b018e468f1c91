import DeclLang.Source.Diagnostic
import DeclLang.Token.Basic

/-!
# Syntax problems: why a line is no declaration
-/

namespace DeclLang

/-- What may stand at a place where something else was found. -/
inductive Expected where
  | declaration
  | member
  | lineEnd
  | typeName
  | methodName
  | functionName
  | parameterName
  | libraryName
  | representation
  | byteSize
  | keyword (k : Keyword)
  | punctuation (p : Punctuation)
  | operator (text : String)
deriving DecidableEq, Repr

def Expected.describe : Expected → String
  | .declaration => "a declaration"
  | .member => "`def`, `include` or `end`"
  | .lineEnd => "end of line"
  | .typeName => "a type name"
  | .methodName => "a method name"
  | .functionName => "a function name"
  | .parameterName => "a parameter name"
  | .libraryName => "a library name string"
  | .representation => "a representation tag (e.g. `i32`)"
  | .byteSize => "a byte size"
  | .keyword k => s!"`{k.spelling}`"
  | .punctuation p => s!"`{p.spelling}`"
  | .operator text => s!"`{text}`"

inductive SyntaxProblem where
  | unexpected (expected : Expected) (found : TokenKind)
  /-- A primitive without the mark that stands before its superclass. -/
  | missingSuperclass (found : TokenKind)
  /-- A parameter without the mark that stands before its type. -/
  | missingParameterType (parameter : String) (found : TokenKind)
  | lowercaseTypeName (name : String)
  | byteSizeOutOfRange (value : Nat)
  | unclosedBlock (opened : Keyword) (name : String)
  | unmatchedEnd
deriving DecidableEq, Repr

namespace SyntaxProblem

def unexpectedMessage (expected : Expected) (found : TokenKind) : String :=
  s!"expected {expected.describe}, found {found.describe}"

def message : SyntaxProblem → String
  | .unexpected expected found => unexpectedMessage expected found
  | .missingSuperclass found => unexpectedMessage (.operator "<") found
  | .missingParameterType _ found => unexpectedMessage (.punctuation .colon) found
  | .lowercaseTypeName name => s!"expected a type name, found `{name}`"
  | .byteSizeOutOfRange value => s!"byte size {value} is out of range"
  | .unclosedBlock opened name => s!"expected `end` to close `{opened.spelling} {name}`"
  | .unmatchedEnd => "`end` without a matching block"

def hints : SyntaxProblem → List String
  | .missingSuperclass _ => ["primitives must name their superclass"]
  | .missingParameterType name _ => [s!"give `{name}` a type, e.g. `{name} : Int`"]
  | .lowercaseTypeName _ => ["type names start with an uppercase letter"]
  | .unmatchedEnd => ["remove it, or check the block it was meant to close"]
  | _ => []

end SyntaxProblem

abbrev SyntaxError := Located SyntaxProblem

def Diagnostic.ofSyntax (e : SyntaxError) : Diagnostic :=
  ⟨.syntactic, e.value.message, e.span, e.value.hints⟩

end DeclLang
