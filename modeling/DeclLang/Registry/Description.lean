import DeclLang.Registry.Basic
import DeclLang.Text.Lines
import DeclLang.Text.Quoted

/-!
# Descriptions: entries and methods as they would be declared

A type is described by one line, such as `primitive Int < Numeric : i32 4`, and below it each of its
methods by one.
-/

namespace DeclLang.Registry

/-- What is particular to the kind of an entry. -/
def describePayload (r : Registry) : TypeKind → String
  | .primitive _ repr byteSize => s!" : {repr.spelling} {byteSize}"
  | .array _ element _ => s!" of {r.nameOf element}"
  | .lib (some libname) => s!"({Text.Quoted.encode libname})"
  | .object _ | .module | .lib none => ""

def describeType (r : Registry) (e : Entry) : String :=
  let superclass := e.kind.superclass?.elim "" fun id => s!" < {r.nameOf id}"
  let includes :=
    if e.includes.isEmpty then "" else " include " ++ ", ".intercalate (e.includes.map r.nameOf)
  s!"{e.kind.label} {e.name}{superclass}{r.describePayload e.kind}{includes}"

def describeParameter (r : Registry) (p : SignatureParameter) : String :=
  s!"{p.name} : {r.nameOf p.type}"

/-- A signature after the keyword that declares it, such as `def [](index : Int) : Object`. -/
def describeMethod (r : Registry) (keyword : String) (s : Signature) : String :=
  let list := ", ".intercalate (s.parameters.map r.describeParameter)
  let parameters := if s.parameters.isEmpty then "" else s!"({list})"
  let returns := s.returns.elim "" fun id => s!" : {r.nameOf id}"
  s!"{keyword} {s.name}{parameters}{returns}"

/-- The methods of an entry, each with its keyword. -/
def describeMembers (r : Registry) (e : Entry) : List String :=
  e.methods.map (r.describeMethod e.memberKeyword)

/-- An entry and, indented, its methods. -/
def describeEntry (r : Registry) (e : Entry) : List String :=
  r.describeType e :: (r.describeMembers e).map ("  " ++ ·)

/-- Every entry, and the main module if it has members. -/
def describe (r : Registry) : List String :=
  let main := if r.main.methods.isEmpty && r.main.includes.isEmpty then [] else [r.main]
  (r.entries.toList ++ main).flatMap r.describeEntry

def dump (r : Registry) : String :=
  Text.unlines r.describe

end DeclLang.Registry
