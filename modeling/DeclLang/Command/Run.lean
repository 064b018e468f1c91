import DeclLang.Command.Arguments
import DeclLang.Registry.Description
import DeclLang.Registry.Resolution
import DeclLang.Text.Json

/-!
# Commands: what the program prints

Every command first builds a registry and then prints something about it.
-/

namespace DeclLang

/-! ## The registry as JSON -/

namespace Registry

def nameJson (r : Registry) (id : TypeId) : JsonValue :=
  .string (r.nameOf id)

def parameterJson (r : Registry) (p : SignatureParameter) : JsonValue :=
  .sorted [("name", .string p.name), ("type", r.nameJson p.type)]

def signatureJson (r : Registry) (s : Signature) : JsonValue :=
  .sorted
    [("name", .string s.name), ("params", .array (s.parameters.map r.parameterJson)),
      ("returns", .ofOption r.nameJson s.returns)]

/-- The fields that only an entry of this kind has. -/
def payloadFields (r : Registry) : TypeKind → List (String × JsonValue)
  | .primitive _ repr byteSize =>
    [("repr", .string repr.spelling), ("byte_size", .number byteSize)]
  | .array _ element template =>
    [("element", r.nameJson element), ("template", .ofOption r.nameJson template)]
  | .lib libname => [("libname", .ofOption .string libname)]
  | .object _ | .module => []

def entryJson (r : Registry) (id : TypeId) (e : Entry) : JsonValue :=
  .sorted <|
    [("id", .number id.index), ("name", .string e.name), ("kind", .string e.kind.label),
      ("superclass", .ofOption r.nameJson e.kind.superclass?),
      ("includes", .array (e.includes.map r.nameJson)),
      ("methods", .array (e.methods.map r.signatureJson))] ++ r.payloadFields e.kind

/-- Every entry, in order of registration. -/
def toJson (r : Registry) : JsonValue :=
  .array (r.ids.filterMap fun id => (r.get? id).map (r.entryJson id))

end Registry

/-! ## Commands -/

namespace Command

/-- Why a command has nothing to print. -/
inductive Failure where
  | unknownType (name : String)
  | noMethod (receiver name : String)
deriving DecidableEq, Repr

def Failure.message : Failure → String
  | .unknownType name => s!"Error: unknown type `{name}`"
  | .noMethod receiver name => s!"Error: `{receiver}` has no method `{name}`"

/-- The type or module that a receiver names. -/
def receiver? (r : Registry) (name : String) : Option Owner :=
  if name = StandardLibrary.mainModule then some .main else (r.lookup? name).map .type

def lookup? (r : Registry) (name : String) : Owner → Option Registry.MethodMatch
  | .main => r.lookupGlobal? name
  | .type id => r.lookupMethod? id name

/-- The signature of a method, and where it comes from unless that is the receiver itself. -/
def methodLines (r : Registry) (receiver : Owner) (m : Registry.MethodMatch) : List String :=
  match r.owner? m.owner with
  | none => []
  | some owner =>
    let source := if m.owner = receiver then [] else [s!"  (from {owner.name})"]
    r.describeMethod owner.memberKeyword m.signature :: source

/-- The lines that a command prints about a registry. -/
def lines (r : Registry) : Command → Except Failure (List String)
  | .types false => .ok r.describe
  | .types true => .ok [r.toJson.text]
  | .libs => .ok r.libraryNames
  | .check =>
    let types := r.size
    let symbols := r.symbols.length
    let libraries := r.libraryNames.length
    .ok [s!"ok: {types} types, {symbols} symbols, {libraries} libraries"]
  | .method type name =>
    match receiver? r type with
    | none => .error (.unknownType type)
    | some receiver =>
      match lookup? r name receiver with
      | none => .error (.noMethod type name)
      | some m => .ok (methodLines r receiver m)

end Command

/-- How a run of the program ends. -/
inductive RunResult where
  | printed (text : String)
  | failed (failure : Command.Failure)
  /-- There is no registry to print anything about. -/
  | notLoaded (error : BootstrapError)

/-- Builds the registry and runs the command on it. -/
def Invocation.run (fs : FileSystem) (places : List String) (i : Invocation) : RunResult :=
  match bootstrap fs places i.options with
  | .error e => .notLoaded e
  | .ok r =>
    match i.command.lines r with
    | .ok lines => .printed (Text.unlines lines)
    | .error f => .failed f

end DeclLang
