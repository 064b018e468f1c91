import DeclLang.Registry.Basic

/-!
# Registry errors: what a registry refuses

A `DeclarationError` says why a declaration conflicts with what is registered already, an
`InvariantError` what is wrong with a registry as a whole.
-/

namespace DeclLang

/-- What a type is built from. -/
inductive Dependency where
  | type (id : TypeId)
  /-- A builtin that has no place yet. -/
  | builtin (b : Builtin)
deriving DecidableEq, Repr

instance : Coe TypeId Dependency := ⟨.type⟩

def Dependency.text : Dependency → String
  | .type id => id.text
  | .builtin b => b.name

inductive InvariantError where
  | layoutMismatch (name : String) (repr : Representation) (declared expected : Nat)
  | missingDependency (name : String) (dependency : Dependency)
  | cycle (name : String)
  | orphan (name : String)
  | multipleRoots (name : String)
  | unsupportedPointerSize (size : Nat)
deriving DecidableEq, Repr

namespace InvariantError

def message : InvariantError → String
  | .layoutMismatch name repr declared expected =>
    s!"primitive `{name}` declares {declared} bytes but `{repr.spelling}` occupies {expected}"
  | .missingDependency name dependency =>
    s!"`{name}` depends on `{dependency.text}`, which is not registered"
  | .cycle name => s!"inheritance cycle through `{name}`"
  | .orphan name => s!"`{name}` does not reach `Object`"
  | .multipleRoots name => s!"`{name}` has no superclass but only `Object` may be a root"
  | .unsupportedPointerSize size => s!"unsupported pointer size {size} (expected 4 or 8)"

/-- The code under which an error is documented. -/
def code : InvariantError → String
  | .layoutMismatch .. => "quartz::invariant::layout"
  | .missingDependency .. => "quartz::invariant::missing_dependency"
  | .cycle _ => "quartz::invariant::cycle"
  | .orphan _ => "quartz::invariant::orphan"
  | .multipleRoots _ => "quartz::invariant::multiple_roots"
  | .unsupportedPointerSize _ => "quartz::invariant::target"

end InvariantError

inductive DeclarationError where
  /-- The label says what the name stands for already. -/
  | alreadyDefined (name existing : String)
  | unknownType (name : String)
  | notAClass (name : String)
  | notAModule (name : String)
  | superclassMismatch (name existing stated : String)
  | duplicateMethod (owner method : String)
  | duplicateInclude (owner module : String)
  | selfInclude (name : String)
  | notGeneric (name : String)
  | unknownRepresentation (spelling : String)
  | layout (error : InvariantError)
  /-- An id that belongs to no entry. It is not for a caller to handle: looking up such an id is a
      mistake of the program, which stops there. -/
  | unregistered (id : TypeId)
deriving DecidableEq, Repr

namespace DeclarationError

def message : DeclarationError → String
  | .alreadyDefined name existing => s!"`{name}` is already defined ({existing})"
  | .unknownType name => s!"unknown type `{name}`"
  | .notAClass name => s!"`{name}` is not a class and cannot be inherited from"
  | .notAModule name => s!"`{name}` is not a module and cannot be included"
  | .superclassMismatch name existing stated =>
    s!"superclass mismatch for `{name}`: declared `{existing}`, now `{stated}`"
  | .duplicateMethod owner method => s!"method `{method}` is already defined on `{owner}`"
  | .duplicateInclude owner module => s!"`{module}` is already included in `{owner}`"
  | .selfInclude name => s!"module `{name}` cannot include itself"
  | .notGeneric name => s!"`{name}` is not a generic container"
  | .unknownRepresentation spelling => s!"unknown representation `{spelling}`"
  | .layout error => error.message
  | .unregistered id => s!"type `{id.text}` is not registered"

end DeclarationError

end DeclLang
