import DeclLang.Collection.Program
import DeclLang.Proofs.Registry.Initial

/-!
# Runs: a registry under any sequence of operations

A run starts from the builtin types and goes from one operation, or one program, to the next. A
refused operation leaves the registry as it was; a refused program leaves what was declared before
the refusal.
-/

namespace DeclLang

/-- One direct use of a registry. -/
inductive Operation where
  | declareObject (name : String) (superclass : TypeId)
  | declareModule (name : String)
  | declarePrimitive (name : String) (superclass : TypeId) (repr : Representation)
      (byteSize : Nat)
  | declareLib (name : String) (libname : Option String)
  | mixIn (owner : Owner) (module : TypeId)
  | defineMethod (owner : Owner) (signature : Signature)
  | specialize (array element : TypeId) (name : Option String)
  | instantiate (array element : TypeId)
  | arrayOf (element : TypeId)
  | rebindElement (array element : TypeId)
deriving DecidableEq, Repr

namespace Operation

/-- The registry after an operation, unless it is refused. -/
def apply (r : Registry) : Operation → Except DeclarationError Registry
  | .declareObject name superclass => (r.declareObject name superclass).map Prod.snd
  | .declareModule name => (r.declareModule name).map Prod.snd
  | .declarePrimitive name superclass repr byteSize =>
    (r.declarePrimitive name superclass repr byteSize).map Prod.snd
  | .declareLib name libname => (r.declareLib name libname).map Prod.snd
  | .mixIn owner module => r.mixIn owner module
  | .defineMethod owner signature => r.defineMethod owner signature
  | .specialize array element name => (r.specialize array element name).map Prod.snd
  | .instantiate array element => (r.instantiate array element).map Prod.snd
  | .arrayOf element => (r.arrayOf element).map Prod.snd
  | .rebindElement array element => r.rebindElement array element

/-- Every type that an operation is given belongs to the registry. The element of a specialization
    that is given a name, and one that an array is rebound to, may be any. -/
def IdsRegistered (r : Registry) : Operation → Prop
  | .declareModule _ | .declareLib .. => True
  | .declareObject _ superclass | .declarePrimitive _ superclass _ _ => superclass.index < r.size
  | .mixIn owner module => (r.owner? owner).isSome ∧ module.index < r.size
  | .defineMethod owner signature =>
    (r.owner? owner).isSome ∧ (∀ p ∈ signature.parameters, p.type.index < r.size) ∧
      ∀ id ∈ signature.returns, id.index < r.size
  | .specialize array element none | .instantiate array element =>
    array.index < r.size ∧ element.index < r.size
  | .specialize array _ (some _) => array.index < r.size
  | .arrayOf element => element.index < r.size
  | .rebindElement array _ => array.index < r.size

end Operation

namespace Registry

/-- The registry after an operation, refused or not. -/
def perform (r : Registry) (op : Operation) : Registry :=
  match op.apply r with
  | .ok s => s
  | .error _ => r

/-- The registries that the builtin types of a target can become. -/
inductive Reachable : Registry → Prop where
  | initial {target : Target} {r : Registry} : ofTarget target = .ok r → Reachable r
  | operation {r : Registry} (op : Operation) :
      Reachable r → op.IdsRegistered r → Reachable (r.perform op)
  | program {r : Registry} (p : Program) : Reachable r → Reachable (r.collect p).2.registry

end Registry

end DeclLang
