import DeclLang.Registry.Declaration

/-!
# Verification: is a registry sound as a whole?

Every primitive has the size of its representation, every type that an entry is built from is
registered, and every chain of superclasses ends at the root.
-/

namespace DeclLang.Registry

/-- The superclass above `current`, or nothing at the root. The chain was entered at `start`, which
    has the given name. -/
def verifyStep (r : Registry) (name : String) (start current : TypeId) :
    Except InvariantError (Option TypeId) :=
  match r.superclass? current with
  | none =>
    if current = Builtin.object.typeId then .ok none
    else if current = start then .error (.multipleRoots name)
    else .error (.orphan name)
  | some next =>
    match r.get? next with
    | none => .error (.missingDependency (r.nameOf current) next)
    | some e => if e.kind.isClassLike then .ok (some next) else .error (.orphan name)

/-- Follows the superclasses from `current` up to the root in at most so many steps. More steps than
    there are entries can only be taken on a cycle. -/
def verifyChain (r : Registry) (name : String) (start current : TypeId) :
    (steps : Nat) → Except InvariantError Unit
  | 0 =>
    match r.verifyStep name start current with
    | .error e => .error e
    | .ok none => .ok ()
    | .ok (some _) => .error (.cycle name)
  | steps + 1 =>
    match r.verifyStep name start current with
    | .error e => .error e
    | .ok none => .ok ()
    | .ok (some next) => r.verifyChain name start next steps

/-- The types that an entry is built from are registered. -/
def verifyPayload (r : Registry) (e : Entry) : Except InvariantError Unit :=
  match e.kind with
  | .primitive _ repr byteSize => checkLayout r.target e.name repr byteSize
  | .array _ element _ =>
    if element.index < r.size then .ok () else .error (.missingDependency e.name element)
  | _ => .ok ()

def verifyEntry (r : Registry) (id : TypeId) (e : Entry) : Except InvariantError Unit := do
  r.verifyPayload e
  if e.kind.isClassLike then r.verifyChain e.name id id r.size

/-- Checks every entry in turn; the first that is unsound is reported. -/
def verify (r : Registry) : Except InvariantError Unit :=
  r.ids.forM fun id =>
    match r.get? id with
    | some e => r.verifyEntry id e
    | none => .ok ()

end DeclLang.Registry
