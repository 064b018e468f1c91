import DeclLang.Registry.Specialization
import DeclLang.Syntax.Basic

/-!
# Collection: what a program adds to a registry

Collecting goes from one declaration to the next and stops at the first that is refused. What was
collected before that stays.
-/

namespace DeclLang

/-- A registry, and how many types were declared while collecting into it. -/
structure Collection where
  registry : Registry
  declared : Nat
deriving DecidableEq, Repr

/-- Why a declaration was refused, and the part of it that is to blame. -/
abbrev CollectError := Located DeclarationError

/-- A step of collecting. A step that fails keeps what was collected before. -/
abbrev Collect := ExceptT CollectError (StateM Collection)

namespace Collect

def refuse {α : Type} (error : DeclarationError) (span : Span) : Collect α :=
  throw ⟨error, span⟩

def registry : Collect Registry :=
  return (← get).registry

/-- Applies an operation of the registry; a refusal is blamed on the given part of the source. -/
def apply {α : Type} (blame : DeclarationError → Span)
    (operation : Registry → Except DeclarationError (α × Registry)) : Collect α := do
  match operation (← registry) with
  | .ok (a, r) =>
    modify ({ · with registry := r })
    return a
  | .error e => refuse e (blame e)

/-- Applies an operation that declares a type. -/
def declare (blame : DeclarationError → Span)
    (operation : Registry → Except DeclarationError (TypeId × Registry)) : Collect Unit := do
  let _ ← apply blame operation
  modify fun c => { c with declared := c.declared + 1 }

/-- Applies an operation that only changes the registry. -/
def update (span : Span) (operation : Registry → Except DeclarationError Registry) :
    Collect Unit :=
  apply (fun _ => span) fun r => (operation r).map fun r => ((), r)

/-! ## Names and types -/

def resolve (name : Ident) : Collect TypeId := do
  match (← registry).lookup? name.value with
  | some id => return id
  | none => refuse (.unknownType name.value) name.span

/-- The type that an expression stands for. Applying a generic type makes an instance of it, unless
    there is one. -/
def resolveType : TypeExpr → Collect TypeId
  | .named name => resolve name
  | .generic base arg span => do
    let template ← resolve ⟨base, span⟩
    let element ← resolveType arg
    apply (fun _ => span) (·.instantiate template element)

end Collect

end DeclLang
