import DeclLang.Collection.Basic

/-!
# Types of a program: its classes, modules, libraries and primitives

All types are declared before any member, so a member may name a type that comes later. A class or
module that exists is re-opened by another declaration of it; a library or primitive is not. A class
may come before its superclass: it waits until that is declared.
-/

namespace DeclLang

/-- A class without its members. -/
structure ClassHeader where
  name : Ident
  superclass : Option Ident
deriving DecidableEq, Repr

namespace ClassHeader

/-- The part of a class to blame when it cannot be declared. -/
def blamed (c : ClassHeader) : Ident :=
  c.superclass.getD c.name

/-- Whether the superclass, if one is stated, is declared. -/
def isReady (c : ClassHeader) (r : Registry) : Bool :=
  match c.superclass with
  | some superclass => (r.lookup? superclass.value).isSome
  | none => true

end ClassHeader

namespace Collect

/-- The entry that a name stands for already, if any. -/
def existing? (name : String) : Collect (Option Entry) := do
  let r ← registry
  return (r.lookup? name).bind r.get?

def refuseExisting {α : Type} (name : Ident) (e : Entry) : Collect α :=
  refuse (.alreadyDefined name.value e.kind.label) name.span

/-- Re-opens a class, whose superclass must be the one stated. -/
def reopenClass (c : ClassHeader) (stated : Option TypeId) (e : Entry) : Collect Unit := do
  if !e.kind.isClassLike then refuseExisting c.name e
  else if stated.isNone || e.kind.superclass? = stated then return ()
  else
    let r ← registry
    let actual := e.kind.superclass?.elim "(none)" r.nameOf
    refuse (.superclassMismatch c.name.value actual c.blamed.value) c.blamed.span

/-- Declares or re-opens a class. A new class without a stated superclass inherits from the root. -/
def declareClass (c : ClassHeader) : Collect Unit := do
  let stated ← c.superclass.mapM resolve
  match ← existing? c.name.value with
  | some e => reopenClass c stated e
  | none =>
    let superclass := stated.getD Builtin.object.typeId
    declare (fun _ => c.blamed.span) (·.declareObject c.name.value superclass)

def declareModule (name : Ident) : Collect Unit := do
  match ← existing? name.value with
  | some e => if e.kind.isModule then return () else refuseExisting name e
  | none => declare (fun _ => name.span) (·.declareModule name.value)

def declareLib (name : Ident) (libname : Option (Located String)) : Collect Unit :=
  declare (fun _ => name.span) (·.declareLib name.value (libname.map (·.value)))

def declarePrimitive (name superclass repr : Ident) (size : Located Nat) : Collect Unit := do
  match ← existing? name.value with
  | some e => refuseExisting name e
  | none =>
    -- An unknown superclass is reported before an unknown representation.
    let super ← resolve superclass
    let blame : DeclarationError → Span
      | .layout _ => size.span
      | .notAClass _ => superclass.span
      | _ => name.span
    match Representation.ofSpelling? repr.value with
    | some tag => declare blame (·.declarePrimitive name.value super tag size.value)
    | none => refuse (.unknownRepresentation repr.value) repr.span

/-- Declares a type. A class whose superclass is not declared yet is handed back. -/
def declareType : Declaration → Collect (List ClassHeader)
  | .classBlock name superclass _ => do
    let c : ClassHeader := ⟨name, superclass⟩
    if c.isReady (← registry) then
      declareClass c
      return []
    else return [c]
  | .moduleBlock name _ => do
    declareModule name
    return []
  | .libBlock name libname _ => do
    declareLib name libname
    return []
  | .primitive name superclass repr size => do
    declarePrimitive name superclass repr size
    return []
  | .method _ | .inclusion _ => return []

/-- Declares the types of a program in order; the classes that have to wait are handed back. -/
def declareInOrder : Program → Collect (List ClassHeader)
  | [] => return []
  | d :: ds => do
    let waiting ← declareType d.value
    return waiting ++ (← declareInOrder ds)

/-- Declares each class that waits no longer; the others are handed back. -/
def declareReady : List ClassHeader → Collect (List ClassHeader)
  | [] => return []
  | c :: cs => do
    if c.isReady (← registry) then
      declareClass c
      declareReady cs
    else return c :: (← declareReady cs)

/-- Declares classes that wait for each other. When no class can be declared any more, the first of
    them has a superclass that is never declared. -/
def declareWaiting : List ClassHeader → Collect Unit
  | [] => return ()
  | c :: cs => do
    let waiting ← declareReady (c :: cs)
    if _h : waiting.length < (c :: cs).length then declareWaiting waiting
    else refuse (.unknownType c.blamed.value) c.blamed.span
termination_by cs => cs.length
decreasing_by exact _h

def declareTypes (p : Program) : Collect Unit := do
  declareWaiting (← declareInOrder p)

end Collect

end DeclLang
