import DeclLang.Source.Span

/-!
# Syntax: what a declaration file says

A program is a list of declarations. Every part that a later stage may complain about knows where it
stands in the source.
-/

namespace DeclLang

/-- A name as written. -/
abbrev Ident := Located String

/-- A reference to a type: a name, or a generic type applied to an argument. -/
inductive TypeExpr where
  | named (name : Ident)
  /-- The span covers the argument and its brackets. -/
  | generic (base : String) (arg : TypeExpr) (span : Span)
deriving DecidableEq, Repr

namespace TypeExpr

def span : TypeExpr → Span
  | .named name => name.span
  | .generic _ _ span => span

/-- The outermost name. -/
def base : TypeExpr → String
  | .named name => name.value
  | .generic base _ _ => base

/-- The type as it is written, without blanks. -/
def text : TypeExpr → String
  | .named name => name.value
  | .generic base arg _ => s!"{base}[{arg.text}]"

end TypeExpr

structure Parameter where
  name : String
  type : TypeExpr
  /-- From the name to the end of the type. -/
  span : Span
deriving DecidableEq, Repr

/-- A method or foreign function as declared. -/
structure MethodDecl where
  name : Ident
  parameters : List Parameter
  /-- A method without a return type returns nothing. -/
  returns : Option TypeExpr
deriving DecidableEq, Repr

/-- An item in the body of a class or module. -/
inductive Member where
  | method (decl : MethodDecl)
  | inclusion (module : Ident)
deriving DecidableEq, Repr

inductive Declaration where
  | classBlock (name : Ident) (superclass : Option Ident) (members : List (Located Member))
  | moduleBlock (name : Ident) (members : List (Located Member))
  /-- The library name says what to link against. -/
  | libBlock (name : Ident) (libname : Option (Located String))
      (functions : List (Located MethodDecl))
  | primitive (name superclass repr : Ident) (size : Located Nat)
  /-- A method outside of any block belongs to the main module. -/
  | method (decl : MethodDecl)
  /-- An include outside of any block applies to the main module. -/
  | inclusion (module : Ident)
deriving DecidableEq, Repr

abbrev Program := List (Located Declaration)

end DeclLang
