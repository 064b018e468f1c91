import DeclLang.Registry.Basic

/-!
# Resolution: which method a name means

A name is looked for on the receiver and then on its superclasses. Each of them is asked for its own
methods, then for those of its template if it is a specialization, and then for those of the modules
mixed in, depth first. A module is entered once, however often it is mixed in, so modules that
include each other do no harm.
-/

namespace DeclLang.Registry

/-! ## Modules -/

/-- The outcome of a search through modules. -/
inductive Search (α : Type) where
  | found (a : α)
  /-- Nothing was found; these modules were not entered. -/
  | exhausted (unvisited : List TypeId)

/-- The modules mixed directly into an entry. -/
def includesOf (r : Registry) (id : TypeId) : List TypeId :=
  (r.get? id).elim [] (·.includes)

-- What makes searches end: a module that is entered is one fewer that is not.
theorem length_erase_lt {unvisited : List TypeId} {m : TypeId} (h : m ∈ unvisited) :
    (unvisited.erase m).length < unvisited.length := by
  have hpos := List.length_pos_of_mem h
  rw [List.length_erase_of_mem h]
  omega

/-- Searches the modules on a stack, and those mixed into them before what lies below. -/
def searchModules {α : Type} (r : Registry) (test : TypeId → Option α) (unvisited : List TypeId) :
    (stack : List TypeId) → Search α
  | [] => .exhausted unvisited
  | m :: below =>
    if _h : m ∈ unvisited then
      match test m with
      | some a => .found a
      | none => r.searchModules test (unvisited.erase m) (r.includesOf m ++ below)
    else r.searchModules test unvisited below
termination_by stack => (unvisited.length, stack.length)
decreasing_by
  · exact Prod.Lex.left _ _ (length_erase_lt _h)
  · exact Prod.Lex.right _ (by simp)

/-- The template that a specialization sees the members of. -/
def template? (r : Registry) (id : TypeId) : Option TypeId :=
  (r.get? id).bind (·.kind.template?)

/-- The modules mixed into a type, and then into its template. -/
def mixins (r : Registry) (id : TypeId) : List TypeId :=
  r.includesOf id ++ (r.template? id).elim [] r.includesOf

/-! ## Methods -/

/-- A method, and where it is declared. -/
structure MethodMatch where
  owner : Owner
  signature : Signature
deriving DecidableEq, Repr

/-- The method that an entry itself declares. -/
def declared? (r : Registry) (name : String) (id : TypeId) : Option MethodMatch :=
  ((r.get? id).bind (·.method? name)).map fun s => ⟨.type id, s⟩

/-- The method that an entry declares, or else the one that its template does. -/
def ownMethod? (r : Registry) (name : String) (id : TypeId) : Option MethodMatch :=
  (r.declared? name id).or ((r.template? id).bind (r.declared? name))

/-- Asks a class, and after it the modules that it mixes in and that were not entered before. -/
def lookupOn (r : Registry) (name : String) (unvisited : List TypeId) (id : TypeId) :
    Search MethodMatch :=
  match r.ownMethod? name id with
  | some m => .found m
  | none => r.searchModules (r.declared? name) unvisited (r.mixins id)

/-- Asks a class and then the superclasses of it, of which at most so many. -/
def lookupFrom (r : Registry) (name : String) (unvisited : List TypeId) (id : TypeId)
    (steps : Nat) : Option MethodMatch :=
  match r.lookupOn name unvisited id with
  | .found m => some m
  | .exhausted unvisited =>
    match steps, r.superclass? id with
    | steps + 1, some next => r.lookupFrom name unvisited next steps
    | _, _ => none

/-- The method that a name means on a type. Going up more often than there are entries is only
    possible on a cycle. -/
def lookupMethod? (r : Registry) (id : TypeId) (name : String) : Option MethodMatch :=
  r.lookupFrom name r.ids id r.size

/-- The method that a name means at top level. -/
def lookupGlobal? (r : Registry) (name : String) : Option MethodMatch :=
  match r.main.method? name with
  | some s => some ⟨.main, s⟩
  | none =>
    match r.searchModules (r.declared? name) r.ids r.main.includes with
    | .found m => some m
    | .exhausted _ => none

/-! ## Inclusion -/

/-- Looks for one module among those on a stack and those mixed into them. A module that was entered
    before is not entered again, but it may still be the one. -/
def reachModule (r : Registry) (target : TypeId) (unvisited : List TypeId) :
    (stack : List TypeId) → Search Unit
  | [] => .exhausted unvisited
  | m :: below =>
    if m = target then .found ()
    else if _h : m ∈ unvisited then
      r.reachModule target (unvisited.erase m) (r.includesOf m ++ below)
    else r.reachModule target unvisited below
termination_by stack => (unvisited.length, stack.length)
decreasing_by
  · exact Prod.Lex.left _ _ (length_erase_lt _h)
  · exact Prod.Lex.right _ (by simp)

/-- Looks for a module among those that some classes mix in, one class after the other. -/
def reachFromAny (r : Registry) (target : TypeId) (unvisited : List TypeId) :
    (classes : List TypeId) → Bool
  | [] => false
  | c :: classes =>
    match r.reachModule target unvisited (r.mixins c) with
    | .found () => true
    | .exhausted unvisited => r.reachFromAny target unvisited classes

/-- Whether a type or an ancestor mixes in a module, directly or through another one. -/
def includesModule (r : Registry) (id module : TypeId) : Bool :=
  r.reachFromAny module r.ids (id :: r.ancestors id)

end DeclLang.Registry
