import DeclLang.Vocab.Builtin
import DeclLang.Vocab.Representation
import DeclLang.Vocab.StandardLibrary

/-!
# Registry: every type known to a compilation

Types are entries of an arena and refer to each other by their place in it, so the registry owns the
whole hierarchy. Beside the entries it holds the table of their names, the main module, to which
top-level declarations belong, the cache of array instances and the table of symbols.
-/

namespace DeclLang

/-- The place of an entry in its registry. -/
structure TypeId where
  index : Nat
deriving DecidableEq, Repr

def TypeId.text (id : TypeId) : String :=
  s!"#{id.index}"

def Builtin.typeId (b : Builtin) : TypeId :=
  ⟨b.index⟩

/-! ## Signatures -/

structure SignatureParameter where
  name : String
  type : TypeId
deriving DecidableEq, Repr

/-- A method or foreign function whose types are resolved. -/
structure Signature where
  name : String
  parameters : List SignatureParameter
  /-- Nothing for a method that returns no value. -/
  returns : Option TypeId
deriving DecidableEq, Repr

/-- Adds a signature to a table that is sorted by name. -/
def Signature.insertInto (s : Signature) : List Signature → List Signature
  | [] => [s]
  | t :: table => if s.name < t.name then s :: t :: table else t :: s.insertInto table

/-- Inserting adds one signature and loses none. -/
theorem Signature.perm_insertInto (s : Signature) (table : List Signature) :
    (s.insertInto table).Perm (s :: table) := by
  induction table with
  | nil => exact .refl _
  | cons t table ih =>
    unfold insertInto
    split
    · exact .refl _
    · exact (ih.cons t).trans (.swap s t table)

/-! ## Entries -/

/-- What an entry is, and what it has by being that. -/
inductive TypeKind where
  /-- Every class but the root has a superclass. -/
  | object (superclass : Option TypeId)
  | module
  | primitive (superclass : TypeId) (repr : Representation) (byteSize : Nat)
  /-- An array without a template is one itself; the others are specializations of theirs. -/
  | array (superclass : Option TypeId) (element : TypeId) (template : Option TypeId)
  /-- A foreign library, and what to link against for it. -/
  | lib (libname : Option String)
deriving DecidableEq, Repr

namespace TypeKind

/-- The word for a kind in messages and descriptions. -/
def label : TypeKind → String
  | .object _ => "class"
  | .module => "module"
  | .primitive .. => "primitive"
  | .array .. => "array"
  | .lib _ => "lib"

def superclass? : TypeKind → Option TypeId
  | .object superclass => superclass
  | .primitive superclass _ _ => some superclass
  | .array superclass _ _ => superclass
  | .module | .lib _ => none

/-- Classes, primitives and arrays take part in inheritance. -/
def isClassLike : TypeKind → Bool
  | .object _ | .primitive .. | .array .. => true
  | .module | .lib _ => false

def isModule : TypeKind → Bool
  | .module => true
  | _ => false

def isLib : TypeKind → Bool
  | .lib _ => true
  | _ => false

/-- The template of a specialization. -/
def template? : TypeKind → Option TypeId
  | .array _ _ template => template
  | _ => none

end TypeKind

/-- A type: its name, its kind, the modules mixed into it in order, and its methods by name. -/
structure Entry where
  name : String
  kind : TypeKind
  includes : List TypeId
  methods : List Signature
deriving DecidableEq, Repr

namespace Entry

/-- A type without members. -/
def bare (name : String) (kind : TypeKind) : Entry :=
  ⟨name, kind, [], []⟩

@[simp] theorem kind_bare (name : String) (kind : TypeKind) : (bare name kind).kind = kind := rfl

@[simp] theorem includes_bare (name : String) (kind : TypeKind) :
    (bare name kind).includes = [] := rfl

def method? (e : Entry) (name : String) : Option Signature :=
  e.methods.find? (·.name == name)

def define (e : Entry) (s : Signature) : Entry :=
  { e with methods := s.insertInto e.methods }

def mixIn (e : Entry) (module : TypeId) : Entry :=
  { e with includes := e.includes ++ [module] }

/-- What changes entries but not their names. -/
class KeepsName (f : Entry → Entry) : Prop where
  name_eq : ∀ e, (f e).name = e.name

instance (s : Signature) : KeepsName (·.define s) :=
  ⟨fun _ => rfl⟩

instance (module : TypeId) : KeepsName (·.mixIn module) :=
  ⟨fun _ => rfl⟩

instance (kind : TypeKind) : KeepsName ({ · with kind := kind }) :=
  ⟨fun _ => rfl⟩

/-- The word that declares a member of this entry. -/
def memberKeyword (e : Entry) : String :=
  if e.kind.isLib then "fun" else "def"

end Entry

/-- Who a member is declared on. -/
inductive Owner where
  /-- The module of everything declared outside of any type. -/
  | main
  | type (id : TypeId)
deriving DecidableEq, Repr

/-! ## The registry -/

/-- The array that `template` is specialized to for `element`. -/
structure ArrayInstance where
  template : TypeId
  element : TypeId
  array : TypeId
deriving DecidableEq, Repr

@[ext]
structure Registry where
  entries : Array Entry
  /-- Where the entry of each name stands; what is in front hides what is behind it. -/
  nameTable : List (String × TypeId)
  main : Entry
  /-- Symbols, sorted and without repetition. -/
  symbols : List String
  /-- At most one instance for each template and element. -/
  instances : List ArrayInstance
  target : Target
  /-- Whether a failed load has left the entries half declared. -/
  poisoned : Bool
  /-- A name leads to an entry that has it. -/
  named : ∀ {name : String} {id : TypeId}, nameTable.lookup name = some id →
    ∃ e, entries[id.index]? = some e ∧ e.name = name
  /-- The name of every entry is in the table. -/
  listed : ∀ {e : Entry}, e ∈ entries → nameTable.lookup e.name ≠ none
deriving DecidableEq, Repr

namespace Registry

def size (r : Registry) : Nat :=
  r.entries.size

/-- Every entry's place, in order of registration. -/
def ids (r : Registry) : List TypeId :=
  (List.range r.size).map TypeId.mk

theorem mem_ids {r : Registry} {id : TypeId} : id ∈ r.ids ↔ id.index < r.size := by
  constructor
  · intro h
    obtain ⟨i, hi, rfl⟩ := List.mem_map.mp h
    exact List.mem_range.mp hi
  · intro h
    exact List.mem_map.mpr ⟨id.index, List.mem_range.mpr h, rfl⟩

theorem nodup_ids (r : Registry) : r.ids.Nodup := by
  refine List.Pairwise.map _ (fun a b hab h => hab ?_) List.nodup_range
  exact congrArg TypeId.index h

def get? (r : Registry) (id : TypeId) : Option Entry :=
  r.entries[id.index]?

/-- The registered ids are those below the size. -/
theorem isSome_get?_iff {r : Registry} {id : TypeId} :
    (r.get? id).isSome = true ↔ id.index < r.size := by
  rw [get?, Option.isSome_iff_ne_none, ne_eq, Array.getElem?_eq_none_iff, Nat.not_le, size]

theorem get?_eq_none_iff {r : Registry} {id : TypeId} : r.get? id = none ↔ r.size ≤ id.index := by
  rw [get?, Array.getElem?_eq_none_iff, size]

theorem index_lt_of_get? {r : Registry} {id : TypeId} {e : Entry} (h : r.get? id = some e) :
    id.index < r.size :=
  isSome_get?_iff.mp (Option.isSome_of_eq_some h)

def owner? (r : Registry) : Owner → Option Entry
  | .main => some r.main
  | .type id => r.get? id

@[simp] theorem owner?_type (r : Registry) (id : TypeId) : r.owner? (.type id) = r.get? id := rfl

/-- The place of the entry with a given name. -/
def lookup? (r : Registry) (name : String) : Option TypeId :=
  r.nameTable.lookup name

/-- What is found under a name has that name. -/
theorem get?_of_lookup? {r : Registry} {name : String} {id : TypeId}
    (h : r.lookup? name = some id) : ∃ e, r.get? id = some e ∧ e.name = name :=
  r.named h

theorem name_of_lookup? {r : Registry} {name : String} {id : TypeId} {e : Entry}
    (h : r.lookup? name = some id) (he : r.get? id = some e) : e.name = name := by
  obtain ⟨f, hf, hname⟩ := get?_of_lookup? h
  obtain rfl := Option.some.inj (hf.symm.trans he)
  exact hname

/-- Nothing is found under a name that no entry has. -/
theorem lookup?_eq_none_iff {r : Registry} {name : String} :
    r.lookup? name = none ↔ ∀ e ∈ r.entries, e.name ≠ name := by
  constructor
  · rintro hnone e he rfl
    exact r.listed he hnone
  · intro hfree
    cases hid : r.lookup? name with
    | none => rfl
    | some id =>
      obtain ⟨e, he, hname⟩ := get?_of_lookup? hid
      exact absurd hname (hfree e (Array.mem_of_getElem? he))

/-- The name of an entry; an id that is not registered stands for itself. -/
def nameOf (r : Registry) (id : TypeId) : String :=
  (r.get? id).elim id.text (·.name)

def superclass? (r : Registry) (id : TypeId) : Option TypeId :=
  (r.get? id).bind (·.kind.superclass?)

/-- At most `fuel` superclasses of `id`, nearest first. -/
def superclassChain (r : Registry) (id : TypeId) : (fuel : Nat) → List TypeId
  | 0 => []
  | fuel + 1 =>
    match r.superclass? id with
    | none => []
    | some next => next :: r.superclassChain next fuel

/-- The superclasses of `id`, nearest first. A chain without repetition is no longer than the
    registry. -/
def ancestors (r : Registry) (id : TypeId) : List TypeId :=
  r.superclassChain id (r.size + 1)

/-- A type is a subtype of itself and of its ancestors. Mixing in a module makes no subtype. -/
def isSubtype (r : Registry) (sub sup : TypeId) : Bool :=
  sub == sup || (r.ancestors sub).contains sup

/-- The libraries to link against, in order of registration. A library without a name, or with an
    empty one, needs no linking. -/
def libraryNames (r : Registry) : List String :=
  r.entries.toList.filterMap fun e =>
    match e.kind with
    | .lib (some libname) => if libname.isEmpty then none else some libname
    | _ => none

/-! ### Symbols -/

/-- Adds a symbol to a sorted table, unless it is there. -/
def insertSymbol (name : String) : List String → List String
  | [] => [name]
  | s :: table =>
    if name = s then s :: table
    else if name < s then name :: s :: table
    else s :: insertSymbol name table

/-- Adds a symbol to the table; true if it is new. -/
def intern (r : Registry) (name : String) : Bool × Registry :=
  (!r.symbols.contains name, { r with symbols := insertSymbol name r.symbols })

/-! ### Poisoning -/

/-- Marks the registry as unusable. -/
def poison (r : Registry) : Registry :=
  { r with poisoned := true }

end Registry

end DeclLang
