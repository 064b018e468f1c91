import DeclLang.Registry.Specialization
import DeclLang.Registry.Verification

/-!
# Initial registry: the builtin types

Every registry starts with the builtins. They are registered one after the other, and each refers to
builtins before it, whose places are looked up in a table. The primitives among them carry their
operations, each of which takes one argument of the receiver's type. At last the registry is
verified like any other.
-/

namespace DeclLang

/-! ## Primitives -/

/-- How many bytes a builtin primitive declares. -/
inductive LeafSize where
  | bytes (count : Nat)
  /-- As many as a pointer of the target has. -/
  | pointer
deriving DecidableEq, Repr

def LeafSize.on (target : Target) : LeafSize → Nat
  | .bytes count => count
  | .pointer => target.pointerSize

structure PrimitiveLeaf where
  builtin : Builtin
  superclass : Builtin
  repr : Representation
  size : LeafSize
deriving DecidableEq, Repr

/-- The builtin primitives, in registration order. -/
def PrimitiveLeaf.all : List PrimitiveLeaf :=
  [⟨.bool, .value, .i1, .bytes 1⟩, ⟨.char, .value, .i8, .bytes 1⟩,
    ⟨.int, .numeric, .i32, .bytes 4⟩, ⟨.long, .numeric, .i64, .bytes 8⟩,
    ⟨.float, .numeric, .f32, .bytes 4⟩, ⟨.string, .value, .ptr, .pointer⟩,
    ⟨.symbol, .value, .i32, .bytes 4⟩, ⟨.pointer, .value, .ptr, .pointer⟩]

/-! ## Operations -/

/-- What an operation returns. -/
inductive Returns where
  /-- A value of the receiver's own type. -/
  | receiver
  | builtin (b : Builtin)
deriving DecidableEq, Repr

/-- Operations on two values of one type, and the builtins that have them. -/
structure Intrinsic where
  owners : List Builtin
  names : List String
  returns : Returns
deriving DecidableEq, Repr

namespace Builtin

def numbers : List Builtin :=
  [.int, .long, .float]

def integers : List Builtin :=
  [.int, .long]

def ordered : List Builtin :=
  [.char, .int, .long, .float]

def equatable : List Builtin :=
  [.bool, .char, .int, .long, .float, .symbol]

end Builtin

def Intrinsic.all : List Intrinsic :=
  [⟨Builtin.numbers, ["+", "-", "*", "/"], .receiver⟩, ⟨Builtin.integers, ["%"], .receiver⟩,
    ⟨Builtin.ordered, ["<", "<=", ">", ">="], .builtin .bool⟩,
    ⟨Builtin.numbers, ["<=>"], .builtin .int⟩, ⟨Builtin.equatable, ["==", "!="], .builtin .bool⟩]

/-- Adds a method in the place of the one that has its name, if there is one. -/
def Entry.redefine (e : Entry) (s : Signature) : Entry :=
  { e with methods := s.insertInto (e.methods.filter (·.name != s.name)) }

instance (s : Signature) : Entry.KeepsName (·.redefine s) :=
  ⟨fun _ => rfl⟩

/-! ## Founding a registry -/

/-- A registry that is getting its builtin types. -/
structure Foundation where
  registry : Registry
  /-- Where the builtins stand that are registered. -/
  places : List (Builtin × TypeId)
deriving DecidableEq, Repr

namespace Foundation

/-- A step of founding a registry, which may find something wrong with it. -/
abbrev Step := StateT Foundation (Except InvariantError)

def modifyRegistry (f : Registry → Registry) : Step Unit :=
  modify fun s => { s with registry := f s.registry }

def check {α : Type} (result : Except InvariantError α) : Step α :=
  liftM result

/-- Registers an entry as a builtin. -/
def insert (b : Builtin) (e : Entry) : Step TypeId :=
  modifyGet fun s =>
    let (id, r) := s.registry.push e
    (id, ⟨r, (b, id) :: s.places⟩)

def insertBuiltin (b : Builtin) (kind : TypeKind) : Step TypeId :=
  insert b (.bare b.name kind)

/-- The place of a builtin that another one is built from. -/
def dependency (dependent b : Builtin) : Step TypeId := do
  match (← get).places.lookup b with
  | some id => return id
  | none => throw (.missingDependency dependent.name (.builtin b))

/-- Registers what stands above the primitives, and gives the place of the array template. -/
def insertHierarchy : Step TypeId := do
  let object ← insertBuiltin .object (.object none)
  let value ← insertBuiltin .value (.object (some object))
  let _ ← insertBuiltin .numeric (.object (some value))
  let enumerable ← insertBuiltin .enumerable .module
  -- The template holds objects until it is specialized.
  let array ← insertBuiltin .array (.array (some object) object none)
  modifyRegistry (·.modifyOwner (.type array) (·.mixIn enumerable))
  return array

def insertLeaf (leaf : PrimitiveLeaf) : Step Unit := do
  let superclass ← dependency leaf.builtin leaf.superclass
  let target := (← get).registry.target
  let byteSize := leaf.size.on target
  check (Registry.checkLayout target leaf.builtin.name leaf.repr byteSize)
  let _ ← insertBuiltin leaf.builtin (.primitive superclass leaf.repr byteSize)

/-- Registers the array of program arguments, which is the instance for strings. -/
def insertArguments (array : TypeId) : Step Unit := do
  let string ← dependency .argv .string
  match (← get).registry.cloneArray? array string Builtin.argv.name with
  | none => throw (.missingDependency Builtin.argv.name (.builtin .array))
  | some e =>
    let argv ← insert .argv e
    modifyRegistry fun r => (r.uncache array string).cache ⟨array, string, argv⟩

def defineIntrinsic (i : Intrinsic) : Step Unit :=
  i.owners.forM fun owner => do
    let receiver ← dependency owner owner
    let returns ← match i.returns with
      | .receiver => pure receiver
      | .builtin b => dependency owner b
    i.names.forM fun name =>
      let operation : Signature := ⟨name, [⟨"other", receiver⟩], some returns⟩
      modifyRegistry (·.modifyOwner (.type receiver) (·.redefine operation))

/-- Registers all builtins and verifies the registry that results. -/
def found : Step Unit := do
  let array ← insertHierarchy
  PrimitiveLeaf.all.forM insertLeaf
  insertArguments array
  Intrinsic.all.forM defineIntrinsic
  modifyRegistry ({ · with symbols := [] })
  check (← get).registry.verify

end Foundation

namespace Registry

/-- A registry without any type. -/
def empty (target : Target) : Registry where
  entries := #[]
  nameTable := []
  main := .bare StandardLibrary.mainModule .module
  symbols := []
  instances := []
  target := target
  poisoned := false
  named := fun h => by simp at h
  listed := fun h => by simp at h

/-- The registry that a compilation for a target starts from. -/
def ofTarget (target : Target) : Except InvariantError Registry :=
  if target.isSupported then do
    let ((), s) ← Foundation.found.run ⟨empty target, []⟩
    return s.registry
  else .error (.unsupportedPointerSize target.pointerSize)

end Registry

end DeclLang
