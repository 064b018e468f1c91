/-!
# Builtin types: the types that every registry starts with

They are listed in the order in which they are registered, so the place of a builtin in `all` is
also its place in every registry.
-/

namespace DeclLang

inductive Builtin where
  | object
  | value
  | numeric
  | enumerable
  | array
  | bool
  | char
  | int
  | long
  | float
  | string
  | symbol
  | pointer
  | argv
deriving DecidableEq, Repr

namespace Builtin

/-- The kind of type that a builtin is. -/
inductive Kind where
  | object
  | module
  | primitive
  | array
deriving DecidableEq, Repr

/-- The identifier of a kind in the reference tables. -/
def Kind.id : Kind → String
  | .object => "Object"
  | .module => "Module"
  | .primitive => "Primitive"
  | .array => "Array"

/-- Every builtin, in registration order. -/
def all : List Builtin :=
  [.object, .value, .numeric, .enumerable, .array, .bool, .char, .int, .long, .float, .string,
    .symbol, .pointer, .argv]

theorem mem_all (b : Builtin) : b ∈ all := by cases b <;> decide

def name : Builtin → String
  | .object => "Object"
  | .value => "Value"
  | .numeric => "Numeric"
  | .enumerable => "Enumerable"
  | .array => "Array"
  | .bool => "Bool"
  | .char => "Char"
  | .int => "Int"
  | .long => "Long"
  | .float => "Float"
  | .string => "String"
  | .symbol => "Symbol"
  | .pointer => "Pointer"
  | .argv => "ARGV"

/-- The identifier of a builtin in the reference tables. -/
def id : Builtin → String
  | .argv => "Argv"
  | b => b.name

def kind : Builtin → Kind
  | .object | .value | .numeric => .object
  | .enumerable => .module
  | .array | .argv => .array
  | .bool | .char | .int | .long | .float | .string | .symbol | .pointer => .primitive

def description : Builtin → String
  | .object => "Root of the class hierarchy."
  | .value => "Base of value-semantics types."
  | .numeric => "Base of numeric primitives."
  | .enumerable => "Iteration capability mixed into containers."
  | .array => "Generic array template."
  | .bool => "Boolean."
  | .char => "Single byte character."
  | .int => "32-bit signed integer."
  | .long => "64-bit signed integer."
  | .float => "32-bit float."
  | .string => "Pointer to character data."
  | .symbol => "Index into the symbol table."
  | .pointer => "Untyped machine pointer."
  | .argv => "Program arguments: `Array` specialized over `String`."

def ofName? (text : String) : Option Builtin :=
  all.find? (·.name == text)

theorem ofName?_name (b : Builtin) : ofName? b.name = some b := by cases b <;> decide

/-- The place of a builtin in registration order. -/
def index : Builtin → Nat
  | .object => 0
  | .value => 1
  | .numeric => 2
  | .enumerable => 3
  | .array => 4
  | .bool => 5
  | .char => 6
  | .int => 7
  | .long => 8
  | .float => 9
  | .string => 10
  | .symbol => 11
  | .pointer => 12
  | .argv => 13

theorem all_getElem?_index (b : Builtin) : all[b.index]? = some b := by cases b <;> rfl

end Builtin

end DeclLang
