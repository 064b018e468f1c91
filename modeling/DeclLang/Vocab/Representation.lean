import DeclLang.Vocab.Target

/-!
# Representations: the machine encodings that a primitive type may have

A tag says how a value is held in a register; `storageSize` says how many bytes it takes in memory.
The two differ for `i1`, which is one bit in a register and one byte in memory.
-/

namespace DeclLang

inductive Representation where
  | i1
  | i8
  | i16
  | i32
  | i64
  | f32
  | f64
  | ptr
deriving DecidableEq, Repr

namespace Representation

/-- Every tag, in the order of the reference table. -/
def all : List Representation :=
  [.i1, .i8, .i16, .i32, .i64, .f32, .f64, .ptr]

theorem mem_all (r : Representation) : r ∈ all := by cases r <;> decide

def spelling : Representation → String
  | .i1 => "i1"
  | .i8 => "i8"
  | .i16 => "i16"
  | .i32 => "i32"
  | .i64 => "i64"
  | .f32 => "f32"
  | .f64 => "f64"
  | .ptr => "ptr"

/-- The identifier of a tag in the reference tables. -/
def id : Representation → String
  | .i1 => "I1"
  | .i8 => "I8"
  | .i16 => "I16"
  | .i32 => "I32"
  | .i64 => "I64"
  | .f32 => "F32"
  | .f64 => "F64"
  | .ptr => "Ptr"

/-- Bytes that a value takes in memory on the given target. -/
def storageSize (target : Target) : Representation → Nat
  | .i1 | .i8 => 1
  | .i16 => 2
  | .i32 | .f32 => 4
  | .i64 | .f64 => 8
  | .ptr => target.pointerSize

/-- The target matters to pointers only. -/
theorem storageSize_eq_of_ne_ptr {r : Representation} (h : r ≠ .ptr) (t u : Target) :
    r.storageSize t = r.storageSize u := by
  cases r <;> simp_all [storageSize]

def description : Representation → String
  | .i1 => "1-bit integer, stored as one byte."
  | .i8 => "8-bit integer."
  | .i16 => "16-bit integer."
  | .i32 => "32-bit integer."
  | .i64 => "64-bit integer."
  | .f32 => "32-bit IEEE float."
  | .f64 => "64-bit IEEE float."
  | .ptr => "Pointer to i8 (machine pointer size)."

def ofSpelling? (text : String) : Option Representation :=
  all.find? (·.spelling == text)

theorem ofSpelling?_spelling (r : Representation) : ofSpelling? r.spelling = some r := by
  cases r <;> decide

theorem spelling_of_ofSpelling? {text : String} {r : Representation}
    (h : ofSpelling? text = some r) : r.spelling = text := by
  simpa using List.find?_some h

end Representation

end DeclLang
