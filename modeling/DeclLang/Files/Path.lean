/-!
# Paths: texts that name files

A path is a list of segments with slashes between them. Paths are joined as texts and never
normalized. The extension belongs to the last segment that names something.
-/

namespace DeclLang.Path

/-- The stretches of a text between slashes. -/
def segmentChars : List Char → List (List Char)
  | [] => [[]]
  | c :: cs =>
    if c = '/' then [] :: segmentChars cs
    else
      match segmentChars cs with
      | [] => [[c]]
      | s :: rest => (c :: s) :: rest

theorem segmentChars_ne_nil (cs : List Char) : segmentChars cs ≠ [] := by
  unfold segmentChars
  repeat' split
  all_goals simp

/-- Without a slash a text is one segment. -/
theorem segmentChars_of_not_mem {cs : List Char} (h : '/' ∉ cs) : segmentChars cs = [cs] := by
  induction cs with
  | nil => rfl
  | cons c cs ih =>
    rw [List.mem_cons, not_or] at h
    rw [segmentChars, if_neg (Ne.symm h.1), ih h.2]

def segments (path : String) : List String :=
  (segmentChars path.toList).map String.ofList

def isAbsolute (path : String) : Bool :=
  path.toList.head? == some '/'

def endsInSlash (path : String) : Bool :=
  path.toList.getLast? == some '/'

/-- Bytes of the longest name that a directory can hold. -/
def nameLimit : Nat := 255

/-- Bytes of the longest path that can be followed. -/
def lengthLimit : Nat := 4095

/-- The path of a name below a root. An absolute name stands for itself; otherwise one slash comes
    between, unless the root is empty or ends in one. -/
def join (root name : String) : String :=
  if isAbsolute name then name
  else if root.isEmpty || endsInSlash root then root ++ name
  else root ++ "/" ++ name

theorem join_of_isAbsolute {name : String} (root : String) (h : isAbsolute name = true) :
    join root name = name := by
  rw [join, if_pos h]

/-- Whether a path stands before another one, or is the same: the first segment that differs
    decides. -/
def precedes : List String → List String → Bool
  | [], _ => true
  | _ :: _, [] => false
  | s :: p, t :: q => s < t || (s = t && precedes p q)

@[simp] theorem precedes_refl (p : List String) : precedes p p = true := by
  induction p with
  | nil => rfl
  | cons s p ih => simp [precedes, ih]

/-! ## Extensions -/

/-- Segments that change nothing at the end of a path. -/
def isTransparent (segment : List Char) : Bool :=
  segment == [] || segment == ['.']

/-- The last segment that names something, unless it is the parent directory. -/
def fileNameChars? (path : List Char) : Option (List Char) :=
  match (segmentChars path).reverse.dropWhile isTransparent with
  | [] => none
  | s :: _ => if s = ['.', '.'] then none else some s

/-- What follows the last dot of a file name, unless nothing precedes it. -/
def extensionChars? (name : List Char) : Option (List Char) :=
  let after := name.reverse.takeWhile (· != '.')
  match name.reverse.dropWhile (· != '.') with
  | [] | [_] => none
  | _ => some after.reverse

def extension? (path : String) : Option String :=
  ((fileNameChars? path.toList).bind extensionChars?).map String.ofList

end DeclLang.Path
