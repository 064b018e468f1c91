/-!
# Positions: lines and columns of byte offsets

Lines and columns count from one, and columns count characters. An offset past the end of the text
stands for the end.
-/

namespace DeclLang

/-- Bytes that a list of characters takes in UTF-8. -/
def utf8Length : List Char → Nat
  | [] => 0
  | c :: cs => c.utf8Size + utf8Length cs

@[simp] theorem utf8Length_nil : utf8Length [] = 0 := rfl

@[simp] theorem utf8Length_cons (c : Char) (cs : List Char) :
    utf8Length (c :: cs) = c.utf8Size + utf8Length cs := rfl

@[simp] theorem utf8Length_append (cs ds : List Char) :
    utf8Length (cs ++ ds) = utf8Length cs + utf8Length ds := by
  induction cs with
  | nil => simp
  | cons c cs ih => simp [ih, Nat.add_assoc]

structure Position where
  line : Nat
  column : Nat
deriving DecidableEq, Repr

namespace Position

/-- Where every text starts. -/
def origin : Position := ⟨1, 1⟩

/-- The position after one more character. -/
def advance (p : Position) (c : Char) : Position :=
  if c = '\n' then ⟨p.line + 1, 1⟩ else ⟨p.line, p.column + 1⟩

/-- The position after a text. -/
def after (cs : List Char) : Position :=
  cs.foldl advance origin

@[simp] theorem after_nil : after [] = origin := rfl

theorem after_concat (cs : List Char) (c : Char) : after (cs ++ [c]) = (after cs).advance c := by
  simp [after]

/-- The characters that start before a byte offset. -/
def charsBefore (offset : Nat) : List Char → List Char
  | [] => []
  | c :: cs => if offset = 0 then [] else c :: charsBefore (offset - c.utf8Size) cs

@[simp] theorem charsBefore_zero (cs : List Char) : charsBefore 0 cs = [] := by
  cases cs <;> simp [charsBefore]

/-- On a character boundary the characters before it are those that it separates off. -/
theorem charsBefore_utf8Length_append (cs ds : List Char) :
    charsBefore (utf8Length cs) (cs ++ ds) = cs := by
  induction cs with
  | nil => simp
  | cons c cs ih =>
    have hpos : c.utf8Size ≠ 0 := Nat.ne_of_gt (Char.utf8Size_pos c)
    simp [charsBefore, ih, hpos]

/-- The position of a byte offset. -/
def ofOffset (source : String) (offset : Nat) : Position :=
  after (charsBefore offset source.toList)

end Position

end DeclLang
