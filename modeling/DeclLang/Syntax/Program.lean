import DeclLang.Syntax.Signature
import DeclLang.Token.Lexer

/-!
# Programs: declarations put together from lines

A declaration is one line, or a block: a header, a body with one item a line, and a closing `end`.
`Body.read` reads the lines of a body, `Outcome.ofLine` a declaration with the lines that belong to
it, and `Parsed.ofLines` all of a file. A line that cannot be parsed leaves its problem behind and
nothing else; a header that cannot be parsed opens no block.
-/

namespace DeclLang

open LineParser

/-! ## Blocks -/

/-- The body of a block, read down to the line that closes it. -/
structure Body (α : Type) where
  items : List (Located α)
  problems : List SyntaxError
  /-- The line that starts with `end`, unless the file ends first. -/
  closing : Option Line
  /-- The lines below the block. -/
  rest : List Line

namespace Body

variable {α : Type}

/-- Parses one item a line, down to a line that starts with `end`. Blank lines are skipped. -/
def read (item : LineParser α) : List Line → Body α
  | [] => ⟨[], [], none, []⟩
  | l :: below =>
    if l.isEmpty then read item below
    -- What else stands on the closing line is not for the body to judge.
    else if l.first.value = .keyword .blockEnd then ⟨[], [], some l, below⟩
    else
      let body := read item below
      match item.onLine l with
      | .ok a => { body with items := a :: body.items }
      | .error e => { body with problems := e :: body.problems }

theorem rest_length_le (item : LineParser α) (ls : List Line) :
    (read item ls).rest.length ≤ ls.length := by
  fun_induction read item ls <;> simp_all +zetaDelta <;> omega

end Body

/-- An item in the body of a class or module. -/
def parseMember : LineParser Member := fun stop ts =>
  match (ts.headD stop).value with
  | .keyword .method => (.method <$> parseMethod) stop ts
  | .keyword .inclusion => (.inclusion <$> parseInclusion) stop ts
  | _ => unexpected .member stop ts

/-! ## Headers -/

/-- `class Name`, and `< Super` if the superclass is stated. -/
def parseClassHeader : LineParser (Ident × Option Ident) := do
  let _ ← keyword .classBlock
  let name ← parseTypeName
  match ← operator? "<" with
  | some _ => return (name, some (← parseTypeName))
  | none => return (name, none)

def parseModuleHeader : LineParser Ident := do
  let _ ← keyword .moduleBlock
  parseTypeName

def stringValue? (t : Token) : Option String :=
  match t.value with
  | .string value => some value
  | _ => none

/-- `lib Name`, and `("libname")` if there is a library to link against. -/
def parseLibHeader : LineParser (Ident × Option (Located String)) := do
  let _ ← keyword .libBlock
  let name ← parseTypeName
  match ← punctuation? .leftParen with
  | none => return (name, none)
  | some _ =>
    let libname ← expect (.unexpected .libraryName) stringValue?
    let _ ← punctuation .rightParen
    return (name, some libname)

def intValue? (t : Token) : Option Nat :=
  match t.value with
  | .int value => some value
  | _ => none

/-- Byte sizes are those of 32 bits. -/
def byteSizeLimit : Nat := 4294967296

/-- `primitive Name < Super : repr size` -/
def parsePrimitive : LineParser Declaration := do
  let _ ← keyword .primitive
  let name ← parseTypeName
  let _ ← expect .missingSuperclass (exactly (.operator "<"))
  let superclass ← parseTypeName
  let _ ← punctuation .colon
  let repr ← ident .representation
  let size ← expect (.unexpected .byteSize) intValue?
  if size.value < byteSizeLimit then return .primitive name superclass repr size
  else failAt (.byteSizeOutOfRange size.value) size.span

/-! ## Declarations -/

/-- A declaration, if there is one, and what else reading it came to. -/
structure Outcome where
  declaration : Option (Located Declaration)
  problems : List SyntaxError
  /-- The lines below the declaration. -/
  rest : List Line

namespace Outcome

def ofError (e : SyntaxError) (below : List Line) : Outcome :=
  ⟨none, [e], below⟩

/-- A declaration on a line of its own. -/
def ofSingle (p : LineParser Declaration) (l : Line) (below : List Line) : Outcome :=
  match p.onLine l with
  | .ok d => ⟨some d, [], below⟩
  | .error e => ofError e below

/-- The body of a block whose header was read from `l`, and the line that closes it. Problems in the
    body come before one of the block itself. -/
def ofBlock {α : Type} (opened : Keyword) (name : Ident) (item : LineParser α)
    (declaration : List (Located α) → Declaration) (l : Line) (below : List Line) : Outcome :=
  let body := Body.read item below
  match body.closing with
  | none =>
    ⟨none, body.problems ++ [⟨.unclosedBlock opened name.value, name.span⟩], body.rest⟩
  | some closing =>
    match (keyword .blockEnd).onLine closing with
    | .ok _ =>
      -- The block spans its first token and its last one, whatever lies between.
      let span := l.first.span.merge closing.last.span
      ⟨some ⟨declaration body.items, span⟩, body.problems, body.rest⟩
    | .error e => ⟨none, body.problems ++ [e], body.rest⟩

/-- Reads the declaration that starts on line `l`. -/
def ofLine (l : Line) (below : List Line) : Outcome :=
  match l.first.value with
  | .keyword .classBlock =>
    match parseClassHeader.onLine l with
    | .ok ⟨(name, superclass), _⟩ =>
      ofBlock .classBlock name parseMember (.classBlock name superclass) l below
    | .error e => ofError e below
  | .keyword .moduleBlock =>
    match parseModuleHeader.onLine l with
    | .ok ⟨name, _⟩ => ofBlock .moduleBlock name parseMember (.moduleBlock name) l below
    | .error e => ofError e below
  | .keyword .libBlock =>
    match parseLibHeader.onLine l with
    | .ok ⟨(name, libname), _⟩ =>
      ofBlock .libBlock name parseFunction (.libBlock name libname) l below
    | .error e => ofError e below
  | .keyword .primitive => ofSingle parsePrimitive l below
  | .keyword .method => ofSingle (.method <$> parseMethod) l below
  | .keyword .inclusion => ofSingle (.inclusion <$> parseInclusion) l below
  | .keyword .blockEnd => ofError ⟨.unmatchedEnd, l.first.span⟩ below
  | found => ofError ⟨.unexpected .declaration found, l.first.span⟩ below

theorem ofSingle_rest (p : LineParser Declaration) (l : Line) (below : List Line) :
    (ofSingle p l below).rest = below := by
  unfold ofSingle
  split <;> rfl

theorem ofBlock_rest_length_le {α : Type} (opened : Keyword) (name : Ident) (item : LineParser α)
    (declaration : List (Located α) → Declaration) (l : Line) (below : List Line) :
    (ofBlock opened name item declaration l below).rest.length ≤ below.length := by
  have h := Body.rest_length_le item below
  unfold ofBlock
  dsimp only
  split
  · exact h
  · split <;> exact h

theorem ofLine_rest_length_le (l : Line) (below : List Line) :
    (ofLine l below).rest.length ≤ below.length := by
  unfold ofLine
  split
  case h_1 => split <;> simp [ofError, ofBlock_rest_length_le]
  case h_2 => split <;> simp [ofError, ofBlock_rest_length_le]
  case h_3 => split <;> simp [ofError, ofBlock_rest_length_le]
  all_goals simp [ofSingle_rest, ofError]

end Outcome

/-! ## Files -/

/-- All that was read of a file: its declarations, and the problems met on the way. -/
structure Parsed where
  declarations : Program
  problems : List SyntaxError
deriving DecidableEq, Repr

namespace Parsed

/-- Reads one declaration after the other. Blank lines are skipped. -/
def ofLines : List Line → Parsed
  | [] => ⟨[], []⟩
  | l :: below =>
    if l.isEmpty then ofLines below
    else
      let outcome := Outcome.ofLine l below
      let tail := ofLines outcome.rest
      ⟨outcome.declaration.toList ++ tail.declarations, outcome.problems ++ tail.problems⟩
termination_by ls => ls.length
decreasing_by
  · simp
  · exact Nat.lt_succ_of_le (Outcome.ofLine_rest_length_le l below)

/-- The declarations of a file without problems. -/
def toExcept (p : Parsed) : Except (List SyntaxError) Program :=
  if p.problems.isEmpty then .ok p.declarations else .error p.problems

end Parsed

namespace Program

/-- The program that a list of tokens spells, or everything that is wrong with it. -/
def ofTokens (ts : List Token) : Except (List SyntaxError) Program :=
  (Parsed.ofLines (Line.ofTokens ts)).toExcept

/-- The program that a source text spells. A text that cannot be cut into tokens is not parsed. -/
def ofSource (source : String) : Except (List Diagnostic) Program := do
  let tokens ← lex source
  (ofTokens tokens).mapError (·.map .ofSyntax)

/-- The program in a file of the given name, or a report on the file. -/
def ofFile (file source : String) : Except FileReport Program :=
  (ofSource source).mapError (.ofDiagnostics file source)

end Program

end DeclLang
