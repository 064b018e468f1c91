import DeclLang.Syntax.Program

/-!
# Cursors: parsing without lines

`Program.ofTokens` cuts the tokens of a file into lines before it parses any of them. The parser
here takes no line for granted: it goes over all tokens with a cursor, looks at the token there and
takes it or leaves it, and passes over the rest of a line only after a problem. It could go wrong in
two more ways than by meeting a problem: a token could be asked for that is not there, and a loop
could go on forever. Both are told from a result (`Cursor.Result`), so that they can be proved not
to happen.
-/

namespace DeclLang

/-- How far a parser is. -/
structure Cursor where
  /-- How many tokens were taken. -/
  position : Nat
  /-- The problems of the lines passed over. -/
  problems : List SyntaxError
  /-- Every position that the cursor was moved to, in the order of the moves. -/
  visited : List Nat
deriving DecidableEq, Repr

namespace Cursor

def start : Cursor :=
  ⟨0, [], []⟩

/-- The cursor behind the next token. -/
def next (c : Cursor) : Cursor :=
  { c with position := c.position + 1, visited := c.visited ++ [c.position + 1] }

def record (c : Cursor) (e : SyntaxError) : Cursor :=
  { c with problems := c.problems ++ [e] }

/-- The token at the cursor. Behind the last token that one stands again. -/
def token (ts : List Token) (c : Cursor) : Token :=
  (ts[c.position]?.or ts.getLast?).getD Line.endOfFile

/-- Where the token before the cursor stands. -/
def previousSpan (ts : List Token) (c : Cursor) : Span :=
  if c.position = 0 then (c.token ts).span
  else (ts[c.position - 1]?.map (·.span)).getD (.point 0)

end Cursor

/-- How a run ends. -/
inductive Cursor.Result (α : Type) where
  | finished (result : Except SyntaxError α) (cursor : Cursor)
  /-- The token before the cursor was asked for, and there is none. -/
  | outOfRange
  /-- A loop took more rounds than it was given. -/
  | unfinished
deriving Repr

/-- Goes over a list of tokens. The number is that of the rounds that each loop is given. -/
def CursorParser (α : Type) : Type :=
  Nat → List Token → Cursor → Cursor.Result α

/-- What a round of a loop ends with: the state for the next one, or the result of the loop. -/
inductive Round (σ α : Type) where
  | again (state : σ)
  | done (result : α)

namespace CursorParser

instance : Monad CursorParser where
  pure a := fun _ _ c => .finished (.ok a) c
  bind p f := fun rounds ts c =>
    match p rounds ts c with
    | .finished (.ok a) c => f a rounds ts c
    | .finished (.error e) c => .finished (.error e) c
    | .outOfRange => .outOfRange
    | .unfinished => .unfinished

variable {α σ : Type}

/-! ## The cursor -/

def peek : CursorParser Token := fun _ ts c =>
  .finished (.ok (c.token ts)) c

def previousSpan : CursorParser Span := fun _ ts c =>
  .finished (.ok (c.previousSpan ts)) c

def problems : CursorParser (List SyntaxError) := fun _ _ c =>
  .finished (.ok c.problems) c

def fail (e : SyntaxError) : CursorParser α := fun _ _ c =>
  .finished (.error e) c

/-- Takes the next token, unless that is the end of the file. What it returns is the token before
    the cursor: nobody looks whether there is one. -/
def advance : CursorParser Token := fun _ ts c =>
  let moved := if (c.token ts).value = .eof then c else c.next
  if moved.position = 0 then .outOfRange
  else
    match ts[moved.position - 1]? with
    | some t => .finished (.ok t) moved
    | none => .outOfRange

/-- A loop, for a number of rounds. -/
def repeatFor (round : σ → CursorParser (Round σ α)) : Nat → σ → CursorParser α
  | 0, _ => fun _ _ _ => .unfinished
  | n + 1, s => do
    match ← round s with
    | .again s => repeatFor round n s
    | .done a => return a

/-- A loop, for as many rounds as loops are given. -/
def loop (start : σ) (round : σ → CursorParser (Round σ α)) : CursorParser α := fun rounds =>
  repeatFor round rounds start rounds

/-- Takes a line feed, if that is the next token. -/
def newlineRound (_ : Unit) : CursorParser (Round Unit Unit) := do
  if (← peek).value = .newline then
    let _ ← advance
    return .again ()
  else return .done ()

def skipNewlines : CursorParser Unit :=
  loop () newlineRound

/-- Takes a token, until that is a line feed. -/
def tokenRound (_ : Unit) : CursorParser (Round Unit Unit) := do
  if (← peek).value = .eof then return .done ()
  else if (← advance).value = .newline then return .done ()
  else return .again ()

/-- Passes over everything up to and including the next line feed. -/
def skipLine : CursorParser Unit :=
  loop () tokenRound

/-- Puts a problem aside and goes on below its line. -/
def recover (p : CursorParser α) : CursorParser (Option α) := fun rounds ts c =>
  match p rounds ts c with
  | .finished (.ok a) c => .finished (.ok (some a)) c
  | .finished (.error e) c => (do skipLine; return none : CursorParser _) rounds ts (c.record e)
  | .outOfRange => .outOfRange
  | .unfinished => .unfinished

/-- What a parser reads, and where that stands. -/
def located (p : CursorParser α) : CursorParser (Located α) := do
  let first ← peek
  let a ← p
  return ⟨a, first.span.merge (← previousSpan)⟩

/-! ## Single tokens -/

/-- Fails at the next token. -/
def failAtNext (problem : TokenKind → SyntaxProblem) : CursorParser α := do
  let found ← peek
  fail ⟨problem found.value, found.span⟩

def unexpected (expected : Expected) : CursorParser α :=
  failAtNext (.unexpected expected)

/-- The next token, if it is one that `f` accepts. -/
def accept? (f : Token → Option α) : CursorParser (Option (Located α)) := do
  match f (← peek) with
  | some a => return some ⟨a, (← advance).span⟩
  | none => return none

/-- The next token, which `f` must accept. -/
def expect (problem : TokenKind → SyntaxProblem) (f : Token → Option α) :
    CursorParser (Located α) := do
  match ← accept? f with
  | some a => return a
  | none => failAtNext problem

def keyword (k : Keyword) : CursorParser (Located Unit) :=
  expect (.unexpected (.keyword k)) (LineParser.exactly (.keyword k))

def punctuation (p : Punctuation) : CursorParser (Located Unit) :=
  expect (.unexpected (.punctuation p)) (LineParser.exactly (.punctuation p))

def punctuation? (p : Punctuation) : CursorParser (Option (Located Unit)) :=
  accept? (LineParser.exactly (.punctuation p))

def operator? (text : String) : CursorParser (Option (Located Unit)) :=
  accept? (LineParser.exactly (.operator text))

def ident (expected : Expected) : CursorParser Ident :=
  expect (.unexpected expected) LineParser.identName?

/-- The end of the line, or of the file, which is left where it is. -/
def lineEnd : CursorParser Unit := do
  match (← peek).value with
  | .newline =>
    let _ ← advance
    return
  | .eof => return
  | _ => unexpected .lineEnd

/-- A phrase that ends its line. -/
def line (p : CursorParser α) : CursorParser α := do
  let a ← p
  lineEnd
  return a

/-! ## Signatures -/

def typeName : CursorParser Ident := do
  let name ← ident .typeName
  if isTypeName name.value then return name
  else fail ⟨.lowercaseTypeName name.value, name.span⟩

/-- A type with no more than a number of brackets open. -/
def typeWithin : Nat → CursorParser TypeExpr
  | 0 => fun _ _ _ => .unfinished
  | n + 1 => do
    let name ← typeName
    match ← punctuation? .leftBracket with
    | some _ =>
      let arg ← typeWithin n
      let close ← punctuation .rightBracket
      return .generic name.value arg (name.span.merge close.span)
    | none => return .named name

def typeExpr : CursorParser TypeExpr := fun rounds =>
  typeWithin rounds rounds

def parameter : CursorParser Parameter := do
  let name ← ident .parameterName
  let _ ← expect (.missingParameterType name.value) (LineParser.exactly (.punctuation .colon))
  let type ← typeExpr
  return ⟨name.value, type, name.span.merge type.span⟩

/-- One more parameter, behind which a comma says that there is another one. -/
def parameterRound (before : List Parameter) :
    CursorParser (Round (List Parameter) (List Parameter)) := do
  let p ← parameter
  match ← punctuation? .comma with
  | some _ => return .again (before ++ [p])
  | none => return .done (before ++ [p])

/-- One or more parameters, with commas between them. -/
def parameters : CursorParser (List Parameter) :=
  loop [] parameterRound

def parameterList : CursorParser (List Parameter) := do
  match ← punctuation? .leftParen with
  | none => return []
  | some _ =>
    match ← punctuation? .rightParen with
    | some _ => return []
    | none =>
      let ps ← parameters
      let _ ← punctuation .rightParen
      return ps

/-- An `=` that touches the name before it makes that the name of a setter. -/
def setter (name : Ident) : CursorParser Ident := do
  let touches (t : Token) := t.value = .operator "=" ∧ t.span.start = name.span.stop
  match ← accept? fun t => if touches t then some () else none with
  | some eq => return ⟨name.value ++ "=", name.span.merge eq.span⟩
  | none => return name

def indexer (bracket : Span) : CursorParser Ident := do
  let close ← punctuation .rightBracket
  match ← accept? (LineParser.exactly (.operator "=")) with
  | some eq => return ⟨"[]=", bracket.merge eq.span⟩
  | none => return ⟨"[]", bracket.merge close.span⟩

def methodName : CursorParser Ident := do
  match ← accept? LineParser.identName? with
  | some name => setter name
  | none =>
    match ← accept? operatorText? with
    | some operator => return operator
    | none =>
      match ← punctuation? .leftBracket with
      | some bracket => indexer bracket.span
      | none => unexpected .methodName

def methodTail (name : Ident) : CursorParser MethodDecl := do
  let ps ← parameterList
  match ← punctuation? .colon with
  | some _ => return ⟨name, ps, some (← typeExpr)⟩
  | none => return ⟨name, ps, none⟩

def method : CursorParser MethodDecl := do
  let _ ← keyword .method
  methodTail (← methodName)

def function : CursorParser MethodDecl := do
  let _ ← keyword .function
  methodTail (← ident .functionName)

def inclusion : CursorParser Ident := do
  let _ ← keyword .inclusion
  typeName

/-! ## Declarations -/

def member : CursorParser Member := do
  match (← peek).value with
  | .keyword .method => .method <$> method
  | .keyword .inclusion => .inclusion <$> inclusion
  | _ => unexpected .member

/-- One more item, unless the block ends. A block that the file ends before is given up. -/
def itemRound (opened : Keyword) (name : Ident) (item : CursorParser α)
    (before : List (Located α)) :
    CursorParser (Round (List (Located α)) (List (Located α))) := do
  skipNewlines
  let found ← peek
  if found.value = .keyword .blockEnd then
    let _ ← advance
    lineEnd
    return .done before
  else if found.value = .eof then fail ⟨.unclosedBlock opened name.value, name.span⟩
  else
    let a ← recover (located (line item))
    return .again (before ++ a.toList)

/-- The body of a block, one item a line, and its end. -/
def block (opened : Keyword) (name : Ident) (item : CursorParser α) :
    CursorParser (List (Located α)) :=
  loop [] (itemRound opened name item)

/-- A header on a line of its own, and the block that it opens. -/
def blockBelow {β : Type} (opened : Keyword) (header : CursorParser β) (name : β → Ident)
    (item : CursorParser α) (declaration : β → List (Located α) → Declaration) :
    CursorParser Declaration := do
  let b ← line header
  return declaration b (← block opened (name b) item)

def classHeader : CursorParser (Ident × Option Ident) := do
  let _ ← keyword .classBlock
  let name ← typeName
  match ← operator? "<" with
  | some _ => return (name, some (← typeName))
  | none => return (name, none)

def moduleHeader : CursorParser Ident := do
  let _ ← keyword .moduleBlock
  typeName

def libHeader : CursorParser (Ident × Option (Located String)) := do
  let _ ← keyword .libBlock
  let name ← typeName
  match ← punctuation? .leftParen with
  | none => return (name, none)
  | some _ =>
    let libname ← expect (.unexpected .libraryName) stringValue?
    let _ ← punctuation .rightParen
    return (name, some libname)

def primitive : CursorParser Declaration := do
  let _ ← keyword .primitive
  let name ← typeName
  let _ ← expect .missingSuperclass (LineParser.exactly (.operator "<"))
  let superclass ← typeName
  let _ ← punctuation .colon
  let repr ← ident .representation
  let size ← expect (.unexpected .byteSize) intValue?
  if size.value < byteSizeLimit then return .primitive name superclass repr size
  else fail ⟨.byteSizeOutOfRange size.value, size.span⟩

/-- The declaration that the token at the cursor starts. -/
def declarationFrom (found : Token) : CursorParser Declaration :=
  match found.value with
  | .keyword .classBlock =>
    blockBelow .classBlock classHeader (·.1) member fun b => .classBlock b.1 b.2
  | .keyword .moduleBlock => blockBelow .moduleBlock moduleHeader id member .moduleBlock
  | .keyword .libBlock => blockBelow .libBlock libHeader (·.1) function fun b => .libBlock b.1 b.2
  | .keyword .primitive => line primitive
  | .keyword .method => line (.method <$> method)
  | .keyword .inclusion => line (.inclusion <$> inclusion)
  | .keyword .blockEnd => fail ⟨.unmatchedEnd, found.span⟩
  | _ => unexpected .declaration

def declaration : CursorParser Declaration := do
  declarationFrom (← peek)

/-! ## Files -/

/-- One more declaration, unless the file ends. -/
def declarationRound (before : Program) : CursorParser (Round Program Program) := do
  if (← peek).value = .eof then return .done before
  else
    let d ← recover (located declaration)
    skipNewlines
    return .again (before ++ d.toList)

/-- The declarations of a file, or all of its problems. -/
def program : CursorParser (Except (List SyntaxError) Program) := do
  skipNewlines
  let declarations ← loop [] declarationRound
  let found ← problems
  return if found.isEmpty then .ok declarations else .error found

/-- A run over all tokens. -/
def run (rounds : Nat) (ts : List Token) : Cursor.Result (Except (List SyntaxError) Program) :=
  program rounds ts .start

end CursorParser

end DeclLang
