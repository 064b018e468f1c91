import DeclLang.Library.Load

/-!
# Arguments: what a command line asks for

A command line names a command, and options before it or after it. Options after the command go
before those in front of it. The value of an option is looked at only when the word after it has
been recognized, so of two mistakes the later one may be reported.
-/

namespace DeclLang

/-- What the program can be asked to do. -/
inductive Command where
  | types (json : Bool)
  | libs
  | check
  | method (receiver name : String)
deriving DecidableEq, Repr

/-- A command, and how the registry that it works on is built. -/
structure Invocation where
  command : Command
  options : Options
deriving DecidableEq, Repr

/-- Why a command line asks for nothing that can be done. -/
inductive UsageError where
  /-- Help was asked for. -/
  | help
  | version
  /-- Nothing was given at all, which is answered by help. -/
  | empty
  | missingCommand
  | invalidCommand
  | unknownArgument
  | missingArgument
  /-- A value is missing or empty. -/
  | invalidValue
  | malformedValue
  /-- A value was given to a flag. -/
  | unneededValue
  /-- An option was given twice in one place. -/
  | repeated
deriving DecidableEq, Repr

namespace Arguments

/-! ## Words -/

/-- How a word of the command line is read. -/
inductive Word where
  /-- Two dashes: only plain words follow. -/
  | escape
  | long (name : String) (value : Option String)
  /-- The first letter of a word with one dash. -/
  | short (letter : Char)
  | plain

/-- The parts before and after the first equals sign. -/
def splitValue (cs : List Char) : String × Option String :=
  let name := String.ofList (cs.takeWhile (· != '='))
  match cs.dropWhile (· != '=') with
  | [] => (name, none)
  | _ :: value => (name, some (String.ofList value))

def Word.ofString (text : String) : Word :=
  match text.toList with
  | ['-', '-'] => .escape
  | '-' :: '-' :: cs =>
    let (name, value) := splitValue cs
    .long name value
  | '-' :: c :: _ => .short c
  | _ => .plain

/-! ## Places -/

/-- The options of the command line are recognized in front of the command and after it. -/
inductive Place where
  | front
  | types
  | libs
  | check
  | method
deriving DecidableEq, Repr

namespace Place

/-- The place after a command. -/
def ofName? : String → Option Place
  | "types" => some .types
  | "libs" => some .libs
  | "check" => some .check
  | "method" => some .method
  | _ => none

/-- How many plain words may follow. -/
def capacity : Place → Nat
  | .method => 2
  | _ => 0

end Place

def helpName : String := "help"

/-- A word that may stand where a command is expected. -/
def isCommandName (text : String) : Bool :=
  (Place.ofName? text).isSome || text == helpName

/-! ## Values -/

/-- An option that takes a value. -/
inductive Setting where
  | library
  | root
  | pointerSize
deriving DecidableEq, Repr

def Setting.ofName? : String → Option Setting
  | "std" => some .library
  | "stdlib-root" => some .root
  | "pointer-size" => some .pointerSize
  | _ => none

/-- Everything given in one place. -/
structure Given where
  /-- Files of the standard library, which may be named one by one. -/
  library : List String
  root : Option String
  pointerSize : Option Nat
  json : Bool
  words : List String
deriving DecidableEq, Repr

/-- The number that a list of decimal digits denotes, if there are digits only. -/
def digits? (cs : List Char) : Option Nat :=
  if cs.isEmpty || cs.any (!·.isDigit) then none
  else some (Nat.ofDigitChars 10 cs 0)

/-- Pointer sizes are those of 32 bits. -/
def pointerSizeLimit : Nat := 4294967296

/-- A pointer size may have a sign, but only zero may be negative. -/
def pointerSize? (text : String) : Option Nat :=
  match text.toList with
  | '-' :: cs => (digits? cs).filter (· == 0)
  | '+' :: cs => (digits? cs).filter (· < pointerSizeLimit)
  | cs => (digits? cs).filter (· < pointerSizeLimit)

namespace Given

def nothing : Given :=
  ⟨[], none, none, false, []⟩

/-- Gives an option its value. -/
def assign (g : Given) (setting : Setting) (value : String) : Except UsageError Given :=
  match setting with
  | .library => .ok { g with library := g.library ++ [value] }
  | .root =>
    if g.root.isSome then .error .repeated
    else if value.isEmpty then .error .invalidValue
    else .ok { g with root := some value }
  | .pointerSize =>
    if g.pointerSize.isSome then .error .repeated
    else
      match pointerSize? value with
      | some size => .ok { g with pointerSize := some size }
      | none => .error .malformedValue

/-- The options that two places give together; the inner place goes first. -/
def options (outer inner : Given) : Options :=
  let names := if inner.library.isEmpty then outer.library else inner.library
  { selection := .ofNames (if names.isEmpty then ["all"] else names)
    target := ((inner.pointerSize.or outer.pointerSize).map Target.mk).getD .standard
    root := inner.root.or outer.root }

end Given

/-! ## Reading -/

/-- An option whose value is not looked at yet, or not read yet. -/
structure Pending where
  setting : Setting
  value : Option String
deriving DecidableEq, Repr

/-- What is known in the middle of a place. -/
structure State where
  given : Given
  pending : Option Pending
  /-- Whether only plain words follow. -/
  escaped : Bool
deriving DecidableEq, Repr

namespace State

def start : State :=
  ⟨.nothing, none, false⟩

/-- The option whose value comes next. -/
def awaiting? (s : State) : Option Setting :=
  match s.pending with
  | some ⟨setting, none⟩ => some setting
  | _ => none

/-- Looks at the value of the last option. -/
def settle (s : State) : Except UsageError State :=
  match s.pending with
  | none => .ok s
  | some ⟨_, none⟩ => .error .invalidValue
  | some ⟨setting, some value⟩ => do
    return { s with given := ← s.given.assign setting value, pending := none }

/-- Settles what came before, and fails all the same. -/
def stop (s : State) (e : UsageError) : Except UsageError State := do
  let _ ← s.settle
  throw e

/-- A flag, or an option that takes a value. -/
def takeLong (place : Place) (s : State) (name : String) (value : Option String) :
    Except UsageError State :=
  if name = "help" then
    if value.isSome then .error .unneededValue else s.stop .help
  else if name = "version" && place = .front then
    if value.isSome then .error .unneededValue else s.stop .version
  else if name = "json" && place = .types then
    if value.isSome then .error .unneededValue
    else do
      let s ← s.settle
      if s.given.json then throw .repeated
      else return { s with given := { s.given with json := true } }
  else
    match Setting.ofName? name, value with
    | none, _ => .error .unknownArgument
    | some setting, none => do
      return { ← s.settle with pending := some ⟨setting, none⟩ }
    | some setting, some value => do
      let s ← s.settle
      return { s with given := ← s.given.assign setting value }

def takeShort (place : Place) (s : State) (letter : Char) : Except UsageError State :=
  if letter = 'h' then s.stop .help
  else if letter = 'V' && place = .front then s.stop .version
  else .error .unknownArgument

/-- A plain word that is not the value of an option. -/
def takeWord (place : Place) (s : State) (word : String) : Except UsageError State :=
  if s.given.words.length < place.capacity then do
    let s ← s.settle
    return { s with given := { s.given with words := s.given.words ++ [word] } }
  else if place = .front && !(s.escaped && isCommandName word) then .error .invalidCommand
  else .error .unknownArgument

end State

/-- The answer to a request for help on a topic. -/
def helpOn : List String → UsageError
  | [] => .help
  | [topic] => if isCommandName topic then .help else .invalidCommand
  | _ => .invalidCommand

/-- Reads the words of one place. In front of the command that is up to the command, which is
    returned with the words after it. -/
def scan (place : Place) (s : State) :
    List String → Except UsageError (State × Option (Place × List String))
  | [] => .ok (s, none)
  | word :: rest =>
    if s.escaped then do scan place (← s.takeWord place word) rest
    else if place = .front && s.awaiting?.isNone && isCommandName word then
      -- Options that wait to be settled are left to those who read the rest.
      match Place.ofName? word with
      | some inner => .ok (s, some (inner, rest))
      | none => .error (helpOn rest)
    else
      match Word.ofString word with
      | .escape => scan place { s with escaped := true } rest
      | .long name value => do scan place (← s.takeLong place name value) rest
      | .short letter => do scan place (← s.takeShort place letter) rest
      | .plain =>
        match s.awaiting? with
        | some setting => scan place { s with pending := some ⟨setting, some word⟩ } rest
        | none => do scan place (← s.takeWord place word) rest

/-- The command of a place, from what was given there. -/
def commandAt (g : Given) : Place → Except UsageError Command
  | .front => .error (if g = .nothing then .empty else .missingCommand)
  | .types => .ok (.types g.json)
  | .libs => .ok .libs
  | .check => .ok .check
  | .method =>
    match g.words with
    | [receiver, name] => .ok (.method receiver name)
    | _ => .error .missingArgument

end Arguments

open Arguments in
/-- What a command line asks for. The options in front of the command are settled last. -/
def Invocation.ofArguments (args : List String) : Except UsageError Invocation := do
  let (front, inner) ← scan .front .start args
  match inner with
  | none =>
    let front ← front.settle
    return ⟨← commandAt front.given .front, front.given.options .nothing⟩
  | some (place, rest) =>
    let (inner, _) ← scan place .start rest
    let inner ← inner.settle
    let command ← commandAt inner.given place
    let front ← front.settle
    return ⟨command, front.given.options inner.given⟩

end DeclLang
