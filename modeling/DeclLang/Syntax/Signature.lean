import DeclLang.Syntax.Basic
import DeclLang.Syntax.Line

/-!
# Signatures: types, parameters and method headers within a line
-/

namespace DeclLang

open LineParser

/-! ## Types -/

/-- Type names start with an uppercase letter. -/
def isTypeName (name : String) : Bool :=
  name.toList.head?.any Char.isUpper

def parseTypeName : LineParser Ident := do
  let name ← ident .typeName
  if isTypeName name.value then return name
  else failAt (.lowercaseTypeName name.value) name.span

theorem consumes_parseTypeName : Consumes parseTypeName := by
  refine Consumes.bind (consumes_expect _ _) fun name => ?_
  split
  · exact reads_pure _
  · exact (consumes_failAt _ _).reads

/-- The bracket after the argument of a generic type. -/
def closeGeneric (name : Ident) (arg : TypeExpr) : LineParser TypeExpr := do
  let close ← punctuation .rightBracket
  return .generic name.value arg (name.span.merge close.span)

theorem consumes_closeGeneric (name : Ident) (arg : TypeExpr) : Consumes (closeGeneric name arg) :=
  Consumes.bind (consumes_expect _ _) fun _ => reads_pure _

/-- A name, or a name and its argument in brackets. -/
def parseType (stop : Token) : List Token → Except SyntaxError (TypeExpr × List Token)
  | [] => unexpected .typeName stop []
  | t :: ts =>
    match parseTypeName stop [t], ts with
    | .error e, _ => .error e
    | .ok (name, _), [] => .ok (.named name, [])
    | .ok (name, _), u :: inner =>
      if u.value = .punctuation .leftBracket then
        match parseType stop inner with
        | .error e => .error e
        | .ok (arg, after) => closeGeneric name arg stop after
      else .ok (.named name, u :: inner)

theorem consumes_parseType : Consumes parseType := by
  intro stop ts
  fun_induction parseType stop ts with
  | case1 => exact consumes_failAtNext _ stop []
  | case2 => simp
  | case3 t =>
    intro a rest h
    simp only [Except.ok.injEq, Prod.mk.injEq] at h
    exact ⟨t, [], by simp [h.2]⟩
  | case4 => simp
  | case5 t name _ u inner _ _ arg after harg ih =>
    intro a rest h
    obtain ⟨v, used, rfl⟩ := ih arg after harg
    obtain ⟨w, used', rfl⟩ := consumes_closeGeneric name arg stop after a rest h
    exact ⟨t, u :: v :: used ++ w :: used', by simp⟩
  | case6 t =>
    intro a rest h
    simp only [Except.ok.injEq, Prod.mk.injEq] at h
    exact ⟨t, [], by simp [h.2]⟩

/-! ## Parameters -/

/-- A name and its type. -/
def parseParameter : LineParser Parameter := do
  let name ← ident .parameterName
  let _ ← expect (.missingParameterType name.value) (exactly (.punctuation .colon))
  let type ← parseType
  return ⟨name.value, type, name.span.merge type.span⟩

theorem consumes_parseParameter : Consumes parseParameter :=
  Consumes.bind (consumes_expect _ _) fun _ =>
    Reads.bind (consumes_expect _ _).reads fun _ =>
      Reads.bind consumes_parseType.reads fun _ => reads_pure _

/-- One or more parameters, with commas between them. -/
def parseParameters (stop : Token) (ts : List Token) :
    Except SyntaxError (List Parameter × List Token) :=
  match _h : parseParameter stop ts with
  | .error e => .error e
  | .ok (p, []) => .ok ([p], [])
  | .ok (p, u :: after) =>
    if u.value = .punctuation .comma then
      match parseParameters stop after with
      | .error e => .error e
      | .ok (ps, rest) => .ok (p :: ps, rest)
    else .ok ([p], u :: after)
termination_by ts.length
decreasing_by
  have h := consumes_parseParameter.length_lt _h
  rw [List.length_cons] at h
  omega

/-- The parameters of a method in their parentheses, if it has any. -/
def parseParameterList : LineParser (List Parameter) := do
  match ← punctuation? .leftParen with
  | none => return []
  | some _ =>
    match ← punctuation? .rightParen with
    | some _ => return []
    | none =>
      let parameters ← parseParameters
      let _ ← punctuation .rightParen
      return parameters

/-! ## Methods -/

def operatorText? (t : Token) : Option String :=
  match t.value with
  | .operator text => some text
  | _ => none

/-- An `=` that touches the name before it makes that the name of a setter, as in `value=`. -/
def parseSetter (name : Ident) : LineParser Ident := do
  let touches (t : Token) := t.value = .operator "=" ∧ t.span.start = name.span.stop
  match ← accept? fun t => if touches t then some () else none with
  | some eq => return ⟨name.value ++ "=", name.span.merge eq.span⟩
  | none => return name

/-- The rest of `[]` or `[]=` after its first bracket. -/
def parseIndexer (bracket : Span) : LineParser Ident := do
  let close ← punctuation .rightBracket
  match ← accept? (exactly (.operator "=")) with
  | some eq => return ⟨"[]=", bracket.merge eq.span⟩
  | none => return ⟨"[]", bracket.merge close.span⟩

/-- An identifier, a setter, an operator or an indexer. -/
def parseMethodName : LineParser Ident := do
  match ← accept? identName? with
  | some name => parseSetter name
  | none =>
    match ← accept? operatorText? with
    | some operator => return operator
    | none =>
      match ← punctuation? .leftBracket with
      | some bracket => parseIndexer bracket.span
      | none => unexpected .methodName

/-- What follows the name of a method: its parameters and the type that it returns. -/
def parseMethodTail (name : Ident) : LineParser MethodDecl := do
  let parameters ← parseParameterList
  match ← punctuation? .colon with
  | some _ => return ⟨name, parameters, some (← parseType)⟩
  | none => return ⟨name, parameters, none⟩

def parseMethod : LineParser MethodDecl := do
  let _ ← keyword .method
  parseMethodTail (← parseMethodName)

/-- A foreign function, whose name is a plain identifier. -/
def parseFunction : LineParser MethodDecl := do
  let _ ← keyword .function
  parseMethodTail (← ident .functionName)

def parseInclusion : LineParser Ident := do
  let _ ← keyword .inclusion
  parseTypeName

end DeclLang
