import DeclLang.Syntax.Problem

/-!
# Lines: the unit of parsing and of recovery

No declaration header and no member goes over the end of its line, so tokens are cut into lines
first and each line is parsed by itself: what is wrong with one line cannot harm the next. The text
ends at the first end-of-file token.
-/

namespace DeclLang

/-- The tokens of one line, and the token that ends it. -/
structure Line where
  tokens : List Token
  stop : Token
deriving DecidableEq, Repr

namespace Line

/-- The end of a file whose tokens do not say where that is. -/
def endOfFile : Token := ⟨.eof, .point 0⟩

/-- Cuts tokens into the first line and the lines below it. -/
def split : List Token → Line × List Line
  | [] => (⟨[], endOfFile⟩, [])
  | t :: ts =>
    match t.value with
    | .eof => (⟨[], t⟩, [])
    | .newline =>
      let (next, below) := split ts
      (⟨[], t⟩, next :: below)
    | _ =>
      let (first, below) := split ts
      (⟨t :: first.tokens, first.stop⟩, below)

def ofTokens (ts : List Token) : List Line :=
  let (first, below) := split ts
  first :: below

def isEmpty (l : Line) : Bool :=
  l.tokens.isEmpty

/-- The token that a line starts with; an empty line starts with its end. -/
def first (l : Line) : Token :=
  l.tokens.headD l.stop

/-- The last token read with a line: the line feed if there is one. -/
def last (l : Line) : Token :=
  match l.stop.value with
  | .eof => l.tokens.getLastD l.stop
  | _ => l.stop

/-- A line from its first token to its last. -/
def span (l : Line) : Span :=
  l.first.span.merge l.last.span

end Line

/-! ## Parsers of a line -/

/-- Reads tokens off the front of a line. The token that ends the line is given beside those still
    to be read: it is never read itself, but it is what a parser finds when nothing else is left. -/
def LineParser (α : Type) : Type :=
  Token → List Token → Except SyntaxError (α × List Token)

namespace LineParser

instance : Monad LineParser where
  pure a := fun _ ts => .ok (a, ts)
  bind p f := fun stop ts =>
    match p stop ts with
    | .ok (a, rest) => f a stop rest
    | .error e => .error e

variable {α : Type}

/-- Fails at the next token. -/
def failAtNext (problem : TokenKind → SyntaxProblem) : LineParser α := fun stop ts =>
  let found := ts.headD stop
  .error ⟨problem found.value, found.span⟩

def failAt (problem : SyntaxProblem) (span : Span) : LineParser α := fun _ _ =>
  .error ⟨problem, span⟩

def unexpected (expected : Expected) : LineParser α :=
  failAtNext (.unexpected expected)

/-- The next token, if it is one that `f` accepts. -/
def accept? (f : Token → Option α) : LineParser (Option (Located α)) := fun _ ts =>
  match ts with
  | [] => .ok (none, [])
  | t :: rest =>
    match f t with
    | some a => .ok (some ⟨a, t.span⟩, rest)
    | none => .ok (none, t :: rest)

/-- The next token, which `f` must accept. -/
def expect (problem : TokenKind → SyntaxProblem) (f : Token → Option α) :
    LineParser (Located α) := do
  match ← accept? f with
  | some a => return a
  | none => failAtNext problem

/-- Accepts one kind of token only. -/
def exactly (kind : TokenKind) (t : Token) : Option Unit :=
  if t.value = kind then some () else none

def keyword (k : Keyword) : LineParser (Located Unit) :=
  expect (.unexpected (.keyword k)) (exactly (.keyword k))

def punctuation (p : Punctuation) : LineParser (Located Unit) :=
  expect (.unexpected (.punctuation p)) (exactly (.punctuation p))

def punctuation? (p : Punctuation) : LineParser (Option (Located Unit)) :=
  accept? (exactly (.punctuation p))

def operator? (text : String) : LineParser (Option (Located Unit)) :=
  accept? (exactly (.operator text))

def identName? (t : Token) : Option String :=
  match t.value with
  | .ident name => some name
  | _ => none

def ident (expected : Expected) : LineParser (Located String) :=
  expect (.unexpected expected) identName?

/-! ### Progress -/

/-- What a parser leaves is what came after the tokens that it read. -/
def Reads (p : LineParser α) : Prop :=
  ∀ stop ts a rest, p stop ts = .ok (a, rest) → ∃ used, ts = used ++ rest

/-- A parser that succeeds only after reading a token. -/
def Consumes (p : LineParser α) : Prop :=
  ∀ stop ts a rest, p stop ts = .ok (a, rest) → ∃ t used, ts = t :: used ++ rest

theorem Consumes.reads {p : LineParser α} (h : Consumes p) : Reads p := by
  intro stop ts a rest hp
  obtain ⟨t, used, rfl⟩ := h stop ts a rest hp
  exact ⟨t :: used, rfl⟩

theorem Consumes.length_lt {p : LineParser α} (h : Consumes p) {stop : Token} {ts rest : List Token}
    {a : α} (hp : p stop ts = .ok (a, rest)) : rest.length < ts.length := by
  obtain ⟨t, used, rfl⟩ := h stop ts a rest hp
  simp only [List.length_append, List.length_cons]
  omega

variable {β : Type}

theorem bind_eq_ok {p : LineParser α} {f : α → LineParser β} {stop : Token} {ts rest : List Token}
    {b : β} (h : (p >>= f) stop ts = .ok (b, rest)) :
    ∃ a mid, p stop ts = .ok (a, mid) ∧ f a stop mid = .ok (b, rest) := by
  simp only [bind] at h
  split at h
  · rename_i a mid hp
    exact ⟨a, mid, hp, h⟩
  · simp at h

theorem reads_pure (a : α) : Reads (pure a : LineParser α) := by
  intro stop ts b rest h
  simp only [pure, Except.ok.injEq, Prod.mk.injEq] at h
  exact ⟨[], h.2⟩

theorem Reads.bind {p : LineParser α} {f : α → LineParser β} (hp : Reads p)
    (hf : ∀ a, Reads (f a)) : Reads (p >>= f) := by
  intro stop ts b rest h
  obtain ⟨a, mid, h₁, h₂⟩ := bind_eq_ok h
  obtain ⟨used, rfl⟩ := hp _ _ _ _ h₁
  obtain ⟨used', rfl⟩ := hf a _ _ _ _ h₂
  exact ⟨used ++ used', by simp⟩

theorem Consumes.bind {p : LineParser α} {f : α → LineParser β} (hp : Consumes p)
    (hf : ∀ a, Reads (f a)) : Consumes (p >>= f) := by
  intro stop ts b rest h
  obtain ⟨a, mid, h₁, h₂⟩ := bind_eq_ok h
  obtain ⟨t, used, rfl⟩ := hp _ _ _ _ h₁
  obtain ⟨used', rfl⟩ := hf a _ _ _ _ h₂
  exact ⟨t, used ++ used', by simp⟩

theorem consumes_failAtNext (problem : TokenKind → SyntaxProblem) :
    Consumes (failAtNext problem : LineParser α) := by
  intro stop ts a rest h
  simp [failAtNext] at h

theorem consumes_failAt (problem : SyntaxProblem) (span : Span) :
    Consumes (failAt problem span : LineParser α) := by
  intro stop ts a rest h
  simp [failAt] at h

theorem accept?_eq_some {f : Token → Option α} {stop : Token} {ts rest : List Token}
    {a : Located α} (h : accept? f stop ts = .ok (some a, rest)) :
    ∃ t, ts = t :: rest ∧ f t = some a.value ∧ a.span = t.span := by
  cases ts with
  | nil => simp [accept?] at h
  | cons t ts =>
    simp only [accept?] at h
    split at h
    · rename_i v hv
      simp only [Except.ok.injEq, Prod.mk.injEq, Option.some.injEq] at h
      obtain ⟨rfl, rfl⟩ := h
      exact ⟨t, rfl, hv, rfl⟩
    · simp at h

theorem expect_eq_ok {problem : TokenKind → SyntaxProblem} {f : Token → Option α}
    {stop : Token} {ts rest : List Token} {a : Located α}
    (h : expect problem f stop ts = .ok (a, rest)) :
    ∃ t, ts = t :: rest ∧ f t = some a.value ∧ a.span = t.span := by
  obtain ⟨o, mid, h₁, h₂⟩ := bind_eq_ok h
  cases o with
  | none => simp [failAtNext] at h₂
  | some b =>
    simp only [pure, Except.ok.injEq, Prod.mk.injEq] at h₂
    obtain ⟨rfl, rfl⟩ := h₂
    exact accept?_eq_some h₁

theorem consumes_expect (problem : TokenKind → SyntaxProblem) (f : Token → Option α) :
    Consumes (expect problem f) := by
  intro stop ts a rest h
  obtain ⟨t, rfl, -, -⟩ := expect_eq_ok h
  exact ⟨t, [], rfl⟩

/-! ### Whole lines -/

/-- Runs a parser on a whole line, of which it must leave nothing. -/
def onLine (p : LineParser α) (l : Line) : Except SyntaxError (Located α) :=
  match p l.stop l.tokens with
  | .error e => .error e
  | .ok (a, []) => .ok ⟨a, l.span⟩
  | .ok (_, t :: _) => .error ⟨.unexpected .lineEnd t.value, t.span⟩

end LineParser

end DeclLang
