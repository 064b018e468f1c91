import DeclLang.Proofs.Syntax.Moves

/-!
# Moved programs: where a text stands shows in the spans of its program only

Tokens that stand further down in a text are parsed like the same tokens where they stood, and every
span of the program, or of the problems that are met, is moved with them (`Program.ofTokens_shift`).
Only the end of the file must be among the tokens: without it, it is taken to be at the start.
-/

namespace DeclLang

/-! ## What is moved -/

namespace TypeExpr

def shift (offset : Nat) : TypeExpr → TypeExpr
  | .named name => .named (name.shift offset)
  | .generic base arg span => .generic base (arg.shift offset) (span.shift offset)

theorem shift_eq (offset : Nat) (t : TypeExpr) :
    t.shift offset = t.mapSpans (Span.shift offset) := by
  induction t with
  | named name => rfl
  | generic base arg span ih =>
    rw [shift, ih]
    rfl

end TypeExpr

def Parameter.shift (offset : Nat) (p : Parameter) : Parameter :=
  ⟨p.name, p.type.shift offset, p.span.shift offset⟩

theorem Parameter.shift_eq (offset : Nat) (p : Parameter) :
    p.shift offset = p.mapSpans (Span.shift offset) := by
  rw [shift, TypeExpr.shift_eq]
  rfl

def MethodDecl.shift (offset : Nat) (m : MethodDecl) : MethodDecl :=
  ⟨m.name.shift offset, m.parameters.map (·.shift offset), m.returns.map (·.shift offset)⟩

theorem MethodDecl.shift_eq (offset : Nat) (m : MethodDecl) :
    m.shift offset = m.mapSpans (Span.shift offset) := by
  rw [shift, funext (Parameter.shift_eq offset), funext (TypeExpr.shift_eq offset)]
  rfl

def Member.shift (offset : Nat) : Member → Member
  | .method decl => .method (decl.shift offset)
  | .inclusion module => .inclusion (module.shift offset)

theorem Member.shift_eq (offset : Nat) (m : Member) :
    m.shift offset = m.mapSpans (Span.shift offset) := by
  cases m with
  | method decl => exact congrArg Member.method (decl.shift_eq offset)
  | inclusion module => rfl

/-- Moves a part of a program, whose own spans `f` moves. -/
def Located.shiftAll {α : Type} (f : Nat → α → α) (offset : Nat) (x : Located α) : Located α :=
  ⟨f offset x.value, x.span.shift offset⟩

theorem Located.shiftAll_eq {α : Type} {f : Nat → α → α} {g : (Span → Span) → α → α} {offset : Nat}
    (h : ∀ a, f offset a = g (Span.shift offset) a) (x : Located α) :
    x.shiftAll f offset = x.mapSpans g (Span.shift offset) := by
  rw [shiftAll, h]
  rfl

def Declaration.shift (offset : Nat) : Declaration → Declaration
  | .classBlock name superclass members =>
    .classBlock (name.shift offset) (superclass.map (·.shift offset))
      (members.map (·.shiftAll Member.shift offset))
  | .moduleBlock name members =>
    .moduleBlock (name.shift offset) (members.map (·.shiftAll Member.shift offset))
  | .libBlock name libname functions =>
    .libBlock (name.shift offset) (libname.map (·.shift offset))
      (functions.map (·.shiftAll MethodDecl.shift offset))
  | .primitive name superclass repr size =>
    .primitive (name.shift offset) (superclass.shift offset) (repr.shift offset)
      (size.shift offset)
  | .method decl => .method (decl.shift offset)
  | .inclusion module => .inclusion (module.shift offset)

theorem Declaration.shift_eq (offset : Nat) (d : Declaration) :
    d.shift offset = d.mapSpans (Span.shift offset) := by
  have hmembers := funext (Located.shiftAll_eq (Member.shift_eq offset))
  have hfunctions := funext (Located.shiftAll_eq (MethodDecl.shift_eq offset))
  cases d with
  | classBlock name superclass members =>
    rw [shift, hmembers]
    rfl
  | moduleBlock name members =>
    rw [shift, hmembers]
    rfl
  | libBlock name libname functions =>
    rw [shift, hfunctions]
    rfl
  | primitive name superclass repr size => rfl
  | method decl => exact congrArg Declaration.method (decl.shift_eq offset)
  | inclusion module => rfl

def Program.shift (offset : Nat) (p : Program) : Program :=
  p.map (·.shiftAll Declaration.shift offset)

theorem Program.shift_eq (offset : Nat) (p : Program) :
    p.shift offset = p.mapSpans (Span.shift offset) := by
  rw [shift, funext (Located.shiftAll_eq (Declaration.shift_eq offset))]
  rfl

/-! ## Parsing what is moved -/

/-- Whether two tokens touch does not depend on where they stand. -/
theorem steady_shift (offset : Nat) (t : Token) : Steady (Span.shift offset) t :=
  fun _ _ => Nat.add_right_cancel_iff

namespace Line

def shift (offset : Nat) (l : Line) : Line :=
  ⟨l.tokens.map (·.shift offset), l.stop.shift offset⟩

/-- Only a file that says where it ends can be moved. -/
theorem ofTokens_shift (offset : Nat) {ts : List Token} (h : ∃ t ∈ ts, t.value = .eof) :
    ofTokens (ts.map (·.shift offset)) = (ofTokens ts).map (·.shift offset) :=
  ofTokens_mapSpans (Span.shift offset) h

end Line

namespace Parsed

def shift (offset : Nat) (p : Parsed) : Parsed :=
  ⟨p.declarations.shift offset, p.problems.map (·.shift offset)⟩

theorem ofLines_shift (offset : Nat) (ls : List Line) :
    ofLines (ls.map (·.shift offset)) = (ofLines ls).shift offset := by
  rw [shift, Program.shift_eq]
  exact ofLines_mapSpans (m := .shift offset) fun _ _ t _ => steady_shift offset t

end Parsed

/-- A program, or its problems, move with the tokens of a file that says where it ends. -/
theorem Program.ofTokens_shift (offset : Nat) {ts : List Token} (h : ∃ t ∈ ts, t.value = .eof) :
    ofTokens (ts.map (·.shift offset)) =
      match ofTokens ts with
      | .ok p => .ok (p.shift offset)
      | .error es => .error (es.map (·.shift offset)) := by
  unfold ofTokens
  rw [Line.ofTokens_shift offset h, Parsed.ofLines_shift]
  dsimp only [Parsed.toExcept, Parsed.shift]
  cases (Parsed.ofLines (Line.ofTokens ts)).problems <;> rfl

end DeclLang
