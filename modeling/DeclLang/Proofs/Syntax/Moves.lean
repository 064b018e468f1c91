import DeclLang.Proofs.Source.Motions
import DeclLang.Proofs.Syntax.Phrases
import DeclLang.Syntax.Program

/-!
# Moves: where tokens stand shows in spans only

When the spans of tokens are changed, the tokens are parsed as before, and every span of the program
or of the problems that are met is changed in the same way, if the change agrees with covering two
spans by one and lets every `=` touch what it touched before (`Program.ofTokens_mapSpans`). Nothing
else is ever asked of a span. Only the end of the file must be among the tokens: without it, it is taken
to be at the start.
-/

namespace DeclLang

open LineParser

/-! ## Changes of spans -/

section Nested

variable (f f' : Span → Span)

namespace TypeExpr

def mapSpans (f : Span → Span) : TypeExpr → TypeExpr
  | .named name => .named (name.mapSpan f)
  | .generic base arg span => .generic base (arg.mapSpans f) (f span)

theorem span_mapSpans (t : TypeExpr) : (t.mapSpans f).span = f t.span := by
  cases t <;> rfl

theorem mapSpans_mapSpans (t : TypeExpr) :
    (t.mapSpans f).mapSpans f' = t.mapSpans fun s => f' (f s) := by
  induction t with
  | named name => rfl
  | generic base arg span ih =>
    rw [mapSpans, mapSpans, ih]
    rfl

end TypeExpr

def Parameter.mapSpans (f : Span → Span) (p : Parameter) : Parameter :=
  ⟨p.name, p.type.mapSpans f, f p.span⟩

theorem Parameter.mapSpans_mapSpans (p : Parameter) :
    (p.mapSpans f).mapSpans f' = p.mapSpans fun s => f' (f s) := by
  rw [mapSpans, mapSpans, TypeExpr.mapSpans_mapSpans]
  rfl

def MethodDecl.mapSpans (f : Span → Span) (m : MethodDecl) : MethodDecl :=
  ⟨m.name.mapSpan f, m.parameters.map (·.mapSpans f), m.returns.map (·.mapSpans f)⟩

theorem MethodDecl.mapSpans_mapSpans (m : MethodDecl) :
    (m.mapSpans f).mapSpans f' = m.mapSpans fun s => f' (f s) := by
  simp only [mapSpans, List.map_map, Option.map_map, Function.comp_def,
    Parameter.mapSpans_mapSpans, TypeExpr.mapSpans_mapSpans]
  rfl

def Member.mapSpans (f : Span → Span) : Member → Member
  | .method decl => .method (decl.mapSpans f)
  | .inclusion module => .inclusion (module.mapSpan f)

theorem Member.mapSpans_mapSpans (x : Member) :
    (x.mapSpans f).mapSpans f' = x.mapSpans fun s => f' (f s) := by
  cases x with
  | method decl => exact congrArg Member.method (decl.mapSpans_mapSpans f f')
  | inclusion module => rfl

theorem Located.mapSpans_mapSpans {α : Type} {g : (Span → Span) → α → α}
    (h : ∀ a, g f' (g f a) = g (fun s => f' (f s)) a) (x : Located α) :
    (x.mapSpans g f).mapSpans g f' = x.mapSpans g fun s => f' (f s) :=
  congrArg (Located.mk · _) (h x.value)

def Declaration.mapSpans (f : Span → Span) : Declaration → Declaration
  | .classBlock name superclass members =>
    .classBlock (name.mapSpan f) (superclass.map (·.mapSpan f))
      (members.map (·.mapSpans Member.mapSpans f))
  | .moduleBlock name members =>
    .moduleBlock (name.mapSpan f) (members.map (·.mapSpans Member.mapSpans f))
  | .libBlock name libname functions =>
    .libBlock (name.mapSpan f) (libname.map (·.mapSpan f))
      (functions.map (·.mapSpans MethodDecl.mapSpans f))
  | .primitive name superclass repr size =>
    .primitive (name.mapSpan f) (superclass.mapSpan f) (repr.mapSpan f) (size.mapSpan f)
  | .method decl => .method (decl.mapSpans f)
  | .inclusion module => .inclusion (module.mapSpan f)

theorem Declaration.mapSpans_mapSpans (d : Declaration) :
    (d.mapSpans f).mapSpans f' = d.mapSpans fun s => f' (f s) := by
  have hmember := Located.mapSpans_mapSpans f f' (Member.mapSpans_mapSpans f f')
  have hfunction := Located.mapSpans_mapSpans f f' (MethodDecl.mapSpans_mapSpans f f')
  cases d with
  | classBlock name superclass members =>
    simp only [mapSpans, List.map_map, Option.map_map, Function.comp_def, hmember]
    rfl
  | moduleBlock name members =>
    simp only [mapSpans, List.map_map, Function.comp_def, hmember]
    rfl
  | libBlock name libname functions =>
    simp only [mapSpans, List.map_map, Option.map_map, Function.comp_def, hfunction]
    rfl
  | primitive name superclass repr size => rfl
  | method decl => exact congrArg Declaration.method (decl.mapSpans_mapSpans f f')
  | inclusion module => rfl

def Program.mapSpans (f : Span → Span) (p : Program) : Program :=
  p.map (·.mapSpans Declaration.mapSpans f)

theorem Program.mapSpans_mapSpans (p : Program) :
    (p.mapSpans f).mapSpans f' = p.mapSpans fun s => f' (f s) := by
  have hdeclaration := Located.mapSpans_mapSpans f f' (Declaration.mapSpans_mapSpans f f')
  simp only [mapSpans, List.map_map, Function.comp_def, hdeclaration]

end Nested

/-! ## Lines -/

namespace Line

def mapSpans (f : Span → Span) (l : Line) : Line :=
  ⟨l.tokens.map (·.mapSpan f), l.stop.mapSpan f⟩

variable (f : Span → Span)

theorem isEmpty_mapSpans (l : Line) : (l.mapSpans f).isEmpty = l.isEmpty := by
  simp [mapSpans, isEmpty]

theorem first_mapSpans (l : Line) : (l.mapSpans f).first = l.first.mapSpan f := by
  simp only [mapSpans, first, List.headD_eq_head?_getD, List.head?_map]
  cases l.tokens.head? <;> rfl

theorem last_mapSpans (l : Line) : (l.mapSpans f).last = l.last.mapSpan f := by
  have hend : (l.tokens.map (·.mapSpan f)).getLastD (l.stop.mapSpan f) =
      (l.tokens.getLastD l.stop).mapSpan f := by
    rw [List.getLastD_eq_getLast?, List.getLastD_eq_getLast?, List.getLast?_map]
    cases l.tokens.getLast? <;> rfl
  unfold last mapSpans
  dsimp only [Located.mapSpan]
  split
  · exact hend
  · rfl

theorem span_mapSpans (m : Motion) (l : Line) : (l.mapSpans m.apply).span = m.apply l.span := by
  rw [span, first_mapSpans, last_mapSpans]
  exact m.merge_apply _ _

theorem split_eof {t : Token} (h : t.value = .eof) (ts : List Token) :
    split (t :: ts) = (⟨[], t⟩, []) := by
  rw [split, h]

theorem split_newline {t : Token} (h : t.value = .newline) (ts : List Token) :
    split (t :: ts) = (⟨[], t⟩, ofTokens ts) := by
  rw [split, h]
  rfl

theorem split_inner {t : Token} (heof : t.value ≠ .eof) (hnewline : t.value ≠ .newline)
    (ts : List Token) :
    split (t :: ts) = (⟨t :: (split ts).1.tokens, (split ts).1.stop⟩, (split ts).2) := by
  rw [split]
  split
  · rename_i h
    exact absurd h heof
  · rename_i h
    exact absurd h hnewline
  · rfl

theorem split_mapSpans {ts : List Token} (h : ∃ t ∈ ts, t.value = .eof) :
    split (ts.map (·.mapSpan f)) =
      ((split ts).1.mapSpans f, (split ts).2.map (·.mapSpans f)) := by
  induction ts with
  | nil => simp at h
  | cons t ts ih =>
    rw [List.map_cons]
    by_cases heof : t.value = .eof
    · rw [split_eof heof, split_eof (t := t.mapSpan f) heof]
      rfl
    have hrest : ∃ u ∈ ts, u.value = .eof := by
      have ⟨u, hu, hvalue⟩ := h
      rcases List.mem_cons.mp hu with rfl | hu
      · exact absurd hvalue heof
      · exact ⟨u, hu, hvalue⟩
    by_cases hnewline : t.value = .newline
    · rw [split_newline hnewline, split_newline (t := t.mapSpan f) hnewline, ofTokens, ih hrest]
      rfl
    · rw [split_inner heof hnewline, split_inner (t := t.mapSpan f) heof hnewline, ih hrest]
      rfl

/-- Only a file that says where it ends can be moved. -/
theorem ofTokens_mapSpans {ts : List Token} (h : ∃ t ∈ ts, t.value = .eof) :
    ofTokens (ts.map (·.mapSpan f)) = (ofTokens ts).map (·.mapSpans f) := by
  rw [ofTokens, split_mapSpans f h]
  rfl

end Line

/-! ## Parsers of a line -/

/-- A `=` that touches what it touched before. -/
def Steady (f : Span → Span) (t : Token) : Prop :=
  t.value = .operator "=" → ∀ a : Span, (f t.span).start = (f a).stop ↔ t.span.start = a.stop

section Moves

variable {m : Motion} {α β γ γ' : Type}

/-- Two results that are the same but for their spans: those of the second are changed, `g` being
    how the value changes with them. -/
inductive Moved (m : Motion) (g : α → β) :
    Except SyntaxError (α × List Token) → Except SyntaxError (β × List Token) → Prop
  | ok (a : α) {rest : List Token} : (∀ t ∈ rest, Steady m.apply t) →
      Moved m g (.ok (a, rest)) (.ok (g a, rest.map (·.mapSpan m.apply)))
  | error (e : SyntaxError) : Moved m g (.error e) (.error (e.mapSpan m.apply))

theorem Moved.of_ok {g : α → β} {a : α} {rest : List Token} {result : Except SyntaxError (β × List Token)}
    (h : Moved m g (.ok (a, rest)) result) :
    result = .ok (g a, rest.map (·.mapSpan m.apply)) ∧ ∀ t ∈ rest, Steady m.apply t := by
  cases h with
  | ok _ hrest => exact ⟨rfl, hrest⟩

theorem Moved.of_error {g : α → β} {e : SyntaxError} {result : Except SyntaxError (β × List Token)}
    (h : Moved m g (.error e) result) : result = .error (e.mapSpan m.apply) := by
  cases h
  rfl

/-- From moved tokens `q` reads what `p` reads from them where they stood, changed by `g`. The two
    differ in what they were given of the parts that are read already, which are moved as well. -/
def Moves (m : Motion) (g : α → β) (p : LineParser α) (q : LineParser β) : Prop :=
  ∀ stop ts, (∀ t ∈ ts, Steady m.apply t) →
    Moved m g (p stop ts) (q (stop.mapSpan m.apply) (ts.map (·.mapSpan m.apply)))

theorem moves_pure {g : α → β} {a : α} {b : β} (h : b = g a) :
    Moves m g (pure a) (pure b) := by
  intro stop ts hts
  rw [h]
  exact .ok a hts

theorem Moves.bind {g : α → β} {g' : γ → γ'} {p : LineParser α} {q : LineParser β}
    {next : α → LineParser γ} {next' : β → LineParser γ'} (h : Moves m g p q)
    (hnext : ∀ a, Moves m g' (next a) (next' (g a))) : Moves m g' (p >>= next) (q >>= next') := by
  intro stop ts hts
  have hfirst := h stop ts hts
  simp only [Bind.bind]
  generalize p stop ts = first at hfirst ⊢
  generalize q (stop.mapSpan m.apply) (ts.map (·.mapSpan m.apply)) = first' at hfirst ⊢
  cases hfirst with
  | error e => exact .error e
  | @ok a rest hrest => exact hnext a stop rest hrest

theorem Moves.map {g : α → β} {g' : γ → γ'} {p : LineParser α} {q : LineParser β}
    (h : Moves m g p q) {wrap : α → γ} {wrap' : β → γ'} (hwrap : ∀ a, wrap' (g a) = g' (wrap a)) :
    Moves m g' (wrap <$> p) (wrap' <$> q) :=
  h.bind fun a => moves_pure (hwrap a)

theorem moves_failAtNext (g : α → β) (problem : TokenKind → SyntaxProblem) :
    Moves m g (failAtNext problem) (failAtNext problem) := by
  intro stop ts _
  cases ts <;> exact .error _

theorem moves_failAt (g : α → β) (problem : SyntaxProblem) (span : Span) :
    Moves m g (failAt problem span) (failAt problem (m.apply span)) :=
  fun _ _ _ => .error _

theorem moves_accept?_of {f g : Token → Option α}
    (h : ∀ t, Steady m.apply t → g (t.mapSpan m.apply) = f t) :
    Moves m (Option.map (·.mapSpan m.apply)) (accept? f) (accept? g) := by
  intro stop ts hts
  cases ts with
  | nil => exact .ok none hts
  | cons t ts =>
    obtain ⟨ht, hrest⟩ := List.forall_mem_cons.mp hts
    rw [List.map_cons, accept?, accept?, h t ht]
    cases f t with
    | none => exact .ok none hts
    | some a => exact Moved.ok (some (Located.mk a t.span)) hrest

theorem moves_accept? {f : Token → Option α} (h : ∀ t, f (t.mapSpan m.apply) = f t) :
    Moves m (Option.map (·.mapSpan m.apply)) (accept? f) (accept? f) :=
  moves_accept?_of fun t _ => h t

theorem moves_expect (problem : TokenKind → SyntaxProblem) {f : Token → Option α}
    (h : ∀ t : Token, f (t.mapSpan m.apply) = f t) :
    Moves m (·.mapSpan m.apply) (expect problem f) (expect problem f) := by
  refine (moves_accept? h).bind fun o => ?_
  cases o with
  | none => exact moves_failAtNext _ problem
  | some a => exact moves_pure rfl

theorem moves_punctuation? (p : Punctuation) :
    Moves m (Option.map (·.mapSpan m.apply)) (punctuation? p) (punctuation? p) :=
  moves_accept? fun _ => rfl

theorem moves_keyword (k : Keyword) : Moves m (·.mapSpan m.apply) (keyword k) (keyword k) :=
  moves_expect _ fun _ => rfl

theorem moves_punctuation (p : Punctuation) :
    Moves m (·.mapSpan m.apply) (punctuation p) (punctuation p) :=
  moves_expect _ fun _ => rfl

theorem moves_ident (expected : Expected) :
    Moves m (·.mapSpan m.apply) (ident expected) (ident expected) :=
  moves_expect _ fun _ => rfl

/-- The lines whose tokens can be moved. -/
def Line.Steady (f : Span → Span) (l : Line) : Prop :=
  ∀ t ∈ l.tokens, DeclLang.Steady f t

theorem Line.steady_split {f : Span → Span} {ts : List Token}
    (h : ∀ t ∈ ts, DeclLang.Steady f t) :
    (split ts).1.Steady f ∧ ∀ l ∈ (split ts).2, l.Steady f := by
  have hnone (stop : Token) : Line.Steady f ⟨[], stop⟩ := List.forall_mem_nil _
  induction ts with
  | nil => exact ⟨hnone _, List.forall_mem_nil _⟩
  | cons t ts ih =>
    obtain ⟨ht, hts⟩ := List.forall_mem_cons.mp h
    obtain ⟨hfirst, hbelow⟩ := ih hts
    by_cases heof : t.value = .eof
    · rw [split_eof heof]
      exact ⟨hnone _, List.forall_mem_nil _⟩
    by_cases hnewline : t.value = .newline
    · rw [split_newline hnewline]
      exact ⟨hnone _, List.forall_mem_cons.mpr ⟨hfirst, hbelow⟩⟩
    · rw [split_inner heof hnewline]
      exact ⟨List.forall_mem_cons.mpr ⟨ht, hfirst⟩, hbelow⟩

theorem Line.steady_ofTokens {f : Span → Span} {ts : List Token}
    (h : ∀ t ∈ ts, DeclLang.Steady f t) : ∀ l ∈ ofTokens ts, l.Steady f :=
  List.forall_mem_cons.mpr (steady_split h)

/-- A result whose spans are changed. -/
def changed (g : (Span → Span) → α → α) (f : Span → Span) :
    Except SyntaxError (Located α) → Except SyntaxError (Located α)
  | .ok a => .ok (a.mapSpans g f)
  | .error e => .error (e.mapSpan f)

theorem Moves.onLine {g : (Span → Span) → α → α} {p : LineParser α} (h : Moves m (g m.apply) p p)
    {l : Line} (hl : l.Steady m.apply) :
    p.onLine (l.mapSpans m.apply) = changed g m.apply (p.onLine l) := by
  have hline := h l.stop l.tokens hl
  unfold LineParser.onLine
  rw [Line.span_mapSpans]
  dsimp only [Line.mapSpans]
  generalize p l.stop l.tokens = result at hline ⊢
  generalize p (l.stop.mapSpan m.apply) (l.tokens.map (·.mapSpan m.apply)) = result' at hline ⊢
  cases hline with
  | error e => rfl
  | @ok a rest _ => cases rest <;> rfl

end Moves

/-! ### Types and parameters -/

variable {m : Motion}

theorem moves_parseTypeName : Moves m (·.mapSpan m.apply) parseTypeName parseTypeName := by
  refine (moves_ident .typeName).bind fun name => ?_
  show Moves m _ (if isTypeName name.value then _ else _)
    (if isTypeName name.value then _ else _)
  split
  · exact moves_pure rfl
  · exact moves_failAt _ _ _

theorem moves_closeGeneric (name : Ident) (arg : TypeExpr) :
    Moves m (·.mapSpans m.apply) (closeGeneric name arg)
      (closeGeneric (name.mapSpan m.apply) (arg.mapSpans m.apply)) := by
  refine (moves_punctuation .rightBracket).bind fun close => moves_pure ?_
  show TypeExpr.generic _ _ ((m.apply name.span).merge (m.apply close.span)) = _
  rw [m.merge_apply]
  rfl

theorem moves_parseType : Moves m (·.mapSpans m.apply) parseType parseType := by
  intro stop ts hts
  fun_induction parseType stop ts with
  | case1 => exact .error _
  | case2 t ts e he =>
    have hname := moves_parseTypeName stop [t]
      (List.forall_mem_singleton.mpr (hts t List.mem_cons_self))
    rw [he] at hname
    rw [List.map_cons]
    unfold parseType
    rw [← List.map_singleton, hname.of_error]
    exact .error e
  | case3 t name rest hok =>
    have hname := moves_parseTypeName stop [t] hts
    rw [hok] at hname
    rw [List.map_singleton]
    unfold parseType
    rw [← List.map_singleton, hname.of_ok.1]
    exact .ok (TypeExpr.named name) (List.forall_mem_nil _)
  | case4 t name rest u inner hok hu e harg ih =>
    obtain ⟨ht, hu', hinner⟩ := List.forall_mem_cons.mp hts |>.imp_right List.forall_mem_cons.mp
    have hname := moves_parseTypeName stop [t] (List.forall_mem_singleton.mpr ht)
    have hbracket : (u.mapSpan m.apply).value = .punctuation .leftBracket := hu
    have harg' := ih hinner
    rw [hok] at hname
    rw [harg] at harg'
    rw [List.map_cons, List.map_cons]
    unfold parseType
    rw [← List.map_singleton, hname.of_ok.1]
    dsimp only
    rw [if_pos hbracket, harg'.of_error]
    exact .error e
  | case5 t name rest u inner hok hu arg after harg ih =>
    obtain ⟨ht, hu', hinner⟩ := List.forall_mem_cons.mp hts |>.imp_right List.forall_mem_cons.mp
    have hname := moves_parseTypeName stop [t] (List.forall_mem_singleton.mpr ht)
    have hbracket : (u.mapSpan m.apply).value = .punctuation .leftBracket := hu
    have harg' := ih hinner
    rw [hok] at hname
    rw [harg] at harg'
    rw [List.map_cons, List.map_cons]
    unfold parseType
    rw [← List.map_singleton, hname.of_ok.1]
    dsimp only
    rw [if_pos hbracket, harg'.of_ok.1]
    exact moves_closeGeneric name arg stop after harg'.of_ok.2
  | case6 t name rest u inner hok hu =>
    obtain ⟨ht, hrest⟩ := List.forall_mem_cons.mp hts
    have hname := moves_parseTypeName stop [t] (List.forall_mem_singleton.mpr ht)
    have hbracket : ¬ (u.mapSpan m.apply).value = .punctuation .leftBracket := hu
    rw [hok] at hname
    rw [List.map_cons, List.map_cons]
    unfold parseType
    rw [← List.map_singleton, hname.of_ok.1]
    dsimp only
    rw [if_neg hbracket]
    exact .ok (TypeExpr.named name) hrest

theorem moves_parseParameter : Moves m (·.mapSpans m.apply) parseParameter parseParameter := by
  refine (moves_ident .parameterName).bind fun name => ?_
  refine (moves_expect (.missingParameterType name.value) fun _ => rfl).bind fun _ => ?_
  refine moves_parseType.bind fun type => moves_pure ?_
  show Parameter.mk name.value (type.mapSpans m.apply)
    ((m.apply name.span).merge (type.mapSpans m.apply).span) = _
  rw [TypeExpr.span_mapSpans, m.merge_apply]
  rfl

theorem moves_parseParameters :
    Moves m (List.map (·.mapSpans m.apply)) parseParameters parseParameters := by
  intro stop ts hts
  have hfirst := moves_parseParameter stop ts hts
  fun_induction parseParameters stop ts with
  | case1 ts e he =>
    rw [he] at hfirst
    rw [parseParameters_eq, hfirst.of_error]
    exact .error e
  | case2 ts p hp =>
    rw [hp] at hfirst
    rw [parseParameters_eq, hfirst.of_ok.1]
    exact .ok [p] (List.forall_mem_nil _)
  | case3 ts p u after hp hu e he ih =>
    have hcomma : (u.mapSpan m.apply).value = .punctuation .comma := hu
    rw [hp] at hfirst
    have hafter := (List.forall_mem_cons.mp hfirst.of_ok.2).2
    have hrest := ih hafter (moves_parseParameter stop after hafter)
    rw [he] at hrest
    rw [parseParameters_eq, hfirst.of_ok.1, List.map_cons]
    dsimp only
    rw [if_pos hcomma, hrest.of_error]
    exact .error e
  | case4 ts p u after hp hu ps rest hps ih =>
    have hcomma : (u.mapSpan m.apply).value = .punctuation .comma := hu
    rw [hp] at hfirst
    have hafter := (List.forall_mem_cons.mp hfirst.of_ok.2).2
    have hrest := ih hafter (moves_parseParameter stop after hafter)
    rw [hps] at hrest
    rw [parseParameters_eq, hfirst.of_ok.1, List.map_cons]
    dsimp only
    rw [if_pos hcomma, hrest.of_ok.1]
    exact .ok (p :: ps) hrest.of_ok.2
  | case5 ts p u after hp hu =>
    have hcomma : ¬ (u.mapSpan m.apply).value = .punctuation .comma := hu
    rw [hp] at hfirst
    rw [parseParameters_eq, hfirst.of_ok.1, List.map_cons]
    dsimp only
    rw [if_neg hcomma]
    exact .ok [p] hfirst.of_ok.2

theorem moves_parseParameterList :
    Moves m (List.map (·.mapSpans m.apply)) parseParameterList parseParameterList := by
  refine (moves_punctuation? .leftParen).bind fun opening => ?_
  cases opening with
  | none => exact moves_pure rfl
  | some opening =>
    refine (moves_punctuation? .rightParen).bind fun closing => ?_
    cases closing with
    | some closing => exact moves_pure rfl
    | none =>
      refine moves_parseParameters.bind fun parameters => ?_
      exact (moves_punctuation .rightParen).bind fun _ => moves_pure rfl

/-! ### Methods -/

/-- The only place where it matters what touches what. -/
theorem moves_parseSetter (name : Ident) :
    Moves m (·.mapSpan m.apply) (parseSetter name) (parseSetter (name.mapSpan m.apply)) := by
  refine (moves_accept?_of fun t ht => ?_).bind fun eq => ?_
  · have htouches : t.value = .operator "=" ∧ t.span.start = name.span.stop ↔
        t.value = .operator "=" ∧ (m.apply t.span).start = (m.apply name.span).stop :=
      and_congr_right fun heq => (ht heq name.span).symm
    simp only [htouches]
    rfl
  · cases eq with
    | none => exact moves_pure rfl
    | some eq =>
      refine moves_pure ?_
      show Located.mk _ ((m.apply name.span).merge (m.apply eq.span)) = _
      rw [m.merge_apply]
      rfl

theorem moves_parseIndexer (bracket : Span) :
    Moves m (·.mapSpan m.apply) (parseIndexer bracket) (parseIndexer (m.apply bracket)) := by
  refine (moves_punctuation .rightBracket).bind fun close => ?_
  refine (moves_accept? fun _ => rfl).bind fun eq => ?_
  cases eq with
  | none =>
    refine moves_pure ?_
    show Located.mk _ ((m.apply bracket).merge (m.apply close.span)) = _
    rw [m.merge_apply]
    rfl
  | some eq =>
    refine moves_pure ?_
    show Located.mk _ ((m.apply bracket).merge (m.apply eq.span)) = _
    rw [m.merge_apply]
    rfl

theorem moves_parseMethodName :
    Moves m (·.mapSpan m.apply) parseMethodName parseMethodName := by
  refine (moves_accept? fun _ => rfl).bind fun name => ?_
  cases name with
  | some name => exact moves_parseSetter name
  | none =>
    refine (moves_accept? fun _ => rfl).bind fun operator => ?_
    cases operator with
    | some operator => exact moves_pure rfl
    | none =>
      refine (moves_punctuation? .leftBracket).bind fun bracket => ?_
      cases bracket with
      | some bracket => exact moves_parseIndexer bracket.span
      | none => exact moves_failAtNext _ _

theorem moves_parseMethodTail (name : Ident) :
    Moves m (·.mapSpans m.apply) (parseMethodTail name)
      (parseMethodTail (name.mapSpan m.apply)) := by
  refine moves_parseParameterList.bind fun parameters => ?_
  refine (moves_punctuation? .colon).bind fun colon => ?_
  cases colon with
  | none => exact moves_pure rfl
  | some colon => exact moves_parseType.bind fun type => moves_pure rfl

theorem moves_parseMethod : Moves m (·.mapSpans m.apply) parseMethod parseMethod :=
  (moves_keyword .method).bind fun _ => moves_parseMethodName.bind moves_parseMethodTail

theorem moves_parseFunction : Moves m (·.mapSpans m.apply) parseFunction parseFunction :=
  (moves_keyword .function).bind fun _ => (moves_ident .functionName).bind moves_parseMethodTail

theorem moves_parseInclusion : Moves m (·.mapSpan m.apply) parseInclusion parseInclusion :=
  (moves_keyword .inclusion).bind fun _ => moves_parseTypeName

theorem moves_parseMember : Moves m (·.mapSpans m.apply) parseMember parseMember := by
  intro stop ts hts
  have hnext : ((ts.map (·.mapSpan m.apply)).headD (stop.mapSpan m.apply)).value =
      (ts.headD stop).value := by
    cases ts <;> rfl
  have hmethod : Moves m (·.mapSpans m.apply) (Member.method <$> parseMethod) _ :=
    moves_parseMethod.map fun _ => rfl
  have hinclusion : Moves m (·.mapSpans m.apply) (Member.inclusion <$> parseInclusion) _ :=
    moves_parseInclusion.map fun _ => rfl
  unfold parseMember
  rw [hnext]
  split
  · exact hmethod stop ts hts
  · exact hinclusion stop ts hts
  · exact moves_failAtNext _ _ stop ts hts

/-! ### Headers -/

/-- Changes a name and what else a header states. -/
def mapHeaderSpans (f : Span → Span) (x : Ident × Option (Located String)) :
    Ident × Option (Located String) :=
  (x.1.mapSpan f, x.2.map (·.mapSpan f))

theorem moves_parseClassHeader :
    Moves m (mapHeaderSpans m.apply) parseClassHeader parseClassHeader := by
  refine (moves_keyword .classBlock).bind fun _ => moves_parseTypeName.bind fun name => ?_
  refine (moves_accept? fun _ => rfl).bind fun mark => ?_
  cases mark with
  | none => exact moves_pure rfl
  | some mark => exact moves_parseTypeName.bind fun superclass => moves_pure rfl

theorem moves_parseModuleHeader :
    Moves m (·.mapSpan m.apply) parseModuleHeader parseModuleHeader :=
  (moves_keyword .moduleBlock).bind fun _ => moves_parseTypeName

theorem moves_parseLibHeader :
    Moves m (mapHeaderSpans m.apply) parseLibHeader parseLibHeader := by
  refine (moves_keyword .libBlock).bind fun _ => moves_parseTypeName.bind fun name => ?_
  refine (moves_punctuation? .leftParen).bind fun opening => ?_
  cases opening with
  | none => exact moves_pure rfl
  | some opening =>
    refine (moves_expect _ fun _ => rfl).bind fun libname => ?_
    exact (moves_punctuation .rightParen).bind fun _ => moves_pure rfl

theorem moves_parsePrimitive :
    Moves m (·.mapSpans m.apply) parsePrimitive parsePrimitive := by
  refine (moves_keyword .primitive).bind fun _ => moves_parseTypeName.bind fun name => ?_
  refine (moves_expect _ fun _ => rfl).bind fun _ => moves_parseTypeName.bind fun superclass => ?_
  refine (moves_punctuation .colon).bind fun _ => (moves_ident _).bind fun repr => ?_
  refine (moves_expect _ fun _ => rfl).bind fun size => ?_
  show Moves m _ (if size.value < byteSizeLimit then _ else _)
    (if size.value < byteSizeLimit then _ else _)
  split
  · exact moves_pure rfl
  · exact moves_failAt _ _ _

/-! ## Blocks and files -/

namespace Body

variable {α : Type}

def mapSpans (g : (Span → Span) → α → α) (f : Span → Span) (b : Body α) : Body α where
  items := b.items.map (·.mapSpans g f)
  problems := b.problems.map (·.mapSpan f)
  closing := b.closing.map (·.mapSpans f)
  rest := b.rest.map (·.mapSpans f)

theorem read_mapSpans {g : (Span → Span) → α → α} {item : LineParser α}
    (h : Moves m (g m.apply) item item) {ls : List Line} (hls : ∀ l ∈ ls, l.Steady m.apply) :
    read item (ls.map (·.mapSpans m.apply)) = (read item ls).mapSpans g m.apply := by
  induction ls with
  | nil => rfl
  | cons l below ih =>
    obtain ⟨hl, hbelow⟩ := List.forall_mem_cons.mp hls
    rw [List.map_cons, read, read, Line.isEmpty_mapSpans, Line.first_mapSpans, h.onLine hl,
      ih hbelow]
    split
    · rfl
    show (if l.first.value = _ then _ else _) = _
    split
    · rfl
    · cases item.onLine l <;> rfl

/-- The line that closes a body and those that it leaves stood below its header. -/
theorem mem_of_mem_read (item : LineParser α) (ls : List Line) :
    (∀ l ∈ (read item ls).closing, l ∈ ls) ∧ ∀ l ∈ (read item ls).rest, l ∈ ls := by
  fun_induction read item ls with
  | case1 => simp
  | case2 l below hempty ih =>
    exact ⟨fun l' hl' => List.mem_cons_of_mem _ (ih.1 l' hl'),
      fun l' hl' => List.mem_cons_of_mem _ (ih.2 l' hl')⟩
  | case3 l below hempty hend =>
    exact ⟨fun l' hl' => Option.mem_some.mp hl' ▸ List.mem_cons_self,
      fun l' hl' => List.mem_cons_of_mem _ hl'⟩
  | case4 l below hempty hend body a hitem ih =>
    exact ⟨fun l' hl' => List.mem_cons_of_mem _ (ih.1 l' hl'),
      fun l' hl' => List.mem_cons_of_mem _ (ih.2 l' hl')⟩
  | case5 l below hempty hend body e hitem ih =>
    exact ⟨fun l' hl' => List.mem_cons_of_mem _ (ih.1 l' hl'),
      fun l' hl' => List.mem_cons_of_mem _ (ih.2 l' hl')⟩

end Body

namespace Outcome

def mapSpans (f : Span → Span) (o : Outcome) : Outcome where
  declaration := o.declaration.map (·.mapSpans Declaration.mapSpans f)
  problems := o.problems.map (·.mapSpan f)
  rest := o.rest.map (·.mapSpans f)

variable {l : Line} {below : List Line}

theorem ofSingle_mapSpans {p : LineParser Declaration}
    (h : Moves m (Declaration.mapSpans m.apply) p p) (hl : l.Steady m.apply) :
    ofSingle p (l.mapSpans m.apply) (below.map (·.mapSpans m.apply)) =
      (ofSingle p l below).mapSpans m.apply := by
  unfold ofSingle
  rw [h.onLine hl]
  cases p.onLine l <;> rfl

theorem ofBlock_mapSpans {α : Type} {g : (Span → Span) → α → α} {item : LineParser α}
    (h : Moves m (g m.apply) item item) (opened : Keyword) (name : Ident)
    {declaration declaration' : List (Located α) → Declaration}
    (hdeclaration : ∀ items, declaration' (items.map (·.mapSpans g m.apply)) =
      (declaration items).mapSpans m.apply) (hbelow : ∀ l ∈ below, l.Steady m.apply) :
    ofBlock opened (name.mapSpan m.apply) item declaration' (l.mapSpans m.apply)
        (below.map (·.mapSpans m.apply)) =
      (ofBlock opened name item declaration l below).mapSpans m.apply := by
  have hend (closing : Line) (hclosing : closing.Steady m.apply) :
      (keyword .blockEnd).onLine (closing.mapSpans m.apply) = _ :=
    (moves_keyword .blockEnd).onLine (g := Located.mapSpan) hclosing
  have hspan (closing : Line) :
      (l.mapSpans m.apply).first.span.merge (closing.mapSpans m.apply).last.span =
        m.apply (l.first.span.merge closing.last.span) := by
    rw [Line.first_mapSpans, Line.last_mapSpans]
    exact m.merge_apply _ _
  have hread := Body.mem_of_mem_read item below
  unfold ofBlock
  rw [Body.read_mapSpans h hbelow]
  dsimp only [Body.mapSpans]
  cases hclosing : (Body.read item below).closing with
  | none =>
    dsimp only [Option.map, mapSpans]
    rw [List.map_append]
    rfl
  | some closing =>
    have hsteady := hbelow closing (hread.1 closing hclosing)
    dsimp only [Option.map]
    rw [hend closing hsteady, hspan, hdeclaration]
    cases (keyword .blockEnd).onLine closing with
    | ok _ => rfl
    | error e =>
      dsimp only [changed, mapSpans]
      rw [List.map_append]
      rfl

theorem ofLine_mapSpans (hl : l.Steady m.apply) (hbelow : ∀ l ∈ below, l.Steady m.apply) :
    ofLine (l.mapSpans m.apply) (below.map (·.mapSpans m.apply)) =
      (ofLine l below).mapSpans m.apply := by
  have hfirst := Line.first_mapSpans m.apply l
  unfold ofLine
  rw [hfirst]
  dsimp only [Located.mapSpan]
  split
  · rw [moves_parseClassHeader.onLine hl]
    cases parseClassHeader.onLine l with
    | error e => rfl
    | ok x => exact ofBlock_mapSpans moves_parseMember _ _ (fun _ => rfl) hbelow
  · rw [moves_parseModuleHeader.onLine (g := Located.mapSpan) hl]
    cases parseModuleHeader.onLine l with
    | error e => rfl
    | ok x => exact ofBlock_mapSpans moves_parseMember _ _ (fun _ => rfl) hbelow
  · rw [moves_parseLibHeader.onLine hl]
    cases parseLibHeader.onLine l with
    | error e => rfl
    | ok x => exact ofBlock_mapSpans moves_parseFunction _ _ (fun _ => rfl) hbelow
  · exact ofSingle_mapSpans moves_parsePrimitive hl
  · exact ofSingle_mapSpans (moves_parseMethod.map fun _ => rfl) hl
  · exact ofSingle_mapSpans (moves_parseInclusion.map fun _ => rfl) hl
  · rfl
  · rfl

/-- The lines that a declaration leaves stood below its first one. -/
theorem mem_of_mem_ofLine : ∀ l' ∈ (ofLine l below).rest, l' ∈ below := by
  have hblock {α : Type} (opened : Keyword) (name : Ident) (item : LineParser α)
      (declaration : List (Located α) → Declaration) :
      ∀ l' ∈ (ofBlock opened name item declaration l below).rest, l' ∈ below := by
    have hread := (Body.mem_of_mem_read item below).2
    unfold ofBlock
    dsimp only
    split
    · exact hread
    · split <;> exact hread
  unfold ofLine
  split
  · split
    · exact hblock _ _ _ _
    · exact fun _ h => h
  · split
    · exact hblock _ _ _ _
    · exact fun _ h => h
  · split
    · exact hblock _ _ _ _
    · exact fun _ h => h
  · rw [ofSingle_rest]
    exact fun _ h => h
  · rw [ofSingle_rest]
    exact fun _ h => h
  · rw [ofSingle_rest]
    exact fun _ h => h
  · exact fun _ h => h
  · exact fun _ h => h

end Outcome

namespace Parsed

def mapSpans (f : Span → Span) (p : Parsed) : Parsed :=
  ⟨p.declarations.mapSpans f, p.problems.map (·.mapSpan f)⟩

theorem ofLines_mapSpans {ls : List Line} (h : ∀ l ∈ ls, l.Steady m.apply) :
    ofLines (ls.map (·.mapSpans m.apply)) = (ofLines ls).mapSpans m.apply := by
  fun_induction ofLines ls with
  | case1 =>
    rw [List.map_nil, ofLines]
    rfl
  | case2 l below hempty ih =>
    rw [List.map_cons, ofLines, Line.isEmpty_mapSpans, if_pos hempty,
      ih (List.forall_mem_cons.mp h).2]
  | case3 l below hempty outcome tail ih =>
    obtain ⟨hl, hbelow⟩ := List.forall_mem_cons.mp h
    have hrest : ∀ l' ∈ outcome.rest, l'.Steady m.apply :=
      fun l' hl' => hbelow l' (Outcome.mem_of_mem_ofLine l' hl')
    rw [List.map_cons, ofLines, Line.isEmpty_mapSpans, if_neg hempty,
      Outcome.ofLine_mapSpans hl hbelow]
    dsimp only [Outcome.mapSpans, mapSpans, Program.mapSpans]
    rw [ih hrest, List.map_append, List.map_append]
    cases outcome.declaration <;> rfl

end Parsed

/-- A program, or its problems, move with the tokens of a file that says where it ends. -/
theorem Program.ofTokens_mapSpans (m : Motion) {ts : List Token} (heof : ∃ t ∈ ts, t.value = .eof)
    (hsteady : ∀ t ∈ ts, Steady m.apply t) :
    ofTokens (ts.map (·.mapSpan m.apply)) =
      match ofTokens ts with
      | .ok p => .ok (p.mapSpans m.apply)
      | .error es => .error (es.map (·.mapSpan m.apply)) := by
  unfold ofTokens
  rw [Line.ofTokens_mapSpans m.apply heof, Parsed.ofLines_mapSpans (Line.steady_ofTokens hsteady)]
  dsimp only [Parsed.toExcept, Parsed.mapSpans]
  cases (Parsed.ofLines (Line.ofTokens ts)).problems <;> rfl

end DeclLang
