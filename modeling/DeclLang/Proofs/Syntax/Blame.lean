import DeclLang.Proofs.Source.Positions
import DeclLang.Proofs.Syntax.Concatenation
import DeclLang.Proofs.Token.Problems

/-!
# Blame: every problem of a file is reported at a place in the file

A parser of a line that fails names the span of a token that it was given, be it the next one, one
that it read before, or the one that ends the line (`Blames`). A block that is not closed is
reported at its name. So the span of every problem is that of whole characters, a report on it can
be placed, and the place is on one of the lines of the file (`ofFile_eq_error`).
-/

namespace DeclLang

open LineParser

variable {P : Span → Prop} {α β : Type}

/-! ## Parsers of a line -/

/-- What a parser of tokens whose spans are in `P` comes to: a problem at a span in `P`, or a value
    in `Q`, with tokens left whose spans are in `P` again. -/
def Blamed (P : Span → Prop) (Q : α → Prop) : Except SyntaxError (α × List Token) → Prop
  | .error e => P e.span
  | .ok (a, rest) => Q a ∧ ∀ t ∈ rest, P t.span

def Blames (P : Span → Prop) (Q : α → Prop) (p : LineParser α) : Prop :=
  ∀ stop ts, P stop.span → (∀ t ∈ ts, P t.span) → Blamed P Q (p stop ts)

theorem Blamed.ok {Q : α → Prop} {a : α} {rest : List Token} (ha : Q a)
    (hrest : ∀ t ∈ rest, P t.span) : Blamed P Q (.ok (a, rest)) :=
  ⟨ha, hrest⟩

theorem blames_pure {Q : α → Prop} {a : α} (h : Q a) : Blames P Q (pure a) :=
  fun _ _ _ hts => .ok h hts

theorem Blames.bind {Q : α → Prop} {R : β → Prop} {p : LineParser α} {f : α → LineParser β}
    (hp : Blames P Q p) (hf : ∀ a, Q a → Blames P R (f a)) : Blames P R (p >>= f) := by
  intro stop ts hstop hts
  have hfirst := hp stop ts hstop hts
  simp only [Bind.bind]
  cases hx : p stop ts with
  | error e =>
    rw [hx] at hfirst
    exact hfirst
  | ok x =>
    rw [hx] at hfirst
    exact hf x.1 hfirst.1 stop x.2 hstop hfirst.2

theorem Blames.map {Q : α → Prop} {R : β → Prop} {p : LineParser α} {f : α → β}
    (hp : Blames P Q p) (hf : ∀ a, Q a → R (f a)) : Blames P R (f <$> p) :=
  hp.bind fun a ha => blames_pure (hf a ha)

theorem blames_failAtNext (Q : α → Prop) (problem : TokenKind → SyntaxProblem) :
    Blames P Q (failAtNext problem) := by
  intro stop ts hstop hts
  cases ts with
  | nil => exact hstop
  | cons t ts => exact hts t List.mem_cons_self

theorem blames_failAt (Q : α → Prop) (problem : SyntaxProblem) {span : Span} (h : P span) :
    Blames P Q (failAt problem span) :=
  fun _ _ _ _ => h

theorem blames_accept? (f : Token → Option α) :
    Blames P (fun o => ∀ a ∈ o, P a.span) (accept? f) := by
  intro stop ts _ hts
  cases ts with
  | nil => exact .ok (fun _ h => by cases h) hts
  | cons t ts =>
    unfold accept?
    dsimp only
    split
    · refine .ok (fun a h => ?_) (List.forall_mem_cons.mp hts).2
      rw [← Option.some.inj h]
      exact hts t List.mem_cons_self
    · exact .ok (fun _ h => by cases h) hts

theorem blames_expect (problem : TokenKind → SyntaxProblem) (f : Token → Option α) :
    Blames P (fun a => P a.span) (expect problem f) := by
  refine (blames_accept? f).bind fun o ho => ?_
  cases o with
  | none => exact blames_failAtNext _ problem
  | some a => exact blames_pure (ho a rfl)

/-- A value does not matter where nothing is reported on it later. -/
theorem Blames.any {Q : α → Prop} {p : LineParser α} (h : Blames P Q p) :
    Blames P (fun _ => True) p := by
  intro stop ts hstop hts
  have hp := h stop ts hstop hts
  revert hp
  cases p stop ts with
  | error e => exact id
  | ok x => exact fun hx => ⟨trivial, hx.2⟩

/-! ### Types and parameters -/

theorem blames_parseTypeName : Blames P (fun name => P name.span) parseTypeName := by
  refine (blames_expect _ _).bind fun name hname => ?_
  split
  · exact blames_pure hname
  · exact blames_failAt _ _ hname

theorem blames_parseType : Blames P (fun _ => True) parseType := by
  intro stop ts hstop hts
  fun_induction parseType stop ts with
  | case1 => exact blames_failAtNext _ _ stop [] hstop hts
  | case2 t ts e he =>
    have hname := blames_parseTypeName stop [t] hstop
      (List.forall_mem_singleton.mpr (hts t List.mem_cons_self))
    rw [he] at hname
    exact hname
  | case3 => exact .ok trivial (List.forall_mem_nil _)
  | case4 t name used u inner hname hu e he ih =>
    have hinner := ih (List.forall_mem_cons.mp (List.forall_mem_cons.mp hts).2).2
    rw [he] at hinner
    exact hinner
  | case5 t name used u inner hname hu arg after harg ih =>
    have hinner := ih (List.forall_mem_cons.mp (List.forall_mem_cons.mp hts).2).2
    rw [harg] at hinner
    have hclose : Blames P (fun _ => True) (closeGeneric name arg) :=
      (blames_expect _ _).bind fun _ _ => blames_pure trivial
    exact hclose stop after hstop hinner.2
  | case6 t name used u inner =>
    exact .ok trivial (List.forall_mem_cons.mp hts).2

theorem blames_parseParameter : Blames P (fun _ => True) parseParameter :=
  (blames_expect _ _).bind fun _ _ => (blames_expect _ _).bind fun _ _ =>
    blames_parseType.bind fun _ _ => blames_pure trivial

theorem blames_parseParameters : Blames P (fun _ => True) parseParameters := by
  intro stop ts hstop hts
  fun_induction parseParameters stop ts with
  | case1 ts e he =>
    have hp := blames_parseParameter stop ts hstop hts
    rw [he] at hp
    exact hp
  | case2 => exact .ok trivial (List.forall_mem_nil _)
  | case3 ts p u after hp hu e he ih =>
    have hfirst := blames_parseParameter stop ts hstop hts
    rw [hp] at hfirst
    have hrest := ih (List.forall_mem_cons.mp hfirst.2).2
    rw [he] at hrest
    exact hrest
  | case4 ts p u after hp hu ps rest hps ih =>
    have hfirst := blames_parseParameter stop ts hstop hts
    rw [hp] at hfirst
    have hrest := ih (List.forall_mem_cons.mp hfirst.2).2
    rw [hps] at hrest
    exact .ok trivial hrest.2
  | case5 ts p u after hp hu =>
    have hfirst := blames_parseParameter stop ts hstop hts
    rw [hp] at hfirst
    exact .ok trivial hfirst.2

theorem blames_parseParameterList : Blames P (fun _ => True) parseParameterList := by
  refine (blames_accept? _).bind fun opening _ => ?_
  cases opening with
  | none => exact blames_pure trivial
  | some =>
    refine (blames_accept? _).bind fun closing _ => ?_
    cases closing with
    | some => exact blames_pure trivial
    | none =>
      exact blames_parseParameters.bind fun _ _ => (blames_expect _ _).bind fun _ _ =>
        blames_pure trivial

/-! ### Methods -/

theorem blames_parseMethodName : Blames P (fun _ => True) parseMethodName := by
  refine (blames_accept? _).bind fun name _ => ?_
  cases name with
  | some name =>
    refine (blames_accept? _).bind fun eq _ => ?_
    cases eq with
    | some => exact blames_pure trivial
    | none => exact blames_pure trivial
  | none =>
    refine (blames_accept? _).bind fun operator _ => ?_
    cases operator with
    | some => exact blames_pure trivial
    | none =>
      refine (blames_accept? _).bind fun bracket _ => ?_
      cases bracket with
      | none => exact blames_failAtNext _ _
      | some =>
        refine (blames_expect _ _).bind fun _ _ => (blames_accept? _).bind fun eq _ => ?_
        cases eq with
        | some => exact blames_pure trivial
        | none => exact blames_pure trivial

theorem blames_parseMethodTail (name : Ident) :
    Blames P (fun _ => True) (parseMethodTail name) := by
  refine blames_parseParameterList.bind fun _ _ => (blames_accept? _).bind fun colon _ => ?_
  cases colon with
  | some => exact blames_parseType.bind fun _ _ => blames_pure trivial
  | none => exact blames_pure trivial

theorem blames_parseMethod : Blames P (fun _ => True) parseMethod :=
  (blames_expect _ _).bind fun _ _ => blames_parseMethodName.bind fun name _ =>
    blames_parseMethodTail name

theorem blames_parseFunction : Blames P (fun _ => True) parseFunction :=
  (blames_expect _ _).bind fun _ _ => (blames_expect _ _).bind fun name _ =>
    blames_parseMethodTail name

theorem blames_parseInclusion : Blames P (fun name => P name.span) parseInclusion :=
  (blames_expect _ _).bind fun _ _ => blames_parseTypeName

theorem blames_parseMember : Blames P (fun _ => True) parseMember := by
  intro stop ts hstop hts
  unfold parseMember
  split
  · exact blames_parseMethod.map (fun _ h => h) stop ts hstop hts
  · exact blames_parseInclusion.map (fun _ _ => trivial) stop ts hstop hts
  · exact blames_failAtNext _ _ stop ts hstop hts

/-! ### Headers -/

theorem blames_parseClassHeader : Blames P (fun x => P x.1.span) parseClassHeader := by
  refine (blames_expect _ _).bind fun _ _ => blames_parseTypeName.bind fun name hname =>
    (blames_accept? _).bind fun mark _ => ?_
  cases mark with
  | some => exact blames_parseTypeName.bind fun _ _ => blames_pure hname
  | none => exact blames_pure hname

theorem blames_parseModuleHeader : Blames P (fun name => P name.span) parseModuleHeader :=
  (blames_expect _ _).bind fun _ _ => blames_parseTypeName

theorem blames_parseLibHeader : Blames P (fun x => P x.1.span) parseLibHeader := by
  refine (blames_expect _ _).bind fun _ _ => blames_parseTypeName.bind fun name hname =>
    (blames_accept? _).bind fun opening _ => ?_
  cases opening with
  | none => exact blames_pure hname
  | some =>
    exact (blames_expect _ _).bind fun _ _ => (blames_expect _ _).bind fun _ _ => blames_pure hname

theorem blames_parsePrimitive : Blames P (fun _ => True) parsePrimitive := by
  refine (blames_expect _ _).bind fun _ _ => blames_parseTypeName.bind fun _ _ =>
    (blames_expect _ _).bind fun _ _ => blames_parseTypeName.bind fun _ _ =>
    (blames_expect _ _).bind fun _ _ => (blames_expect _ _).bind fun _ _ =>
    (blames_expect _ _).bind fun size hsize => ?_
  split
  · exact blames_pure trivial
  · exact blames_failAt _ _ hsize

/-! ## Whole lines -/

/-- All spans of the tokens of a line are in `P`. -/
structure Line.Over (P : Span → Prop) (l : Line) : Prop where
  tokens : ∀ t ∈ l.tokens, P t.span
  stop : P l.stop.span

theorem Line.Over.first {l : Line} (h : l.Over P) : P l.first.span := by
  unfold Line.first
  cases htokens : l.tokens with
  | nil => exact h.stop
  | cons t ts => exact h.tokens t (by simp [htokens])

theorem Line.over_ofTokens (hzero : P (.point 0)) {ts : List Token} (hts : ∀ t ∈ ts, P t.span) :
    ∀ l ∈ Line.ofTokens ts, l.Over P := by
  induction ts with
  | nil => exact List.forall_mem_singleton.mpr ⟨List.forall_mem_nil _, hzero⟩
  | cons t ts ih =>
    obtain ⟨ht, hts⟩ := List.forall_mem_cons.mp hts
    obtain ⟨hfirst, hbelow⟩ := List.forall_mem_cons.mp (ih hts)
    unfold Line.ofTokens
    by_cases heof : t.value = .eof
    · rw [Line.split_eof heof]
      exact List.forall_mem_singleton.mpr ⟨List.forall_mem_nil _, ht⟩
    by_cases hnewline : t.value = .newline
    · rw [Line.split_newline hnewline]
      exact List.forall_mem_cons.mpr ⟨⟨List.forall_mem_nil _, ht⟩, ih hts⟩
    · rw [Line.split_inner heof hnewline]
      refine List.forall_mem_cons.mpr ⟨⟨?_, hfirst.stop⟩, hbelow⟩
      exact List.forall_mem_cons.mpr ⟨ht, hfirst.tokens⟩

/-- A line that is not used up is reported at the first token that is left. -/
theorem Blames.onLine {Q : α → Prop} {p : LineParser α} (h : Blames P Q p) {l : Line}
    (hl : l.Over P) :
    (∀ e, p.onLine l = .error e → P e.span) ∧ ∀ x, p.onLine l = .ok x → Q x.value := by
  have hp := h l.stop l.tokens hl.stop hl.tokens
  unfold LineParser.onLine
  constructor
  · intro e he
    split at he
    · rename_i e' he'
      rw [he'] at hp
      cases he
      exact hp
    · cases he
    · rename_i a t rest ha
      rw [ha] at hp
      cases he
      exact hp.2 t List.mem_cons_self
  · intro x hx
    split at hx
    · cases hx
    · rename_i a ha
      rw [ha] at hp
      cases hx
      exact hp.1
    · cases hx

/-! ## Blocks and files -/

theorem Body.over_read {item : LineParser α} (hitem : Blames P (fun _ => True) item)
    {ls : List Line} (hls : ∀ l ∈ ls, l.Over P) :
    (∀ e ∈ (Body.read item ls).problems, P e.span) ∧
      (∀ l ∈ (Body.read item ls).closing, l.Over P) ∧
      ∀ l ∈ (Body.read item ls).rest, l.Over P := by
  fun_induction Body.read item ls with
  | case1 =>
    refine ⟨List.forall_mem_nil _, fun closing h => ?_, List.forall_mem_nil _⟩
    cases h
  | case2 l below _ ih => exact ih (List.forall_mem_cons.mp hls).2
  | case3 l below =>
    obtain ⟨hl, hbelow⟩ := List.forall_mem_cons.mp hls
    refine ⟨List.forall_mem_nil _, fun closing h => ?_, hbelow⟩
    rw [← Option.some.inj h]
    exact hl
  | case4 l below _ _ body a ha ih => exact ih (List.forall_mem_cons.mp hls).2
  | case5 l below _ _ body e he ih =>
    obtain ⟨hl, hbelow⟩ := List.forall_mem_cons.mp hls
    obtain ⟨hproblems, hrest⟩ := ih hbelow
    exact ⟨List.forall_mem_cons.mpr ⟨(hitem.onLine hl).1 e he, hproblems⟩, hrest⟩

namespace Outcome

/-- An outcome whose problems are at spans in `P`, as are the tokens below. -/
structure Over (P : Span → Prop) (o : Outcome) : Prop where
  problems : ∀ e ∈ o.problems, P e.span
  rest : ∀ l ∈ o.rest, l.Over P

variable {l : Line} {below : List Line}

theorem over_ofError {e : SyntaxError} (he : P e.span) (hbelow : ∀ l ∈ below, l.Over P) :
    (ofError e below).Over P :=
  ⟨List.forall_mem_singleton.mpr he, hbelow⟩

theorem over_ofSingle {p : LineParser Declaration} (hp : Blames P (fun _ => True) p)
    (hl : l.Over P) (hbelow : ∀ l ∈ below, l.Over P) : (ofSingle p l below).Over P := by
  unfold ofSingle
  split
  · exact ⟨List.forall_mem_nil _, hbelow⟩
  · rename_i e he
    exact over_ofError ((hp.onLine hl).1 e he) hbelow

theorem over_ofBlock {opened : Keyword} {name : Ident} {item : LineParser α}
    {declaration : List (Located α) → Declaration} (hname : P name.span)
    (hitem : Blames P (fun _ => True) item) (hbelow : ∀ l ∈ below, l.Over P) :
    (ofBlock opened name item declaration l below).Over P := by
  obtain ⟨hproblems, hclosing, hrest⟩ := Body.over_read hitem hbelow
  unfold ofBlock
  dsimp only
  split
  · exact ⟨List.forall_mem_append.mpr ⟨hproblems, List.forall_mem_singleton.mpr hname⟩, hrest⟩
  · rename_i closing h
    have hend : Blames P (fun _ => True) (keyword .blockEnd) := (blames_expect _ _).any
    split
    · exact ⟨hproblems, hrest⟩
    · rename_i e he
      have hspan := (hend.onLine (hclosing closing h)).1 e he
      exact ⟨List.forall_mem_append.mpr ⟨hproblems, List.forall_mem_singleton.mpr hspan⟩, hrest⟩

theorem over_ofLine (hl : l.Over P) (hbelow : ∀ l ∈ below, l.Over P) :
    (ofLine l below).Over P := by
  unfold ofLine
  split
  · have hheader := blames_parseClassHeader.onLine hl
    split
    · rename_i h
      exact over_ofBlock (hheader.2 _ h) blames_parseMember hbelow
    · rename_i e he
      exact over_ofError (hheader.1 e he) hbelow
  · have hheader := blames_parseModuleHeader.onLine hl
    split
    · rename_i h
      exact over_ofBlock (hheader.2 _ h) blames_parseMember hbelow
    · rename_i e he
      exact over_ofError (hheader.1 e he) hbelow
  · have hheader := blames_parseLibHeader.onLine hl
    split
    · rename_i h
      exact over_ofBlock (hheader.2 _ h) blames_parseFunction hbelow
    · rename_i e he
      exact over_ofError (hheader.1 e he) hbelow
  · exact over_ofSingle blames_parsePrimitive hl hbelow
  · exact over_ofSingle (blames_parseMethod.map fun _ h => h) hl hbelow
  · exact over_ofSingle (blames_parseInclusion.map fun _ _ => trivial) hl hbelow
  · exact over_ofError hl.first hbelow
  · exact over_ofError hl.first hbelow

end Outcome

theorem Parsed.over_ofLines {ls : List Line} (hls : ∀ l ∈ ls, l.Over P) :
    ∀ e ∈ (Parsed.ofLines ls).problems, P e.span := by
  fun_induction Parsed.ofLines ls with
  | case1 => exact List.forall_mem_nil _
  | case2 l below _ ih => exact ih (List.forall_mem_cons.mp hls).2
  | case3 l below _ outcome tail ih =>
    obtain ⟨hl, hbelow⟩ := List.forall_mem_cons.mp hls
    have houtcome : outcome.Over P := Outcome.over_ofLine hl hbelow
    exact List.forall_mem_append.mpr ⟨houtcome.problems, ih houtcome.rest⟩

/-! ## Reports -/

/-- A report that can be shown in the text that it is about. -/
structure Report.Placed (source : String) (r : Report) : Prop where
  ordered : r.span.start ≤ r.span.stop
  inside : r.span.stop ≤ source.utf8ByteSize
  /-- The text can be cut at both ends of the span, and the position is that of the first cut. -/
  cut : ∃ before text after, source.toList = before ++ (text ++ after) ∧
    r.span.start = utf8Length before ∧ r.span.stop = utf8Length (before ++ text) ∧
    r.position = Position.after before
  line : 1 ≤ r.position.line ∧ r.position.line ≤ 1 + source.toList.count '\n'
  /-- On the line, or right behind its last character. -/
  column : ∃ line, (linesOf source.toList)[r.position.line - 1]? = some line ∧
    1 ≤ r.position.column ∧ r.position.column ≤ 1 + line.length

theorem Report.placed_ofDiagnostic {source : String} {d : Diagnostic}
    (h : d.span.Within source.toList) (file : String) :
    (Report.ofDiagnostic file source d).Placed source := by
  have hordered := h.start_le_stop
  have hinside := h.stop_le
  rw [utf8Length_toList] at hinside
  obtain ⟨text, before, after, hsource, hstart, hstop⟩ := h
  have hposition : (Report.ofDiagnostic file source d).position = Position.after before := by
    show Position.ofOffset source d.span.start = _
    rw [Position.ofOffset, hsource, hstart, Position.charsBefore_utf8Length_append]
  obtain ⟨line, hline, hcolumn⟩ := Position.after_on_line before (text ++ after)
  have heq := Position.after_eq before
  exact {
    ordered := hordered
    inside := hinside
    cut := by
      refine ⟨before, text, after, hsource, hstart, ?_, hposition⟩
      rw [utf8Length_append, ← hstart]
      exact hstop
    line := by
      rw [hposition, heq, hsource, List.count_append]
      constructor
      · exact Nat.le_add_right 1 _
      · exact Nat.add_le_add_left (Nat.le_add_right _ _) 1
    column := by
      rw [hposition, hsource]
      refine ⟨line, hline, ?_, hcolumn⟩
      rw [heq]
      exact Nat.le_add_right 1 _ }

namespace Program

/-- Problems of a text, of whichever stage, are at whole characters of it. -/
theorem within_of_ofSource {source : String} {ds : List Diagnostic}
    (h : ofSource source = .error ds) : ds ≠ [] ∧ ∀ d ∈ ds, d.span.Within source.toList := by
  by_cases hlexed : (Lexed.ofSource source).problems = []
  · have htokens := Lexed.within_of_mem_tokens hlexed
    have hzero : (Span.point 0).Within source.toList := ⟨[], [], source.toList, rfl, rfl, rfl⟩
    have hlines : ∀ l ∈ Line.ofTokens (Lexed.ofSource source).tokens,
        l.Over (·.Within source.toList) := Line.over_ofTokens hzero htokens
    have hproblems := Parsed.over_ofLines hlines
    rw [ofSource_of_parsed _ hlexed rfl, Parsed.toExcept] at h
    split at h
    · cases h
    · rename_i hne
      cases h
      rw [List.isEmpty_iff] at hne
      refine ⟨fun hnil => hne (List.map_eq_nil_iff.mp hnil), fun d hd => ?_⟩
      obtain ⟨e, he, rfl⟩ := List.mem_map.mp hd
      exact hproblems e he
  · have hproblems : ∀ p ∈ (Lexed.ofSource source).problems, p.span.Within source.toList :=
      Lexed.within_of_mem_problems [] rfl
    rw [ofSource_of_problems hlexed] at h
    cases h
    refine ⟨fun hnil => hlexed (List.map_eq_nil_iff.mp hnil), fun d hd => ?_⟩
    obtain ⟨p, hp, rfl⟩ := List.mem_map.mp hd
    exact hproblems p hp

/-- A text that does not parse has a report with every problem in it, in the order in which they
    were met, and every one of them can be shown in the text. -/
theorem ofFile_eq_error {source : String} {ds : List Diagnostic} (h : ofSource source = .error ds)
    (file : String) :
    ds ≠ [] ∧ (∀ d ∈ ds, (Report.ofDiagnostic file source d).Placed source) ∧
      ∃ report, ofFile file source = .error report ∧
        report.primary :: report.related = ds.map (.ofDiagnostic file source) := by
  obtain ⟨hne, hwithin⟩ := within_of_ofSource h
  refine ⟨hne, fun d hd => Report.placed_ofDiagnostic (hwithin d hd) file,
    .ofDiagnostics file source ds, ?_, ?_⟩
  · rw [ofFile, h]
    rfl
  · cases ds with
    | nil => exact absurd rfl hne
    | cons d ds => rfl

/-- A literal with an escape that means nothing, of a letter of two bytes, and without an end, on
    the second line. -/
theorem ofFile_eq_error_literal :
    let source := "# é\nlib A(\"\\é"
    let escape : Diagnostic := ⟨.lexical, "unknown escape sequence '\\é'", ⟨12, 15⟩, []⟩
    let literal : Diagnostic := ⟨.lexical, "unterminated string literal", ⟨11, 15⟩,
      ["string literals must close on the line they start"]⟩
    ofSource source = .error [escape, literal] ∧
      (∀ d ∈ [escape, literal], (Report.ofDiagnostic "a" source d).Placed source) ∧
      (Report.ofDiagnostic "a" source escape).position = ⟨2, 8⟩ := by
  intro source escape literal
  have hlexed : (Lexed.ofSource source).problems =
      [⟨.unknownEscape 'é', ⟨12, 15⟩⟩, ⟨.unterminatedString, ⟨11, 15⟩⟩] := by decide +kernel
  have hsource : ofSource source = .error [escape, literal] := by
    rw [ofSource_of_problems (by rw [hlexed]; simp), hlexed]
    rfl
  exact ⟨hsource, (ofFile_eq_error hsource "a").2.1, by decide +kernel⟩

end Program

end DeclLang
