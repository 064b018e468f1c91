import DeclLang.Proofs.Syntax.PerLine

/-!
# The primary report: the problem that was met first

A file is reported under the problem that was met first. Problems are met in the order of their
positions, with one exception: what is not closed is found out behind all that is in it, and is
reported where it opens (`Diagnostic.Inside`). So the primary report has the first position of all,
unless its problem is inside a string literal or a block that is not closed (`ofFile_primary`).
-/

namespace DeclLang

/-- A problem on a line below the header of a block that has no `end`, and the problem of that
    block. -/
def SyntaxProblem.InBlock (ls : List Line) (inner outer : SyntaxError) : Prop :=
  ∃ above header below, ls = above ++ header :: below ∧ (∀ l ∈ below, l.NotEnd) ∧
    (∃ l ∈ below, l.Shows inner) ∧
    ∃ (α : Type) (opened : Keyword) (name : Ident)
      (declaration : List (Located α) → Declaration),
      OpensBlock header.tokens opened name declaration ∧
        outer = ⟨.unclosedBlock opened name.value, name.span⟩

/-- A problem inside something that is not closed, and the problem of that. -/
inductive Diagnostic.Inside (source : String) : Diagnostic → Diagnostic → Prop where
  | literal {inner outer : Located LexicalProblem} :
      LexicalProblem.InLiteral inner outer → Inside source (.ofLexical inner) (.ofLexical outer)
  | block {ts : List Token} {inner outer : SyntaxError} :
      lex source = .ok ts → SyntaxProblem.InBlock (Line.ofTokens ts) inner outer →
      Inside source (.ofSyntax inner) (.ofSyntax outer)

/-! ## Problems of blocks -/

theorem Along.exists_shows {ls : List Line} {es : List SyntaxError} (h : Along ls es) :
    ∀ e ∈ es, ∃ l ∈ ls, l.Shows e := by
  induction h with
  | nil => exact List.forall_mem_nil _
  | silent _ ih =>
    intro e he
    obtain ⟨l, hl, hshows⟩ := ih e he
    exact ⟨l, List.mem_cons_of_mem _ hl, hshows⟩
  | shown he _ ih =>
    refine List.forall_mem_cons.mpr ⟨⟨_, List.mem_cons_self, he⟩, fun e hmem => ?_⟩
    obtain ⟨l, hl, hshows⟩ := ih e hmem
    exact ⟨l, List.mem_cons_of_mem _ hl, hshows⟩

section

variable {number : Span → Nat} {n : Nat} {ls : List Line}

theorem OpensBlock.number_eq {α : Type} {header : Line} {opened : Keyword} {name : Ident}
    {declaration : List (Located α) → Declaration}
    (h : OpensBlock header.tokens opened name declaration)
    (hheader : header.Over (fun s => number s = n)) : number name.span = n := by
  obtain ⟨t, ht, hspan⟩ := h.name_mem
  rw [← hspan]
  exact hheader.tokens t ht

theorem Numbered.le_of_shows {l : Line} {e : SyntaxError} (hn : Numbered number n ls)
    (hl : l ∈ ls) (h : l.Shows e) : n ≤ number e.span := by
  induction ls generalizing n with
  | nil => exact absurd hl List.not_mem_nil
  | cons m ms ih =>
    obtain hl | hl := List.mem_cons.mp hl
    · rw [← hl] at hn
      exact Nat.le_of_eq (h.number_eq hn.1).symm
    · exact Nat.le_of_succ_le (ih hn.2 hl)

/-- A block opens above all that is in it. -/
theorem SyntaxProblem.InBlock.number_lt {inner outer : SyntaxError}
    (h : InBlock ls inner outer) (hn : Numbered number n ls) :
    number outer.span < number inner.span := by
  obtain ⟨above, header, below, rfl, -, ⟨l, hl, hshows⟩, α, opened, name, declaration, hopens,
    rfl⟩ := h
  obtain ⟨-, hheader, hbelow⟩ := hn.of_append
  rw [hopens.number_eq hheader]
  exact Nat.lt_of_succ_le (hbelow.le_of_shows hl hshows)

/-- The problems of a file come in the order of their lines, but for a block that is not closed,
    which comes behind the problems in it. -/
theorem Parsed.rises_ofLines (hn : Numbered number n ls) :
    (ofLines ls).problems.Pairwise fun e f =>
      number e.span < number f.span ∨ SyntaxProblem.InBlock ls e f := by
  obtain halong | ⟨above, header, below, es, fs, rfl, halong, hopen, hproblems⟩ :=
    along_ofLines ls
  · exact (List.pairwise_map.mp (halong.rises hn).1).imp .inl
  obtain ⟨hnot, gs, α, opened, name, declaration, hopens, hbelow, rfl⟩ := hopen
  obtain ⟨habove, hheader, hrest⟩ := hn.of_append
  obtain ⟨hlt, hbounds⟩ := halong.rises habove
  obtain ⟨hlt', hbounds'⟩ := hbelow.rises hrest
  have hname : number name.span = n + above.length := hopens.number_eq hheader
  have hfront : ∀ e ∈ es, number e.span < n + above.length := fun e he =>
    (hbounds _ (List.mem_map_of_mem he)).2
  rw [hproblems]
  refine List.pairwise_append.mpr ⟨(List.pairwise_map.mp hlt).imp .inl,
    List.pairwise_append.mpr ⟨(List.pairwise_map.mp hlt').imp .inl, List.pairwise_singleton _ _,
      fun g hg u hu => .inr ?_⟩, fun e he f hf => .inl ?_⟩
  · rw [List.mem_singleton.mp hu]
    exact ⟨above, header, below, rfl, hnot, hbelow.exists_shows g hg, α, opened, name,
      declaration, hopens, rfl⟩
  · have hlow := hfront e he
    obtain hf | hf := List.mem_append.mp hf
    · have hle := (hbounds' _ (List.mem_map_of_mem hf)).1
      omega
    · rw [List.mem_singleton.mp hf, hname]
      exact hlow

end

/-! ## Positions of problems -/

/-- The tokens of a line have its number, counted from one. -/
theorem numbered_of_lex {source : String} {ts : List Token} (hlex : lex source = .ok ts) :
    Numbered (fun s => (Position.ofOffset source s.start).line) 1 (Line.ofTokens ts) := by
  have hstart : 0 = utf8Length [] := rfl
  exact (lex_eq_ok_iff.mp hlex).numbered hstart

theorem Span.Within.isBoundary {s : Span} {source : List Char} (h : s.Within source) :
    IsBoundary source s.start := by
  obtain ⟨text, before, after, hsource, hstart, -⟩ := h
  exact ⟨before, text ++ after, hsource, hstart⟩

namespace Diagnostic

/-- Where a problem is reported. -/
def position (source : String) (d : Diagnostic) : Position :=
  .ofOffset source d.span.start

variable {source : String} {d e : Diagnostic}

theorem position_lt_of_line_lt
    (h : (Position.ofOffset source d.span.start).line <
      (Position.ofOffset source e.span.start).line) : d.position source < e.position source :=
  Position.lt_iff.mpr (.inl h)

/-- What is not closed opens before all that is in it. -/
theorem Inside.position_lt (h : Inside source d e) (hd : d.span.Within source.toList)
    (he : e.span.Within source.toList) : e.position source < d.position source := by
  cases h with
  | literal h => exact Position.ofOffset_lt he.isBoundary hd.isBoundary h.start_lt
  | block hlex h => exact position_lt_of_line_lt (h.number_lt (numbered_of_lex hlex))

end Diagnostic

namespace Program

open Diagnostic

/-- Problems are met in the order of their positions, but for what is not closed, which is met
    behind the problems inside. -/
theorem rises_of_ofSource {source : String} {ds : List Diagnostic}
    (h : ofSource source = .error ds) :
    ds.Pairwise fun d e => d.position source < e.position source ∨ Inside source d e := by
  by_cases hlexed : (Lexed.ofSource source).problems = []
  · have hlex := lex_of_problems hlexed
    rw [ofSource_of_parsed _ hlexed rfl, Parsed.toExcept] at h
    split at h
    · cases h
    · cases h
      have hrises := Parsed.rises_ofLines (numbered_of_lex hlex)
      exact List.pairwise_map.mpr
        (hrises.imp fun hef => hef.imp position_lt_of_line_lt (.block hlex))
  · have hwithin : ∀ p ∈ (Lexed.ofSource source).problems, p.span.Within source.toList :=
      Lexed.within_of_mem_problems [] rfl
    rw [ofSource_of_problems hlexed] at h
    cases h
    refine List.pairwise_map.mpr ((Lexed.rises_ofChars 0 source.toList).1.imp_of_mem
      fun {p q} hp hq hpq => ?_)
    exact hpq.imp (Position.ofOffset_lt (hwithin p hp).isBoundary (hwithin q hq).isBoundary)
      .literal

theorem ofFile_of_ofSource {source : String} {ds : List Diagnostic} (file : String)
    (h : ofSource source = .error ds) :
    ofFile file source = .error (.ofDiagnostics file source ds) := by
  rw [ofFile, h]
  rfl

/-- The primary report is on the first problem of the file, and all others are behind it, except
    for a string literal or a block that is not closed and has the first problem inside. -/
theorem ofFile_primary {file source : String} {report : FileReport}
    (h : ofFile file source = .error report) :
    ∃ d ds, ofSource source = .error (d :: ds) ∧
      report.primary = .ofDiagnostic file source d ∧
      report.related = ds.map (.ofDiagnostic file source) ∧
      ∀ e ∈ ds,
        (d.position source < e.position source ↔ ¬ Inside source d e) ∧
          (e.position source < d.position source ↔ Inside source d e) := by
  cases hsource : ofSource source with
  | ok p =>
    rw [ofFile, hsource] at h
    cases h
  | error problems =>
    obtain ⟨hne, hwithin⟩ := within_of_ofSource hsource
    have hrises := rises_of_ofSource hsource
    cases (ofFile_of_ofSource file hsource).symm.trans h
    cases problems with
    | nil => exact absurd rfl hne
    | cons d ds =>
      refine ⟨d, ds, rfl, rfl, rfl, fun e he => ?_⟩
      have hinside (hin : Inside source d e) : e.position source < d.position source :=
        hin.position_lt (hwithin d List.mem_cons_self) (hwithin e (List.mem_cons_of_mem _ he))
      obtain hlt | hin := (List.pairwise_cons.mp hrises).1 e he
      · have hnot : ¬ Inside source d e := fun hin => lt_asymm hlt (hinside hin)
        exact ⟨iff_of_true hlt hnot, iff_of_false (lt_asymm hlt) hnot⟩
      · have hlt := hinside hin
        exact ⟨iff_of_false (lt_asymm hlt) (not_not_intro hin), iff_of_true hlt hin⟩

/-- A class that is not closed, and a line in it that is no member. -/
theorem ofSource_openClass :
    ofSource "class A\n  x\n" = .error
      [⟨.syntactic, "expected `def`, `include` or `end`, found identifier `x`", ⟨10, 11⟩, []⟩,
        ⟨.syntactic, "expected `end` to close `class A`", ⟨6, 7⟩, []⟩] := by
  have hparsed : Parsed.ofLines (Line.ofTokens (Lexed.ofSource "class A\n  x\n").tokens) =
      ⟨[], [⟨.unexpected .member (.ident "x"), ⟨10, 11⟩⟩,
        ⟨.unclosedBlock .classBlock "A", ⟨6, 7⟩⟩]⟩ := by decide +kernel
  rw [ofSource_of_parsed _ (by decide +kernel) hparsed]
  decide +kernel

theorem ofFile_primary_openClass :
    let source := "class A\n  x\n"
    let member : Diagnostic :=
      ⟨.syntactic, "expected `def`, `include` or `end`, found identifier `x`", ⟨10, 11⟩, []⟩
    let unclosed : Diagnostic :=
      ⟨.syntactic, "expected `end` to close `class A`", ⟨6, 7⟩, []⟩
    ∃ report, ofFile "std/a.qz" source = .error report ∧
      report.primary = .ofDiagnostic "std/a.qz" source member ∧
      report.related = [.ofDiagnostic "std/a.qz" source unclosed] ∧
      report.primary.position = ⟨2, 3⟩ ∧ unclosed.position source = ⟨1, 7⟩ ∧
      Inside source member unclosed := by
  intro source member unclosed
  have hfile := ofFile_of_ofSource "std/a.qz" ofSource_openClass
  obtain ⟨d, ds, hds, hprimary, hrelated, hall⟩ := ofFile_primary hfile
  cases ofSource_openClass.symm.trans hds
  refine ⟨_, hfile, hprimary, hrelated, by decide +kernel, by decide +kernel, ?_⟩
  exact (hall unclosed (List.mem_singleton_self _)).2.mp (by decide +kernel)

/-- A block that is not closed can be reported second although it opens before the first problem. -/
theorem not_ofFile_primary_le :
    ¬ ∀ (file source : String) (report : FileReport), ofFile file source = .error report →
      ∀ r ∈ report.related, report.primary.position ≤ r.position := by
  intro h
  have hle := h "std/a.qz" _ _ (ofFile_of_ofSource "std/a.qz" ofSource_openClass) _
    (List.mem_singleton_self _)
  exact absurd hle (by decide +kernel)

end Program

end DeclLang
