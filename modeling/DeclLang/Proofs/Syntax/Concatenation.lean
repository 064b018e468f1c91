import DeclLang.Proofs.Syntax.Files
import DeclLang.Proofs.Syntax.Shift
import DeclLang.Proofs.Token.Concatenation

/-!
# Concatenation of files: parsing one file behind another

A file that ends its last line and parses leaves nothing open: the parser reads its lines alike
whatever comes behind them (`Parsed.ofLines_append`), and then it is where every file starts. So two
files, one behind the other, are parsed as each of them alone, the second one moved
(`Program.ofSource_append`).
-/

namespace DeclLang

open LineParser

/-! ## Lines -/

namespace Line

theorem split_append {ts : List Token} (h : ∀ t ∈ ts, t.value ≠ .eof) (t : Token)
    (ht : t.value = .newline) :
    ∃ l ls, ∀ us, split (ts ++ t :: us) = (l, ls ++ ofTokens us) := by
  induction ts with
  | nil => exact ⟨⟨[], t⟩, [], split_newline ht⟩
  | cons u ts ih =>
    rw [List.forall_mem_cons] at h
    have ⟨l, ls, hsplit⟩ := ih h.2
    by_cases hnewline : u.value = .newline
    · refine ⟨⟨[], u⟩, l :: ls, fun us => ?_⟩
      rw [List.cons_append, split_newline hnewline, ofTokens, hsplit]
      rfl
    · refine ⟨⟨u :: l.tokens, l.stop⟩, ls, fun us => ?_⟩
      rw [List.cons_append, split_inner h.1 hnewline, hsplit]

/-- Tokens that end with a line feed make up whole lines. -/
theorem ofTokens_append {ts : List Token} (h : ∀ t ∈ ts, t.value ≠ .eof) (t : Token)
    (ht : t.value = .newline) : ∃ ls, ∀ us, ofTokens (ts ++ t :: us) = ls ++ ofTokens us := by
  have ⟨l, ls, hsplit⟩ := split_append h t ht
  refine ⟨l :: ls, fun us => ?_⟩
  rw [ofTokens, hsplit]
  rfl

end Line

/-! ## Blocks -/

/-- A body goes on into the lines that follow unless it was closed before them. -/
theorem Body.read_append {α : Type} (item : LineParser α) (ls ms : List Line) :
    read item (ls ++ ms) =
      match (read item ls).closing with
      | some _ => { read item ls with rest := (read item ls).rest ++ ms }
      | none =>
        let more := read item ms
        { more with
          items := (read item ls).items ++ more.items
          problems := (read item ls).problems ++ more.problems } := by
  fun_induction read item ls with
  | case1 => rfl
  | case2 l below hempty ih =>
    rw [List.cons_append, read, if_pos hempty, ih]
  | case3 l below hempty hend =>
    rw [List.cons_append, read, if_neg hempty, if_pos hend]
  | case4 l below hempty hend body a ha ih =>
    rw [List.cons_append, read, if_neg hempty, if_neg hend, ih, ha]
    dsimp only [body]
    cases (read item below).closing <;> rfl
  | case5 l below hempty hend body e he ih =>
    rw [List.cons_append, read, if_neg hempty, if_neg hend, ih, he]
    dsimp only [body]
    cases (read item below).closing <;> rfl

/-- A blank line says nothing in a body. -/
theorem Body.read_concat {α : Type} (item : LineParser α) (ls : List Line) {b : Line}
    (hb : b.isEmpty = true) :
    (read item (ls ++ [b])).problems = (read item ls).problems ∧
      (read item (ls ++ [b])).closing = (read item ls).closing := by
  have hblank : read item [b] = ⟨[], [], none, []⟩ := by
    rw [read, if_pos hb]
    rfl
  rw [read_append, hblank]
  cases hclosing : (read item ls).closing with
  | none => exact ⟨List.append_nil _, rfl⟩
  | some closing => exact ⟨rfl, hclosing⟩

namespace Outcome

variable {α : Type} {l : Line} {below : List Line}

/-- The same outcome with more lines left below it. -/
def append (o : Outcome) (ms : List Line) : Outcome :=
  { o with rest := o.rest ++ ms }

theorem ofBlock_append {opened : Keyword} {name : Ident} {item : LineParser α}
    {declaration : List (Located α) → Declaration}
    (h : (ofBlock opened name item declaration l below).problems = []) (ms : List Line) :
    ofBlock opened name item declaration l (below ++ ms) =
      (ofBlock opened name item declaration l below).append ms := by
  unfold ofBlock at h ⊢
  rw [Body.read_append]
  cases hclosing : (Body.read item below).closing with
  | none =>
    -- Where the block would read on, it is reported.
    dsimp only at h
    rw [hclosing] at h
    simp at h
  | some closing =>
    dsimp only
    rw [hclosing]
    dsimp only
    cases (keyword .blockEnd).onLine closing <;> rfl

theorem ofBlock_problems_concat (opened : Keyword) (name : Ident) (item : LineParser α)
    (declaration : List (Located α) → Declaration) (l : Line) (below : List Line) {b : Line}
    (hb : b.isEmpty = true) :
    (ofBlock opened name item declaration l (below ++ [b])).problems =
      (ofBlock opened name item declaration l below).problems := by
  have ⟨hproblems, hclosing⟩ := Body.read_concat item below hb
  unfold ofBlock
  dsimp only
  rw [hproblems, hclosing]
  cases (Body.read item below).closing with
  | none => rfl
  | some closing =>
    dsimp only
    cases (keyword .blockEnd).onLine closing <;> rfl

/-- A line either opens a block, or is done with whatever is below it. -/
theorem ofLine_cases (l : Line) :
    (∃ (α : Type) (opened : Keyword) (name : Ident) (item : LineParser α)
      (declaration : List (Located α) → Declaration),
      ∀ below, ofLine l below = ofBlock opened name item declaration l below) ∨
    ∃ d es, ∀ below, ofLine l below = ⟨d, es, below⟩ := by
  have hsingle (p : LineParser Declaration) :
      ∃ d es, ∀ below, ofSingle p l below = ⟨d, es, below⟩ := by
    unfold ofSingle
    cases p.onLine l with
    | ok d => exact ⟨some d, [], fun _ => rfl⟩
    | error e => exact ⟨none, [e], fun _ => rfl⟩
  unfold ofLine
  split
  · cases parseClassHeader.onLine l with
    | ok x => exact .inl ⟨_, _, _, _, _, fun _ => rfl⟩
    | error e => exact .inr ⟨none, [e], fun _ => rfl⟩
  · cases parseModuleHeader.onLine l with
    | ok x => exact .inl ⟨_, _, _, _, _, fun _ => rfl⟩
    | error e => exact .inr ⟨none, [e], fun _ => rfl⟩
  · cases parseLibHeader.onLine l with
    | ok x => exact .inl ⟨_, _, _, _, _, fun _ => rfl⟩
    | error e => exact .inr ⟨none, [e], fun _ => rfl⟩
  · exact .inr (hsingle parsePrimitive)
  · exact .inr (hsingle (.method <$> parseMethod))
  · exact .inr (hsingle (.inclusion <$> parseInclusion))
  · exact .inr ⟨none, _, fun _ => rfl⟩
  · exact .inr ⟨none, _, fun _ => rfl⟩

/-- Without problems a declaration reads none of the lines that follow its own. -/
theorem ofLine_append (h : (ofLine l below).problems = []) (ms : List Line) :
    ofLine l (below ++ ms) = (ofLine l below).append ms := by
  rcases ofLine_cases l with ⟨_, _, _, _, _, hblock⟩ | ⟨d, es, hline⟩
  · rw [hblock] at h
    rw [hblock, hblock, ofBlock_append h]
  · rw [hline, hline]
    rfl

theorem ofLine_problems_concat (l : Line) (below : List Line) {b : Line} (hb : b.isEmpty = true) :
    (ofLine l (below ++ [b])).problems = (ofLine l below).problems := by
  rcases ofLine_cases l with ⟨_, _, _, _, _, hblock⟩ | ⟨d, es, hline⟩
  · rw [hblock, hblock, ofBlock_problems_concat _ _ _ _ _ _ hb]
  · rw [hline, hline]

end Outcome

/-! ## Files -/

namespace Parsed

/-- Lines without problems are parsed by themselves. -/
theorem ofLines_append {ls : List Line} (h : (ofLines ls).problems = []) (ms : List Line) :
    ofLines (ls ++ ms) =
      ⟨(ofLines ls).declarations ++ (ofLines ms).declarations, (ofLines ms).problems⟩ := by
  fun_induction ofLines ls with
  | case1 => rfl
  | case2 l below hempty ih =>
    rw [List.cons_append, ofLines, if_pos hempty, ih h]
  | case3 l below hempty outcome tail ih =>
    obtain ⟨houtcome, htail⟩ := List.append_eq_nil_iff.mp h
    rw [List.cons_append, ofLines, if_neg hempty, Outcome.ofLine_append houtcome]
    dsimp only [Outcome.append]
    rw [ih htail, houtcome, List.append_assoc]
    rfl

theorem ofLines_problems_of_concat {ls : List Line} {b : Line} (hb : b.isEmpty = true)
    (h : (ofLines (ls ++ [b])).problems = []) : (ofLines ls).problems = [] := by
  fun_induction ofLines ls with
  | case1 => rfl
  | case2 l below hempty ih =>
    rw [List.cons_append, ofLines, if_pos hempty] at h
    exact ih h
  | case3 l below hempty outcome tail ih =>
    rw [List.cons_append, ofLines, if_neg hempty] at h
    obtain ⟨houtcome, htail⟩ := List.append_eq_nil_iff.mp h
    rw [Outcome.ofLine_problems_concat l below hb] at houtcome
    rw [Outcome.ofLine_append houtcome] at htail
    exact List.append_eq_nil_iff.mpr ⟨houtcome, ih htail⟩

theorem ofLines_of_concat {ls : List Line} {b : Line} {p : Program} (hb : b.isEmpty = true)
    (h : ofLines (ls ++ [b]) = ⟨p, []⟩) : ofLines ls = ⟨p, []⟩ := by
  have hproblems := ofLines_problems_of_concat hb (congrArg problems h)
  have hblank : ofLines [b] = ⟨[], []⟩ := by rw [ofLines, if_pos hb, ofLines]
  have happend := ofLines_append hproblems [b]
  rw [h, hblank, List.append_nil, Parsed.mk.injEq] at happend
  rw [happend.1, ← hproblems]

end Parsed

/-- Every text is lexed to its end. -/
theorem Lexed.eof_mem (pos : Nat) (cs : List Char) :
    ∃ t ∈ (ofChars pos cs).tokens, t.value = .eof := by
  fun_induction ofChars pos cs with
  | case1 pos => exact ⟨_, List.mem_singleton_self _, rfl⟩
  | case2 pos c cs lexeme tail ih =>
    obtain ⟨t, ht, hvalue⟩ := ih
    exact ⟨t, List.mem_append_right _ ht, hvalue⟩

/-- A text that ends its last line and has no problems is cut into lines by itself. -/
theorem Lexed.lines_append {cs : List Char} (hlines : cs = [] ∨ ∃ body, cs = body ++ ['\n'])
    (h : (ofChars 0 cs).problems = []) :
    ∃ ls, ∀ ds, let tail := (ofChars 0 ds).shift (utf8Length cs)
      (ofChars 0 (cs ++ ds)).problems = tail.problems ∧
        Line.ofTokens (ofChars 0 (cs ++ ds)).tokens = ls ++ Line.ofTokens tail.tokens := by
  rcases hlines with hempty | ⟨body, hbody⟩
  · refine ⟨[], fun ds => ?_⟩
    rw [hempty, ← ofChars_shift]
    exact ⟨rfl, rfl⟩
  · rw [hbody] at h ⊢
    have ⟨ts, span, heof, happend⟩ := ofChars_append h
    have ⟨ls, hlines⟩ := Line.ofTokens_append heof ⟨.newline, span⟩ rfl
    refine ⟨ls, fun ds => ?_⟩
    rw [happend, ← ofChars_shift]
    exact ⟨rfl, hlines _⟩

namespace Diagnostic

theorem map_ofLexical_shift (offset : Nat) (ps : List (Located LexicalProblem)) :
    (ps.map (·.shift offset)).map ofLexical = (ps.map ofLexical).map (·.shift offset) := by
  rw [List.map_map, List.map_map]
  rfl

theorem map_ofSyntax_shift (offset : Nat) (es : List SyntaxError) :
    (es.map (·.shift offset)).map ofSyntax = (es.map ofSyntax).map (·.shift offset) := by
  rw [List.map_map, List.map_map]
  rfl

end Diagnostic

namespace Program

theorem ofSource_of_problems {source : String} (h : (Lexed.ofSource source).problems ≠ []) :
    ofSource source = .error ((Lexed.ofSource source).problems.map .ofLexical) := by
  have hnot : ¬ (Lexed.ofSource source).problems.isEmpty = true := by
    rwa [List.isEmpty_iff]
  unfold ofSource lex Lexed.toExcept
  rw [if_neg hnot]
  rfl

theorem ofSource_of_parsed {source : String} (parsed : Parsed)
    (hlexed : (Lexed.ofSource source).problems = [])
    (hparsed : Parsed.ofLines (Line.ofTokens (Lexed.ofSource source).tokens) = parsed) :
    ofSource source = parsed.toExcept.mapError (·.map .ofSyntax) := by
  unfold ofSource lex Lexed.toExcept
  rw [if_pos (List.isEmpty_iff.mpr hlexed), ← hparsed]
  rfl

/-- The lines of a file that parses and ends its last one, when another text comes behind it. -/
theorem lines_of_ofSource {s₁ : String} {p₁ : Program}
    (hlines : s₁ = "" ∨ ∃ body, s₁ = body ++ "\n") (h₁ : ofSource s₁ = .ok p₁) :
    ∃ ls, Parsed.ofLines ls = ⟨p₁, []⟩ ∧ ∀ s₂,
      let tail := (Lexed.ofSource s₂).shift s₁.utf8ByteSize
      (Lexed.ofSource (s₁ ++ s₂)).problems = tail.problems ∧
        Line.ofTokens (Lexed.ofSource (s₁ ++ s₂)).tokens = ls ++ Line.ofTokens tail.tokens := by
  have ⟨tokens, hlex, htokens⟩ := ofSource_eq_ok h₁
  have hlexed := lex_eq_ok hlex
  have hparsed := ofTokens_eq_ok htokens
  have hchars : s₁.toList = [] ∨ ∃ body, s₁.toList = body ++ ['\n'] := by
    rcases hlines with hempty | ⟨body, hbody⟩
    · exact .inl (by rw [hempty]; rfl)
    · exact .inr ⟨body.toList, by rw [hbody, String.toList_append]; rfl⟩
  have ⟨ls, hls⟩ := Lexed.lines_append hchars (congrArg Lexed.problems hlexed)
  rw [utf8Length_toList] at hls
  refine ⟨ls, ?_, fun s₂ => ?_⟩
  · -- Alone, the text ends with one more line, which is blank.
    have hend := (hls []).2
    rw [List.append_nil, show Lexed.ofChars 0 s₁.toList = _ from hlexed, Lexed.ofChars] at hend
    dsimp only at hend
    rw [hend] at hparsed
    exact Parsed.ofLines_of_concat rfl hparsed
  · have hwhole : Lexed.ofSource (s₁ ++ s₂) = Lexed.ofChars 0 (s₁.toList ++ s₂.toList) := by
      rw [Lexed.ofSource, String.toList_append]
    rw [hwhole]
    exact hls s₂.toList

/-- A file that ends its last line and parses can stand before any other: both are parsed as each
    of them alone, but that the spans of the second one are moved behind the first one. -/
theorem ofSource_append {s₁ s₂ : String} {p₁ : Program}
    (hlines : s₁ = "" ∨ ∃ body, s₁ = body ++ "\n") (h₁ : ofSource s₁ = .ok p₁) :
    ofSource (s₁ ++ s₂) =
      match ofSource s₂ with
      | .ok p₂ => .ok (p₁ ++ p₂.shift s₁.utf8ByteSize)
      | .error ds => .error (ds.map (·.shift s₁.utf8ByteSize)) := by
  have ⟨ls, hls, happend⟩ := lines_of_ofSource hlines h₁
  have ⟨hproblems, hlines⟩ := happend s₂
  dsimp only [Lexed.shift] at hproblems hlines
  by_cases hlexed : (Lexed.ofSource s₂).problems = []
  · have hend : ∃ t ∈ (Lexed.ofSource s₂).tokens, t.value = .eof := Lexed.eof_mem 0 s₂.toList
    rw [hlexed, List.map_nil] at hproblems
    have hparsed := congrArg Parsed.ofLines hlines
    rw [Line.ofTokens_shift s₁.utf8ByteSize hend, Parsed.ofLines_append (by rw [hls]),
      Parsed.ofLines_shift, hls] at hparsed
    rw [ofSource_of_parsed _ hproblems hparsed, ofSource_of_parsed _ hlexed rfl]
    dsimp only [Parsed.toExcept, Parsed.shift]
    cases (Parsed.ofLines (Line.ofTokens (Lexed.ofSource s₂).tokens)).problems with
    | nil => rfl
    | cons e es => exact congrArg Except.error (Diagnostic.map_ofSyntax_shift _ (e :: es))
  · have hmoved : (Lexed.ofSource (s₁ ++ s₂)).problems ≠ [] := by
      rwa [hproblems, Ne, List.map_eq_nil_iff]
    rw [ofSource_of_problems hlexed, ofSource_of_problems hmoved, hproblems,
      Diagnostic.map_ofLexical_shift]

/-- Behind a comment and an `include`, which take 20 bytes, a method and a text that is none. -/
theorem ofSource_append_inclusion :
    let s₁ := "# é\ninclude Kernel\n"
    let p₁ : Program := [⟨.inclusion ⟨"Kernel", ⟨13, 19⟩⟩, ⟨5, 20⟩⟩]
    let returns : TypeExpr := .generic "Array" (.named ⟨"Int", ⟨36, 39⟩⟩) ⟨30, 40⟩
    ofSource s₁ = .ok p₁ ∧
      ofSource (s₁ ++ "def run : Array[Int]") =
        .ok (p₁ ++ [⟨.method ⟨⟨"run", ⟨24, 27⟩⟩, [], some returns⟩, ⟨20, 40⟩⟩]) ∧
      ofSource (s₁ ++ "def run(") =
        .error [⟨.syntactic, "expected a parameter name, found end of file", ⟨28, 28⟩, []⟩] := by
  intro s₁ p₁ returns
  let p₂ : Program :=
    [⟨.method ⟨⟨"run", ⟨4, 7⟩⟩, [], some (.generic "Array" (.named ⟨"Int", ⟨16, 19⟩⟩) ⟨10, 20⟩)⟩,
      ⟨0, 20⟩⟩]
  let problem : SyntaxError := ⟨.unexpected .parameterName .eof, ⟨8, 8⟩⟩
  have h₁ : ofSource s₁ = .ok p₁ :=
    ofSource_of_parsed ⟨p₁, []⟩ (by decide +kernel) (by decide +kernel)
  have hmethod : ofSource "def run : Array[Int]" = .ok p₂ :=
    ofSource_of_parsed ⟨p₂, []⟩ (by decide +kernel) (by decide +kernel)
  have hnone : ofSource "def run(" = .error [.ofSyntax problem] :=
    ofSource_of_parsed ⟨[], [problem]⟩ (by decide +kernel) (by decide +kernel)
  have hlines : s₁ = "" ∨ ∃ body, s₁ = body ++ "\n" := .inr ⟨"# é\ninclude Kernel", rfl⟩
  refine ⟨h₁, ?_, ?_⟩
  · rw [ofSource_append hlines h₁, hmethod]
    rfl
  · rw [ofSource_append hlines h₁, hnone]
    rfl

end Program

end DeclLang
