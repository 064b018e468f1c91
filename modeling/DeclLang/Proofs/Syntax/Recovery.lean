import DeclLang.Proofs.Syntax.Concatenation

/-!
# Recovery: what is wrong with a line of a block stays with the line

A block reads its body line by line, and nothing is carried from one line to the next. So the items
of a body are those of its lines, as are its problems (`Body.read_lines`), and a block parses
exactly when it parses with each of its lines alone (`ofTokens_block`).
-/

namespace DeclLang

open LineParser

/-! ## Lines -/

namespace Line

/-- A line that does not close a block. -/
def NotEnd (l : Line) : Prop :=
  next? l.tokens ≠ some (.keyword .blockEnd)

/-- A line of a body, with the line feed that ends it. -/
structure InBody (l : Line) : Prop where
  unbroken : Unbroken l.tokens
  newline : l.stop.value = .newline
  not_end : l.NotEnd

theorem split_unbroken {us : List Token} (h : Unbroken us) {stop : Token}
    (hstop : stop.value = .newline) (ts : List Token) :
    split (us ++ stop :: ts) = (⟨us, stop⟩, ofTokens ts) := by
  induction us with
  | nil => exact split_newline hstop ts
  | cons u us ih =>
    obtain ⟨hu, hus⟩ := unbroken_cons.mp h
    rw [List.cons_append, split_inner hu.2 hu.1, ih hus]

/-- A line that ends with a line feed is cut off as it is. -/
theorem ofTokens_text {l : Line} (h : Unbroken l.tokens) (hstop : l.stop.value = .newline)
    (ts : List Token) : ofTokens (l.text ++ ts) = l :: ofTokens ts := by
  have hne : l.stop.value ≠ .eof := by
    rw [hstop]
    simp
  rw [ofTokens, text, ending_of_ne_eof hne, List.append_assoc, List.singleton_append,
    split_unbroken h hstop]

theorem ofTokens_flatMap_text {body : List Line} (h : ∀ l ∈ body, l.InBody) (ts : List Token) :
    ofTokens (body.flatMap text ++ ts) = body ++ ofTokens ts := by
  induction body with
  | nil => rfl
  | cons l below ih =>
    obtain ⟨hl, hbelow⟩ := List.forall_mem_cons.mp h
    rw [List.flatMap_cons, List.append_assoc, ofTokens_text hl.unbroken hl.newline, ih hbelow]
    rfl

/-- The last lines of a file that ends with `end`: there may be a blank one below it. -/
theorem ofTokens_closing {ending : List Token} (h : EndsLine ending []) (e eof : Span) :
    ∃ closing rest, ofTokens (⟨.keyword .blockEnd, e⟩ :: ending ++ [⟨.eof, eof⟩]) =
      closing :: rest ∧ closing.tokens = [⟨.keyword .blockEnd, e⟩] ∧
      ∀ l ∈ rest, l.isEmpty = true := by
  cases h with
  | @newline span =>
    refine ⟨⟨[⟨.keyword .blockEnd, e⟩], ⟨.newline, span⟩⟩, [⟨[], ⟨.eof, eof⟩⟩], rfl, rfl, ?_⟩
    exact List.forall_mem_singleton.mpr rfl
  | endOfFile =>
    exact ⟨⟨[⟨.keyword .blockEnd, e⟩], ⟨.eof, eof⟩⟩, [], rfl, rfl, List.forall_mem_nil _⟩

end Line

/-! ## Bodies -/

namespace Body

variable {α : Type} (item : LineParser α)

/-- A line of a body does not close it. -/
theorem closing_eq_none {l : Line} (h : l.InBody) : (read item [l]).closing = none := by
  by_cases hempty : l.isEmpty = true
  · rw [read, if_pos hempty]
    rfl
  · have hfirst : l.first.value ≠ .keyword .blockEnd := by
      intro hvalue
      rw [Line.isEmpty_iff] at hempty
      refine h.not_end ?_
      obtain ⟨t, ts, htokens⟩ := List.exists_cons_of_ne_nil hempty
      rw [Line.first, htokens] at hvalue
      rw [htokens, next?_cons, ← hvalue]
      rfl
    rw [read, if_neg hempty, if_neg hfirst]
    cases item.onLine l <;> rfl

/-- The items and the problems of a body are those of its lines. -/
theorem read_lines {body : List Line} (h : ∀ l ∈ body, l.InBody) (ms : List Line) :
    read item (body ++ ms) =
      { read item ms with
        items := body.flatMap (fun l => (read item [l]).items) ++ (read item ms).items
        problems :=
          body.flatMap (fun l => (read item [l]).problems) ++ (read item ms).problems } := by
  induction body with
  | nil => rfl
  | cons l below ih =>
    obtain ⟨hl, hbelow⟩ := List.forall_mem_cons.mp h
    have hsplit := read_append item [l] (below ++ ms)
    rw [closing_eq_none item hl, ih hbelow] at hsplit
    rw [List.cons_append, ← List.singleton_append, hsplit]
    simp only [List.flatMap_cons, List.append_assoc]

theorem read_closing {closing : Line} {e : Span}
    (h : closing.tokens = [⟨.keyword .blockEnd, e⟩]) (rest : List Line) :
    read item (closing :: rest) = ⟨[], [], some closing, rest⟩ := by
  have hfirst : closing.first.value = .keyword .blockEnd :=
    Line.first_value (by rw [h]; rfl)
  rw [read, if_neg (by simp [Line.isEmpty_iff, h]), if_pos hfirst]

end Body

/-! ## Headers -/

/-- The tokens of a line that opens a block: the keyword of the block, its name, and the declaration
    that the block makes of its items. -/
inductive OpensBlock : List Token → Keyword → Ident → {α : Type} →
    (List (Located α) → Declaration) → Prop where
  | classBlock {ts : List Token} {name : Ident} {superclass : Option Ident} :
      SpellsClassHeader ts (name, superclass) →
      OpensBlock ts .classBlock name (Declaration.classBlock name superclass)
  | moduleBlock {ts : List Token} {name : Ident} :
      SpellsModuleHeader ts name →
      OpensBlock ts .moduleBlock name (Declaration.moduleBlock name)
  | libBlock {ts : List Token} {name : Ident} {libname : Option (Located String)} :
      SpellsLibHeader ts (name, libname) →
      OpensBlock ts .libBlock name (Declaration.libBlock name libname)

namespace OpensBlock

variable {α : Type} {ts : List Token} {opened : Keyword} {name : Ident}
  {declaration : List (Located α) → Declaration}

theorem unbroken (h : OpensBlock ts opened name declaration) : Unbroken ts := by
  cases h with
  | classBlock hheader => exact hheader.unbroken
  | moduleBlock hheader => exact hheader.unbroken
  | libBlock hheader => exact hheader.unbroken

theorem opens (h : OpensBlock ts opened name declaration) : next? ts = some (.keyword opened) := by
  cases h with
  | classBlock hheader => exact hheader.opens
  | moduleBlock hheader => exact hheader.opens
  | libBlock hheader => exact hheader.opens

/-- The name of a block is one of the tokens of its header. -/
theorem name_mem (h : OpensBlock ts opened name declaration) : ∃ t ∈ ts, t.span = name.span := by
  have hname {us : List Token} (hspells : SpellsTypeName us name) :
      ∃ t ∈ us, t.span = name.span := by
    cases hspells
    exact ⟨_, List.mem_singleton_self _, rfl⟩
  cases h with
  | classBlock hheader =>
    cases hheader with
    | root hspells =>
      obtain ⟨t, ht, hspan⟩ := hname hspells
      exact ⟨t, List.mem_cons_of_mem _ ht, hspan⟩
    | inheriting hspells =>
      obtain ⟨t, ht, hspan⟩ := hname hspells
      exact ⟨t, List.mem_cons_of_mem _ (List.mem_append_left _ ht), hspan⟩
  | moduleBlock hheader =>
    cases hheader with
    | intro hspells =>
      obtain ⟨t, ht, hspan⟩ := hname hspells
      exact ⟨t, List.mem_cons_of_mem _ ht, hspan⟩
  | libBlock hheader =>
    cases hheader with
    | unlinked hspells =>
      obtain ⟨t, ht, hspan⟩ := hname hspells
      exact ⟨t, List.mem_cons_of_mem _ ht, hspan⟩
    | linked hspells =>
      obtain ⟨t, ht, hspan⟩ := hname hspells
      exact ⟨t, List.mem_cons_of_mem _ (List.mem_append_left _ ht), hspan⟩

theorem ne_nil (h : OpensBlock ts opened name declaration) : ts ≠ [] := by
  rintro rfl
  have hopens := h.opens
  cases hopens

/-- A header opens its block, whose items are all read by one parser. -/
theorem ofLine_eq {l : Line} (h : OpensBlock l.tokens opened name declaration) :
    ∃ item : LineParser α, ∀ below,
      Outcome.ofLine l below = Outcome.ofBlock opened name item declaration l below := by
  have hfirst := Line.first_value h.opens
  cases h with
  | classBlock hheader =>
    have honLine : parseClassHeader.onLine l = .ok ⟨_, l.span⟩ :=
      parses_parseClassHeader.onLine_eq_ok.mpr ⟨hheader, rfl⟩
    refine ⟨parseMember, fun below => ?_⟩
    rw [Outcome.ofLine, hfirst]
    dsimp only
    rw [honLine]
  | moduleBlock hheader =>
    have honLine : parseModuleHeader.onLine l = .ok ⟨_, l.span⟩ :=
      parses_parseModuleHeader.onLine_eq_ok.mpr ⟨hheader, rfl⟩
    refine ⟨parseMember, fun below => ?_⟩
    rw [Outcome.ofLine, hfirst]
    dsimp only
    rw [honLine]
  | libBlock hheader =>
    have honLine : parseLibHeader.onLine l = .ok ⟨_, l.span⟩ :=
      parses_parseLibHeader.onLine_eq_ok.mpr ⟨hheader, rfl⟩
    refine ⟨parseFunction, fun below => ?_⟩
    rw [Outcome.ofLine, hfirst]
    dsimp only
    rw [honLine]

end OpensBlock

/-! ## Blocks -/

theorem Parsed.ofLines_blank {ls : List Line} (h : ∀ l ∈ ls, l.isEmpty = true) :
    ofLines ls = ⟨[], []⟩ := by
  induction ls with
  | nil => rw [ofLines]
  | cons l below ih =>
    obtain ⟨hl, hbelow⟩ := List.forall_mem_cons.mp h
    rw [ofLines, if_pos hl, ih hbelow]

/-- The tokens of a file that is a single block. -/
def blockTokens (header : Line) (body : List Line) (ending : List Token) (e eof : Span) :
    List Token :=
  header.text ++ body.flatMap Line.text ++ (⟨.keyword .blockEnd, e⟩ :: ending ++ [⟨.eof, eof⟩])

/-- The problems for which tokens are refused. -/
def Program.problemsOf : Except (List SyntaxError) Program → List SyntaxError
  | .ok _ => []
  | .error es => es

namespace Parsed

theorem toExcept_of_eq_nil {p : Parsed} (h : p.problems = []) :
    p.toExcept = .ok p.declarations := by
  rw [toExcept, if_pos (List.isEmpty_iff.mpr h)]

theorem toExcept_of_ne_nil {p : Parsed} (h : p.problems ≠ []) : p.toExcept = .error p.problems := by
  rw [toExcept, if_neg]
  rwa [List.isEmpty_iff]

theorem exists_toExcept_eq_ok_iff {p : Parsed} : (∃ q, p.toExcept = .ok q) ↔ p.problems = [] := by
  constructor
  · rintro ⟨q, hq⟩
    by_cases h : p.problems = []
    · exact h
    · rw [toExcept_of_ne_nil h] at hq
      cases hq
  · exact fun h => ⟨_, toExcept_of_eq_nil h⟩

theorem problemsOf_toExcept (p : Parsed) : Program.problemsOf p.toExcept = p.problems := by
  by_cases h : p.problems = []
  · rw [toExcept_of_eq_nil h, h]
    rfl
  · rw [toExcept_of_ne_nil h]
    rfl

end Parsed

section

variable {α : Type} {header : Line} {opened : Keyword} {name : Ident}
  {declaration : List (Located α) → Declaration} {ending : List Token}

/-- What each line of a body comes to settles what the block comes to. -/
theorem Parsed.exists_ofLines_block (hheader : OpensBlock header.tokens opened name declaration)
    (hfeed : header.stop.value = .newline) (hending : EndsLine ending []) (e eof : Span) :
    ∃ (items : Line → List (Located α)) (problems : Line → List SyntaxError) (span : Span),
      ∀ body : List Line, (∀ l ∈ body, l.InBody) →
        ofLines (Line.ofTokens (blockTokens header body ending e eof)) =
          ⟨[⟨declaration (body.flatMap items), span⟩], body.flatMap problems⟩ := by
  obtain ⟨item, hitem⟩ := hheader.ofLine_eq
  obtain ⟨closing, rest, hlines, hclosing, hrest⟩ := Line.ofTokens_closing hending e eof
  have hend : (keyword .blockEnd).onLine closing = .ok ⟨⟨(), e⟩, closing.span⟩ :=
    (parses_keyword .blockEnd).onLine_eq_ok.mpr ⟨hclosing, rfl⟩
  have hne : ¬ header.isEmpty = true := by
    rw [Line.isEmpty_iff]
    exact hheader.ne_nil
  refine ⟨fun l => (Body.read item [l]).items, fun l => (Body.read item [l]).problems,
    header.first.span.merge closing.last.span, fun body hbody => ?_⟩
  have hread := Body.read_lines item hbody (closing :: rest)
  rw [Body.read_closing item hclosing rest] at hread
  dsimp only at hread
  rw [List.append_nil, List.append_nil] at hread
  have hblock : Outcome.ofBlock opened name item declaration header (body ++ closing :: rest) =
      ⟨some ⟨declaration (body.flatMap fun l => (Body.read item [l]).items),
          header.first.span.merge closing.last.span⟩,
        body.flatMap fun l => (Body.read item [l]).problems, rest⟩ := by
    rw [Outcome.ofBlock, hread]
    dsimp only
    rw [hend]
  rw [blockTokens, List.append_assoc, Line.ofTokens_text hheader.unbroken hfeed,
    Line.ofTokens_flatMap_text hbody, hlines, ofLines, if_neg hne, hitem, hblock]
  dsimp only
  rw [ofLines_blank hrest]
  exact congrArg (Parsed.mk _) (List.append_nil _)

/-- A block parses exactly when it does with each line of its body alone, and then its items are
    those of its lines, in order. If it does not parse, its problems are those of its lines. -/
theorem Program.ofTokens_block (hheader : OpensBlock header.tokens opened name declaration)
    (hfeed : header.stop.value = .newline) (hending : EndsLine ending []) (e eof : Span)
    {body : List Line} (hbody : ∀ l ∈ body, l.InBody) :
    let block (ls : List Line) := ofTokens (blockTokens header ls ending e eof)
    ((∃ p, block body = .ok p) ↔ ∀ l ∈ body, ∃ p, block [l] = .ok p) ∧
      ((∃ p, block body = .ok p) → ∃ (items : Line → List (Located α)) (span : Span),
        (∀ l ∈ body, block [l] = .ok [⟨declaration (items l), span⟩]) ∧
        block body = .ok [⟨declaration (body.flatMap items), span⟩]) ∧
      ((¬ ∃ p, block body = .ok p) →
        block body = .error (body.flatMap fun l => problemsOf (block [l]))) := by
  intro block
  obtain ⟨items, problems, span, hlines⟩ :=
    Parsed.exists_ofLines_block hheader hfeed hending e eof
  have hblock (ls : List Line) (hls : ∀ l ∈ ls, l.InBody) : block ls =
      Parsed.toExcept ⟨[⟨declaration (ls.flatMap items), span⟩], ls.flatMap problems⟩ :=
    congrArg Parsed.toExcept (hlines ls hls)
  have hone (l : Line) (hl : l ∈ body) :
      block [l] = Parsed.toExcept ⟨[⟨declaration (items l), span⟩], problems l⟩ := by
    have hsingle := hblock [l] (List.forall_mem_singleton.mpr (hbody l hl))
    rwa [List.flatMap_singleton, List.flatMap_singleton] at hsingle
  have hall : (∃ p, block body = .ok p) ↔ ∀ l ∈ body, problems l = [] := by
    rw [hblock body hbody, Parsed.exists_toExcept_eq_ok_iff]
    exact List.flatMap_eq_nil_iff
  refine ⟨?_, fun h => ⟨items, span, fun l hl => ?_, ?_⟩, fun h => ?_⟩
  · rw [hall]
    refine forall₂_congr fun l hl => ?_
    rw [hone l hl, Parsed.exists_toExcept_eq_ok_iff]
  · rw [hone l hl]
    exact Parsed.toExcept_of_eq_nil (hall.mp h l hl)
  · rw [hblock body hbody]
    exact Parsed.toExcept_of_eq_nil (List.flatMap_eq_nil_iff.mpr (hall.mp h))
  · have hsame : body.flatMap (fun l => problemsOf (block [l])) = body.flatMap problems := by
      rw [List.flatMap_def, List.flatMap_def]
      refine congrArg List.flatten (List.map_congr_left fun l hl => ?_)
      rw [hone l hl]
      exact Parsed.problemsOf_toExcept _
    have hne : body.flatMap problems ≠ [] := by
      intro hnil
      exact h (hall.mpr (List.flatMap_eq_nil_iff.mp hnil))
    rw [hsame, hblock body hbody]
    exact Parsed.toExcept_of_ne_nil hne

end

/-- A method between a number, which is no member, and an inclusion without a name. -/
theorem Program.ofTokens_block_class :
    let name : Ident := ⟨"A", ⟨6, 7⟩⟩
    let header : Line :=
      ⟨[⟨.keyword .classBlock, ⟨0, 5⟩⟩, ⟨.ident "A", ⟨6, 7⟩⟩], ⟨.newline, ⟨7, 8⟩⟩⟩
    let number : Line := ⟨[⟨.int 1, ⟨8, 9⟩⟩], ⟨.newline, ⟨9, 10⟩⟩⟩
    let method : Line :=
      ⟨[⟨.keyword .method, ⟨10, 13⟩⟩, ⟨.ident "m", ⟨14, 15⟩⟩], ⟨.newline, ⟨15, 16⟩⟩⟩
    let inclusion : Line := ⟨[⟨.keyword .inclusion, ⟨16, 23⟩⟩], ⟨.newline, ⟨23, 24⟩⟩⟩
    let body := [number, method, inclusion]
    let block (ls : List Line) := ofTokens (blockTokens header ls [] ⟨24, 27⟩ ⟨27, 27⟩)
    let first : SyntaxError := ⟨.unexpected .member (.int 1), ⟨8, 9⟩⟩
    let last : SyntaxError := ⟨.unexpected .typeName .newline, ⟨23, 24⟩⟩
    OpensBlock header.tokens .classBlock name (Declaration.classBlock name none) ∧
      (∀ l ∈ body, l.InBody) ∧ (∃ p, block [method] = .ok p) ∧
      block [number] = .error [first] ∧ block [inclusion] = .error [last] ∧
      block body = .error [first, last] := by
  intro name header number method inclusion body block first last
  have hname : SpellsTypeName [⟨.ident "A", ⟨6, 7⟩⟩] name := .ident rfl (by decide) (by decide)
  have hheader : OpensBlock header.tokens .classBlock name (Declaration.classBlock name none) :=
    .classBlock (.root hname)
  have hbody : ∀ l ∈ body, l.InBody := by
    have hnumber : number.InBody :=
      ⟨by simp [number, Token.Inner], rfl, by simp [number, Line.NotEnd]⟩
    have hmethod : method.InBody :=
      ⟨by simp [method, Token.Inner], rfl, by simp [method, Line.NotEnd]⟩
    have hinclusion : inclusion.InBody :=
      ⟨by simp [inclusion, Token.Inner], rfl, by simp [inclusion, Line.NotEnd]⟩
    simp only [body, List.forall_mem_cons]
    exact ⟨hnumber, hmethod, hinclusion, List.forall_mem_nil _⟩
  have hproblems : (Parsed.ofLines (Line.ofTokens (blockTokens header [number] [] ⟨24, 27⟩
        ⟨27, 27⟩))).problems = [first] ∧
      (Parsed.ofLines (Line.ofTokens (blockTokens header [method] [] ⟨24, 27⟩
        ⟨27, 27⟩))).problems = [] ∧
      (Parsed.ofLines (Line.ofTokens (blockTokens header [inclusion] [] ⟨24, 27⟩
        ⟨27, 27⟩))).problems = [last] := by
    decide +kernel
  obtain ⟨hnumber, hmethod, hinclusion⟩ := hproblems
  have hrefused : block [number] = .error [first] ∧ block [inclusion] = .error [last] := by
    constructor
    · rw [← hnumber]
      exact Parsed.toExcept_of_ne_nil (by simp [hnumber])
    · rw [← hinclusion]
      exact Parsed.toExcept_of_ne_nil (by simp [hinclusion])
  have haccepted : ∃ p, block [method] = .ok p := Parsed.exists_toExcept_eq_ok_iff.mpr hmethod
  obtain ⟨hiff, -, herror⟩ :=
    ofTokens_block hheader rfl .endOfFile ⟨24, 27⟩ ⟨27, 27⟩ hbody
  have hnot : ¬ ∃ p, block body = .ok p := by
    intro h
    obtain ⟨p, hp⟩ := hiff.mp h number List.mem_cons_self
    have hnumber := hp.symm.trans hrefused.1
    cases hnumber
  refine ⟨hheader, hbody, haccepted, hrefused.1, hrefused.2, (herror hnot).trans ?_⟩
  obtain ⟨p, hp⟩ := haccepted
  show Except.error (problemsOf (block [number]) ++ (problemsOf (block [method]) ++
    (problemsOf (block [inclusion]) ++ []))) = _
  rw [hrefused.1, hp, hrefused.2]
  rfl

end DeclLang
