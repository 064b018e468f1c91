import DeclLang.Proofs.Syntax.Cut
import DeclLang.Proofs.Syntax.Lines

/-!
# Files: the parser accepts exactly the grammar

Problems are put aside while reading goes on. Reading without problems is sound at every level, from
the body of a block (`Body.read_sound`) over a declaration (`Outcome.ofLine_sound`) to the file, and
what the grammar derives is read without problems. `Program.ofTokens_eq_ok_iff` puts both together.
-/

namespace DeclLang

open LineParser

/-! ## First words -/

-- A line is given to a parser by its first word, so each phrase has to say what that is.

theorem SpellsClassHeader.opens {ts : List Token} {x : Ident × Option Ident}
    (h : SpellsClassHeader ts x) : next? ts = some (.keyword .classBlock) := by
  cases h <;> rfl

theorem SpellsModuleHeader.opens {ts : List Token} {name : Ident} (h : SpellsModuleHeader ts name) :
    next? ts = some (.keyword .moduleBlock) := by
  cases h
  rfl

theorem SpellsLibHeader.opens {ts : List Token} {x : Ident × Option (Located String)}
    (h : SpellsLibHeader ts x) : next? ts = some (.keyword .libBlock) := by
  cases h <;> rfl

theorem SpellsPrimitive.opens {ts : List Token} {d : Declaration} (h : SpellsPrimitive ts d) :
    next? ts = some (.keyword .primitive) := by
  cases h
  rfl

theorem SpellsSignature.opens {k : Keyword} {SpellsName : List Token → Ident → Prop}
    {ts : List Token} {m : MethodDecl} (h : SpellsSignature k SpellsName ts m) :
    next? ts = some (.keyword k) := by
  cases h
  rfl

theorem SpellsInclusion.opens {ts : List Token} {module : Ident} (h : SpellsInclusion ts module) :
    next? ts = some (.keyword .inclusion) := by
  cases h
  rfl

/-! ## Bodies -/

/-- A phrase that fills a line of a body: it stays on its line and does not look like the line that
    closes the body. -/
structure FillsLine {α : Type} (SpellsItem : List Token → α → Prop) : Prop where
  unbroken : ∀ {ts a}, SpellsItem ts a → Unbroken ts
  opens : ∀ {ts a}, SpellsItem ts a → ∃ k, k ≠ .blockEnd ∧ next? ts = some (.keyword k)

theorem fillsLine_member : FillsLine SpellsMember where
  unbroken h := by
    cases h with
    | method hm => exact hm.unbroken SpellsMethodName.unbroken
    | inclusion hm => exact hm.unbroken
  opens h := by
    cases h with
    | method hm => exact ⟨.method, by decide, hm.opens⟩
    | inclusion hm => exact ⟨.inclusion, by decide, hm.opens⟩

theorem fillsLine_function : FillsLine SpellsFunction where
  unbroken h := h.unbroken SpellsFunctionName.unbroken
  opens h := ⟨.function, by decide, h.opens⟩

theorem Line.isEmpty_iff {l : Line} : l.isEmpty = true ↔ l.tokens = [] :=
  List.isEmpty_iff

theorem Line.first_value {l : Line} {kind : TokenKind} (h : next? l.tokens = some kind) :
    l.first.value = kind := by
  unfold Line.first
  cases htokens : l.tokens with
  | nil => simp [htokens] at h
  | cons t ts =>
    rw [htokens, next?_cons, Option.some.injEq] at h
    exact h

namespace Body

variable {α : Type} {item : LineParser α} {SpellsItem : List Token → α → Prop}

/-- What a body without problems was read from: the lines of its items, the line that closes it, and
    the lines below. -/
theorem read_sound (hitem : Parses item SpellsItem) {ts : List Token} {ls : List Line}
    (hcut : Cut ts ls) (hproblems : (read item ls).problems = []) {closing : Line}
    (hclosing : (read item ls).closing = some closing) :
    ∃ us rest, ts = us ++ closing.text ++ rest ∧
      SpellsBody SpellsItem us (closing.text ++ rest) (read item ls).items ∧
      EndsLine closing.ending rest ∧ closing.tokens ≠ [] ∧ Cut rest (read item ls).rest := by
  induction hcut with
  | nil => simp [read] at hclosing
  | @cons l us below hl hending hbelow ih =>
    unfold read at hproblems hclosing ⊢
    split at hproblems
    · -- A blank line: only its line feed is there.
      rename_i hempty
      rw [if_pos hempty] at hclosing
      rw [if_pos hempty]
      rcases ih hproblems hclosing with ⟨us', rest, hus, hbody, hclose⟩
      rw [Line.isEmpty_iff] at hempty
      rw [Line.text, hempty, List.nil_append]
      generalize l.ending = ending at hending
      cases hending with
      | @newline span =>
        rw [hus]
        exact ⟨⟨.newline, span⟩ :: us', rest, rfl, .blank hbody, hclose⟩
      | endOfFile => simp_all [Line.text]
    · rename_i hnonempty
      rw [if_neg hnonempty] at hclosing
      rw [if_neg hnonempty]
      rw [Line.isEmpty_iff] at hnonempty
      split at hproblems
      · -- The line that closes the body: nothing is read from it yet.
        rename_i hend
        rw [if_pos hend] at hclosing
        rw [if_pos hend]
        obtain rfl : l = closing := by simpa using hclosing
        exact ⟨[], us, rfl, .nil, hending, hnonempty, hbelow⟩
      · rename_i hend
        rw [if_neg hend] at hclosing
        rw [if_neg hend]
        dsimp only at hproblems hclosing ⊢
        -- A line that is no item would have left a problem behind.
        split at hproblems
        · rename_i a ha
          rw [ha] at hclosing
          rcases ih hproblems hclosing with ⟨us', rest, rfl, hbody, hclose⟩
          rcases hitem.onLine_eq_ok.mp ha with ⟨hspells, hspan⟩
          have hstep := SpellsBody.item hspells (by rwa [List.append_assoc] at hending) hbody
          refine ⟨l.text ++ us', rest, by simp, ?_, hclose⟩
          rcases a with ⟨value, span⟩
          dsimp only at hspan hstep ⊢
          rw [hspan, Line.span_eq_extent hnonempty]
          exact hstep
        · simp at hproblems

/-- A spelled body is read down to the line of its `end`. -/
theorem read_complete (hitem : Parses item SpellsItem) (hfills : FillsLine SpellsItem)
    {us ending rest : List Token} {items : List (Located α)} {span : Span}
    (hbody : SpellsBody SpellsItem us (⟨.keyword .blockEnd, span⟩ :: ending ++ rest) items)
    (hending : EndsLine ending rest) {ls : List Line}
    (hcut : Cut (us ++ (⟨.keyword .blockEnd, span⟩ :: ending ++ rest)) ls) :
    ∃ closing below, read item ls = ⟨items, [], some closing, below⟩ ∧
      closing.tokens = [⟨.keyword .blockEnd, span⟩] ∧ closing.ending = ending ∧
      Cut rest below := by
  generalize hafter : (⟨.keyword .blockEnd, span⟩ : Token) :: ending ++ rest = after at hbody hcut
  -- On the derivation of the body: each of its rules takes exactly the first line that is left.
  induction hbody generalizing ls with
  | nil =>
    subst hafter
    have hend : Unbroken [(⟨.keyword .blockEnd, span⟩ : Token)] := by simp [Token.Inner]
    rcases hcut.first_line hend hending (by simp) with ⟨l, below, rfl, htokens, hl, hbelow⟩
    refine ⟨l, below, ?_, htokens, hl, hbelow⟩
    have hfirst : l.first.value = .keyword .blockEnd :=
      Line.first_value (by rw [htokens]; rfl)
    rw [read, if_neg (by simp [Line.isEmpty_iff, htokens]), if_pos hfirst]
  | @blank us after items span' _ ih =>
    rcases @Cut.first_line [] [⟨.newline, span'⟩] _ _ unbroken_nil .newline (by simp) hcut with
      ⟨l, below, rfl, htokens, -, hbelow⟩
    rcases ih hafter hbelow with ⟨closing, below', hread, hrest⟩
    refine ⟨closing, below', ?_, hrest⟩
    rw [read, if_pos (Line.isEmpty_iff.mpr htokens), hread]
  | @item ts ending' us after a items hspells hending' _ ih =>
    rcases hfills.opens hspells with ⟨k, hk, hopens⟩
    have hts : ts ≠ [] := by
      rintro rfl
      simp at hopens
    rw [List.append_assoc] at hcut
    rcases hcut.first_line (hfills.unbroken hspells) hending' (by simp [hts]) with
      ⟨l, below, rfl, htokens, hl, hbelow⟩
    rcases ih hafter hbelow with ⟨closing, below', hread, hrest⟩
    subst htokens hl
    have hfirst : l.first.value ≠ .keyword .blockEnd := by
      rw [Line.first_value hopens]
      simp [hk]
    have honLine : item.onLine l = .ok ⟨a, extent l.text⟩ :=
      hitem.onLine_eq_ok.mpr ⟨hspells, (Line.span_eq_extent hts).symm⟩
    refine ⟨closing, below', ?_, hrest⟩
    rw [read, if_neg (by simpa [Line.isEmpty_iff] using hts), if_neg hfirst, honLine, hread]
    rfl

end Body

/-! ## Declarations -/

theorem parses_keyword (k : Keyword) :
    Parses (keyword k) fun ts u => ts = [⟨.keyword k, u.span⟩] :=
  fun _ _ _ => keyword_eq_ok

namespace Outcome

/-- The outcome is what the grammar makes of the first tokens; the lines of the others are left. -/
def Accepts (o : Outcome) (ts : List Token) : Prop :=
  ∃ used rest d, ts = used ++ rest ∧ SpellsDeclaration used rest d ∧
    o.declaration = some ⟨d, extent used⟩ ∧ Cut rest o.rest

theorem ofSingle_sound {p : LineParser Declaration} {Spells : List Token → Declaration → Prop}
    (hp : Parses p Spells) (hspells : ∀ {ts ending rest d}, Spells ts d → EndsLine ending rest →
      SpellsDeclaration (ts ++ ending) rest d)
    {l : Line} {below : List Line} {us : List Token} (hl : l.tokens ≠ [])
    (hending : EndsLine l.ending us) (hcut : Cut us below)
    (hproblems : (ofSingle p l below).problems = []) :
    (ofSingle p l below).Accepts (l.text ++ us) := by
  unfold ofSingle at hproblems ⊢
  split at hproblems
  · rename_i d hd
    rcases hp.onLine_eq_ok.mp hd with ⟨hvalue, hspan⟩
    rcases d with ⟨value, span⟩
    dsimp only at hvalue hspan
    rw [hspan, Line.span_eq_extent hl]
    exact ⟨l.text, us, value, rfl, hspells hvalue hending, rfl, hcut⟩
  · simp [ofError] at hproblems

/-- A declaration on one line is read from the first line of its file. -/
theorem ofSingle_complete {p : LineParser Declaration} {Spells : List Token → Declaration → Prop}
    (hp : Parses p Spells) {ts ending rest : List Token} {d : Declaration} {k : Keyword}
    (hspells : Spells ts d) (hts : Unbroken ts) (hopens : next? ts = some (.keyword k))
    (hending : EndsLine ending rest) {ls : List Line} (hcut : Cut (ts ++ ending ++ rest) ls) :
    ∃ l below, ls = l :: below ∧ l.tokens ≠ [] ∧ l.first.value = .keyword k ∧
      ofSingle p l below = ⟨some ⟨d, extent (ts ++ ending)⟩, [], below⟩ ∧ Cut rest below := by
  have hne : ts ≠ [] := by
    rintro rfl
    simp at hopens
  rcases hcut.first_line hts hending (by simp [hne]) with ⟨l, below, rfl, rfl, rfl, hbelow⟩
  have honLine : p.onLine l = .ok ⟨d, extent l.text⟩ :=
    hp.onLine_eq_ok.mpr ⟨hspells, (Line.span_eq_extent hne).symm⟩
  refine ⟨l, below, rfl, hne, Line.first_value hopens, ?_, hbelow⟩
  rw [ofSingle, honLine]
  rfl

variable {α β : Type} {item : LineParser α} {SpellsItem : List Token → α → Prop}
  {SpellsHeader : List Token → β → Prop} {opened : Keyword} {name : Ident}
  {declaration : List (Located α) → Declaration} {l : Line} {below : List Line} {b : β}

theorem ofBlock_sound (hitem : Parses item SpellsItem) (hl : l.tokens ≠ [])
    (hheader : SpellsHeader l.tokens b)
    (hspells : ∀ {ts rest items}, SpellsBlock SpellsHeader SpellsItem ts rest b items →
      SpellsDeclaration ts rest (declaration items))
    {us : List Token} (hending : EndsLine l.ending us) (hcut : Cut us below)
    (hproblems : (ofBlock opened name item declaration l below).problems = []) :
    (ofBlock opened name item declaration l below).Accepts (l.text ++ us) := by
  unfold ofBlock at hproblems ⊢
  dsimp only at hproblems ⊢
  split at hproblems
  · simp at hproblems
  · rename_i closing hclosing
    split at hproblems
    · rename_i u hu
      rcases Body.read_sound hitem hcut hproblems hclosing with
        ⟨body, rest, rfl, hbody, hends, hne, hrest⟩
      rcases (parses_keyword .blockEnd).onLine_eq_ok.mp hu with ⟨htokens, -⟩
      have hblock := SpellsBlock.intro hheader
        (by rwa [Line.text, htokens] at hending) (by rwa [Line.text, htokens] at hbody) hends
      have htext :
          l.tokens ++ l.ending ++ body ++ ⟨.keyword .blockEnd, u.value.span⟩ :: closing.ending =
            l.text ++ body ++ closing.text := by
        rw [Line.text, Line.text, htokens]
        rfl
      have hextent : extent (l.text ++ body ++ closing.text) =
          l.first.span.merge closing.last.span :=
        extent_eq (by rw [List.append_assoc, Line.head?_text hl]) (Line.getLast?_text hne _)
      rw [htext] at hblock
      rw [← hextent]
      exact ⟨l.text ++ body ++ closing.text, rest, _, by simp, hspells hblock, rfl, hrest⟩
    · simp at hproblems

/-- A spelled block is read down to its `end`, whichever header its first line has. -/
theorem ofBlock_complete {header : LineParser β} (hheader : Parses header SpellsHeader)
    (hitem : Parses item SpellsItem) (hfills : FillsLine SpellsItem)
    (hopens : ∀ {ts}, SpellsHeader ts b → Unbroken ts ∧ next? ts = some (.keyword opened))
    {ts rest : List Token} {items : List (Located α)}
    (h : SpellsBlock SpellsHeader SpellsItem ts rest b items) {ls : List Line}
    (hcut : Cut (ts ++ rest) ls) :
    ∃ l below below', ls = l :: below ∧ l.tokens ≠ [] ∧ l.first.value = .keyword opened ∧
      header.onLine l = .ok ⟨b, l.span⟩ ∧
      (∀ (name : Ident) (declaration : List (Located α) → Declaration),
        ofBlock opened name item declaration l below =
          ⟨some ⟨declaration items, extent ts⟩, [], below'⟩) ∧
      Cut rest below' := by
  cases h with
  | @intro headerTokens ending body ending' _ _ _ span hb hending hbody hending' =>
    rcases hopens hb with ⟨hunbroken, hkeyword⟩
    have hne : headerTokens ≠ [] := by
      rintro rfl
      simp at hkeyword
    simp only [List.append_assoc] at hcut hending
    rw [← List.append_assoc] at hcut
    rcases hcut.first_line hunbroken hending (by simp [hne]) with
      ⟨l, below, rfl, htokens, hl, hbelow⟩
    rcases Body.read_complete hitem hfills hbody hending' hbelow with
      ⟨closing, below', hread, hclosing, hclosing', hrest⟩
    subst htokens hl hclosing'
    refine ⟨l, below, below', rfl, hne, Line.first_value hkeyword,
      hheader.onLine_eq_ok.mpr ⟨hb, rfl⟩, fun name declaration => ?_, hrest⟩
    have honLine : (keyword .blockEnd).onLine closing = .ok ⟨⟨(), span⟩, closing.span⟩ :=
      (parses_keyword .blockEnd).onLine_eq_ok.mpr ⟨hclosing, rfl⟩
    have htext : l.tokens ++ l.ending ++ body ++
        ⟨.keyword .blockEnd, span⟩ :: closing.ending = l.text ++ body ++ closing.text := by
      rw [Line.text, Line.text, hclosing]
      rfl
    have hextent : extent (l.text ++ body ++ closing.text) =
        l.first.span.merge closing.last.span :=
      extent_eq (by rw [List.append_assoc, Line.head?_text hne])
        (Line.getLast?_text (by simp [hclosing]) _)
    rw [ofBlock, hread, htext, hextent]
    dsimp only
    rw [honLine]

/-- A line that starts a declaration without problems is, with the lines that belong to it, one
    that the grammar derives. -/
theorem ofLine_sound {l : Line} {below : List Line} {us : List Token} (hl : l.tokens ≠ [])
    (hending : EndsLine l.ending us) (hcut : Cut us below)
    (hproblems : (ofLine l below).problems = []) : (ofLine l below).Accepts (l.text ++ us) := by
  -- By the first word. A header that is refused is a problem, so only its `ok` case is left.
  unfold ofLine at hproblems ⊢
  split at hproblems
  case h_1 =>
    split at hproblems
    · rename_i name superclass span hheader
      have hspells := (parses_parseClassHeader.onLine_eq_ok.mp hheader).1
      exact ofBlock_sound parses_parseMember hl hspells .classBlock hending hcut hproblems
    · simp [ofError] at hproblems
  case h_2 =>
    split at hproblems
    · rename_i name span hheader
      have hspells := (parses_parseModuleHeader.onLine_eq_ok.mp hheader).1
      exact ofBlock_sound parses_parseMember hl hspells .moduleBlock hending hcut hproblems
    · simp [ofError] at hproblems
  case h_3 =>
    split at hproblems
    · rename_i name libname span hheader
      have hspells := (parses_parseLibHeader.onLine_eq_ok.mp hheader).1
      exact ofBlock_sound parses_parseFunction hl hspells .libBlock hending hcut hproblems
    · simp [ofError] at hproblems
  case h_4 => exact ofSingle_sound parses_parsePrimitive .primitive hl hending hcut hproblems
  case h_5 =>
    refine ofSingle_sound (parses_parseMethod.map .method) ?_ hl hending hcut hproblems
    rintro ts ending rest d ⟨m, rfl, hm⟩ hends
    exact .method hm hends
  case h_6 =>
    refine ofSingle_sound (parses_parseInclusion.map .inclusion) ?_ hl hending hcut hproblems
    rintro ts ending rest d ⟨module, rfl, hm⟩ hends
    exact .inclusion hm hends
  case h_7 => simp [ofError] at hproblems
  case h_8 => simp [ofError] at hproblems

/-- What the grammar derives is read without problems from the lines that it takes. -/
theorem ofLine_complete {ts rest : List Token} {d : Declaration} (h : SpellsDeclaration ts rest d)
    {ls : List Line} (hcut : Cut (ts ++ rest) ls) :
    ∃ l below below', ls = l :: below ∧ l.tokens ≠ [] ∧
      ofLine l below = ⟨some ⟨d, extent ts⟩, [], below'⟩ ∧ Cut rest below' := by
  cases h with
  | classBlock hblock =>
    rcases ofBlock_complete parses_parseClassHeader parses_parseMember fillsLine_member (fun h =>
        ⟨h.unbroken, h.opens⟩) hblock hcut with
      ⟨l, below, below', rfl, hne, hfirst, honLine, hread, hrest⟩
    refine ⟨l, below, below', rfl, hne, ?_, hrest⟩
    rw [ofLine, hfirst]
    dsimp only
    rw [honLine]
    exact hread _ _
  | moduleBlock hblock =>
    rcases ofBlock_complete parses_parseModuleHeader parses_parseMember fillsLine_member (fun h =>
        ⟨h.unbroken, h.opens⟩) hblock hcut with
      ⟨l, below, below', rfl, hne, hfirst, honLine, hread, hrest⟩
    refine ⟨l, below, below', rfl, hne, ?_, hrest⟩
    rw [ofLine, hfirst]
    dsimp only
    rw [honLine]
    exact hread _ _
  | libBlock hblock =>
    rcases ofBlock_complete parses_parseLibHeader parses_parseFunction fillsLine_function (fun h =>
        ⟨h.unbroken, h.opens⟩) hblock hcut with
      ⟨l, below, below', rfl, hne, hfirst, honLine, hread, hrest⟩
    refine ⟨l, below, below', rfl, hne, ?_, hrest⟩
    rw [ofLine, hfirst]
    dsimp only
    rw [honLine]
    exact hread _ _
  | primitive hprimitive hending =>
    rcases ofSingle_complete parses_parsePrimitive hprimitive hprimitive.unbroken hprimitive.opens
        hending hcut with
      ⟨l, below, rfl, hne, hfirst, hread, hrest⟩
    refine ⟨l, below, below, rfl, hne, ?_, hrest⟩
    rw [ofLine, hfirst]
    exact hread
  | method hmethod hending =>
    rcases ofSingle_complete (parses_parseMethod.map .method) ⟨_, rfl, hmethod⟩ (hmethod.unbroken
        SpellsMethodName.unbroken) hmethod.opens hending hcut with
      ⟨l, below, rfl, hne, hfirst, hread, hrest⟩
    refine ⟨l, below, below, rfl, hne, ?_, hrest⟩
    rw [ofLine, hfirst]
    exact hread
  | inclusion hinclusion hending =>
    rcases ofSingle_complete (parses_parseInclusion.map .inclusion) ⟨_, rfl, hinclusion⟩
        hinclusion.unbroken hinclusion.opens hending hcut with
      ⟨l, below, rfl, hne, hfirst, hread, hrest⟩
    refine ⟨l, below, below, rfl, hne, ?_, hrest⟩
    rw [ofLine, hfirst]
    exact hread

end Outcome

/-! ## Files -/

namespace Parsed

/-- A file without problems is what its tokens spell. -/
theorem ofLines_sound {ts : List Token} {ls : List Line} (hcut : Cut ts ls)
    (hproblems : (ofLines ls).problems = []) : SpellsProgram ts (ofLines ls).declarations := by
  fun_induction ofLines ls generalizing ts with
  | case1 =>
    cases hcut
    exact .nil
  | case2 l below hempty ih =>
    cases hcut with
    | @cons _ us _ _ hending hbelow =>
      have hspells := ih hbelow hproblems
      rw [Line.isEmpty_iff] at hempty
      rw [Line.text, hempty, List.nil_append]
      generalize l.ending = ending at hending
      cases hending with
      | newline => exact .blank hspells
      | endOfFile => exact hspells
  | case3 l below hnonempty outcome tail =>
    rename_i ih
    cases hcut with
    | @cons _ us _ _ hending hbelow =>
      rcases List.append_eq_nil_iff.mp hproblems with ⟨houtcome, htail⟩
      rw [Line.isEmpty_iff] at hnonempty
      rcases Outcome.ofLine_sound hnonempty hending hbelow houtcome with
        ⟨used, rest, d, hused, hspells, hd, hrest⟩
      rw [hused, hd]
      exact .declaration hspells (ih hrest htail)

/-- What the grammar derives is read without problems. -/
theorem ofLines_complete {ts : List Token} {p : Program} (h : SpellsProgram ts p) {ls : List Line}
    (hcut : Cut ts ls) : ofLines ls = ⟨p, []⟩ := by
  -- On the derivation, with the lines of what is left; the last line of a file may be blank.
  induction h generalizing ls with
  | nil =>
    have hblank := hcut.isEmpty_of_nil
    clear hcut
    induction ls with
    | nil => rw [ofLines]
    | cons l below ih =>
      rw [ofLines, if_pos (hblank l List.mem_cons_self)]
      exact ih fun l hl => hblank l (List.mem_cons_of_mem _ hl)
  | @blank ts p span _ ih =>
    rcases @Cut.first_line [] [⟨.newline, span⟩] _ _ unbroken_nil .newline (by simp) hcut with
      ⟨l, below, rfl, htokens, -, hbelow⟩
    rw [ofLines, if_pos (Line.isEmpty_iff.mpr htokens)]
    exact ih hbelow
  | @declaration ts rest d p hspells _ ih =>
    rcases Outcome.ofLine_complete hspells hcut with ⟨l, below, below', rfl, hne, hread, hrest⟩
    rw [ofLines, if_neg (by simpa [Line.isEmpty_iff] using hne), hread]
    dsimp only
    rw [ih hrest]
    rfl

end Parsed

namespace Program

theorem ofTokens_eq_ok {ts : List Token} {p : Program} (h : ofTokens ts = .ok p) :
    Parsed.ofLines (Line.ofTokens ts) = ⟨p, []⟩ := by
  unfold ofTokens Parsed.toExcept at h
  cases hparsed : Parsed.ofLines (Line.ofTokens ts) with
  | mk declarations problems =>
    rw [hparsed] at h
    cases problems with
    | nil =>
      cases h
      rfl
    | cons e es => cases h

theorem spells_of_ofTokens {ts : List Token} {p : Program} (h : ofTokens ts = .ok p) :
    SpellsProgram (ts.takeWhile (·.value ≠ .eof)) p := by
  have hparsed := ofTokens_eq_ok h
  have hspells := Parsed.ofLines_sound (cut_ofTokens ts) (congrArg Parsed.problems hparsed)
  rwa [hparsed] at hspells

/-- A text is parsed only if it can be cut into tokens. -/
theorem ofSource_eq_ok {source : String} {p : Program} (h : ofSource source = .ok p) :
    ∃ tokens, lex source = .ok tokens ∧ ofTokens tokens = .ok p := by
  unfold ofSource at h
  cases hlex : lex source with
  | error e =>
    rw [hlex] at h
    cases h
  | ok tokens =>
    rw [hlex] at h
    change (ofTokens tokens).mapError _ = .ok p at h
    cases hp : ofTokens tokens with
    | error e =>
      rw [hp] at h
      cases h
    | ok q =>
      rw [hp] at h
      rw [← Except.ok.inj h]
      exact ⟨tokens, rfl, hp⟩

end Program

/-- Tokens spell a program exactly when the grammar derives it from those before the first end of
    file, and tokens that spell none are refused with at least one problem. -/
theorem Program.ofTokens_eq_ok_iff (ts : List Token) :
    (∀ p, Program.ofTokens ts = .ok p ↔ SpellsProgram (ts.takeWhile (·.value ≠ .eof)) p) ∧
      Program.ofTokens ts ≠ .error [] := by
  have hcut := cut_ofTokens ts
  unfold Program.ofTokens Parsed.toExcept
  constructor
  · intro p
    constructor
    · intro h
      split at h
      · rename_i hproblems
        rw [Except.ok.injEq] at h
        rw [← h]
        exact Parsed.ofLines_sound hcut (List.isEmpty_iff.mp hproblems)
      · simp at h
    · intro h
      rw [Parsed.ofLines_complete h hcut]
      rfl
  · split
    · simp
    · rename_i hproblems
      intro h
      rw [Except.error.injEq] at h
      exact hproblems (List.isEmpty_iff.mpr h)

end DeclLang
