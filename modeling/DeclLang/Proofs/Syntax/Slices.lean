import DeclLang.Proofs.Syntax.Concatenation
import DeclLang.Proofs.Token.Slices

/-!
# Slices of a program: every declaration is a file of its own

The lines of a declaration spell it whatever comes behind them (`SpellsDeclaration.alone`), and the
text that its span covers has the same tokens by itself. So that text, as a file, is read as this
declaration and nothing else, where only the spans tell that it stood somewhere
(`ofSource_slice`).
-/

namespace DeclLang

open LineParser

/-! ## Smaller phrases -/

section Smaller

variable {ts rest : List Token}

/-- A foreign function is written like a method. -/
theorem SpellsFunction.signature {m : MethodDecl} (h : SpellsFunction ts m) :
    SpellsSignature .function SpellsMethodName ts m := by
  cases h with
  | intro hname hparameters hreturns =>
    cases hname with
    | ident => exact .intro .ident hparameters hreturns

/-- Every item of a body is spelled by a part of its tokens. -/
theorem SpellsBody.exists_infix {α : Type} {SpellsItem : List Token → α → Prop}
    {items : List (Located α)} (h : SpellsBody SpellsItem ts rest items) :
    ∀ item ∈ items, ∃ us, us <:+: ts ∧ SpellsItem us item.value := by
  induction h with
  | nil => exact List.forall_mem_nil _
  | blank _ ih =>
    intro item hitem
    obtain ⟨us, hus, hspells⟩ := ih item hitem
    exact ⟨us, hus.trans (List.suffix_cons _ _).isInfix, hspells⟩
  | @item ts ending us _ _ _ hspells _ _ ih =>
    refine List.forall_mem_cons.mpr ⟨⟨ts, ⟨[], ending ++ us, by simp⟩, hspells⟩, fun i hi => ?_⟩
    obtain ⟨vs, hvs, hspells⟩ := ih i hi
    exact ⟨vs, hvs.trans (List.suffix_append _ _).isInfix, hspells⟩

theorem SpellsBlock.exists_infix {α β : Type} {SpellsHeader : List Token → β → Prop}
    {SpellsItem : List Token → α → Prop} {b : β} {items : List (Located α)}
    (h : SpellsBlock SpellsHeader SpellsItem ts rest b items) :
    (∃ us, us <:+: ts ∧ SpellsHeader us b) ∧
      ∀ item ∈ items, ∃ us, us <:+: ts ∧ SpellsItem us item.value := by
  cases h with
  | @intro header ending body ending' _ _ _ span hheader _ hbody _ =>
    refine ⟨⟨header, ?_, hheader⟩, fun item hitem => ?_⟩
    · exact ⟨[], ending ++ body ++ ⟨.keyword .blockEnd, span⟩ :: ending', by simp⟩
    obtain ⟨us, hus, hspells⟩ := hbody.exists_infix item hitem
    refine ⟨us, hus.trans ?_, hspells⟩
    exact ⟨header ++ ending, ⟨.keyword .blockEnd, span⟩ :: ending', rfl⟩

end Smaller

/-! ## What comes behind -/

section Alone

variable {α β : Type} {SpellsItem : List Token → α → Prop} {SpellsHeader : List Token → β → Prop}
  {ts rest : List Token}

theorem EndsLine.alone {ending rest' : List Token} (h : EndsLine ending rest)
    (hrest : rest = [] → rest' = []) : EndsLine ending rest' := by
  cases h with
  | newline => exact .newline
  | endOfFile =>
    rw [hrest rfl]
    exact .endOfFile

theorem SpellsBody.alone {rest' : List Token} {items : List (Located α)}
    (h : SpellsBody SpellsItem ts rest items) (hrest : rest = [] → rest' = []) :
    SpellsBody SpellsItem ts rest' items := by
  induction h with
  | nil => exact .nil
  | blank _ ih => exact .blank (ih hrest)
  | item hitem hending _ ih =>
    refine .item hitem (hending.alone fun hnil => ?_) (ih hrest)
    obtain ⟨hus, hnil⟩ := List.append_eq_nil_iff.mp hnil
    rw [hus, hrest hnil]
    rfl

theorem SpellsBlock.alone {b : β} {items : List (Located α)}
    (h : SpellsBlock SpellsHeader SpellsItem ts rest b items) :
    SpellsBlock SpellsHeader SpellsItem ts [] b items := by
  cases h with
  | intro hheader hending hbody hending' =>
    refine .intro hheader (hending.alone fun hnil => ?_) (hbody.alone fun hnil => ?_)
      (hending'.alone fun _ => rfl)
    · simp at hnil
    · simp at hnil

/-- A declaration does not depend on what comes behind it. -/
theorem SpellsDeclaration.alone {d : Declaration} (h : SpellsDeclaration ts rest d) :
    SpellsDeclaration ts [] d := by
  cases h with
  | classBlock h => exact .classBlock h.alone
  | moduleBlock h => exact .moduleBlock h.alone
  | libBlock h => exact .libBlock h.alone
  | primitive h hending => exact .primitive h (hending.alone fun _ => rfl)
  | method h hending => exact .method h (hending.alone fun _ => rfl)
  | inclusion h hending => exact .inclusion h (hending.alone fun _ => rfl)

theorem SpellsBlock.ne_nil {b : β} {items : List (Located α)}
    (h : SpellsBlock SpellsHeader SpellsItem ts rest b items) : ts ≠ [] := by
  cases h
  simp

theorem SpellsDeclaration.ne_nil {d : Declaration} (h : SpellsDeclaration ts rest d) :
    ts ≠ [] := by
  have hopens {us ending : List Token} {kind : TokenKind} (hus : next? us = some kind) :
      us ++ ending ≠ [] := by
    intro hnil
    rw [(List.append_eq_nil_iff.mp hnil).1] at hus
    cases hus
  cases h with
  | classBlock h | moduleBlock h | libBlock h => exact h.ne_nil
  | primitive h => exact hopens h.opens
  | method h => exact hopens h.opens
  | inclusion h => exact hopens h.opens

end Alone

/-- Every declaration of a program is spelled by some of its tokens, from the first to the last of
    which its span reaches. -/
theorem SpellsProgram.exists_slice {ts : List Token} {p : Program} (h : SpellsProgram ts p) :
    ∀ d ∈ p, ∃ front us more, ts = front ++ (us ++ more) ∧ SpellsDeclaration us more d.value ∧
      d.span = extent us := by
  induction h with
  | nil => exact List.forall_mem_nil _
  | @blank ts p span _ ih =>
    intro d hd
    obtain ⟨front, us, more, rfl, hspells, hspan⟩ := ih d hd
    exact ⟨⟨.newline, span⟩ :: front, us, more, rfl, hspells, hspan⟩
  | @declaration ts rest d p hd _ ih =>
    refine List.forall_mem_cons.mpr ⟨⟨[], ts, rest, rfl, hd, rfl⟩, fun e he => ?_⟩
    obtain ⟨front, us, more, rfl, hspells, hspan⟩ := ih e he
    exact ⟨ts ++ front, us, more, (List.append_assoc ..).symm, hspells, hspan⟩

namespace Program

/-- A declaration is read from its tokens and the end of the file. -/
theorem ofTokens_declaration {us : List Token} {d : Declaration} (h : SpellsDeclaration us [] d)
    (hus : ∀ t ∈ us, t.value ≠ .eof) (offset : Nat) :
    ofTokens (us ++ [⟨.eof, .point offset⟩]) = .ok [⟨d, extent us⟩] := by
  have hprogram := SpellsProgram.declaration h .nil
  have hinner : (us ++ [(⟨.eof, .point offset⟩ : Token)]).takeWhile (·.value ≠ .eof) =
      us ++ [] := by
    rw [List.takeWhile_append_of_pos (by simpa using hus)]
    rfl
  have hcut := cut_ofTokens (us ++ [⟨.eof, .point offset⟩])
  rw [hinner] at hcut
  unfold ofTokens
  rw [Parsed.ofLines_complete hprogram hcut]
  rfl

theorem tokenizes_of_ofSource {source : String} {p : Program} (h : ofSource source = .ok p) :
    ∃ tokens, Tokenizes 0 source.toList tokens ∧ ofTokens tokens = .ok p := by
  obtain ⟨tokens, hlex, htokens⟩ := ofSource_eq_ok h
  exact ⟨tokens, Lexed.ofChars_eq_iff.mp (lex_eq_ok hlex), htokens⟩

/-- A text whose tokens are known is read as the program that they spell. -/
theorem ofSource_eq_ofTokens {source : String} {ts : List Token}
    (h : Tokenizes 0 source.toList ts) :
    ofSource source = (ofTokens ts).mapError (·.map .ofSyntax) := by
  have hlexed : Lexed.ofSource source = ⟨ts, []⟩ := h.ofChars_eq
  rw [ofSource, lex, hlexed]
  rfl

/-- A text that gives the tokens of a program when it stands further down gives the program, there
    moved, when it stands alone. -/
theorem ofSource_of_tokenizes {pos : Nat} {text : List Char} {ts : List Token} {p : Program}
    (h : Tokenizes pos text ts) (hp : ofTokens ts = .ok p) :
    ∃ p₀, ofSource (String.ofList text) = .ok p₀ ∧ p₀.shift pos = p := by
  have hshift := Lexed.ofChars_shift pos 0 text
  rw [Nat.zero_add, h.ofChars_eq] at hshift
  have htokens : ts = (Lexed.ofChars 0 text).tokens.map (·.shift pos) :=
    congrArg Lexed.tokens hshift
  have hproblems : (Lexed.ofSource (String.ofList text)).problems = [] := by
    rw [Lexed.ofSource, String.toList_ofList]
    exact List.map_eq_nil_iff.mp (congrArg Lexed.problems hshift).symm
  have hsource := ofSource_of_parsed _ hproblems rfl
  rw [Lexed.ofSource, String.toList_ofList] at hsource
  rw [htokens, ofTokens_shift pos (Lexed.eof_mem 0 text)] at hp
  have hparsed : ofSource (String.ofList text) =
      (ofTokens (Lexed.ofChars 0 text).tokens).mapError (·.map .ofSyntax) := hsource
  rw [hparsed]
  cases hp₀ : ofTokens (Lexed.ofChars 0 text).tokens with
  | error es =>
    rw [hp₀] at hp
    cases hp
  | ok p₀ =>
    rw [hp₀] at hp
    exact ⟨p₀, rfl, Except.ok.inj hp⟩

/-- The text that the span of a declaration covers is a file that parses, and the only declaration
    in it is this one, with every span counted from the start of that text. -/
theorem ofSource_slice {source : String} {p : Program} (h : ofSource source = .ok p) :
    ∀ d ∈ p, ∃ text : String, d.span.Covers source.toList text.toList ∧
      ∃ d₀, ofSource text = .ok [d₀] ∧ d₀.shiftAll Declaration.shift d.span.start = d := by
  obtain ⟨tokens, hall, htokens⟩ := tokenizes_of_ofSource h
  intro d hd
  obtain ⟨front, us, more, hsplit, hdeclaration, hspan⟩ :=
    (spells_of_ofTokens htokens).exists_slice d hd
  have hinner : ∀ t ∈ us, t.value ≠ .eof := by
    intro t ht
    have hmem : t ∈ tokens.takeWhile (·.value ≠ .eof) := by
      rw [hsplit]
      exact List.mem_append_right _ (List.mem_append_left _ ht)
    simpa using List.all_eq_true.mp List.all_takeWhile t hmem
  have hwhole : tokens.takeWhile (·.value ≠ .eof) ++ tokens.dropWhile (·.value ≠ .eof) = tokens :=
    List.takeWhile_append_dropWhile
  rw [← hwhole, hsplit, List.append_assoc, List.append_assoc] at hall
  obtain ⟨text, hcovers, htext⟩ := hall.slice hdeclaration.ne_nil hinner
  have ⟨p₀, hp₀, hshift⟩ :=
    ofSource_of_tokenizes htext (ofTokens_declaration hdeclaration.alone hinner _)
  obtain ⟨d₀, rfl, hd₀⟩ := List.map_eq_singleton_iff.mp hshift
  refine ⟨String.ofList text, ?_, d₀, hp₀, ?_⟩
  · rw [hspan, String.toList_ofList]
    exact hcovers
  · rw [hspan, hd₀, ← hspan]

/-- A module behind a comment, with a comment in it, and with one behind it that it goes without. -/
theorem ofSource_slice_module :
    let source := "# é\nmodule Ring # <é>\n  def sum!(v: Ring)\nend # é"
    let v : Parameter := ⟨"v", .named ⟨"Ring", ⟨38, 42⟩⟩, ⟨35, 42⟩⟩
    let d : Located Declaration := ⟨.moduleBlock ⟨"Ring", ⟨12, 16⟩⟩
      [⟨.method ⟨⟨"sum!", ⟨30, 34⟩⟩, [v], none⟩, ⟨26, 44⟩⟩], ⟨5, 47⟩⟩
    ofSource source = .ok [d] ∧
      ∃ text : String, Span.Covers ⟨5, 47⟩ source.toList text.toList ∧
        ∃ d₀, ofSource text = .ok [d₀] ∧ d₀.shiftAll Declaration.shift 5 = d := by
  intro source v d
  have hsource : ofSource source = .ok [d] :=
    ofSource_of_parsed ⟨[d], []⟩ (by decide +kernel) (by decide +kernel)
  exact ⟨hsource, ofSource_slice hsource d List.mem_cons_self⟩

end Program

end DeclLang
