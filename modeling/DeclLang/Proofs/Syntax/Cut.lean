import DeclLang.Proofs.Syntax.Grammar
import DeclLang.Syntax.Line

/-!
# Cutting into lines

A file is the text of its lines, one after the other (`Cut`), up to the first end-of-file token. A
phrase holds no line break, so a phrase and its line feed are exactly the first line of a file that
starts with them (`Cut.first_line`): this is what lets the grammar, which knows no lines, be read
line by line.
-/

namespace DeclLang

variable {α : Type}

/-! ## Tokens within a line -/

/-- Neither a line feed nor the end of a file. -/
def Token.Inner (t : Token) : Prop :=
  t.value ≠ .newline ∧ t.value ≠ .eof

/-- Tokens that can stand together on a line. -/
def Unbroken (ts : List Token) : Prop :=
  ∀ t ∈ ts, t.Inner

@[simp] theorem unbroken_nil : Unbroken [] := by simp [Unbroken]

@[simp] theorem unbroken_cons {t : Token} {ts : List Token} :
    Unbroken (t :: ts) ↔ t.Inner ∧ Unbroken ts := by
  simp [Unbroken]

@[simp] theorem unbroken_append {ts us : List Token} :
    Unbroken (ts ++ us) ↔ Unbroken ts ∧ Unbroken us := by
  simp [Unbroken, or_imp, forall_and]

theorem SpellsTypeName.unbroken {ts : List Token} {name : Ident} (h : SpellsTypeName ts name) :
    Unbroken ts := by
  cases h
  simp [Token.Inner]

theorem SpellsType.unbroken {ts : List Token} {t : TypeExpr} (h : SpellsType ts t) :
    Unbroken ts := by
  induction h with
  | named hname => exact hname.unbroken
  | generic hbase _ ih => simp [Token.Inner, hbase.unbroken, ih]

theorem SpellsParameter.unbroken {ts : List Token} {p : Parameter} (h : SpellsParameter ts p) :
    Unbroken ts := by
  cases h with
  | typed htype => simp [Token.Inner, htype.unbroken]

theorem SpellsParameters.unbroken {ts : List Token} {ps : List Parameter}
    (h : SpellsParameters ts ps) : Unbroken ts := by
  induction h with
  | last hp => exact hp.unbroken
  | more hp _ ih => simp [Token.Inner, hp.unbroken, ih]

theorem SpellsParameterList.unbroken {ts : List Token} {ps : List Parameter}
    (h : SpellsParameterList ts ps) : Unbroken ts := by
  cases h with
  | absent => simp
  | empty => simp [Token.Inner]
  | parameters hps => simp [Token.Inner, hps.unbroken]

theorem SpellsReturn.unbroken {ts : List Token} {t : Option TypeExpr} (h : SpellsReturn ts t) :
    Unbroken ts := by
  cases h with
  | absent => simp
  | type htype => simp [Token.Inner, htype.unbroken]

theorem SpellsMethodName.unbroken {ts : List Token} {name : Ident} (h : SpellsMethodName ts name) :
    Unbroken ts := by
  cases h <;> simp [Token.Inner]

theorem SpellsFunctionName.unbroken {ts : List Token} {name : Ident}
    (h : SpellsFunctionName ts name) : Unbroken ts := by
  cases h
  simp [Token.Inner]

theorem SpellsSignature.unbroken {k : Keyword} {SpellsName : List Token → Ident → Prop}
    (hname : ∀ {ts name}, SpellsName ts name → Unbroken ts) {ts : List Token} {m : MethodDecl}
    (h : SpellsSignature k SpellsName ts m) : Unbroken ts := by
  cases h with
  | intro hn hps hrs => simp [Token.Inner, hname hn, hps.unbroken, hrs.unbroken]

theorem SpellsInclusion.unbroken {ts : List Token} {module : Ident}
    (h : SpellsInclusion ts module) : Unbroken ts := by
  cases h with
  | intro hname => simp [Token.Inner, hname.unbroken]

theorem SpellsClassHeader.unbroken {ts : List Token} {x : Ident × Option Ident}
    (h : SpellsClassHeader ts x) : Unbroken ts := by
  cases h with
  | root hname => simp [Token.Inner, hname.unbroken]
  | inheriting hname hsuper => simp [Token.Inner, hname.unbroken, hsuper.unbroken]

theorem SpellsModuleHeader.unbroken {ts : List Token} {name : Ident}
    (h : SpellsModuleHeader ts name) : Unbroken ts := by
  cases h with
  | intro hname => simp [Token.Inner, hname.unbroken]

theorem SpellsLibHeader.unbroken {ts : List Token} {x : Ident × Option (Located String)}
    (h : SpellsLibHeader ts x) : Unbroken ts := by
  cases h with
  | unlinked hname => simp [Token.Inner, hname.unbroken]
  | linked hname => simp [Token.Inner, hname.unbroken]

theorem SpellsPrimitive.unbroken {ts : List Token} {d : Declaration} (h : SpellsPrimitive ts d) :
    Unbroken ts := by
  cases h with
  | intro hname hsuper => simp [Token.Inner, hname.unbroken, hsuper.unbroken]

/-! ## Lines as text -/

namespace Line

/-- What of a line is neither in its tokens nor the end of the file: its line feed, if it has
    one. -/
def ending (l : Line) : List Token :=
  match l.stop.value with
  | .eof => []
  | _ => [l.stop]

/-- All that a line takes of its file. -/
def text (l : Line) : List Token :=
  l.tokens ++ l.ending

theorem head?_text {l : Line} (h : l.tokens ≠ []) (rest : List Token) :
    (l.text ++ rest).head? = some l.first := by
  unfold text first
  cases htokens : l.tokens with
  | nil => exact absurd htokens h
  | cons t ts => rfl

theorem ending_of_ne_eof {l : Line} (h : l.stop.value ≠ .eof) : l.ending = [l.stop] := by
  unfold ending
  split
  · rename_i heof
    exact absurd heof h
  · rfl

theorem last_of_ne_eof {l : Line} (h : l.stop.value ≠ .eof) : l.last = l.stop := by
  unfold last
  split
  · rename_i heof
    exact absurd heof h
  · rfl

theorem getLast?_text {l : Line} (h : l.tokens ≠ []) (before : List Token) :
    (before ++ l.text).getLast? = some l.last := by
  by_cases heof : l.stop.value = .eof
  -- The end of the file is not in the text, so the last token is one of the line's own.
  · unfold text ending last
    simp only [heof, List.append_nil, List.getLast?_append, List.getLastD_eq_getLast?,
      List.getLast?_eq_some_getLast h, Option.some_or, Option.getD_some]
  · unfold text
    rw [ending_of_ne_eof heof, last_of_ne_eof heof, ← List.append_assoc, List.getLast?_concat]

end Line

theorem extent_eq {ts : List Token} {first last : Token} (hfirst : ts.head? = some first)
    (hlast : ts.getLast? = some last) : extent ts = first.span.merge last.span := by
  rw [extent, hfirst, hlast]

theorem Line.span_eq_extent {l : Line} (h : l.tokens ≠ []) : l.span = extent l.text := by
  have hfirst := head?_text h []
  rw [List.append_nil] at hfirst
  exact (extent_eq hfirst (getLast?_text h [])).symm

/-- The tokens of a file and its lines. -/
inductive Cut : List Token → List Line → Prop where
  | nil : Cut [] []
  | cons {l : Line} {us : List Token} {below : List Line} :
      Unbroken l.tokens → EndsLine l.ending us → Cut us below → Cut (l.text ++ us) (l :: below)

theorem cut_split (ts : List Token) :
    Cut (ts.takeWhile (·.value ≠ .eof)) ((Line.split ts).1 :: (Line.split ts).2) := by
  -- Along the file: a token either ends a line or is put in front of the line that follows.
  fun_induction Line.split ts with
  | case1 => exact @Cut.cons ⟨[], Line.endOfFile⟩ [] [] unbroken_nil .endOfFile .nil
  | case2 t ts heof =>
    rcases t with ⟨kind, span⟩
    dsimp only at heof
    subst heof
    exact @Cut.cons ⟨[], ⟨.eof, span⟩⟩ [] [] unbroken_nil .endOfFile .nil
  | case3 t ts hnewline next below hsplit ih =>
    rcases t with ⟨kind, span⟩
    dsimp only at hnewline
    subst hnewline
    rw [hsplit] at ih
    exact @Cut.cons ⟨[], ⟨.newline, span⟩⟩ _ _ unbroken_nil .newline ih
  | case4 t ts first below hsplit heof hnewline ih =>
    rw [hsplit] at ih
    rw [List.takeWhile_cons_of_pos (by simpa using heof)]
    generalize ts.takeWhile (·.value ≠ .eof) = inner at ih
    cases ih with
    | cons hfirst hending hbelow =>
      have ht : Unbroken (t :: first.tokens) :=
        unbroken_cons.mpr ⟨⟨hnewline, heof⟩, hfirst⟩
      exact @Cut.cons ⟨t :: first.tokens, first.stop⟩ _ _ ht hending hbelow

theorem cut_ofTokens (ts : List Token) :
    Cut (ts.takeWhile (·.value ≠ .eof)) (Line.ofTokens ts) :=
  cut_split ts

/-- Text without line breaks, together with what ends its line, can be told from what follows. -/
theorem Unbroken.append_inj {ts ts' ending ending' us us' : List Token} (hts : Unbroken ts)
    (hts' : Unbroken ts') (hending : EndsLine ending us) (hending' : EndsLine ending' us')
    (h : ts ++ ending ++ us = ts' ++ ending' ++ us') : ts = ts' ∧ ending = ending' ∧ us = us' := by
  -- Where one phrase has a token and the other one is at its end, that token would be a break.
  induction ts generalizing ts' with
  | nil =>
    cases ts' with
    | nil =>
      cases hending <;> cases hending' <;> simp_all
    | cons t' ts' =>
      rw [unbroken_cons] at hts'
      cases hending with
      | newline =>
        simp only [List.nil_append, List.cons_append, List.cons.injEq] at h
        exact absurd (h.1 ▸ rfl) hts'.1.1
      | endOfFile => simp at h
  | cons t ts ih =>
    rw [unbroken_cons] at hts
    cases ts' with
    | nil =>
      cases hending' with
      | newline =>
        simp only [List.nil_append, List.cons_append, List.cons.injEq] at h
        exact absurd (h.1 ▸ rfl) hts.1.1
      | endOfFile => simp at h
    | cons t' ts' =>
      rw [unbroken_cons] at hts'
      simp only [List.cons_append, List.cons.injEq] at h
      rcases ih hts.2 hts'.2 h.2 with ⟨rfl, hrest, hus⟩
      exact ⟨by rw [h.1], hrest, hus⟩

/-- The first line of a file that starts with a phrase and an end of line consists of these. -/
theorem Cut.first_line {ts ending us : List Token} {ls : List Line} (hts : Unbroken ts)
    (hending : EndsLine ending us) (hne : ts ++ ending ≠ []) (h : Cut (ts ++ ending ++ us) ls) :
    ∃ l below, ls = l :: below ∧ l.tokens = ts ∧ l.ending = ending ∧ Cut us below := by
  -- The lines are taken apart for any text, since the text of a line is no pattern.
  generalize hall : ts ++ ending ++ us = all at h
  cases h with
  | nil => simp_all
  | @cons l us' below hl hl' hbelow =>
    rcases hts.append_inj hl hending hl' hall with ⟨rfl, rfl, rfl⟩
    exact ⟨l, below, rfl, rfl, rfl, hbelow⟩

/-- Lines without text are blank. -/
theorem Cut.isEmpty_of_nil {ls : List Line} (h : Cut [] ls) : ∀ l ∈ ls, l.isEmpty := by
  generalize hall : ([] : List Token) = all at h
  induction h with
  | nil => simp
  | cons _ _ _ ih => simp_all [Line.text, Line.isEmpty]

end DeclLang
