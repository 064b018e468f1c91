import DeclLang.Proofs.Syntax.Grammar
import DeclLang.Proofs.Token.Reading

/-!
# Slices of a text: tokens that are cut out give themselves

A text can be cut before one of its tokens and behind a later one. What is between gives the same
tokens where it stood, and then ends (`Tokenizes.slice`): a lexeme looks at what is behind it only
to see where it stops, and it stops at the end of a text as well.
-/

namespace DeclLang

/-- A token is a text by itself. -/
theorem Spells.tokenizes {text : List Char} {kind : TokenKind} (h : Spells text kind) (pos : Nat) :
    Tokenizes pos text
      [⟨kind, ⟨pos, pos + utf8Length text⟩⟩, ⟨.eof, .point (pos + utf8Length text)⟩] := by
  have htoken := Tokenizes.token h (stops_nil kind) (@Tokenizes.finish (pos + utf8Length text))
  rwa [List.append_nil] at htoken

namespace Tokenizes

variable {pos : Nat} {cs : List Char} {ts : List Token}

theorem ofChars_eq (h : Tokenizes pos cs ts) : Lexed.ofChars pos cs = ⟨ts, []⟩ :=
  Lexed.ofChars_eq_iff.mpr h

theorem laidOut (h : Tokenizes pos cs ts) : LaidOut pos cs ts := by
  have hproblems := congrArg Lexed.problems h.ofChars_eq
  have htokens := congrArg Lexed.tokens h.ofChars_eq
  have hlaid := Lexed.laidOut_ofChars hproblems
  rwa [htokens] at hlaid

/-- Only the last token is the end of the text. -/
theorem ne_eof {last : Token} (h : Tokenizes pos cs (ts ++ [last])) :
    ∀ t ∈ ts, t.value ≠ .eof := by
  obtain ⟨body, hbody, hne⟩ := h.laidOut.ends
  obtain ⟨rfl, -⟩ := List.append_inj' hbody rfl
  exact hne

theorem eq_of_nil (h : Tokenizes pos [] ts) : ts = [⟨.eof, .point pos⟩] := by
  have hlexed := h.ofChars_eq
  rw [Lexed.ofChars] at hlexed
  exact (congrArg Lexed.tokens hlexed).symm

/-! ## Cutting before a token -/

/-- The text from one of its tokens on. -/
theorem drop {front more : List Token} {t : Token} (h : Tokenizes pos cs (front ++ t :: more))
    (ht : t.value ≠ .eof) :
    ∃ before behind, cs = before ++ behind ∧ t.span.start = pos + utf8Length before ∧
      Tokenizes t.span.start behind (t :: more) := by
  generalize hall : front ++ t :: more = all at h
  induction h generalizing front with
  | finish =>
    obtain ⟨rfl, rfl, rfl⟩ | ⟨-, ⟨⟩⟩ := List.append_eq_singleton_iff.mp hall
    exact absurd rfl ht
  | @blank pos c cs ts _ _ ih =>
    obtain ⟨before, behind, rfl, hstart, hbehind⟩ := ih hall
    refine ⟨c :: before, behind, rfl, ?_, hbehind⟩
    rw [hstart, Nat.add_assoc, ← utf8Length_append]
    rfl
  | @comment pos body rest ts _ _ _ ih =>
    obtain ⟨before, behind, rfl, hstart, hbehind⟩ := ih hall
    refine ⟨'#' :: body ++ before, behind, (List.append_assoc ..).symm, ?_, hbehind⟩
    rw [hstart, Nat.add_assoc, ← utf8Length_append]
  | @token pos text rest kind ts htext hstops hrest ih =>
    cases front with
    | nil =>
      obtain ⟨rfl, rfl⟩ := List.cons.inj hall
      exact ⟨[], text ++ rest, rfl, rfl, .token htext hstops hrest⟩
    | cons u front =>
      obtain ⟨rfl, hmore⟩ := List.cons.inj hall
      obtain ⟨before, behind, rfl, hstart, hbehind⟩ := ih hmore
      refine ⟨text ++ before, behind, (List.append_assoc ..).symm, ?_, hbehind⟩
      rw [hstart, Nat.add_assoc, ← utf8Length_append]

/-! ## Cutting behind a token -/

/-- A text that is a single suffix is an operator. -/
theorem operator_of_mark {c : Char} (hc : c = '?' ∨ c = '!') {front more : List Token} {t : Token}
    (h : Tokenizes pos [c] (front ++ t :: more)) (ht : t.value ≠ .eof) :
    ∃ text, t.value = .operator text := by
  have hnot : ∀ d ∈ ['?', '!'], isBlank d = false ∧ d ≠ '#' ∧ isIdentStart d = false ∧
      (∀ p ∈ Punctuation.all, d ≠ p.char) ∧ d ≠ '"' ∧ d.isDigit = false ∧ d ≠ '\n' :=
    forall_mem_of_all (by decide)
  obtain ⟨hblank, hhash, hstart, hmark, hquote, hdigit, hfeed⟩ := hnot c (by simpa using hc)
  generalize hall : front ++ t :: more = all at h
  generalize htext : [c] = text at h
  cases h with
  | finish => cases htext
  | blank hb =>
    obtain ⟨rfl, -⟩ := List.cons.inj htext
    rw [hb] at hblank
    cases hblank
  | comment => exact absurd (List.cons.inj htext).1 hhash
  | @token _ text rest kind ts hspells _ hrest =>
    obtain ⟨d, ds, rfl, hbegins⟩ := hspells.begins
    obtain ⟨rfl, hnil⟩ := List.cons.inj htext
    obtain ⟨rfl, rfl⟩ := List.append_eq_nil_iff.mp hnil.symm
    cases front with
    | nil =>
      obtain ⟨rfl, -⟩ := List.cons.inj hall
      cases kind with
      | operator text => exact ⟨text, rfl⟩
      | keyword | ident =>
        have hbegins : isIdentStart c = true := hbegins
        rw [hbegins] at hstart
        cases hstart
      | punctuation p => exact absurd hbegins (hmark p p.mem_all)
      | string => exact absurd hbegins hquote
      | int =>
        have hbegins : c.isDigit = true := hbegins
        rw [hbegins] at hdigit
        cases hdigit
      | newline => exact absurd hbegins hfeed
      | eof => exact hbegins.elim
    | cons u front =>
      -- Behind the mark there is only the end.
      have hend := hrest.eq_of_nil
      rw [← (List.cons.inj hall).2] at hend
      obtain ⟨rfl, rfl, rfl⟩ | ⟨-, ⟨⟩⟩ := List.append_eq_singleton_iff.mp hend
      exact absurd rfl ht

/-- What stops a token still does when the text is cut behind a later one. -/
theorem stops_of_append {kind : TokenKind} {text behind : List Char} {front : List Token}
    {t e : Token} (hstops : Stops kind (text ++ behind))
    (h : Tokenizes pos text (front ++ [t, e])) (ht : t.value ≠ .eof)
    (hbehind : Stops t.value behind) : Stops kind text := by
  cases text with
  | nil => exact stops_nil kind
  | cons c cs =>
    have hends (hword : EndsWord (c :: cs ++ behind)) : EndsWord (c :: cs) := by
      refine ⟨hword.1, ?_⟩
      cases cs with
      | cons d ds => simpa [Lexeme.suffix?] using hword.2
      | nil =>
        by_cases hc : c = '?' ∨ c = '!'
        · -- The mark was no suffix because of an `=`, which would have been read with it.
          obtain ⟨text, hvalue⟩ := operator_of_mark hc h ht
          rw [hvalue] at hbehind
          have heq : behind.head? ≠ some '=' := fun heq => hbehind '=' heq rfl
          have hsuffix := Lexeme.suffix?_eq_some_iff.mpr
            ⟨(rfl : [c] ++ behind = c :: behind), hc, heq⟩
          rw [hword.2] at hsuffix
          cases hsuffix
        · cases hsuffix : Lexeme.suffix? [c] with
          | none => rfl
          | some x =>
            obtain ⟨s, after⟩ := x
            obtain ⟨hs, hmark, -⟩ := Lexeme.suffix?_eq_some_iff.mp hsuffix
            rw [(List.cons.inj hs).1] at hc
            exact absurd hmark hc
    cases kind with
    | keyword => exact hends hstops
    | ident => exact hstops.imp (.imp_right hends) id
    | operator => exact hstops
    | int => exact hstops
    | _ => trivial

/-- The text up to one of its tokens. -/
theorem take {front more : List Token} {t : Token} (h : Tokenizes pos cs (front ++ t :: more))
    (ht : t.value ≠ .eof) :
    ∃ text behind, cs = text ++ behind ∧ t.span.stop = pos + utf8Length text ∧
      Stops t.value behind ∧ Tokenizes pos text (front ++ [t, ⟨.eof, .point t.span.stop⟩]) := by
  generalize hall : front ++ t :: more = all at h
  induction h generalizing front with
  | finish =>
    obtain ⟨rfl, rfl, rfl⟩ | ⟨-, ⟨⟩⟩ := List.append_eq_singleton_iff.mp hall
    exact absurd rfl ht
  | @blank pos c cs ts hc _ ih =>
    obtain ⟨text, behind, rfl, hstop, hbehind, htext⟩ := ih hall
    refine ⟨c :: text, behind, rfl, ?_, hbehind, .blank hc htext⟩
    rw [hstop, Nat.add_assoc, ← utf8Length_append]
    rfl
  | @comment pos body rest ts hbody hrest _ ih =>
    obtain ⟨text, behind, rfl, hstop, hbehind, htext⟩ := ih hall
    have hline : ∀ c ∈ text.head?, c = '\n' := by
      cases text with
      | nil =>
        intro c hc
        cases hc
      | cons c cs => exact hrest
    refine ⟨'#' :: body ++ text, behind, (List.append_assoc ..).symm, ?_, hbehind,
      .comment hbody hline htext⟩
    rw [hstop, Nat.add_assoc, ← utf8Length_append]
  | @token pos text rest kind ts hspells hstops hrest ih =>
    cases front with
    | nil =>
      obtain ⟨rfl, rfl⟩ := List.cons.inj hall
      have hlast := hspells.tokenizes pos
      exact ⟨text, rest, rfl, rfl, hstops, hlast⟩
    | cons u front =>
      obtain ⟨rfl, hmore⟩ := List.cons.inj hall
      obtain ⟨inner, behind, rfl, hstop, hbehind, hinner⟩ := ih hmore
      have hstops' := stops_of_append hstops hinner ht hbehind
      refine ⟨text ++ inner, behind, (List.append_assoc ..).symm, ?_, hbehind,
        .token hspells hstops' hinner⟩
      rw [hstop, Nat.add_assoc, ← utf8Length_append]

/-- What is between the start of a token and the end of a later one. -/
theorem slice {front more : List Token} (h : Tokenizes 0 cs (front ++ (ts ++ more)))
    (hne : ts ≠ []) (hts : ∀ t ∈ ts, t.value ≠ .eof) :
    ∃ text, (extent ts).Covers cs text ∧
      Tokenizes (extent ts).start text (ts ++ [⟨.eof, .point (extent ts).stop⟩]) := by
  obtain ⟨first, ts', hfirst⟩ := List.exists_cons_of_ne_nil hne
  obtain ⟨init, last, hlast⟩ : ∃ init last, ts = init ++ [last] :=
    ⟨_, _, (List.dropLast_concat_getLast hne).symm⟩
  have hmem : first ∈ ts ∧ last ∈ ts := by
    constructor
    · simp [hfirst]
    · simp [hlast]
  rw [hfirst, List.cons_append] at h
  obtain ⟨before, behind, hcs, hstart, hbehind⟩ := h.drop (hts first hmem.1)
  rw [← List.cons_append, ← hfirst, hlast, List.append_assoc, List.singleton_append] at hbehind
  obtain ⟨text, after, htext, hstop, -, hslice⟩ := hbehind.take (hts last hmem.2)
  have hsplit (e : Token) : init ++ [last, e] = ts ++ [e] := by
    rw [hlast, List.append_assoc]
    rfl
  rw [hsplit] at hslice
  -- No token of the slice reaches out of it.
  have hle : first.span.start ≤ last.span.start :=
    hslice.laidOut.le_start last (List.mem_append_left _ hmem.2)
  have hordered := (List.pairwise_append.mp hslice.laidOut.ordered).2.2
  have hle' : first.span.stop ≤ last.span.stop :=
    hordered first hmem.1 _ List.mem_cons_self
  have hextent : extent ts = ⟨first.span.start, last.span.stop⟩ := by
    have hhead : ts.head? = some first := by rw [hfirst]; rfl
    have hlast : ts.getLast? = some last := by rw [hlast, List.getLast?_concat]
    rw [extent, hhead, hlast]
    show Span.mk (min _ _) (max _ _) = _
    rw [Nat.min_eq_left hle, Nat.max_eq_right hle']
  rw [hextent]
  rw [Nat.zero_add] at hstart
  exact ⟨text, ⟨before, after, by rw [hcs, htext], hstart, hstop⟩, hslice⟩

end Tokenizes

end DeclLang
