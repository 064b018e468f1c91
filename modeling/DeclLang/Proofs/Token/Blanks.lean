import DeclLang.Proofs.Token.Canonical
import DeclLang.Proofs.Token.Slices

/-!
# Blanks: what a row of tokens covers

Some tokens have one text only, which has no blanks in it. When such tokens stand in a row, there is
nothing but blanks between them, since a comment goes on to the end of its line. So the text that
they cover is these tokens as soon as its blanks are taken out (`Tokenizes.exists_written`).
-/

namespace DeclLang

/-! ## Texts without blanks -/

/-- A text without its blanks. -/
def withoutBlanks (text : List Char) : List Char :=
  text.filter fun c => !isBlank c

/-- The tokens that have one text only, which has no blanks in it and does not end a line. -/
def TokenKind.IsFixed : TokenKind → Prop
  | .keyword _ | .punctuation _ | .operator _ | .ident _ => True
  | .string _ | .int _ | .newline | .eof => False

theorem withoutBlanks_cons_of_blank {c : Char} {cs : List Char} (h : isBlank c = true) :
    withoutBlanks (c :: cs) = withoutBlanks cs := by
  rw [withoutBlanks, List.filter_cons_of_neg (by simp [h])]
  rfl

theorem withoutBlanks_append (cs ds : List Char) :
    withoutBlanks (cs ++ ds) = withoutBlanks cs ++ withoutBlanks ds :=
  List.filter_append cs ds

/-- A class of characters without the three blanks. -/
theorem isBlank_eq_false {p : Char → Bool} {c : Char}
    (hp : ∀ d ∈ [' ', '\t', '\r'], p d = false) (hc : p c = true) : isBlank c = false := by
  by_cases h : isBlank c = true
  · have hnot := hp c (isBlank_iff.mp h)
    rw [hc] at hnot
    cases hnot
  · exact Bool.eq_false_iff.mpr h

theorem IsIdentifier.not_blank {text : List Char} (h : IsIdentifier text) :
    ∀ c ∈ text, isBlank c = false := by
  rcases h with ⟨letters, suffix, rfl, ⟨first, rest, rfl, hfirst, hrest⟩, hsuffix⟩
  intro c hc
  rcases List.mem_append.mp hc with hletter | hmark
  · rcases List.mem_cons.mp hletter with rfl | hmem
    · exact isBlank_eq_false (p := isIdentStart) (forall_mem_of_all (by decide)) hfirst
    · exact isBlank_eq_false (p := isIdentRest) (forall_mem_of_all (by decide)) (hrest c hmem)
  · have hmarks : c = '?' ∨ c = '!' := by
      simp only [List.mem_cons, List.not_mem_nil, or_false] at hsuffix
      rcases hsuffix with rfl | rfl | rfl
      · cases hmark
      · exact .inl (List.mem_singleton.mp hmark)
      · exact .inr (List.mem_singleton.mp hmark)
    rcases hmarks with rfl | rfl
    · rfl
    · rfl

namespace Spells

variable {text : List Char} {kind : TokenKind}

theorem eq_canonical (h : Spells text kind) (hkind : kind.IsFixed) :
    text = kind.canonical.toList := by
  cases h with
  | keyword | punctuation | operator | ident => rfl
  | string | int | newline => exact hkind.elim

theorem not_blank (h : Spells text kind) (hkind : kind.IsFixed) :
    ∀ c ∈ text, isBlank c = false := by
  cases h with
  | keyword k => cases k <;> exact forall_mem_of_all (by decide)
  | punctuation p => cases p <;> exact forall_mem_of_all (by decide)
  | operator text hne hchars =>
    intro c hc
    exact isBlank_eq_false (p := isOperatorChar) (forall_mem_of_all (by decide)) (hchars c hc)
  | ident name hname hfree => exact hname.not_blank
  | string | int | newline => exact hkind.elim

theorem withoutBlanks_eq (h : Spells text kind) (hkind : kind.IsFixed) :
    withoutBlanks text = kind.canonical.toList := by
  rw [← h.eq_canonical hkind]
  apply List.filter_eq_self.mpr
  intro c hc
  rw [h.not_blank hkind c hc]
  rfl

end Spells

namespace Tokenizes

variable {pos stop : Nat} {cs : List Char} {ts : List Token}

/-- The end of a text is where its characters end. -/
theorem stop_eq (h : Tokenizes pos cs (ts ++ [⟨.eof, .point stop⟩])) :
    stop = pos + utf8Length cs := by
  rcases h.laidOut.ends with ⟨body, hbody, -⟩
  have hend := (List.append_inj' hbody rfl).2
  have htoken := (List.cons.inj hend).1
  exact congrArg (fun t : Token => t.span.stop) htoken

/-- A text that ends where it starts has no characters. -/
theorem eq_nil_of_le (h : Tokenizes pos cs (ts ++ [⟨.eof, .point stop⟩])) (hstop : stop ≤ pos) :
    cs = [] := by
  have hend := h.stop_eq
  cases cs with
  | nil => rfl
  | cons c cs =>
    have hpos := utf8Length_pos (List.cons_ne_nil c cs)
    omega

/-- Behind a comment there is a line feed, or nothing. -/
theorem newline_or_eof {t : Token} (h : Tokenizes pos cs (t :: ts))
    (hhead : ∀ c ∈ cs.head?, c = '\n') : t.value = .newline ∨ t.value = .eof := by
  generalize hall : t :: ts = all at h
  cases h with
  | finish =>
    right
    rw [(List.cons.inj hall).1]
  | @blank _ c _ _ hblank =>
    have hc : c = '\n' := hhead c rfl
    rw [hc] at hblank
    cases hblank
  | comment =>
    have hhash : '#' = '\n' := hhead '#' rfl
    cases hhash
  | token hspells =>
    left
    rw [(List.cons.inj hall).1]
    exact hspells.eq_newline_of_head? hhead

/-- A text that ends with its last token has no comments in it, if all its tokens are fixed. So it
    is these tokens, with blanks between them. -/
theorem withoutBlanks_eq (h : Tokenizes pos cs (ts ++ [⟨.eof, .point stop⟩])) (hne : ts ≠ [])
    (hts : ∀ t ∈ ts, t.value.IsFixed) (hlast : ∀ t ∈ ts.getLast?, t.span.stop = stop) :
    withoutBlanks cs = ts.flatMap fun t => t.value.canonical.toList := by
  generalize hall : ts ++ [(⟨.eof, .point stop⟩ : Token)] = all at h
  induction h generalizing ts with
  | finish =>
    rcases List.append_eq_singleton_iff.mp hall with ⟨rfl, -⟩ | ⟨-, hnil⟩
    · exact absurd rfl hne
    · cases hnil
  | blank hc _ ih =>
    rw [withoutBlanks_cons_of_blank hc]
    exact ih hne hts hlast hall
  | comment _ hline hrest =>
    exfalso
    rcases List.exists_cons_of_ne_nil hne with ⟨t, ts, rfl⟩
    rw [← hall] at hrest
    have hfixed := hts t List.mem_cons_self
    rcases hrest.newline_or_eof hline with hvalue | hvalue
    · rw [hvalue] at hfixed
      exact hfixed
    · rw [hvalue] at hfixed
      exact hfixed
  | @token pos text rest kind more hspells _ hrest ih =>
    rcases List.exists_cons_of_ne_nil hne with ⟨t, ts, rfl⟩
    rcases List.cons.inj hall with ⟨rfl, hmore⟩
    rw [withoutBlanks_append, hspells.withoutBlanks_eq (hts _ List.mem_cons_self),
      List.flatMap_cons]
    congr 1
    by_cases hts' : ts = []
    · -- The last token ends the text.
      subst hts'
      rw [← hmore] at hrest
      rw [hrest.eq_nil_of_le (Nat.le_of_eq (hlast _ rfl).symm)]
      rfl
    · apply ih hts'
      · exact fun u hu => hts u (List.mem_cons_of_mem _ hu)
      · intro u hu
        apply hlast
        rw [List.getLast?_cons, Option.mem_def.mp hu]
        rfl
      · exact hmore

/-! ## Rows of tokens -/

/-- A row of tokens ends where its last token does. -/
theorem stop_extent {front more : List Token} (h : Tokenizes 0 cs (front ++ (ts ++ more)))
    (hts : ∀ t ∈ ts, t.value ≠ .eof) :
    ∀ last ∈ ts.getLast?, last.span.stop = (extent ts).stop := by
  intro last hlast
  rcases List.getLast?_eq_some_iff.mp hlast with ⟨init, rfl⟩
  have hlaid := h.laidOut
  have hordered := (List.pairwise_append.mp (List.pairwise_append.mp hlaid.ordered).2.1).1
  cases init with
  | nil => exact (Nat.max_self _).symm
  | cons first init =>
    have hbefore : first.span.stop ≤ last.span.start :=
      (List.pairwise_append.mp hordered).2.2 first List.mem_cons_self last List.mem_cons_self
    have hmem : last ∈ first :: init ++ [last] := List.mem_append_right _ List.mem_cons_self
    rcases hlaid.spelled [] rfl last (by simp) (hts last hmem) with ⟨text, ⟨-, -, -, -, hstop⟩, -⟩
    rw [extent, hlast]
    show last.span.stop = max first.span.stop last.span.stop
    omega

/-- The text that some fixed tokens in a row cover is these tokens, but for blanks. -/
theorem exists_written {front more : List Token} (h : Tokenizes 0 cs (front ++ (ts ++ more)))
    (hne : ts ≠ []) (hts : ∀ t ∈ ts, t.value.IsFixed) :
    ∃ text, text ≠ [] ∧ (extent ts).Covers cs text ∧
      withoutBlanks text = ts.flatMap fun t => t.value.canonical.toList := by
  have heof : ∀ t ∈ ts, t.value ≠ .eof := by
    intro t ht hvalue
    have hfixed := hts t ht
    rw [hvalue] at hfixed
    exact hfixed
  rcases h.slice hne heof with ⟨text, hcovers, htext⟩
  refine ⟨text, ?_, hcovers, htext.withoutBlanks_eq hne hts (h.stop_extent heof)⟩
  rintro rfl
  rcases List.append_eq_singleton_iff.mp htext.eq_of_nil with ⟨hnil, -⟩ | ⟨-, hnil⟩
  · exact hne hnil
  · cases hnil

end Tokenizes

end DeclLang
