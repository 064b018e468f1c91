import DeclLang.Proofs.Token.Spelling

/-!
# Layout: where the tokens of a text stand

A text is its tokens with gaps between them. `LaidOut` follows a text from its start and says for
each token which gap comes before it and which text is its own; a text that is read without problems
is laid out as its tokens (`Lexed.laidOut_ofChars`). What this means for the spans of the tokens is
put together in `lex_lossless`.
-/

namespace DeclLang

/-- The text between two tokens: blanks, and maybe a comment, which goes on to the end of its
    line. -/
inductive IsGap : List Char → TokenKind → Prop where
  | blanks {blanks : List Char} {next : TokenKind} : (∀ c ∈ blanks, c ∈ [' ', '\t', '\r']) →
      IsGap blanks next
  | comment {blanks body : List Char} {next : TokenKind} : (∀ c ∈ blanks, c ∈ [' ', '\t', '\r']) →
      '\n' ∉ body → next = .newline ∨ next = .eof → IsGap (blanks ++ '#' :: body) next

/-- Tokens stand in a text whose first character stands at `pos`. -/
inductive LaidOut : Nat → List Char → List Token → Prop where
  | finish {pos : Nat} {gap : List Char} : IsGap gap .eof →
      LaidOut pos gap [⟨.eof, .point (pos + utf8Length gap)⟩]
  | token {pos : Nat} {gap text rest : List Char} {kind : TokenKind} {ts : List Token} :
      IsGap gap kind → Spells text kind → (∀ c ∈ rest.head?, ¬ Continues kind c) →
      LaidOut (pos + utf8Length gap + utf8Length text) rest ts →
      LaidOut pos (gap ++ (text ++ rest))
        (⟨kind, ⟨pos + utf8Length gap, pos + utf8Length gap + utf8Length text⟩⟩ :: ts)

/-! ## Gaps -/

theorem isBlank_iff {c : Char} : isBlank c = true ↔ c ∈ [' ', '\t', '\r'] := by
  simp [isBlank, or_assoc]

theorem IsGap.nil (next : TokenKind) : IsGap [] next :=
  .blanks (by simp)

theorem IsGap.cons_blank {c : Char} {gap : List Char} {next : TokenKind} (h : IsGap gap next)
    (hc : isBlank c = true) : IsGap (c :: gap) next := by
  have hcons {blanks : List Char} (hblanks : ∀ d ∈ blanks, d ∈ [' ', '\t', '\r']) :
      ∀ d ∈ c :: blanks, d ∈ [' ', '\t', '\r'] := by
    intro d hd
    obtain rfl | hd := List.mem_cons.mp hd
    · exact isBlank_iff.mp hc
    · exact hblanks d hd
  cases h with
  | blanks hblanks => exact .blanks (hcons hblanks)
  | comment hblanks hbody hnext =>
    rw [← List.cons_append]
    exact .comment (hcons hblanks) hbody hnext

/-- A gap does not start with a line feed. -/
theorem IsGap.eq_nil_of_head? {gap rest : List Char} {next : TokenKind} (h : IsGap gap next)
    (hhead : ∀ c ∈ (gap ++ rest).head?, c = '\n') : gap = [] := by
  have hblank {c : Char} (hc : c ∈ [' ', '\t', '\r']) : c ≠ '\n' := by
    rintro rfl
    simp at hc
  cases h with
  | blanks hblanks =>
    cases gap with
    | nil => rfl
    | cons c cs => exact absurd (hhead c rfl) (hblank (hblanks c List.mem_cons_self))
  | @comment blanks body _ hblanks hbody hnext =>
    cases blanks with
    | nil => exact absurd (hhead '#' rfl) (by decide)
    | cons c cs => exact absurd (hhead c rfl) (hblank (hblanks c List.mem_cons_self))

/-! ## Texts of tokens -/

/-- What a token of each kind starts with. -/
def Begins : TokenKind → Char → Prop
  | .keyword _, c | .ident _, c => isIdentStart c = true
  | .punctuation p, c => c = p.char
  | .operator _, c => isOperatorChar c = true
  | .string _, c => c = '"'
  | .int _, c => c.isDigit = true
  | .newline, c => c = '\n'
  | .eof, _ => False

theorem Spells.begins {text : List Char} {kind : TokenKind} (h : Spells text kind) :
    ∃ c cs, text = c :: cs ∧ Begins kind c := by
  cases h with
  | keyword k =>
    have hstart : k.spelling.toList.head?.all isIdentStart = true := by cases k <;> decide
    cases htext : k.spelling.toList with
    | nil => cases k <;> cases htext
    | cons c cs =>
      rw [htext] at hstart
      exact ⟨c, cs, rfl, hstart⟩
  | punctuation p => exact ⟨p.char, [], String.toList_singleton _, rfl⟩
  | operator text hne hall =>
    cases htext : text.toList with
    | nil => exact absurd (String.toList_eq_nil_iff.mp htext) hne
    | cons c cs => exact ⟨c, cs, rfl, hall c (by simp [htext])⟩
  | ident name hname hk =>
    obtain ⟨letters, suffix, htext, ⟨c, cs, rfl, hc, -⟩, -⟩ := hname
    exact ⟨c, cs ++ suffix, htext, hc⟩
  | string => exact ⟨'"', _, rfl, rfl⟩
  | int hc => exact ⟨_, _, rfl, hc⟩
  | newline => exact ⟨'\n', [], rfl, rfl⟩

/-- A token that starts with a line feed is one. -/
theorem Spells.eq_newline_of_head? {text rest : List Char} {kind : TokenKind} (h : Spells text kind)
    (hhead : ∀ c ∈ (text ++ rest).head?, c = '\n') : kind = .newline := by
  obtain ⟨c, cs, rfl, hbegins⟩ := h.begins
  have hc : c = '\n' := hhead c rfl
  subst hc
  cases kind with
  | newline => rfl
  | keyword | ident => exact absurd (show isIdentStart '\n' = true from hbegins) (by decide)
  | punctuation p => exact absurd (show '\n' = p.char from hbegins) (by cases p <;> decide)
  | operator => exact absurd (show isOperatorChar '\n' = true from hbegins) (by decide)
  | string => exact absurd (show '\n' = '"' from hbegins) (by decide)
  | int => exact absurd (show '\n'.isDigit = true from hbegins) (by decide)
  | eof => exact hbegins.elim

/-- Whether two tokens would have been read as one, had no gap been between them. -/
def Joins : TokenKind → TokenKind → Prop
  | .operator _, .operator _ => True
  | .keyword _, .ident _ | .keyword _, .keyword _ | .keyword _, .int _ => True
  | .ident name, .ident _ | .ident name, .keyword _ | .ident name, .int _ => IsUnsuffixed name
  | .int _, .int _ => True
  | _, _ => False

theorem isIdentRest_of_isIdentStart {c : Char} (h : isIdentStart c = true) :
    isIdentRest c = true := by
  simp only [isIdentStart, isIdentRest, Char.isAlphanum, Bool.or_eq_true] at h ⊢
  exact h.imp_left .inl

theorem isIdentRest_of_isDigit {c : Char} (h : c.isDigit = true) : isIdentRest c = true := by
  simp [isIdentRest, Char.isAlphanum, h]

theorem isIntegerRest_of_isDigit {c : Char} (h : c.isDigit = true) : isIntegerRest c = true := by
  simp [isIntegerRest, h]

/-- The second of two tokens that join starts with a character that belongs to the first. -/
theorem Joins.continues {kind next : TokenKind} (h : Joins kind next) {c : Char}
    (hc : Begins next c) : Continues kind c := by
  cases kind with
  | keyword =>
    cases next with
    | keyword | ident => exact isIdentRest_of_isIdentStart hc
    | int => exact isIdentRest_of_isDigit hc
    | _ => exact h.elim
  | ident =>
    cases next with
    | keyword | ident => exact ⟨h, isIdentRest_of_isIdentStart hc⟩
    | int => exact ⟨h, isIdentRest_of_isDigit hc⟩
    | _ => exact h.elim
  | operator =>
    cases next with
    | operator => exact hc
    | _ => exact h.elim
  | int =>
    cases next with
    | int => exact isIntegerRest_of_isDigit hc
    | _ => exact h.elim
  | _ => exact h.elim

/-! ## The lexer lays out its text -/

namespace LaidOut

variable {pos : Nat} {c : Char} {cs rest : List Char} {ts : List Token}

theorem cons_blank (hc : isBlank c = true) (h : LaidOut (pos + utf8Length [c]) cs ts) :
    LaidOut pos (c :: cs) ts := by
  have hwidth (gap : List Char) :
      pos + utf8Length [c] + utf8Length gap = pos + utf8Length (c :: gap) := by
    rw [utf8Length_cons, utf8Length_cons, utf8Length_nil]
    omega
  cases h with
  | finish hgap =>
    rw [hwidth]
    exact .finish (hgap.cons_blank hc)
  | token hgap htext hstops hrest =>
    rw [hwidth] at hrest ⊢
    exact .token (hgap.cons_blank hc) htext hstops hrest

/-- What comes after a comment is a line feed or the end, so there is no other gap behind it. -/
theorem append_comment {body : List Char} (hbody : '\n' ∉ body)
    (hrest : ∀ d ∈ rest.head?, d = '\n')
    (h : LaidOut (pos + utf8Length ('#' :: body)) rest ts) :
    LaidOut pos ('#' :: body ++ rest) ts := by
  have hcomment {next : TokenKind} (hnext : next = .newline ∨ next = .eof) :
      IsGap ('#' :: body) next :=
    .comment (List.forall_mem_nil _) hbody hnext
  cases h with
  | finish hgap =>
    rw [← List.append_nil rest] at hrest
    have hnil := hgap.eq_nil_of_head? hrest
    subst hnil
    rw [List.append_nil, utf8Length_nil, Nat.add_zero]
    exact .finish (hcomment (.inr rfl))
  | token hgap htext hstops hrest' =>
    have hnil := hgap.eq_nil_of_head? hrest
    subst hnil
    have hkind := htext.eq_newline_of_head? hrest
    subst hkind
    exact .token (hcomment (.inl rfl)) htext hstops hrest'

end LaidOut

/-- A text that is read without problems is its tokens with gaps between them. -/
theorem Lexed.laidOut_ofChars {pos : Nat} {cs : List Char}
    (hproblems : (ofChars pos cs).problems = []) :
    LaidOut pos cs (ofChars pos cs).tokens := by
  fun_induction ofChars pos cs with
  | case1 => exact .finish (.nil _)
  | case2 pos c cs lexeme tail ih =>
    obtain ⟨hlexeme, htail⟩ := List.append_eq_nil_iff.mp hproblems
    have hrest : LaidOut (pos + utf8Length lexeme.text) lexeme.rest tail.tokens := ih htail
    have hchars : lexeme.text ++ lexeme.rest = c :: cs := Lexeme.text_append_rest pos c cs
    show LaidOut pos (c :: cs) (lexeme.token pos ++ tail.tokens)
    cases hkind : lexeme.kind with
    | some kind =>
      have hreads := Lexeme.reads_scan hkind hlexeme
      have htoken := LaidOut.token (.nil kind) hreads.spells hreads.stops hrest
      rw [List.nil_append, hchars, utf8Length_nil, Nat.add_zero] at htoken
      rwa [Lexeme.token, hkind]
    | none =>
      have hnone : lexeme.token pos = [] := by rw [Lexeme.token, hkind]
      rw [hnone, List.nil_append]
      obtain ⟨hblank, htext, hcs⟩ | hcomment := Lexeme.skips_scan hkind hlexeme
      · rw [htext, hcs] at hrest
        exact hrest.cons_blank hblank
      · obtain ⟨body, htext, hbody⟩ := hcomment.text
        rw [htext] at hrest hchars
        rw [← hchars]
        exact hrest.append_comment hbody hcomment.stops

end DeclLang
