import DeclLang.Proofs.Token.Lossless

/-!
# Lexical problems: where in the text they are

A problem can be met inside a string literal, behind it, or at any other lexeme. In each case its
span is that of whole characters of the text (`Lexed.within_of_mem_problems`), so the text can be
cut on both sides of it. Problems are met in the order in which they start, but for a literal that
is not closed: it is found out behind the escapes in it (`Lexed.rises_ofChars`).
-/

namespace DeclLang

/-- A span of whole characters of a text. -/
def Span.Within (s : Span) (source : List Char) : Prop :=
  ∃ text, s.Covers source text

theorem Span.within_append (before text after : List Char) :
    Span.Within ⟨utf8Length before, utf8Length before + utf8Length text⟩
      (before ++ (text ++ after)) :=
  ⟨text, before, after, rfl, rfl, rfl⟩

theorem Span.Within.start_le_stop {s : Span} {source : List Char} (h : s.Within source) :
    s.start ≤ s.stop := by
  obtain ⟨text, before, after, -, -, hstop⟩ := h
  omega

theorem Span.Within.stop_le {s : Span} {source : List Char} (h : s.Within source) :
    s.stop ≤ utf8Length source := by
  obtain ⟨text, before, after, hsource, hstart, hstop⟩ := h
  rw [hsource, utf8Length_append, utf8Length_append]
  omega

/-- Escapes that mean nothing are named with their backslash. -/
theorem StringBody.within_of_mem_problems {pos : Nat} {cs : List Char} (before : List Char)
    (hpos : pos = utf8Length before) :
    ∀ p ∈ (StringBody.scan pos cs).problems, p.span.Within (before ++ cs) := by
  fun_induction StringBody.scan pos cs generalizing before with
  | case1 pos c cs width tail v hv ih =>
    have htail := ih (before ++ ['\\', c]) (by rw [hpos, utf8Length_append]; rfl)
    rwa [List.append_assoc] at htail
  | case2 pos c cs width tail hv ih =>
    have htail := ih (before ++ ['\\', c]) (by rw [hpos, utf8Length_append]; rfl)
    rw [List.append_assoc] at htail
    subst hpos
    exact List.forall_mem_cons.mpr ⟨Span.within_append before ['\\', c] cs, htail⟩
  | case3 => exact List.forall_mem_nil _
  | case4 => exact List.forall_mem_nil _
  | case5 pos c cs hescape hline hquote tail ih =>
    have htail := ih (before ++ [c]) (by rw [hpos, utf8Length_append]; rfl)
    rwa [List.append_assoc] at htail
  | case6 => exact List.forall_mem_nil _

namespace Lexeme

variable {c : Char} {cs : List Char}

/-- A literal without an end is named as far as it goes. -/
theorem within_string (before : List Char) :
    ∀ p ∈ (string (utf8Length before) c cs).problems, p.span.Within (before ++ c :: cs) := by
  have hbody : ∀ p ∈ (StringBody.scan (utf8Length (before ++ [c])) cs).problems,
      p.span.Within (before ++ [c] ++ cs) := StringBody.within_of_mem_problems _ rfl
  rw [utf8Length_append, List.append_assoc] at hbody
  have hall := Span.within_append before
    (c :: (StringBody.scan (utf8Length before + utf8Length [c]) cs).text)
    (StringBody.scan (utf8Length before + utf8Length [c]) cs).rest
  rw [List.cons_append, StringBody.text_append_rest] at hall
  unfold string
  dsimp only
  split
  · exact hbody
  · exact List.forall_mem_append.mpr ⟨hbody, List.forall_mem_singleton.mpr hall⟩

theorem within_integer (before : List Char) :
    ∀ p ∈ (integer (utf8Length before) c cs).problems, p.span.Within (before ++ c :: cs) := by
  have hall := Span.within_append before (c :: cs.takeWhile isIntegerRest)
    (cs.dropWhile isIntegerRest)
  rw [List.cons_append, List.takeWhile_append_dropWhile] at hall
  unfold integer
  dsimp only
  split
  · exact List.forall_mem_nil _
  · exact List.forall_mem_singleton.mpr hall

theorem within_word (source : List Char) : ∀ p ∈ (word c cs).problems, p.span.Within source := by
  unfold word
  dsimp only
  split
  · exact List.forall_mem_nil _
  · exact List.forall_mem_nil _

theorem within_mark (before : List Char) :
    ∀ p ∈ (mark (utf8Length before) c cs).problems, p.span.Within (before ++ c :: cs) := by
  unfold mark
  split
  · exact List.forall_mem_nil _
  · exact List.forall_mem_singleton.mpr (Span.within_append before [c] cs)

theorem within_scan (before : List Char) :
    ∀ p ∈ (scan (utf8Length before) c cs).problems, p.span.Within (before ++ c :: cs) := by
  unfold scan
  split
  · exact List.forall_mem_nil _
  split
  · exact List.forall_mem_nil _
  split
  · exact List.forall_mem_nil _
  split
  · exact within_string before
  split
  · exact within_integer before
  split
  · exact within_word _
  split
  · exact List.forall_mem_nil _
  · exact within_mark before

end Lexeme

namespace Lexed

theorem within_of_mem_problems {pos : Nat} {cs : List Char} (before : List Char)
    (hpos : pos = utf8Length before) :
    ∀ p ∈ (ofChars pos cs).problems, p.span.Within (before ++ cs) := by
  fun_induction ofChars pos cs generalizing before with
  | case1 => exact List.forall_mem_nil _
  | case2 pos c cs lexeme tail ih =>
    have hchars : lexeme.text ++ lexeme.rest = c :: cs := Lexeme.text_append_rest pos c cs
    have htail := ih (before ++ lexeme.text) (by rw [hpos, utf8Length_append])
    rw [List.append_assoc, hchars] at htail
    subst hpos
    exact List.forall_mem_append.mpr ⟨Lexeme.within_scan before, htail⟩

/-- Tokens, too, are whole characters; the end of the text is none. -/
theorem within_of_mem_tokens {source : String} (h : (ofSource source).problems = []) :
    ∀ t ∈ (ofSource source).tokens, t.span.Within source.toList := by
  have hlaid : LaidOut 0 source.toList (ofSource source).tokens := laidOut_ofChars h
  intro t ht
  by_cases hend : t.value = .eof
  · obtain ⟨body, htokens, hbody⟩ := hlaid.ends
    rw [htokens, List.mem_append, List.mem_singleton] at ht
    obtain hmem | rfl := ht
    · exact absurd hend (hbody t hmem)
    · have hpoint := Span.within_append source.toList [] []
      rw [List.append_nil, List.append_nil] at hpoint
      rw [Nat.zero_add]
      exact hpoint
  · obtain ⟨text, hcovers, -⟩ := hlaid.spelled [] rfl t ht hend
    exact ⟨text, hcovers⟩

end Lexed

/-! ## Order -/

/-- A string literal that is not closed, and an escape in it that means nothing. -/
structure LexicalProblem.InLiteral (inner outer : Located LexicalProblem) : Prop where
  escape : ∃ c, inner.value = .unknownEscape c
  unterminated : outer.value = .unterminatedString
  start_lt : outer.span.start < inner.span.start
  stop_le : inner.span.stop ≤ outer.span.stop

/-- How a problem lies to one that is met later. -/
def LexicalProblem.Rises (earlier later : Located LexicalProblem) : Prop :=
  earlier.span.start < later.span.start ∨ InLiteral earlier later

/-- A span that is not empty and between two offsets. -/
def Span.Between (s : Span) (first last : Nat) : Prop :=
  first ≤ s.start ∧ s.start < s.stop ∧ s.stop ≤ last

theorem Span.Between.mono {s : Span} {first last first' last' : Nat} (h : s.Between first last)
    (hfirst : first' ≤ first) (hlast : last ≤ last') : s.Between first' last' :=
  ⟨Nat.le_trans hfirst h.1, h.2.1, Nat.le_trans h.2.2 hlast⟩

/-- The problems inside a literal are escapes, in their order. -/
theorem StringBody.rises_scan (pos : Nat) (cs : List Char) :
    (scan pos cs).problems.Pairwise (·.span.start < ·.span.start) ∧
      ∀ p ∈ (scan pos cs).problems, (∃ c, p.value = .unknownEscape c) ∧
        p.span.Between pos (pos + utf8Length (scan pos cs).text) := by
  have hescaped (pos : Nat) (c : Char) (text : List Char) :
      pos + (1 + c.utf8Size) + utf8Length text = pos + utf8Length ('\\' :: c :: text) := by
    rw [Nat.add_assoc, Nat.add_assoc]
    rfl
  fun_induction scan pos cs with
  | case1 pos c cs width tail v hv ih =>
    obtain ⟨hpairwise, hall⟩ := ih
    refine ⟨hpairwise, fun p hp => ?_⟩
    obtain ⟨hescape, hbetween⟩ := hall p hp
    exact ⟨hescape, hbetween.mono (Nat.le_add_right _ _) (Nat.le_of_eq (hescaped _ _ _))⟩
  | case2 pos c cs width tail hv ih =>
    obtain ⟨hpairwise, hall⟩ := ih
    have hpos : 0 < width := Nat.add_pos_left Nat.one_pos _
    refine ⟨List.pairwise_cons.mpr ⟨fun p hp => ?_, hpairwise⟩,
      List.forall_mem_cons.mpr ⟨⟨⟨c, rfl⟩, Nat.le_refl pos, ?_, ?_⟩, fun p hp => ?_⟩⟩
    · obtain ⟨-, hstart, -⟩ := hall p hp
      exact Nat.lt_of_lt_of_le (Nat.lt_add_of_pos_right hpos) hstart
    · exact Nat.lt_add_of_pos_right hpos
    · rw [← hescaped]
      exact Nat.le_add_right _ _
    · obtain ⟨hescape, hbetween⟩ := hall p hp
      exact ⟨hescape, hbetween.mono (Nat.le_add_right _ _) (Nat.le_of_eq (hescaped _ _ _))⟩
  | case3 => exact ⟨.nil, List.forall_mem_nil _⟩
  | case4 => exact ⟨.nil, List.forall_mem_nil _⟩
  | case5 pos c cs hescape hline hquote tail ih =>
    obtain ⟨hpairwise, hall⟩ := ih
    refine ⟨hpairwise, fun p hp => ?_⟩
    obtain ⟨hescape, hbetween⟩ := hall p hp
    exact ⟨hescape, hbetween.mono (Nat.le_add_right _ _) (Nat.le_of_eq (Nat.add_assoc _ _ _))⟩
  | case6 => exact ⟨.nil, List.forall_mem_nil _⟩

namespace Lexeme

open LexicalProblem

/-- A lexeme whose problems rise and are about its own text. -/
def Rises (pos : Nat) (l : Lexeme) : Prop :=
  l.problems.Pairwise LexicalProblem.Rises ∧
    ∀ p ∈ l.problems, p.span.Between pos (pos + utf8Length l.text)

variable {pos : Nat}

theorem rises_of_problems_eq_nil {l : Lexeme} (h : l.problems = []) : l.Rises pos := by
  rw [Rises, h]
  exact ⟨.nil, List.forall_mem_nil _⟩

/-- One problem that is about all of the lexeme. -/
theorem rises_single {l : Lexeme} {problem : LexicalProblem} (htext : l.text ≠ [])
    (h : l.problems = [⟨problem, ⟨pos, pos + utf8Length l.text⟩⟩]) : l.Rises pos := by
  have hpos := utf8Length_pos htext
  rw [Rises, h]
  exact ⟨List.pairwise_singleton _ _, List.forall_mem_singleton.mpr
    ⟨Nat.le_refl pos, Nat.lt_add_of_pos_right hpos, Nat.le_refl _⟩⟩

theorem rises_string (c : Char) (cs : List Char) : (string pos c cs).Rises pos := by
  obtain ⟨hpairwise, hall⟩ := StringBody.rises_scan (pos + c.utf8Size) cs
  have hsize : 0 < c.utf8Size := Char.utf8Size_pos c
  have hlength (text : List Char) :
      pos + utf8Length (c :: text) = pos + c.utf8Size + utf8Length text := by
    rw [utf8Length_cons, Nat.add_assoc]
  have hrises := hpairwise.imp (S := LexicalProblem.Rises) .inl
  have hbetween : ∀ p ∈ (StringBody.scan (pos + c.utf8Size) cs).problems, p.span.Between pos
      (pos + utf8Length (c :: (StringBody.scan (pos + c.utf8Size) cs).text)) := by
    intro p hp
    rw [hlength]
    exact (hall p hp).2.mono (Nat.le_add_right _ _) (Nat.le_refl _)
  unfold string
  dsimp only
  split
  · exact ⟨hrises, hbetween⟩
  · refine ⟨List.pairwise_append.mpr ⟨hrises, List.pairwise_singleton _ _, fun p hp q hq => ?_⟩,
      List.forall_mem_append.mpr ⟨hbetween, List.forall_mem_singleton.mpr ?_⟩⟩
    · obtain ⟨hescape, hstart, -⟩ := hall p hp
      obtain ⟨-, -, hstop⟩ := hbetween p hp
      rw [List.mem_singleton.mp hq]
      exact .inr ⟨hescape, rfl, Nat.lt_of_lt_of_le (Nat.lt_add_of_pos_right hsize) hstart, hstop⟩
    · exact ⟨Nat.le_refl pos, Nat.lt_add_of_pos_right (utf8Length_pos (List.cons_ne_nil _ _)),
        Nat.le_refl _⟩

theorem rises_scan (pos : Nat) (c : Char) (cs : List Char) : (scan pos c cs).Rises pos := by
  unfold scan
  split
  · exact rises_of_problems_eq_nil rfl
  split
  · exact rises_of_problems_eq_nil rfl
  split
  · exact rises_of_problems_eq_nil rfl
  split
  · exact rises_string c cs
  split
  · unfold integer
    dsimp only
    split
    · exact rises_of_problems_eq_nil rfl
    · exact rises_single (List.cons_ne_nil _ _) rfl
  split
  · unfold word
    dsimp only
    split
    · exact rises_of_problems_eq_nil rfl
    · exact rises_of_problems_eq_nil rfl
  split
  · exact rises_of_problems_eq_nil rfl
  · unfold mark
    split
    · exact rises_of_problems_eq_nil rfl
    · exact rises_single (List.cons_ne_nil _ _) rfl

end Lexeme

/-- The problems of a text come in the order in which they start, but for a literal that is not
    closed, which comes behind the escapes in it. -/
theorem Lexed.rises_ofChars (pos : Nat) (cs : List Char) :
    (ofChars pos cs).problems.Pairwise LexicalProblem.Rises ∧
      ∀ p ∈ (ofChars pos cs).problems, pos ≤ p.span.start := by
  fun_induction ofChars pos cs with
  | case1 => exact ⟨.nil, List.forall_mem_nil _⟩
  | case2 pos c cs lexeme tail ih =>
    obtain ⟨hpairwise, hall⟩ : lexeme.Rises pos := Lexeme.rises_scan pos c cs
    refine ⟨List.pairwise_append.mpr ⟨hpairwise, ih.1, fun p hp q hq => .inl ?_⟩,
      List.forall_mem_append.mpr ⟨fun p hp => (hall p hp).1, fun p hp => ?_⟩⟩
    · obtain ⟨-, hne, hstop⟩ := hall p hp
      exact Nat.lt_of_lt_of_le (Nat.lt_of_lt_of_le hne hstop) (ih.2 q hq)
    · exact Nat.le_trans (Nat.le_add_right _ _) (ih.2 p hp)

end DeclLang
