import DeclLang.Proofs.Token.Lossless

/-!
# Concatenation of texts: lexing one text behind another

Where a text stands shows in its spans only (`ofChars_shift`). A lexeme that leaves some of its text
unread is read in the same way whatever comes behind that text (`scan_append`). So a text that ends
its last line, and has no problems, is lexed by itself: what follows is lexed as if it stood alone,
and only moved (`ofChars_append`).
-/

namespace DeclLang

/-! ## Moving -/

namespace StringBody

def shift (offset : Nat) (b : StringBody) : StringBody :=
  { b with problems := b.problems.map (·.shift offset) }

theorem scan_shift (offset pos : Nat) (cs : List Char) :
    scan (pos + offset) cs = (scan pos cs).shift offset := by
  fun_induction scan pos cs with
  | case1 pos c cs width tail v hv ih =>
    simp only [scan, hv]
    rw [Nat.add_right_comm, ih]
    rfl
  | case2 pos c cs width tail hv ih =>
    simp only [scan, hv]
    rw [Nat.add_right_comm, ih]
    simp [shift, Located.shift, Span.shift, width, tail]
  | case3 pos cs hescape =>
    rw [scan, if_pos rfl]
    · rfl
    · exact hescape
  | case4 pos cs hescape hline =>
    rw [scan, if_neg hline, if_pos rfl]
    · rfl
    · exact hescape
  | case5 pos c cs hescape hline hquote tail ih =>
    rw [scan, if_neg hline, if_neg hquote, Nat.add_right_comm, ih]
    · rfl
    · exact hescape
  | case6 => rfl

/-- A literal that ends before its text does is not touched by more text. -/
theorem scan_append {pos : Nat} {cs : List Char} (h : (scan pos cs).rest ≠ []) (ds : List Char) :
    scan pos (cs ++ ds) = { scan pos cs with rest := (scan pos cs).rest ++ ds } := by
  fun_induction scan pos cs with
  | case1 pos c cs width tail v hv ih =>
    simp only [List.cons_append, scan, hv]
    rw [ih h]
  | case2 pos c cs width tail hv ih =>
    simp only [List.cons_append, scan, hv]
    rw [ih h]
  | case3 pos cs hescape =>
    rw [List.cons_append, scan, if_pos rfl]
    exact fun _ _ hc => absurd hc (by decide)
  | case4 pos cs hescape hline =>
    rw [List.cons_append, scan, if_neg hline, if_pos rfl]
    exact fun _ _ hc => absurd hc (by decide)
  | case5 pos c cs hescape hline hquote tail ih =>
    -- A backslash at the very end would have left nothing.
    have hescape' : ∀ d es, c = '\\' → cs ++ ds = d :: es → False := by
      intro d es hc _
      cases hcs : cs with
      | nil => simp [tail, hcs, scan] at h
      | cons e rest => exact hescape e rest hc hcs
    rw [List.cons_append, scan, if_neg hline, if_neg hquote, ih h]
    exact hescape'
  | case6 => exact absurd rfl h

end StringBody

/-- What stops inside a text stops there whatever comes behind it. -/
theorem span_append {p : Char → Bool} {cs : List Char} (h : cs.dropWhile p ≠ []) (ds : List Char) :
    (cs ++ ds).takeWhile p = cs.takeWhile p ∧ (cs ++ ds).dropWhile p = cs.dropWhile p ++ ds := by
  induction cs with
  | nil => exact absurd rfl h
  | cons c cs ih =>
    rw [List.cons_append, List.takeWhile_cons, List.takeWhile_cons, List.dropWhile_cons,
      List.dropWhile_cons]
    by_cases hc : p c = true
    · rw [List.dropWhile_cons_of_pos hc] at h
      simp only [hc, if_true, ih h, and_self]
    · simp [hc]

namespace Lexeme

def shift (offset : Nat) (l : Lexeme) : Lexeme :=
  { l with problems := l.problems.map (·.shift offset) }

theorem token_shift (offset pos : Nat) (l : Lexeme) :
    (l.shift offset).token (pos + offset) = (l.token pos).map (·.shift offset) := by
  unfold token shift
  cases l.kind with
  | none => rfl
  | some kind => simp [Located.shift, Span.shift, Nat.add_right_comm]

theorem scan_shift (offset pos : Nat) (c : Char) (cs : List Char) :
    scan (pos + offset) c cs = (scan pos c cs).shift offset := by
  have hstring : string (pos + offset) c cs = (string pos c cs).shift offset := by
    unfold string
    rw [Nat.add_right_comm, StringBody.scan_shift]
    dsimp only [StringBody.shift]
    split
    · rfl
    · simp [shift, Located.shift, Span.shift, Nat.add_right_comm]
  have hinteger : integer (pos + offset) c cs = (integer pos c cs).shift offset := by
    unfold integer
    dsimp only
    split
    · rfl
    · simp [shift, Located.shift, Span.shift, Nat.add_right_comm]
  have hmark : mark (pos + offset) c cs = (mark pos c cs).shift offset := by
    unfold mark
    split
    · rfl
    · simp [shift, Located.shift, Span.shift, Nat.add_right_comm]
  have hword : word c cs = (word c cs).shift offset := by
    unfold word
    dsimp only
    split <;> rfl
  unfold scan
  rw [hstring, hinteger, hmark]
  repeat' split
  all_goals first | rfl | exact hword

/-- More text is left unread. -/
def append (l : Lexeme) (ds : List Char) : Lexeme :=
  { l with rest := l.rest ++ ds }

/-- Whether a suffix follows is settled by two more characters, or by one that is none. -/
theorem suffix?_append {cs : List Char} (h : (suffix? cs).elim cs (·.2) ≠ []) (ds : List Char) :
    suffix? (cs ++ ds) = (suffix? cs).map fun x => (x.1, x.2 ++ ds) := by
  cases cs with
  | nil => exact absurd rfl h
  | cons s after =>
    cases after with
    | nil =>
      simp only [suffix?, List.cons_append, List.nil_append] at h ⊢
      by_cases hs : (s == '?' || s == '!') = true
      · simp [hs] at h
      · simp [hs]
    | cons d rest =>
      by_cases hs : (s == '?' || s == '!') = true
      · by_cases hd : d = '='
        · simp [suffix?, hs, hd]
        · simp [suffix?, hs, hd]
      · simp [suffix?, hs]

theorem word_append {c : Char} {cs : List Char} (h : (word c cs).rest ≠ []) (ds : List Char) :
    word c (cs ++ ds) = (word c cs).append ds := by
  unfold word at h ⊢
  generalize hrest : cs.dropWhile isIdentRest = rest at h
  dsimp only at h
  have hsuffix : (suffix? rest).elim rest (·.2) ≠ [] := by
    cases hs : suffix? rest with
    | none => simpa [hs] using h
    | some x => simpa [hs] using h
  have hne : cs.dropWhile isIdentRest ≠ [] := by
    rw [hrest]
    rintro rfl
    exact hsuffix rfl
  have hspan := span_append hne ds
  rw [hspan.1, hspan.2, hrest]
  dsimp only
  rw [suffix?_append hsuffix]
  cases suffix? rest with
  | none => rfl
  | some x => rfl

theorem string_append {pos : Nat} {c : Char} {cs : List Char} (h : (string pos c cs).rest ≠ [])
    (ds : List Char) : string pos c (cs ++ ds) = (string pos c cs).append ds := by
  have hbody : (StringBody.scan (pos + c.utf8Size) cs).rest ≠ [] := by
    unfold string at h
    dsimp only at h
    split at h
    · exact h
    · exact h
  unfold string
  rw [StringBody.scan_append hbody]
  dsimp only
  split <;> rfl

theorem integer_append {pos : Nat} {c : Char} {cs : List Char} (h : (integer pos c cs).rest ≠ [])
    (ds : List Char) : integer pos c (cs ++ ds) = (integer pos c cs).append ds := by
  have hne : cs.dropWhile isIntegerRest ≠ [] := by
    unfold integer at h
    dsimp only at h
    split at h
    · exact h
    · exact h
  have hspan := span_append hne ds
  unfold integer
  rw [hspan.1, hspan.2]
  dsimp only
  split <;> rfl

/-- A lexeme that ends before its text does is not touched by more text. -/
theorem scan_append {pos : Nat} {c : Char} {cs : List Char} (h : (scan pos c cs).rest ≠ [])
    (ds : List Char) : scan pos c (cs ++ ds) = (scan pos c cs).append ds := by
  unfold scan at h ⊢
  by_cases hblank : isBlank c = true
  · simp only [if_pos hblank]
    rfl
  by_cases hline : c = '\n'
  · simp only [if_neg hblank, if_pos hline]
    rfl
  by_cases hcomment : c = '#'
  · simp only [if_neg hblank, if_neg hline, if_pos hcomment] at h ⊢
    have hspan := span_append h ds
    unfold comment
    rw [hspan.1, hspan.2]
    rfl
  by_cases hquote : c = '"'
  · simp only [if_neg hblank, if_neg hline, if_neg hcomment, if_pos hquote] at h ⊢
    exact string_append h ds
  by_cases hdigit : c.isDigit = true
  · simp only [if_neg hblank, if_neg hline, if_neg hcomment, if_neg hquote, if_pos hdigit] at h ⊢
    exact integer_append h ds
  simp only [if_neg hblank, if_neg hline, if_neg hcomment, if_neg hquote, if_neg hdigit] at h ⊢
  by_cases hword : isIdentStart c = true
  · simp only [if_pos hword] at h ⊢
    exact word_append h ds
  by_cases hoperator : isOperatorChar c = true
  · simp only [if_neg hword, if_pos hoperator] at h ⊢
    have hspan := span_append h ds
    unfold operator
    rw [hspan.1, hspan.2]
    rfl
  · simp only [if_neg hword, if_neg hoperator]
    unfold mark
    split <;> rfl

end Lexeme

/-! ## Line feeds -/

theorem Escapes.newline_not_mem {body value : List Char} (h : Escapes body value) :
    '\n' ∉ body := by
  induction h with
  | nil => exact List.not_mem_nil
  | plain _ _ hc _ ih => simp [ih, hc.symm]
  | lineFeed _ ih => simp [ih]
  | tab _ ih => simp [ih]
  | backslash _ ih => simp [ih]
  | quote _ ih => simp [ih]

/-- Of all tokens only the line feed has one in its text. -/
theorem Spells.eq_of_newline_mem {text : List Char} {kind : TokenKind} (h : Spells text kind)
    (hmem : '\n' ∈ text) : text = ['\n'] := by
  cases h with
  | keyword k => cases k <;> simp [Keyword.spelling] at hmem
  | punctuation p => cases p <;> exact absurd hmem (by decide)
  | operator text _ hall => exact absurd (hall _ hmem) (by decide)
  | ident name hname =>
    obtain ⟨letters, suffix, htext, ⟨c, cs, hletters, hc, hcs⟩, hsuffix⟩ := hname
    rw [htext, hletters, List.mem_append, List.mem_cons] at hmem
    rcases hmem with (hmem | hmem) | hmem
    · rw [← hmem] at hc
      exact absurd hc (by decide)
    · exact absurd (hcs _ hmem) (by decide)
    · have hnone : ∀ suffix ∈ [[], ['?'], ['!']], '\n' ∉ suffix := by decide
      exact absurd hmem (hnone suffix hsuffix)
  | string hbody => simp [hbody.newline_not_mem] at hmem
  | int hc hcs =>
    rw [List.mem_cons] at hmem
    rcases hmem with hmem | hmem
    · rw [← hmem] at hc
      exact absurd hc (by decide)
    · exact absurd (hcs _ hmem) (by decide)
  | newline => rfl

namespace Lexeme

/-- Without problems a lexeme holds no line feed, unless it is one. -/
theorem eq_of_newline_mem {pos : Nat} {c : Char} {cs : List Char}
    (h : (scan pos c cs).problems = []) (hmem : '\n' ∈ (scan pos c cs).text) :
    (scan pos c cs).text = ['\n'] := by
  cases hkind : (scan pos c cs).kind with
  | some kind => exact (reads_scan hkind h).spells.eq_of_newline_mem hmem
  | none =>
    rcases skips_scan hkind h with ⟨hblank, htext, -⟩ | hcomment
    · rw [htext, List.mem_singleton] at hmem
      rw [← hmem] at hblank
      exact absurd hblank (by decide)
    · have ⟨body, htext, hbody⟩ := hcomment.text
      simp [htext, hbody] at hmem

/-- A lexeme that starts before the line feed of its line leaves that unread. -/
theorem rest_before_newline {pos : Nat} {c : Char} {cs : List Char}
    (h : (scan pos c (cs ++ ['\n'])).problems = []) :
    ∃ unread, (scan pos c (cs ++ ['\n'])).rest = unread ++ ['\n'] := by
  have htext := text_append_rest pos c (cs ++ ['\n'])
  rw [← List.cons_append, List.append_eq_append_iff] at htext
  rcases htext with ⟨unread, -, hrest⟩ | ⟨more, htext, hmore⟩
  · exact ⟨unread, hrest⟩
  cases more with
  | nil => exact ⟨[], hmore.symm⟩
  | cons d more =>
    -- Then the line feed was read together with what is before it.
    have hd : d = '\n' := (List.cons.inj hmore).1.symm
    have hmem : '\n' ∈ (scan pos c (cs ++ ['\n'])).text := by simp [htext, hd]
    have hlength := congrArg List.length (eq_of_newline_mem h hmem)
    rw [htext, List.length_append, List.length_cons, List.length_cons, List.length_singleton]
      at hlength
    omega

theorem ne_eof_of_mem_token {pos : Nat} {c : Char} {cs : List Char}
    (h : (scan pos c cs).problems = []) : ∀ t ∈ (scan pos c cs).token pos, t.value ≠ .eof := by
  intro t ht
  unfold token at ht
  split at ht
  · rename_i kind hkind
    rw [List.mem_singleton.mp ht]
    exact (reads_scan hkind h).spells.ne_eof
  · exact absurd ht List.not_mem_nil

end Lexeme

/-! ## Whole texts -/

namespace Lexed

def shift (offset : Nat) (l : Lexed) : Lexed :=
  ⟨l.tokens.map (·.shift offset), l.problems.map (·.shift offset)⟩

/-- A text is lexed in the same way wherever it stands. -/
theorem ofChars_shift (offset pos : Nat) (cs : List Char) :
    ofChars (pos + offset) cs = (ofChars pos cs).shift offset := by
  fun_induction ofChars pos cs with
  | case1 pos => rw [ofChars]; rfl
  | case2 pos c cs lexeme tail ih =>
    have htail :
        ofChars (pos + offset + utf8Length lexeme.text) lexeme.rest = tail.shift offset := by
      rw [Nat.add_right_comm, ih]
    rw [ofChars, Lexeme.scan_shift, Lexeme.token_shift]
    show Lexed.mk (_ ++ (ofChars (pos + offset + utf8Length lexeme.text) lexeme.rest).tokens)
      (_ ++ (ofChars (pos + offset + utf8Length lexeme.text) lexeme.rest).problems) = _
    rw [htail]
    simp only [shift, List.map_append]
    rfl

/-- The first lexeme of a text, when it leaves some of it unread. -/
theorem ofChars_cons_append {pos : Nat} {c : Char} {cs : List Char}
    (h : (Lexeme.scan pos c cs).rest ≠ []) (ds : List Char) :
    let lexeme := Lexeme.scan pos c cs
    let tail := ofChars (pos + utf8Length lexeme.text) (lexeme.rest ++ ds)
    ofChars pos (c :: cs ++ ds) =
      ⟨lexeme.token pos ++ tail.tokens, lexeme.problems ++ tail.problems⟩ := by
  rw [List.cons_append, ofChars, Lexeme.scan_append h]
  rfl

theorem ofChars_newline_cons (pos : Nat) (ds : List Char) :
    ofChars pos ('\n' :: ds) =
      ⟨⟨.newline, ⟨pos, pos + utf8Length ['\n']⟩⟩ :: (ofChars (pos + utf8Length ['\n']) ds).tokens,
        (ofChars (pos + utf8Length ['\n']) ds).problems⟩ := by
  rw [ofChars]
  rfl

/-- A text that ends its last line and has no problems makes up whole lines of tokens, and what
    stands behind it is lexed by itself. -/
theorem ofChars_append {pos : Nat} {cs : List Char}
    (h : (ofChars pos (cs ++ ['\n'])).problems = []) :
    ∃ ts span, (∀ t ∈ ts, t.value ≠ .eof) ∧ ∀ ds,
      let tail := ofChars (pos + utf8Length (cs ++ ['\n'])) ds
      ofChars pos (cs ++ ['\n'] ++ ds) =
        ⟨ts ++ ⟨.newline, span⟩ :: tail.tokens, tail.problems⟩ := by
  generalize htext : cs ++ ['\n'] = text at h ⊢
  fun_induction ofChars pos text generalizing cs with
  | case1 => simp at htext
  | case2 pos c rest lexeme tail =>
    rename_i ih
    obtain ⟨hproblems, htail⟩ := List.append_eq_nil_iff.mp h
    cases cs with
    | nil =>
      cases htext
      exact ⟨[], _, List.forall_mem_nil _, ofChars_newline_cons pos⟩
    | cons d cs =>
      rw [List.cons_append, List.cons.injEq] at htext
      obtain ⟨hd, hcs⟩ := htext
      subst hd hcs
      obtain ⟨unread, hrest⟩ := Lexeme.rest_before_newline hproblems
      have hne : lexeme.rest ≠ [] := by simp [lexeme, hrest]
      obtain ⟨ts, span, heof, happend⟩ := ih hrest.symm htail
      have hlength := congrArg utf8Length (Lexeme.text_append_rest pos d (cs ++ ['\n']))
      rw [utf8Length_append] at hlength
      refine ⟨lexeme.token pos ++ ts, span, fun t ht => ?_, fun ds => ?_⟩
      · rw [List.mem_append] at ht
        rcases ht with ht | ht
        · exact Lexeme.ne_eof_of_mem_token hproblems t ht
        · exact heof t ht
      · dsimp only
        rw [ofChars_cons_append hne, happend, hproblems, ← hlength, ← Nat.add_assoc,
          List.append_assoc]
        rfl

end Lexed

end DeclLang
