import DeclLang.Proofs.Token.Concatenation

/-!
# Line breaks: how far a lexical problem reaches

A text ends between two lexemes, in a comment, in a string literal, or in a string literal right
behind a backslash (`Ending`). A line feed puts an end to all of these but the last, where it is
taken together with the backslash and the literal goes on into the next line. So the problems of two
texts with a line feed between them are those of the first and then those of the second exactly when
the first one does not end behind such a backslash (`lex_newline_iff`).
-/

namespace DeclLang

/-! ## How a text ends -/

/-- What a text ends in. -/
inductive Ending where
  /-- Nothing that could go over a line feed, or take one along. -/
  | outside
  | comment
  | literal
  /-- A string literal in which the next character is escaped. -/
  | escape
deriving DecidableEq, Repr

namespace Ending

/-- The ending after one more character. -/
def advance : Ending → Char → Ending
  | .outside, c => if c = '"' then .literal else if c = '#' then .comment else .outside
  | .comment, c => if c = '\n' then .outside else .comment
  | .literal, c =>
    if c = '\\' then .escape else if c = '"' ∨ c = '\n' then .outside else .literal
  | .escape, _ => .literal

/-- The ending after a text. -/
def after (e : Ending) (cs : List Char) : Ending :=
  cs.foldl advance e

@[simp] theorem after_nil (e : Ending) : e.after [] = e := rfl

@[simp] theorem after_cons (e : Ending) (c : Char) (cs : List Char) :
    e.after (c :: cs) = (e.advance c).after cs := rfl

theorem after_append (e : Ending) (cs ds : List Char) :
    e.after (cs ++ ds) = (e.after cs).after ds :=
  List.foldl_append

/-- Only quotes and number signs begin something. -/
theorem outside_after {cs : List Char} (h : ∀ c ∈ cs, c ≠ '"' ∧ c ≠ '#') :
    outside.after cs = outside := by
  induction cs with
  | nil => rfl
  | cons c cs ih =>
    obtain ⟨⟨hquote, hcomment⟩, hcs⟩ := List.forall_mem_cons.mp h
    rw [after_cons, advance, if_neg hquote, if_neg hcomment]
    exact ih hcs

/-- A comment that ends before its text does ends at a line feed. -/
theorem comment_after {cs : List Char} (h : cs.dropWhile (· != '\n') ≠ []) :
    comment.after cs = outside.after (cs.dropWhile (· != '\n')) := by
  induction cs with
  | nil => exact absurd rfl h
  | cons c cs ih =>
    by_cases hc : c = '\n'
    · rw [hc]
      rfl
    · rw [List.dropWhile_cons_of_pos (by simpa using hc)] at h ⊢
      rw [after_cons, advance, if_neg hc]
      exact ih h

/-- A comment that has no line feed goes on to the end of its text. -/
theorem comment_after_of_dropWhile {cs : List Char} (h : cs.dropWhile (· != '\n') = []) :
    comment.after cs = comment := by
  induction cs with
  | nil => rfl
  | cons c cs ih =>
    have hc : c ≠ '\n' := by
      rintro rfl
      simp at h
    rw [List.dropWhile_cons_of_pos (by simpa using hc)] at h
    rw [after_cons, advance, if_neg hc]
    exact ih h

end Ending

open Ending

/-- Whether a text ends in a string literal, right behind a backslash that escapes what is next. -/
def EndsInEscape (cs : List Char) : Prop :=
  outside.after cs = .escape

/-! ## String literals -/

namespace StringBody

/-- Behind a literal that ends before its text does, nothing of it is left. -/
theorem literal_after {pos : Nat} {cs : List Char} (h : (scan pos cs).rest ≠ []) :
    literal.after cs = outside.after (scan pos cs).rest := by
  fun_induction scan pos cs with
  | case1 pos c cs width tail v hv ih => exact ih h
  | case2 pos c cs width tail hv ih => exact ih h
  | case3 => rfl
  | case4 => rfl
  | case5 pos c cs hescape hline hquote tail ih =>
    have hbackslash : c ≠ '\\' := by
      rintro rfl
      cases cs with
      | nil => simp [tail, scan] at h
      | cons d ds => exact hescape d ds rfl rfl
    rw [after_cons, advance, if_neg hbackslash, if_neg (by simp [hline, hquote])]
    exact ih h
  | case6 => exact absurd rfl h

/-- A line feed behind the text ends a literal, unless it is escaped. -/
theorem scan_newline {pos : Nat} {cs : List Char} (h : literal.after cs ≠ .escape)
    (ds : List Char) :
    scan pos (cs ++ '\n' :: ds) =
      { scan pos cs with rest := (scan pos cs).rest ++ '\n' :: ds } := by
  fun_induction scan pos cs with
  | case1 pos c cs width tail v hv ih =>
    simp only [List.cons_append, scan, hv]
    rw [ih h]
  | case2 pos c cs width tail hv ih =>
    simp only [List.cons_append, scan, hv]
    rw [ih h]
  | case3 => simp [scan]
  | case4 => simp [scan]
  | case5 pos c cs hescape hline hquote tail ih =>
    have hbackslash : c ≠ '\\' := by
      rintro rfl
      cases cs with
      | nil => exact h rfl
      | cons d ds => exact hescape d ds rfl rfl
    rw [after_cons, advance, if_neg hbackslash, if_neg (by simp [hline, hquote])] at h
    rw [List.cons_append, scan, if_neg hline, if_neg hquote, ih h]
    exact fun _ _ hc => absurd hc hbackslash
  | case6 => simp [scan]

/-- An escaped line feed is a problem of the literal, which goes on behind it. -/
theorem scan_newline_of_escape {pos : Nat} {cs : List Char} (hrest : (scan pos cs).rest = [])
    (h : literal.after cs = .escape) (ds : List Char) :
    (scan pos cs).closed = false ∧ ∃ span more,
      (scan pos (cs ++ '\n' :: ds)).problems =
        (scan pos cs).problems ++ ⟨.unknownEscape '\n', span⟩ :: more := by
  fun_induction scan pos cs with
  | case1 pos c cs width tail v hv ih =>
    obtain ⟨hclosed, span, more, hproblems⟩ := ih hrest h
    refine ⟨hclosed, span, more, ?_⟩
    simp only [List.cons_append, scan, hv]
    exact hproblems
  | case2 pos c cs width tail hv ih =>
    obtain ⟨hclosed, span, more, hproblems⟩ := ih hrest h
    refine ⟨hclosed, span, more, ?_⟩
    simp only [List.cons_append, scan, hv]
    rw [hproblems]
  | case3 => cases hrest
  | case4 pos cs =>
    obtain rfl : cs = [] := hrest
    cases h
  | case5 pos c cs hescape hline hquote tail ih =>
    by_cases hbackslash : c = '\\'
    · subst hbackslash
      cases cs with
      | nil => exact ⟨rfl, ⟨pos, pos + 2⟩, (scan (pos + 2) ds).problems, rfl⟩
      | cons d es => exact (hescape d es rfl rfl).elim
    · rw [after_cons, advance, if_neg hbackslash, if_neg (by simp [hline, hquote])] at h
      obtain ⟨hclosed, span, more, hproblems⟩ := ih hrest h
      refine ⟨hclosed, span, more, ?_⟩
      rw [List.cons_append, scan, if_neg hline, if_neg hquote]
      · exact hproblems
      · exact fun _ _ hc => absurd hc hbackslash
  | case6 => cases h

end StringBody

/-! ## Lexemes -/

/-- A run of characters that are no line feeds stops at one. -/
theorem span_newline {p : Char → Bool} (hp : p '\n' = false) (cs ds : List Char) :
    (cs ++ '\n' :: ds).takeWhile p = cs.takeWhile p ∧
      (cs ++ '\n' :: ds).dropWhile p = cs.dropWhile p ++ '\n' :: ds := by
  induction cs with
  | nil => simp [hp]
  | cons c cs ih =>
    rw [List.cons_append, List.takeWhile_cons, List.takeWhile_cons, List.dropWhile_cons,
      List.dropWhile_cons]
    by_cases hc : p c = true
    · simp only [hc, if_true, ih, and_self]
    · simp [hc]

namespace Lexeme

variable {pos : Nat} {c : Char} {cs : List Char}

theorem suffix?_newline (cs ds : List Char) :
    suffix? (cs ++ '\n' :: ds) = (suffix? cs).map fun x => (x.1, x.2 ++ '\n' :: ds) := by
  cases cs with
  | nil => rfl
  | cons s after =>
    by_cases hs : (s == '?' || s == '!') = true
    · cases after with
      | nil => simp [suffix?, hs]
      | cons d rest =>
        by_cases hd : d = '='
        · simp [suffix?, hs, hd]
        · simp [suffix?, hs, hd]
    · simp [suffix?, hs]

theorem word_newline (c : Char) (cs ds : List Char) :
    word c (cs ++ '\n' :: ds) = (word c cs).append ('\n' :: ds) := by
  obtain ⟨htake, hdrop⟩ := span_newline (p := isIdentRest) rfl cs ds
  unfold word
  rw [htake, hdrop]
  dsimp only
  rw [suffix?_newline]
  cases suffix? (cs.dropWhile isIdentRest) with
  | none => rfl
  | some x => rfl

theorem string_newline (h : literal.after cs ≠ .escape) (ds : List Char) :
    string pos c (cs ++ '\n' :: ds) = (string pos c cs).append ('\n' :: ds) := by
  unfold string
  rw [StringBody.scan_newline h]
  dsimp only
  split <;> rfl

theorem integer_newline (pos : Nat) (c : Char) (cs ds : List Char) :
    integer pos c (cs ++ '\n' :: ds) = (integer pos c cs).append ('\n' :: ds) := by
  obtain ⟨htake, hdrop⟩ := span_newline (p := isIntegerRest) rfl cs ds
  unfold integer
  rw [htake, hdrop]
  dsimp only
  split <;> rfl

theorem mark_newline (pos : Nat) (c : Char) (cs ds : List Char) :
    mark pos c (cs ++ '\n' :: ds) = (mark pos c cs).append ('\n' :: ds) := by
  unfold mark
  split <;> rfl

/-- A line feed behind the text is not read with a lexeme, unless it is escaped. -/
theorem scan_newline (h : ¬ EndsInEscape (c :: cs)) (ds : List Char) :
    scan pos c (cs ++ '\n' :: ds) = (scan pos c cs).append ('\n' :: ds) := by
  unfold scan
  split
  · rfl
  split
  · rfl
  split
  · obtain ⟨htake, hdrop⟩ := span_newline (p := (· != '\n')) rfl cs ds
    unfold comment
    rw [htake, hdrop]
    rfl
  split
  · rename_i hquote
    subst hquote
    exact string_newline h ds
  split
  · exact integer_newline pos c cs ds
  split
  · exact word_newline c cs ds
  split
  · obtain ⟨htake, hdrop⟩ := span_newline (p := isOperatorChar) rfl cs ds
    unfold operator
    rw [htake, hdrop]
    rfl
  · exact mark_newline pos c cs ds

/-- What is no comment and no literal has nothing in it that would begin one. -/
theorem plain_of_mem_text (hcomment : c ≠ '#') (hquote : c ≠ '"') :
    ∀ d ∈ (scan pos c cs).text, d ≠ '"' ∧ d ≠ '#' := by
  have hrun {p : Char → Bool} (hp : p '"' = false ∧ p '#' = false) (ds : List Char) :
      ∀ d ∈ c :: ds.takeWhile p, d ≠ '"' ∧ d ≠ '#' := by
    refine List.forall_mem_cons.mpr ⟨⟨hquote, hcomment⟩, fun d hd => ?_⟩
    have hclass := of_mem_takeWhile hd
    exact ⟨by rintro rfl; simp [hp] at hclass, by rintro rfl; simp [hp] at hclass⟩
  have hsingle : ∀ d ∈ [c], d ≠ '"' ∧ d ≠ '#' := List.forall_mem_singleton.mpr ⟨hquote, hcomment⟩
  unfold scan
  rw [if_neg hcomment, if_neg hquote]
  split
  · exact hsingle
  split
  · exact hsingle
  split
  · unfold integer
    dsimp only
    split
    · exact hrun (by decide) cs
    · exact hrun (by decide) cs
  split
  · unfold word
    dsimp only
    split
    · rename_i s after hsuffix
      obtain ⟨-, hs, -⟩ := suffix?_eq_some_iff.mp hsuffix
      refine List.forall_mem_append.mpr ⟨hrun (by decide) cs, ?_⟩
      obtain rfl | rfl := hs <;> exact List.forall_mem_singleton.mpr (by decide)
    · exact hrun (by decide) cs
  split
  · exact hrun (by decide) cs
  · unfold mark
    split
    · exact hsingle
    · exact hsingle

theorem string_rest (pos : Nat) (c : Char) (cs : List Char) :
    (string pos c cs).rest = (StringBody.scan (pos + c.utf8Size) cs).rest := by
  unfold string
  dsimp only
  split <;> rfl

/-- Behind a lexeme that ends before its text does, nothing of it is left. -/
theorem outside_after_rest (h : (scan pos c cs).rest ≠ []) :
    outside.after (c :: cs) = outside.after (scan pos c cs).rest := by
  by_cases hcomment : c = '#'
  · subst hcomment
    exact comment_after h
  by_cases hquote : c = '"'
  · subst hquote
    have hrest : (scan pos '"' cs).rest = (StringBody.scan (pos + '"'.utf8Size) cs).rest :=
      string_rest pos '"' cs
    rw [hrest] at h ⊢
    exact StringBody.literal_after h
  rw [← text_append_rest pos c cs, after_append,
    Ending.outside_after (plain_of_mem_text hcomment hquote)]

/-- The last lexeme of a text that ends in an escape is a literal. -/
theorem eq_quote_of_endsInEscape (hrest : (scan pos c cs).rest = [])
    (h : EndsInEscape (c :: cs)) : c = '"' := by
  by_cases hquote : c = '"'
  · exact hquote
  exfalso
  by_cases hcomment : c = '#'
  · subst hcomment
    have hnone : Ending.comment.after cs = .comment := comment_after_of_dropWhile hrest
    exact absurd (hnone.symm.trans h) (by decide)
  · unfold EndsInEscape at h
    rw [← text_append_rest pos c cs, after_append,
      Ending.outside_after (plain_of_mem_text hcomment hquote), hrest] at h
    exact absurd h (by decide)

/-- A line feed that is escaped is a problem where the literal was one that is not closed. -/
theorem scan_newline_of_escape (hrest : (scan pos c cs).rest = []) (h : EndsInEscape (c :: cs)) :
    ∃ before span, (scan pos c cs).problems = before ++ [⟨.unterminatedString, span⟩] ∧
      ∀ ds, ∃ span more,
        (scan pos c (cs ++ '\n' :: ds)).problems =
          before ++ ⟨.unknownEscape '\n', span⟩ :: more := by
  obtain rfl := eq_quote_of_endsInEscape hrest h
  have hbody : (StringBody.scan (pos + '"'.utf8Size) cs).rest = [] :=
    (string_rest pos '"' cs).symm.trans hrest
  refine ⟨(StringBody.scan (pos + '"'.utf8Size) cs).problems, ?_⟩
  have hclosed := (StringBody.scan_newline_of_escape hbody h []).1
  refine ⟨⟨pos, pos + utf8Length ('"' :: (StringBody.scan (pos + '"'.utf8Size) cs).text)⟩, ?_,
    fun ds => ?_⟩
  · show (string pos '"' cs).problems = _
    unfold string
    dsimp only
    rw [hclosed]
    rfl
  · obtain ⟨-, span, more, hproblems⟩ := StringBody.scan_newline_of_escape hbody h ds
    show ∃ span more, (string pos '"' (cs ++ '\n' :: ds)).problems = _
    unfold string
    dsimp only
    split
    · exact ⟨span, more, hproblems⟩
    · dsimp only
      rw [hproblems, List.append_assoc, List.cons_append]
      exact ⟨span, _, rfl⟩

end Lexeme

/-! ## Whole texts -/

namespace Lexed

/-- What a lexeme that leaves the whole text's ending to its rest says about that. -/
theorem endsInEscape_rest {pos : Nat} {c : Char} {cs : List Char}
    (h : (Lexeme.scan pos c cs).rest ≠ []) :
    EndsInEscape (Lexeme.scan pos c cs).rest ↔ EndsInEscape (c :: cs) := by
  unfold EndsInEscape
  rw [Lexeme.outside_after_rest h]

/-- Unless the first of two lines ends in an escape, each is lexed by itself. -/
theorem problems_newline {pos : Nat} {cs : List Char} (h : ¬ EndsInEscape cs) (ds : List Char) :
    (ofChars pos (cs ++ '\n' :: ds)).problems =
      (ofChars pos cs).problems ++ (ofChars (pos + (utf8Length cs + 1)) ds).problems := by
  fun_induction ofChars pos cs with
  | case1 pos =>
    rw [List.nil_append, ofChars_newline_cons]
    rfl
  | case2 pos c cs lexeme tail ih =>
    have hlength : utf8Length lexeme.text + utf8Length lexeme.rest = utf8Length (c :: cs) := by
      rw [← utf8Length_append, Lexeme.text_append_rest]
    have hrest : ¬ EndsInEscape lexeme.rest := by
      by_cases hnil : lexeme.rest = []
      · rw [hnil]
        exact Ending.noConfusion
      · rwa [endsInEscape_rest hnil]
    rw [List.cons_append, ofChars, Lexeme.scan_newline h]
    show lexeme.problems ++
      (ofChars (pos + utf8Length lexeme.text) (lexeme.rest ++ '\n' :: ds)).problems = _
    rw [ih hrest, ← List.append_assoc, ← hlength]
    congr 3
    omega

/-- If the first of two lines ends in an escape, its literal that is not closed is not reported. -/
theorem problems_newline_of_escape (pos : Nat) {cs : List Char} (h : EndsInEscape cs) :
    ∃ before span, (ofChars pos cs).problems = before ++ [⟨.unterminatedString, span⟩] ∧
      ∀ ds, ∃ span more,
        (ofChars pos (cs ++ '\n' :: ds)).problems =
          before ++ ⟨.unknownEscape '\n', span⟩ :: more := by
  fun_induction ofChars pos cs with
  | case1 pos => cases h
  | case2 pos c cs lexeme tail ih =>
    by_cases hnil : lexeme.rest = []
    · obtain ⟨before, span, hproblems, hjoined⟩ := Lexeme.scan_newline_of_escape hnil h
      have htail : tail.problems = [] := by
        simp only [tail, hnil]
        rw [ofChars]
      refine ⟨before, span, ?_, fun ds => ?_⟩
      · rw [htail, List.append_nil]
        exact hproblems
      · obtain ⟨span, more, hproblems⟩ := hjoined ds
        rw [List.cons_append, ofChars]
        dsimp only
        rw [hproblems]
        rw [List.append_assoc, List.cons_append]
        exact ⟨span, _, rfl⟩
    · obtain ⟨before, span, hproblems, hjoined⟩ := ih ((endsInEscape_rest hnil).mpr h)
      refine ⟨lexeme.problems ++ before, span, ?_, fun ds => ?_⟩
      · rw [hproblems, List.append_assoc]
      · obtain ⟨span, more, hproblems⟩ := hjoined ds
        refine ⟨span, more, ?_⟩
        rw [ofChars_cons_append hnil]
        dsimp only
        rw [hproblems, List.append_assoc]

end Lexed

/-! ## Sources -/

/-- The lexical problems that a source is rejected for; none, if it is accepted. -/
def lexicalProblems (source : String) : List Diagnostic :=
  match lex source with
  | .ok _ => []
  | .error problems => problems

theorem lexicalProblems_eq (source : String) :
    lexicalProblems source = (Lexed.ofSource source).problems.map .ofLexical := by
  unfold lexicalProblems lex Lexed.toExcept
  cases (Lexed.ofSource source).problems with
  | nil => rfl
  | cons p ps => rfl

/-- Where a text stands shows in the spans of its problems only. -/
theorem map_ofLexical_ofChars (offset : Nat) (source : String) :
    (Lexed.ofChars (0 + offset) source.toList).problems.map .ofLexical =
      (lexicalProblems source).map (·.shift offset) := by
  rw [lexicalProblems_eq, Lexed.ofChars_shift, Lexed.shift, List.map_map, List.map_map]
  rfl

/-- The problems of two texts with a line feed between them are those of the first and then those
    of the second, moved behind it, exactly if the first does not end in a string literal right
    behind a backslash that would escape the line feed. -/
theorem lexicalProblems_newline_iff (first second : String) :
    lexicalProblems (first ++ "\n" ++ second) =
        lexicalProblems first ++ (lexicalProblems second).map (·.shift (first.utf8ByteSize + 1)) ↔
      ¬ EndsInEscape first.toList := by
  have hjoined : lexicalProblems (first ++ "\n" ++ second) =
      (Lexed.ofChars 0 (first.toList ++ '\n' :: second.toList)).problems.map .ofLexical := by
    rw [lexicalProblems_eq, Lexed.ofSource, String.toList_append, String.toList_append,
      List.append_assoc]
    rfl
  rw [hjoined, lexicalProblems_eq first, Lexed.ofSource, ← utf8Length_toList]
  constructor
  · -- The literal that is not closed has a hint, and the escape that comes in its place has none.
    intro heq hescape
    obtain ⟨before, span, hfirst, hboth⟩ := Lexed.problems_newline_of_escape 0 hescape
    obtain ⟨span', more, hboth⟩ := hboth second.toList
    rw [hfirst, hboth, List.map_append, List.map_append, List.append_assoc] at heq
    have hhints : (LexicalProblem.unknownEscape '\n').hints =
        LexicalProblem.unterminatedString.hints :=
      congrArg Diagnostic.hints (List.cons.inj (List.append_cancel_left heq)).1
    exact absurd hhints (by decide)
  · intro h
    rw [Lexed.problems_newline h, List.map_append, map_ofLexical_ofChars]

/-- A literal that is not closed goes unreported when its line ends in a backslash, and the line
    feed is reported in its place. -/
theorem not_lexicalProblems_newline :
    ¬ ∀ first second : String,
      lexicalProblems (first ++ "\n" ++ second) =
        lexicalProblems first ++
          (lexicalProblems second).map (·.shift (first.utf8ByteSize + 1)) := by
  intro h
  exact absurd (h "\"a\\" "b\"") (by decide +kernel)

end DeclLang
