import DeclLang.Proofs.Token.Layout

/-!
# Lossless lexing: the tokens of a text and their spans say all that the text says

`Lossless` reads tokens against the text that they come from, through their spans alone: which text
each of them has, which text is between two of them, and that neighbours are not parts of one token.
`lex_lossless` is about every text that the lexer accepts.
-/

namespace DeclLang

/-! ## Spans in a text -/

/-- The stretch of a source that a span covers, which starts and ends between two characters. -/
def Span.Covers (s : Span) (source text : List Char) : Prop :=
  ∃ before after, source = before ++ (text ++ after) ∧
    s.start = utf8Length before ∧ s.stop = s.start + utf8Length text

/-- Tokens that say all that their source says. -/
structure Lossless (source : String) (tokens : List Token) : Prop where
  /-- The end of the source is marked, and it is marked once. -/
  ends : ∃ body, tokens = body ++ [⟨.eof, .point source.utf8ByteSize⟩] ∧
    ∀ t ∈ body, t.value ≠ .eof
  /-- No token is empty. -/
  nonempty : ∀ t ∈ tokens, t.value ≠ .eof → t.span.start < t.span.stop
  /-- Tokens come in their order in the source, and none of them starts inside another one. -/
  ordered : tokens.Pairwise fun t u => t.span.stop ≤ u.span.start
  /-- Every token covers a text that spells it. -/
  spelled : ∀ t ∈ tokens, t.value ≠ .eof →
    ∃ text, t.span.Covers source.toList text ∧ Spells text t.value
  /-- From the end of one token to the start of the next, or from the start of the source to that of
      the first, there is a gap. -/
  gaps : ∀ x ∈ (0 :: tokens.map (·.span.stop)).zip tokens,
    ∃ gap, Span.Covers ⟨x.1, x.2.span.start⟩ source.toList gap ∧ IsGap gap x.2.value
  /-- Neighbours without a gap between them could not have been one token. -/
  munched : ∀ t u, [t, u] <:+: tokens → t.span.stop = u.span.start → ¬ Joins t.value u.value

/-- Bytes are those of the string itself. -/
theorem utf8Length_toList (source : String) : utf8Length source.toList = source.utf8ByteSize := by
  have hchars (cs : List Char) : utf8Length cs = (String.ofList cs).utf8ByteSize := by
    induction cs with
    | nil => rfl
    | cons c cs ih =>
      rw [← List.singleton_append, String.ofList_append, String.utf8ByteSize_append,
        ← String.singleton_eq_ofList, String.utf8ByteSize_singleton, ← ih]
      rfl
  rw [hchars, String.ofList_toList]

theorem utf8Length_pos {text : List Char} (h : text ≠ []) : 0 < utf8Length text := by
  cases text with
  | nil => exact absurd rfl h
  | cons c cs =>
    have hpos := Char.utf8Size_pos c
    rw [utf8Length_cons]
    omega

theorem Spells.ne_nil {text : List Char} {kind : TokenKind} (h : Spells text kind) : text ≠ [] := by
  obtain ⟨c, cs, rfl, -⟩ := h.begins
  exact List.cons_ne_nil c cs

theorem Spells.ne_eof {text : List Char} {kind : TokenKind} (h : Spells text kind) :
    kind ≠ .eof := by
  rintro rfl
  cases h

/-! ## Tokens that stand in a text -/

namespace LaidOut

variable {pos : Nat} {cs : List Char} {ts : List Token}

theorem ends (h : LaidOut pos cs ts) :
    ∃ body, ts = body ++ [⟨.eof, .point (pos + utf8Length cs)⟩] ∧ ∀ t ∈ body, t.value ≠ .eof := by
  induction h with
  | finish => exact ⟨[], rfl, List.forall_mem_nil _⟩
  | @token pos gap text rest kind ts hgap htext hstops _ ih =>
    obtain ⟨body, rfl, hbody⟩ := ih
    have hend : pos + utf8Length gap + utf8Length text + utf8Length rest =
        pos + utf8Length (gap ++ (text ++ rest)) := by
      rw [utf8Length_append, utf8Length_append]
      omega
    rw [hend]
    exact ⟨_ :: body, rfl, List.forall_mem_cons.mpr ⟨htext.ne_eof, hbody⟩⟩

/-- No token stands before the text. -/
theorem le_start (h : LaidOut pos cs ts) : ∀ t ∈ ts, pos ≤ t.span.start := by
  induction h with
  | @finish pos gap =>
    intro t ht
    rw [List.mem_singleton.mp ht]
    exact Nat.le_add_right pos _
  | token _ _ _ _ ih =>
    refine List.forall_mem_cons.mpr ⟨Nat.le_add_right _ _, fun t ht => ?_⟩
    have hle := ih t ht
    omega

theorem ordered (h : LaidOut pos cs ts) : ts.Pairwise fun t u => t.span.stop ≤ u.span.start := by
  induction h with
  | finish => exact List.pairwise_singleton _ _
  | token _ _ _ hrest ih => exact List.pairwise_cons.mpr ⟨hrest.le_start, ih⟩

/-- What holds of a text behind another one holds of both of them put together. -/
theorem spelled (h : LaidOut pos cs ts) (before : List Char) (hpos : pos = utf8Length before) :
    ∀ t ∈ ts, t.value ≠ .eof →
      ∃ text, t.span.Covers (before ++ cs) text ∧ Spells text t.value := by
  induction h generalizing before with
  | finish =>
    intro t ht hne
    rw [List.mem_singleton.mp ht] at hne
    exact absurd rfl hne
  | @token pos gap text rest kind ts hgap htext hstops _ ih =>
    refine List.forall_mem_cons.mpr ⟨fun _ => ?_, ?_⟩
    · refine ⟨text, ⟨before ++ gap, rest, (List.append_assoc ..).symm, ?_, rfl⟩, htext⟩
      show pos + utf8Length gap = utf8Length (before ++ gap)
      rw [hpos, utf8Length_append]
    · have hrest := ih (before ++ (gap ++ text)) (by
        rw [hpos, utf8Length_append, utf8Length_append, Nat.add_assoc])
      rwa [List.append_assoc, List.append_assoc] at hrest

theorem gaps (h : LaidOut pos cs ts) (before : List Char) (hpos : pos = utf8Length before) :
    ∀ x ∈ (pos :: ts.map (·.span.stop)).zip ts,
      ∃ gap, Span.Covers ⟨x.1, x.2.span.start⟩ (before ++ cs) gap ∧ IsGap gap x.2.value := by
  induction h generalizing before with
  | @finish pos gap hgap =>
    intro x hx
    rw [List.map_singleton, List.zip_cons_cons, List.zip_nil_right, List.mem_singleton] at hx
    rw [hx]
    exact ⟨gap, ⟨before, [], by rw [List.append_nil], hpos, rfl⟩, hgap⟩
  | @token pos gap text rest kind ts hgap htext hstops _ ih =>
    rw [List.map_cons, List.zip_cons_cons]
    refine List.forall_mem_cons.mpr ⟨⟨gap, ⟨before, text ++ rest, rfl, hpos, rfl⟩, hgap⟩, ?_⟩
    have hrest := ih (before ++ (gap ++ text)) (by
      rw [hpos, utf8Length_append, utf8Length_append, Nat.add_assoc])
    rwa [List.append_assoc, List.append_assoc] at hrest

/-- The first token starts with the first character of the text, if it has no gap before it. -/
theorem begins_of_start_eq {u : Token} (h : LaidOut pos cs (u :: ts)) (hstart : u.span.start = pos)
    (hne : u.value ≠ .eof) : ∃ c ∈ cs.head?, Begins u.value c := by
  cases h with
  | finish => exact absurd rfl hne
  | @token pos gap text rest kind ts hgap htext =>
    have hlength : utf8Length gap = 0 := Nat.add_left_cancel (m := utf8Length gap) hstart
    have hnil : gap = [] := by
      by_cases hgap : gap = []
      · exact hgap
      · have hpos := utf8Length_pos hgap
        omega
    subst hnil
    obtain ⟨c, cs, rfl, hbegins⟩ := htext.begins
    exact ⟨c, rfl, hbegins⟩

theorem munched (h : LaidOut pos cs ts) :
    ∀ t u, [t, u] <:+: ts → t.span.stop = u.span.start → ¬ Joins t.value u.value := by
  induction h with
  | finish =>
    intro t u hinfix
    have hlength := hinfix.length_le
    simp at hlength
  | @token pos gap text rest kind ts hgap htext hstops hrest ih =>
    intro t u hinfix htouch hjoins
    obtain hfirst | hlater := List.infix_cons_iff.mp hinfix
    · obtain ⟨rfl, hnext⟩ := List.cons_prefix_cons.mp hfirst
      cases ts with
      | nil => simp at hnext
      | cons v vs =>
        obtain ⟨rfl, -⟩ := List.cons_prefix_cons.mp hnext
        have hne : u.value ≠ .eof := by
          intro heof
          rw [heof] at hjoins
          cases kind <;> exact hjoins.elim
        obtain ⟨c, hc, hbegins⟩ := hrest.begins_of_start_eq htouch.symm hne
        exact hstops c hc (hjoins.continues hbegins)
    · exact ih t u hlater htouch hjoins

end LaidOut

/-! ## Accepted sources -/

theorem lex_eq_ok {source : String} {tokens : List Token} (h : lex source = .ok tokens) :
    Lexed.ofSource source = ⟨tokens, []⟩ := by
  unfold lex Lexed.toExcept at h
  cases hlexed : Lexed.ofSource source with
  | mk found problems =>
    rw [hlexed] at h
    cases problems with
    | nil =>
      cases h
      rfl
    | cons e es => cases h

theorem lex_of_problems {source : String} (h : (Lexed.ofSource source).problems = []) :
    lex source = .ok (Lexed.ofSource source).tokens := by
  rw [lex, Lexed.toExcept, h]
  rfl

theorem laidOut_of_lex {source : String} {tokens : List Token} (h : lex source = .ok tokens) :
    LaidOut 0 source.toList tokens := by
  have hlexed := lex_eq_ok h
  have hlaid := Lexed.laidOut_ofChars (congrArg Lexed.problems hlexed)
  rwa [show Lexed.ofChars 0 source.toList = _ from hlexed] at hlaid

/-- Lexing loses nothing of a source that it accepts. -/
theorem lex_lossless {source : String} {tokens : List Token} (h : lex source = .ok tokens) :
    Lossless source tokens := by
  have hlaid := laidOut_of_lex h
  have hspelled := hlaid.spelled [] rfl
  exact {
    ends := by
      have hends := hlaid.ends
      rwa [Nat.zero_add, utf8Length_toList] at hends
    nonempty := by
      intro t ht hne
      obtain ⟨text, ⟨before, after, -, -, hstop⟩, htext⟩ := hspelled t ht hne
      have hpos := utf8Length_pos htext.ne_nil
      omega
    ordered := hlaid.ordered
    spelled := hspelled
    gaps := hlaid.gaps [] rfl
    munched := hlaid.munched }

/-- A suffixed name, a comment with a letter of two bytes, an escape and a grouped numeral. -/
theorem lex_lossless_line :
    let source := "def at?[ # é\n\"a\\n\" 1_0"
    let tokens := [⟨.keyword .method, ⟨0, 3⟩⟩, ⟨.ident "at?", ⟨4, 7⟩⟩,
      ⟨.punctuation .leftBracket, ⟨7, 8⟩⟩, ⟨.newline, ⟨13, 14⟩⟩, ⟨.string "a\n", ⟨14, 19⟩⟩,
      ⟨.int 10, ⟨20, 23⟩⟩, ⟨.eof, ⟨23, 23⟩⟩]
    lex source = .ok tokens ∧ Lossless source tokens := by
  intro source tokens
  have hlexed : Lexed.ofSource source = ⟨tokens, []⟩ := by decide +kernel
  have hok : lex source = .ok tokens := by rw [lex, hlexed]; rfl
  exact ⟨hok, lex_lossless hok⟩

end DeclLang
