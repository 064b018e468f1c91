import DeclLang.Proofs.Source.Motions
import DeclLang.Proofs.Token.Concatenation
import DeclLang.Proofs.Token.Reading

/-!
# Carriage returns: lines may end in two characters

A carriage return before a line feed is passed over with the blanks, or with the comment that it
ends, and stops every token that the line feed stopped. So a text gives the same tokens when its
lines get carriage returns, each of them where its text stands now (`lex_returned`).
-/

namespace DeclLang

/-! ## Where tokens stop -/

/-- A text still starts with what it started with, but for a line feed. -/
theorem head?_withReturns (cs : List Char) :
    (withReturns cs).head? = cs.head?.map fun c => if c = '\n' then '\r' else c := by
  cases cs with
  | nil => rfl
  | cons c cs =>
    by_cases hc : c = '\n'
    · rw [hc]
      rfl
    · rw [withReturns_cons hc, List.head?_cons, List.head?_cons, Option.map_some, if_neg hc]

/-- A class without the carriage return cannot go on where it did not go on before. -/
theorem head?_withReturns_not {p : Char → Bool} (hreturn : ¬ p '\r' = true) {cs : List Char}
    (h : ∀ c ∈ cs.head?, ¬ p c = true) : ∀ c ∈ (withReturns cs).head?, ¬ p c = true := by
  intro c hc
  rw [head?_withReturns, Option.mem_def, Option.map_eq_some_iff] at hc
  obtain ⟨d, hd, rfl⟩ := hc
  split
  · exact hreturn
  · exact h d hd

theorem head?_withReturns_eq_iff {cs : List Char} :
    (withReturns cs).head? = some '=' ↔ cs.head? = some '=' := by
  rw [head?_withReturns]
  constructor
  · intro h
    obtain ⟨d, hd, hchar⟩ := Option.map_eq_some_iff.mp h
    split at hchar
    · cases hchar
    · rw [hd, hchar]
  · intro h
    rw [h]
    rfl

theorem suffix?_withReturns {cs : List Char} (h : Lexeme.suffix? cs = none) :
    Lexeme.suffix? (withReturns cs) = none := by
  rw [Option.eq_none_iff_forall_ne_some]
  rintro ⟨s, after⟩ hsome
  obtain ⟨htext, hs, hafter⟩ := Lexeme.suffix?_eq_some_iff.mp hsome
  cases cs with
  | nil => cases htext
  | cons c cs =>
    by_cases hc : c = '\n'
    · rw [hc, withReturns_newline] at htext
      obtain ⟨rfl, -⟩ := List.cons.inj htext
      revert hs
      decide
    · rw [withReturns_cons hc] at htext
      obtain ⟨rfl, rfl⟩ := List.cons.inj htext
      rw [ne_eq, head?_withReturns_eq_iff] at hafter
      rw [Lexeme.suffix?_eq_some_iff.mpr ⟨rfl, hs, hafter⟩] at h
      cases h

theorem EndsWord.returns {rest : List Char} (h : EndsWord rest) : EndsWord (withReturns rest) :=
  ⟨head?_withReturns_not (by decide) h.1, suffix?_withReturns h.2⟩

theorem Stops.returns {kind : TokenKind} {rest : List Char} (h : Stops kind rest) :
    Stops kind (withReturns rest) := by
  cases kind with
  | keyword => exact EndsWord.returns h
  | ident name =>
    obtain ⟨hname, hends⟩ | ⟨hname, hrest⟩ := h
    · exact .inl ⟨hname, hends.returns⟩
    · exact .inr ⟨hname, fun heq => hrest (head?_withReturns_eq_iff.mp heq)⟩
  | operator => exact head?_withReturns_not (by decide) h
  | int => exact head?_withReturns_not (by decide) h
  | _ => trivial

/-! ## Where tokens go -/

/-- Text without a line feed goes where the text before it ends. -/
theorem returns_apply_inner (before rest : List Char) {text : List Char} (hne : text ≠ [])
    (hinner : '\n' ∉ text) :
    (Motion.returns (before ++ (text ++ rest))).apply
        ⟨utf8Length before, utf8Length before + utf8Length text⟩ =
      ⟨utf8Length (withReturns before),
        utf8Length (withReturns before) + utf8Length text⟩ := by
  cases text with
  | nil => exact absurd rfl hne
  | cons c text =>
    have hwidth := c.utf8Size_pos
    have hstart : feedsBefore (c :: text ++ rest) 1 = 0 := by
      have hbehind : 1 - c.utf8Size = 0 := by omega
      have hc : ¬ c = '\n' := fun h => hinner (h ▸ List.mem_cons_self)
      rw [List.cons_append, feedsBefore_cons _ _ Nat.one_ne_zero, if_neg hc, hbehind,
        feedsBefore_zero]
    have hstop : feedsBefore (c :: text ++ rest) (utf8Length (c :: text)) = 0 := by
      have happend := feedsBefore_append (c :: text) rest 0
      rw [Nat.add_zero, feedsBefore_zero, List.count_eq_zero_of_not_mem hinner] at happend
      exact happend
    rw [Motion.returns_apply, feedsBefore_append, feedsBefore_append, hstart, hstop, utf8Length_withReturns]
    congr 1
    omega

/-- A line feed goes behind the return that it gets. -/
theorem returns_apply_newline (before rest : List Char) :
    (Motion.returns (before ++ (['\n'] ++ rest))).apply
        ⟨utf8Length before, utf8Length before + utf8Length ['\n']⟩ =
      ⟨utf8Length (withReturns before) + utf8Length ['\r'],
        utf8Length (withReturns before) + utf8Length ['\r'] + utf8Length ['\n']⟩ := by
  have hwidth : utf8Length ['\n'] = 1 ∧ utf8Length ['\r'] = 1 := by decide
  have hfeed : feedsBefore ('\n' :: rest) 1 = 1 := by
    have hbehind : 1 - Char.utf8Size '\n' = 0 := by decide
    rw [feedsBefore_cons _ _ Nat.one_ne_zero, if_pos rfl, hbehind, feedsBefore_zero]
  rw [hwidth.1, hwidth.2, List.singleton_append, Motion.returns_apply, feedsBefore_append, hfeed,
    utf8Length_withReturns]
  congr 1
  omega

theorem returns_apply_end (cs : List Char) :
    (Motion.returns cs).apply (.point (utf8Length cs)) = .point (utf8Length (withReturns cs)) := by
  have hend (offset : Nat) : feedsBefore cs (utf8Length cs + offset) = cs.count '\n' := by
    have happend := feedsBefore_append cs [] offset
    rwa [List.append_nil, feedsBefore_nil, Nat.add_zero] at happend
  have hstop : feedsBefore cs (utf8Length cs) = cs.count '\n' := hend 0
  rw [Span.point, Motion.returns_apply, hend, hstop, ← utf8Length_withReturns]
  rfl

/-! ## Texts -/

theorem Tokenizes.of_blank {pos : Nat} {c : Char} {cs : List Char} {ts : List Token}
    (hc : isBlank c = true) (h : Tokenizes pos (c :: cs) ts) :
    Tokenizes (pos + utf8Length [c]) cs ts := by
  have hscan : Lexeme.scan pos c cs = ⟨[c], none, [], cs⟩ := by
    rw [Lexeme.scan, if_pos hc]
  rw [← Lexed.ofChars_eq_iff] at h ⊢
  rw [Lexed.ofChars_of_scan hscan] at h
  exact h

/-- The tokens of the end of a text are found behind whatever stands before it. -/
theorem Tokenizes.returns {pos : Nat} {cs : List Char} {ts : List Token}
    (h : Tokenizes pos cs ts) {before : List Char} (hpos : utf8Length before = pos) :
    Tokenizes (utf8Length (withReturns before)) (withReturns cs)
      (ts.map (·.mapSpan (Motion.returns (before ++ cs)).apply)) := by
  induction h generalizing before with
  | @finish pos =>
    rw [List.append_nil, List.map_singleton]
    show Tokenizes _ _ [⟨.eof, (Motion.returns before).apply (.point pos)⟩]
    rw [← hpos, returns_apply_end]
    exact .finish
  | @blank pos c cs ts hc hrest ih =>
    have hinner : '\n' ∉ [c] := by
      rw [List.mem_singleton]
      rintro rfl
      cases hc
    have hbehind := @ih (before ++ [c]) (by rw [utf8Length_append, hpos])
    rw [withReturns_append, withReturns_eq_self hinner, utf8Length_append, List.append_assoc,
      List.singleton_append] at hbehind
    rw [withReturns_cons (fun h => hinner (h ▸ List.mem_cons_self))]
    exact .blank hc hbehind
  | @comment pos body rest ts hbody hstop hrest ih =>
    have hinner : '\n' ∉ '#' :: body := by
      rw [List.mem_cons, not_or]
      exact ⟨by decide, hbody⟩
    have hbehind := @ih (before ++ '#' :: body) (by rw [utf8Length_append, hpos])
    rw [withReturns_append, withReturns_eq_self hinner, utf8Length_append, List.append_assoc]
      at hbehind
    rw [withReturns_append, withReturns_eq_self hinner]
    cases rest with
    | nil => exact .comment hbody (fun _ h => by cases h) hbehind
    | cons c rest =>
      -- The return belongs to the comment that it ends.
      obtain rfl := hstop c rfl
      rw [withReturns_newline] at hbehind ⊢
      have hline := hbehind.of_blank (by decide)
      have hbody' : '\n' ∉ body ++ ['\r'] := by simp [hbody]
      have hchars : '#' :: body ++ '\r' :: '\n' :: withReturns rest =
          '#' :: (body ++ ['\r']) ++ '\n' :: withReturns rest := by simp
      rw [hchars]
      refine .comment hbody' (fun d hd => (Option.mem_some.mp hd).symm) ?_
      have hlength : utf8Length ('#' :: (body ++ ['\r'])) =
          utf8Length ('#' :: body) + utf8Length ['\r'] := by
        rw [← utf8Length_append]
        rfl
      rw [hlength, ← Nat.add_assoc]
      exact hline
  | @token pos text rest kind ts htext hstops hrest ih =>
    have hbehind := @ih (before ++ text) (by rw [utf8Length_append, hpos])
    rw [withReturns_append, utf8Length_append, List.append_assoc] at hbehind
    rw [withReturns_append, List.map_cons]
    by_cases hnewline : '\n' ∈ text
    · obtain rfl := htext.eq_of_newline_mem hnewline
      have hspan := returns_apply_newline before rest
      rw [hpos] at hspan
      rw [Located.mapSpan, hspan]
      refine .blank (by decide) (.token htext hstops.returns ?_)
      rw [Nat.add_assoc, ← utf8Length_append]
      exact hbehind
    · have hspan := returns_apply_inner before rest htext.ne_nil hnewline
      rw [hpos] at hspan
      rw [withReturns_eq_self hnewline] at hbehind ⊢
      rw [Located.mapSpan, hspan]
      exact .token htext hstops.returns hbehind

/-- A text that gives tokens gives the same ones with carriage returns at the ends of its lines. -/
theorem lex_returned {source : String} {tokens : List Token} (h : lex source = .ok tokens) :
    lex (returned source) =
      .ok (tokens.map (·.mapSpan (Motion.returns source.toList).apply)) := by
  rw [lex_eq_ok_iff] at h ⊢
  rw [returned, String.toList_ofList]
  exact @Tokenizes.returns _ _ _ h [] rfl

end DeclLang
