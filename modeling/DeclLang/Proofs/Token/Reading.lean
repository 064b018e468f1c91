import DeclLang.Proofs.Token.Lossless

/-!
# Reading: which texts give which tokens

A token is read off a text exactly when the text starts with one of its spellings and what comes
behind does not go on with it (`scan_of_spells`, `stops_scan`). So which tokens a text gives can be
said without the lexer, lexeme by lexeme (`Tokenizes`), and this says all (`ofChars_eq_iff`).
-/

namespace DeclLang

/-! ## Where a token stops -/

/-- A word ends before a text that has no more letters for it, and no suffix. -/
def EndsWord (rest : List Char) : Prop :=
  (∀ c ∈ rest.head?, ¬ isIdentRest c = true) ∧ Lexeme.suffix? rest = none

/-- What may come right behind a token. A name with a suffix must not be followed by `=`, which
    would make an operator of its suffix. -/
def Stops : TokenKind → List Char → Prop
  | .keyword _, rest => EndsWord rest
  | .ident name, rest =>
    IsUnsuffixed name ∧ EndsWord rest ∨ ¬ IsUnsuffixed name ∧ rest.head? ≠ some '='
  | .operator _, rest => ∀ c ∈ rest.head?, ¬ isOperatorChar c = true
  | .int _, rest => ∀ c ∈ rest.head?, ¬ isIntegerRest c = true
  | _, _ => True

theorem endsWord_nil : EndsWord [] := by
  refine ⟨fun c hc => ?_, rfl⟩
  cases hc

/-- At the end of a text every token stops. -/
theorem stops_nil (kind : TokenKind) : Stops kind [] := by
  cases kind with
  | keyword => exact endsWord_nil
  | ident name =>
    by_cases hname : IsUnsuffixed name
    · exact .inl ⟨hname, endsWord_nil⟩
    · exact .inr ⟨hname, by simp⟩
  | operator => exact fun _ h => by cases h
  | int => exact fun _ h => by cases h
  | _ => trivial

/-! ## Classes of characters -/

/-- What can be checked of all items of a list holds of each. -/
theorem forall_mem_of_all {α : Type} {P : α → Prop} [DecidablePred P] {l : List α}
    (h : l.all (fun a => decide (P a)) = true) : ∀ a ∈ l, P a :=
  fun a ha => of_decide_eq_true (List.all_eq_true.mp h a ha)

/-- What a text starts with if only that is in a class. -/
theorem span_eq {p : Char → Bool} {cs rest : List Char} (hcs : ∀ d ∈ cs, p d = true)
    (hrest : ∀ d ∈ rest.head?, ¬ p d = true) :
    (cs ++ rest).takeWhile p = cs ∧ (cs ++ rest).dropWhile p = rest := by
  rw [List.takeWhile_append_of_pos hcs, List.dropWhile_append_of_pos hcs]
  cases rest with
  | nil => simp
  | cons d ds =>
    have hd := hrest d rfl
    rw [List.takeWhile_cons_of_neg hd, List.dropWhile_cons_of_neg hd, List.append_nil]
    exact ⟨rfl, rfl⟩

theorem not_isDigit_of_isIdentStart {c : Char} (h : isIdentStart c = true) :
    ¬ c.isDigit = true := by
  intro hdigit
  have hlt := (digitChar_of_isDigit hdigit).1
  have hchar := (digitChar_of_isDigit hdigit).2
  generalize c.toNat - '0'.toNat = n at hlt hchar
  have hnone : ∀ n < 10, ¬ isIdentStart n.digitChar = true := by decide
  rw [← hchar] at h
  exact hnone n hlt h

/-- The letters of a word are no suffix. -/
theorem IsWord.isUnsuffixed {name : String} (h : IsWord name.toList) : IsUnsuffixed name := by
  obtain ⟨c, cs, htext, hc, hcs⟩ := h
  have hnot : ∀ s ∈ ['?', '!'], ¬ isIdentStart s = true ∧ ¬ isIdentRest s = true :=
    forall_mem_of_all (by decide)
  have hlast (s : Char) (hs : s ∈ ['?', '!']) : name.toList.getLast? ≠ some s := by
    intro hlast
    have hmem := List.mem_of_getLast? hlast
    rw [htext] at hmem
    obtain rfl | hmem := List.mem_cons.mp hmem
    · exact (hnot s hs).1 hc
    · exact (hnot s hs).2 (hcs s hmem)
  exact ⟨hlast '?' (by simp), hlast '!' (by simp)⟩

/-- An identifier is a word, or a word and its suffix. -/
theorem IsIdentifier.word_or_suffixed {name : String} (h : IsIdentifier name.toList) :
    IsWord name.toList ∧ IsUnsuffixed name ∨
      ∃ letters s, name.toList = letters ++ [s] ∧ IsWord letters ∧ (s = '?' ∨ s = '!') ∧
        ¬ IsUnsuffixed name := by
  obtain ⟨letters, suffix, htext, hletters, hsuffix⟩ := h
  by_cases hnil : suffix = []
  · rw [hnil, List.append_nil] at htext
    rw [← htext] at hletters
    exact .inl ⟨hletters, hletters.isUnsuffixed⟩
  · have hmark : suffix = ['?'] ∨ suffix = ['!'] := by simpa [hnil] using hsuffix
    obtain rfl | rfl := hmark
    · refine .inr ⟨letters, '?', htext, hletters, .inl rfl, fun hname => hname.1 ?_⟩
      rw [htext, List.getLast?_concat]
    · refine .inr ⟨letters, '!', htext, hletters, .inr rfl, fun hname => hname.2 ?_⟩
      rw [htext, List.getLast?_concat]

/-! ## Reading one token -/

theorem StringBody.scan_of_escapes {body value : List Char} (h : Escapes body value) (pos : Nat)
    (rest : List Char) :
    scan pos (body ++ '"' :: rest) = ⟨body ++ ['"'], value, [], true, rest⟩ := by
  induction h generalizing pos with
  | nil => simp [scan]
  | plain hquote hbackslash hfeed _ ih => simp [scan, hquote, hbackslash, hfeed, ih]
  | lineFeed _ ih => simp [scan, unescape?, ih]
  | tab _ ih => simp [scan, unescape?, ih]
  | backslash _ ih => simp [scan, unescape?, ih]
  | quote _ ih => simp [scan, unescape?, ih]

theorem IsNumeral.ofDigitChars {digits : List Char} {value : Nat} (h : IsNumeral digits value) :
    Nat.ofDigitChars 10 digits 0 = value := by
  obtain ⟨zeros, rfl⟩ := h
  have hzeros : Nat.ofDigitChars 10 (List.replicate zeros '0') 0 = 0 := by
    induction zeros with
    | zero => rfl
    | succ zeros ih => rw [List.replicate_succ, Nat.ofDigitChars_cons]; exact ih
  rw [Nat.ofDigitChars_append, hzeros, Nat.ofDigitChars_toDigits (by decide) (by decide)]

namespace Lexeme

variable {pos : Nat} {c : Char} {cs rest : List Char} {kind : TokenKind}

theorem word_eq (hcs : ∀ d ∈ cs, isIdentRest d = true) (h : EndsWord rest) :
    word c (cs ++ rest) =
      ⟨c :: cs, some ((Keyword.ofSpelling? (String.ofList (c :: cs))).elim
        (.ident (String.ofList (c :: cs))) .keyword), [], rest⟩ := by
  have ⟨htake, hdrop⟩ := span_eq hcs h.1
  unfold word
  rw [htake, hdrop]
  dsimp only
  rw [h.2]

theorem word_suffixed {s : Char} (hcs : ∀ d ∈ cs, isIdentRest d = true) (hs : s = '?' ∨ s = '!')
    (hrest : rest.head? ≠ some '=') :
    word c (cs ++ s :: rest) =
      ⟨c :: cs ++ [s], some (.ident (String.ofList (c :: cs ++ [s]))), [], rest⟩ := by
  have hstop : ∀ d ∈ (s :: rest).head?, ¬ isIdentRest d = true := by
    intro d hd
    rw [List.head?_cons, Option.mem_some] at hd
    rw [← hd]
    obtain rfl | rfl := hs <;> decide
  have ⟨htake, hdrop⟩ := span_eq hcs hstop
  have hsuffix := suffix?_eq_some_iff.mpr ⟨rfl, hs, hrest⟩
  unfold word
  rw [htake, hdrop]
  dsimp only
  rw [hsuffix]

theorem scan_of_isIdentStart (hc : isIdentStart c = true) : scan pos c cs = word c cs := by
  have hnot (d : Char) (hd : isIdentStart d = false) : c ≠ d := by
    rintro rfl
    rw [hc] at hd
    cases hd
  have hblank : ¬ isBlank c = true := by
    simp [isBlank, hnot ' ' rfl, hnot '\t' rfl, hnot '\r' rfl]
  unfold scan
  rw [if_neg hblank, if_neg (hnot '\n' rfl), if_neg (hnot '#' rfl), if_neg (hnot '"' rfl),
    if_neg (not_isDigit_of_isIdentStart hc), if_pos hc]

theorem scan_of_isDigit (hc : c.isDigit = true) : scan pos c cs = integer pos c cs := by
  have hnot (d : Char) (hd : d.isDigit = false) : c ≠ d := by
    rintro rfl
    rw [hc] at hd
    cases hd
  have hblank : ¬ isBlank c = true := by
    simp [isBlank, hnot ' ' rfl, hnot '\t' rfl, hnot '\r' rfl]
  unfold scan
  rw [if_neg hblank, if_neg (hnot '\n' rfl), if_neg (hnot '#' rfl), if_neg (hnot '"' rfl),
    if_pos hc]

theorem scan_of_isOperatorChar (hc : isOperatorChar c = true) :
    scan pos c cs = operator c cs := by
  have hclass : ∀ d ∈ ['+', '-', '*', '/', '%', '=', '<', '>', '!', '&', '|', '^', '~'],
      isBlank d = false ∧ d ≠ '\n' ∧ d ≠ '#' ∧ d ≠ '"' ∧ d.isDigit = false ∧
        isIdentStart d = false := forall_mem_of_all (by decide)
  obtain ⟨hblank, hfeed, hhash, hquote, hdigit, hstart⟩ := hclass c (of_decide_eq_true hc)
  unfold scan
  rw [if_neg (Bool.eq_false_iff.mp hblank), if_neg hfeed, if_neg hhash, if_neg hquote,
    if_neg (Bool.eq_false_iff.mp hdigit), if_neg (Bool.eq_false_iff.mp hstart), if_pos hc]

/-- A spelling of a token is read as this token where it stops. -/
theorem scan_of_spells {text : List Char} (h : Spells text kind) (hstops : Stops kind rest)
    (pos : Nat) :
    ∃ c cs, text = c :: cs ∧ scan pos c (cs ++ rest) = ⟨text, some kind, [], rest⟩ := by
  cases h with
  | keyword k =>
    have hword : ∀ c ∈ k.spelling.toList, isIdentStart c = true ∧ isIdentRest c = true := by
      cases k <;> exact forall_mem_of_all (by decide)
    cases htext : k.spelling.toList with
    | nil => cases k <;> cases htext
    | cons c cs =>
      rw [htext] at hword
      obtain ⟨hc, hcs⟩ := List.forall_mem_cons.mp hword
      refine ⟨c, cs, rfl, ?_⟩
      rw [scan_of_isIdentStart hc.1, word_eq (fun d hd => (hcs d hd).2) hstops, ← htext,
        String.ofList_toList, Keyword.ofSpelling?_spelling]
      rfl
  | punctuation p =>
    refine ⟨p.char, [], String.toList_singleton _, ?_⟩
    cases p <;> rfl
  | operator text hne hall =>
    cases htext : text.toList with
    | nil => exact absurd (String.toList_eq_nil_iff.mp htext) hne
    | cons c cs =>
      rw [htext] at hall
      obtain ⟨hc, hcs⟩ := List.forall_mem_cons.mp hall
      obtain ⟨htake, hdrop⟩ := span_eq hcs hstops
      refine ⟨c, cs, rfl, ?_⟩
      rw [scan_of_isOperatorChar hc, operator, htake, hdrop, ← htext, String.ofList_toList]
  | ident name hname hkeyword =>
    obtain ⟨⟨c, cs, htext, hc, hcs⟩, hunsuffixed⟩ | ⟨letters, s, htext, hword, hs, hsuffixed⟩ :=
      hname.word_or_suffixed
    · have hends : EndsWord rest := by
        obtain h | h := hstops
        · exact h.2
        · exact absurd hunsuffixed h.1
      refine ⟨c, cs, htext, ?_⟩
      rw [scan_of_isIdentStart hc, word_eq hcs hends, ← htext, String.ofList_toList, hkeyword]
      rfl
    · have hrest : rest.head? ≠ some '=' := by
        obtain h | h := hstops
        · exact absurd h.1 hsuffixed
        · exact h.2
      obtain ⟨c, cs, rfl, hc, hcs⟩ := hword
      refine ⟨c, cs ++ [s], htext, ?_⟩
      rw [List.append_assoc, List.singleton_append, scan_of_isIdentStart hc,
        word_suffixed hcs hs hrest, ← htext, String.ofList_toList]
  | @string body value hbody =>
    refine ⟨'"', body ++ ['"'], rfl, ?_⟩
    show string pos '"' (body ++ ['"'] ++ rest) = _
    unfold string
    rw [List.append_assoc, List.singleton_append, StringBody.scan_of_escapes hbody]
    dsimp only
    rw [if_pos rfl, String.ofList_toList]
    rfl
  | @int c cs value hc hcs hnumeral hlimit =>
    obtain ⟨htake, hdrop⟩ := span_eq hcs hstops
    refine ⟨c, cs, rfl, ?_⟩
    rw [scan_of_isDigit hc]
    unfold integer
    rw [htake, hdrop]
    dsimp only
    have hlimit' : value < integerLimit := hlimit
    rw [hnumeral.ofDigitChars, if_pos hlimit']
  | newline => exact ⟨'\n', [], rfl, rfl⟩

/-! ## Where the lexer stops -/

theorem stops_word (hc : isIdentStart c = true) (hkind : (word c cs).kind = some kind) :
    Stops kind (word c cs).rest := by
  have hstop : ∀ d ∈ (cs.dropWhile isIdentRest).head?, ¬ isIdentRest d = true :=
    fun _ => not_of_head?_dropWhile
  unfold word at hkind ⊢
  dsimp only at hkind ⊢
  split at hkind
  · rename_i s after hsuffix
    obtain ⟨-, hs, hafter⟩ := suffix?_eq_some_iff.mp hsuffix
    obtain rfl := Option.some.inj hkind
    refine .inr ⟨fun hname => ?_, hafter⟩
    rw [IsUnsuffixed, String.toList_ofList, List.getLast?_concat] at hname
    obtain rfl | rfl := hs
    · exact hname.1 rfl
    · exact hname.2 rfl
  · rename_i hsuffix
    have hends : EndsWord (cs.dropWhile isIdentRest) := ⟨hstop, hsuffix⟩
    cases hk : Keyword.ofSpelling? (String.ofList (c :: cs.takeWhile isIdentRest)) with
    | none =>
      rw [hk] at hkind
      obtain rfl := Option.some.inj hkind
      have hword : IsWord (String.ofList (c :: cs.takeWhile isIdentRest)).toList :=
        ⟨c, _, String.toList_ofList, hc, fun _ => of_mem_takeWhile⟩
      exact .inl ⟨hword.isUnsuffixed, hends⟩
    | some k =>
      rw [hk] at hkind
      obtain rfl := Option.some.inj hkind
      exact hends

theorem stops_integer (hkind : (integer pos c cs).kind = some kind) :
    Stops kind (integer pos c cs).rest := by
  unfold integer at hkind ⊢
  dsimp only at hkind ⊢
  split at hkind
  · rename_i hlimit
    obtain rfl := Option.some.inj hkind
    rw [if_pos hlimit]
    exact fun _ => not_of_head?_dropWhile
  · cases hkind

theorem stops_scan (hkind : (scan pos c cs).kind = some kind) :
    Stops kind (scan pos c cs).rest := by
  revert hkind
  unfold scan
  split
  · intro hkind
    cases hkind
  split
  · intro hkind
    obtain rfl := Option.some.inj hkind
    trivial
  split
  · intro hkind
    cases hkind
  split
  · unfold string
    dsimp only
    split
    · intro hkind
      obtain rfl := Option.some.inj hkind
      trivial
    · intro hkind
      cases hkind
  split
  · exact stops_integer
  split
  · rename_i hstart
    exact stops_word hstart
  split
  · intro hkind
    obtain rfl := Option.some.inj hkind
    exact fun _ => not_of_head?_dropWhile
  · unfold mark
    split
    · intro hkind
      obtain rfl := Option.some.inj hkind
      trivial
    · intro hkind
      cases hkind

end Lexeme

/-! ## Whole texts -/

/-- Which tokens a text gives, if its first character stands at `pos`: blanks and comments are
    passed over, and every token stops before what comes next. -/
inductive Tokenizes : Nat → List Char → List Token → Prop where
  | finish {pos : Nat} : Tokenizes pos [] [⟨.eof, .point pos⟩]
  | blank {pos : Nat} {c : Char} {cs : List Char} {ts : List Token} : isBlank c = true →
      Tokenizes (pos + utf8Length [c]) cs ts → Tokenizes pos (c :: cs) ts
  | comment {pos : Nat} {body rest : List Char} {ts : List Token} : '\n' ∉ body →
      (∀ c ∈ rest.head?, c = '\n') → Tokenizes (pos + utf8Length ('#' :: body)) rest ts →
      Tokenizes pos ('#' :: body ++ rest) ts
  | token {pos : Nat} {text rest : List Char} {kind : TokenKind} {ts : List Token} :
      Spells text kind → Stops kind rest → Tokenizes (pos + utf8Length text) rest ts →
      Tokenizes pos (text ++ rest) (⟨kind, ⟨pos, pos + utf8Length text⟩⟩ :: ts)

namespace Lexed

theorem tokenizes_ofChars {pos : Nat} {cs : List Char} (h : (ofChars pos cs).problems = []) :
    Tokenizes pos cs (ofChars pos cs).tokens := by
  fun_induction ofChars pos cs with
  | case1 => exact .finish
  | case2 pos c cs lexeme tail ih =>
    obtain ⟨hlexeme, htail⟩ := List.append_eq_nil_iff.mp h
    have hrest : Tokenizes (pos + utf8Length lexeme.text) lexeme.rest tail.tokens := ih htail
    have hchars : lexeme.text ++ lexeme.rest = c :: cs := Lexeme.text_append_rest pos c cs
    show Tokenizes pos (c :: cs) (lexeme.token pos ++ tail.tokens)
    cases hkind : lexeme.kind with
    | some kind =>
      have htoken := Tokenizes.token (Lexeme.reads_scan hkind hlexeme).spells
        (Lexeme.stops_scan hkind) hrest
      rw [hchars] at htoken
      rwa [Lexeme.token, hkind]
    | none =>
      have hnone : lexeme.token pos = [] := by rw [Lexeme.token, hkind]
      rw [hnone, List.nil_append]
      obtain ⟨hblank, htext, hcs⟩ | hcomment := Lexeme.skips_scan hkind hlexeme
      · rw [htext, hcs] at hrest
        exact .blank hblank hrest
      · obtain ⟨body, htext, hbody⟩ := hcomment.text
        rw [htext] at hrest hchars
        rw [← hchars]
        exact .comment hbody hcomment.stops hrest

/-- The lexeme that a text starts with, and the rest of the text. -/
theorem ofChars_of_scan {pos : Nat} {c : Char} {cs text rest : List Char}
    {kind : Option TokenKind} (h : Lexeme.scan pos c cs = ⟨text, kind, [], rest⟩) :
    ofChars pos (c :: cs) =
      ⟨Lexeme.token pos ⟨text, kind, [], rest⟩ ++ (ofChars (pos + utf8Length text) rest).tokens,
        (ofChars (pos + utf8Length text) rest).problems⟩ := by
  rw [ofChars, h]
  rfl

/-- A text is read without problems exactly when it gives some tokens, and then these are read. -/
theorem ofChars_eq_iff {pos : Nat} {cs : List Char} {ts : List Token} :
    ofChars pos cs = ⟨ts, []⟩ ↔ Tokenizes pos cs ts := by
  constructor
  · intro h
    have htokens := tokenizes_ofChars (congrArg problems h)
    rwa [h] at htokens
  · intro h
    induction h with
    | finish => rw [ofChars]
    | @blank pos c cs ts hblank _ ih =>
      have hscan : Lexeme.scan pos c cs = ⟨[c], none, [], cs⟩ := by
        rw [Lexeme.scan, if_pos hblank]
      rw [ofChars_of_scan hscan, ih]
      rfl
    | @comment pos body rest ts hbody hrest _ ih =>
      have hline : ∀ c ∈ body, (c != '\n') = true := by
        intro c hc
        rw [bne_iff_ne]
        rintro rfl
        exact hbody hc
      have hstop : ∀ c ∈ rest.head?, ¬ (c != '\n') = true := by
        intro c hc
        simp [hrest c hc]
      have ⟨htake, hdrop⟩ : (body ++ rest).takeWhile (· != '\n') = body ∧
          (body ++ rest).dropWhile (· != '\n') = rest := span_eq hline hstop
      have hscan : Lexeme.scan pos '#' (body ++ rest) = ⟨'#' :: body, none, [], rest⟩ := by
        show Lexeme.comment '#' (body ++ rest) = _
        rw [Lexeme.comment, htake, hdrop]
      rw [List.cons_append, ofChars_of_scan hscan, ih]
      rfl
    | @token pos text rest kind ts htext hstops _ ih =>
      obtain ⟨c, cs, hcs, hscan⟩ := Lexeme.scan_of_spells htext hstops pos
      rw [hcs, List.cons_append, ofChars_of_scan hscan, ih, ← hcs]
      rfl

end Lexed

/-- A source is accepted exactly with the tokens that it gives. -/
theorem lex_eq_ok_iff {source : String} {ts : List Token} :
    lex source = .ok ts ↔ Tokenizes 0 source.toList ts := by
  constructor
  · exact fun h => Lexed.ofChars_eq_iff.mp (lex_eq_ok h)
  · intro h
    have hlexed : Lexed.ofSource source = ⟨ts, []⟩ := Lexed.ofChars_eq_iff.mpr h
    rw [lex, hlexed]
    rfl

end DeclLang
