import DeclLang.Token.Lexer
import Mathlib.Algebra.Group.Nat.Defs

/-!
# Spelling: the texts of each kind of token

`Spells` says which texts a token may have, and `Continues` which character may not come right after
one. Nothing in them is about how texts are read. The lexer reads a token off its text and stops
where it has to (`Lexeme.reads_scan`); all else that it reads without a problem is a blank or a
comment (`Lexeme.skips_scan`).
-/

namespace DeclLang

/-! ## Texts -/

/-- Letters, digits and underscores, of which the first is no digit. -/
def IsWord (text : List Char) : Prop :=
  ∃ c cs, text = c :: cs ∧ isIdentStart c = true ∧ ∀ d ∈ cs, isIdentRest d = true

/-- A word, which a `?` or a `!` may follow. -/
def IsIdentifier (text : List Char) : Prop :=
  ∃ letters suffix, text = letters ++ suffix ∧ IsWord letters ∧ suffix ∈ [[], ['?'], ['!']]

/-- A decimal numeral, which may have zeros in front that it does not need. -/
def IsNumeral (digits : List Char) (value : Nat) : Prop :=
  ∃ zeros, digits = List.replicate zeros '0' ++ Nat.toDigits 10 value

/-- The characters between the quotes of a string literal, and those that they stand for. -/
inductive Escapes : List Char → List Char → Prop where
  | nil : Escapes [] []
  | plain {c : Char} {body value : List Char} : c ≠ '"' → c ≠ '\\' → c ≠ '\n' →
      Escapes body value → Escapes (c :: body) (c :: value)
  | lineFeed {body value : List Char} :
      Escapes body value → Escapes ('\\' :: 'n' :: body) ('\n' :: value)
  | tab {body value : List Char} :
      Escapes body value → Escapes ('\\' :: 't' :: body) ('\t' :: value)
  | backslash {body value : List Char} :
      Escapes body value → Escapes ('\\' :: '\\' :: body) ('\\' :: value)
  | quote {body value : List Char} :
      Escapes body value → Escapes ('\\' :: '"' :: body) ('"' :: value)

/-- The texts that a token may have. -/
inductive Spells : List Char → TokenKind → Prop where
  | keyword (k : Keyword) : Spells k.spelling.toList (.keyword k)
  | punctuation (p : Punctuation) : Spells p.spelling.toList (.punctuation p)
  | operator (text : String) : text ≠ "" → (∀ c ∈ text.toList, isOperatorChar c = true) →
      Spells text.toList (.operator text)
  | ident (name : String) : IsIdentifier name.toList → Keyword.ofSpelling? name = none →
      Spells name.toList (.ident name)
  | string {body : List Char} {value : String} : Escapes body value.toList →
      Spells ('"' :: body ++ ['"']) (.string value)
  /-- Underscores group the digits and count for nothing. -/
  | int {c : Char} {cs : List Char} {value : Nat} : c.isDigit = true →
      (∀ d ∈ cs, isIntegerRest d = true) → IsNumeral ((c :: cs).filter (· != '_')) value →
      value < 2 ^ 64 → Spells (c :: cs) (.int value)
  | newline : Spells ['\n'] .newline

/-- Whether a name ends a word, so that more letters would make it another one. -/
def IsUnsuffixed (name : String) : Prop :=
  name.toList.getLast? ≠ some '?' ∧ name.toList.getLast? ≠ some '!'

/-- The characters that would have been read with a token, had they come right after it. -/
def Continues : TokenKind → Char → Prop
  | .keyword _, c => isIdentRest c = true
  | .ident name, c => IsUnsuffixed name ∧ isIdentRest c = true
  | .operator _, c => isOperatorChar c = true
  | .int _, c => isIntegerRest c = true
  | _, _ => False

/-! ## Numerals -/

theorem digitChar_of_isDigit {c : Char} (h : c.isDigit = true) :
    c.toNat - '0'.toNat < 10 ∧ (c.toNat - '0'.toNat).digitChar = c := by
  have hrange := Char.isDigit_iff_toNat.mp h
  have hlow : '0'.toNat = 48 := rfl
  have hhigh : '9'.toNat = 57 := rfl
  have hlt : c.toNat - '0'.toNat < 10 := by omega
  refine ⟨hlt, Char.toNat_inj.mp ?_⟩
  rw [Nat.toNat_digitChar_of_lt_ten hlt]
  omega

theorem IsNumeral.concat {digits : List Char} {value : Nat} (h : IsNumeral digits value) {c : Char}
    (hc : c.isDigit = true) : IsNumeral (digits ++ [c]) (10 * value + (c.toNat - '0'.toNat)) := by
  obtain ⟨zeros, rfl⟩ := h
  obtain ⟨hlt, hchar⟩ := digitChar_of_isDigit hc
  have hdigit := Nat.toDigits_of_lt_base hlt
  rw [hchar] at hdigit
  by_cases hzero : value = 0
  · -- The digit of zero is one more zero in front.
    subst hzero
    refine ⟨zeros + 1, ?_⟩
    rw [Nat.toDigits_zero, Nat.mul_zero, Nat.zero_add, hdigit, List.replicate_succ']
  · refine ⟨zeros, ?_⟩
    rw [← Nat.toDigits_append_toDigits (by decide) (Nat.pos_of_ne_zero hzero) hlt, hdigit,
      List.append_assoc]

/-- Digits are a numeral of the value that they are read as. -/
theorem isNumeral_ofDigitChars {c : Char} {cs : List Char} (hc : c.isDigit = true)
    (hcs : ∀ d ∈ cs, d.isDigit = true) :
    IsNumeral (c :: cs) (Nat.ofDigitChars 10 (c :: cs) 0) := by
  obtain ⟨hlt, hchar⟩ := digitChar_of_isDigit hc
  have hfirst : IsNumeral [c] (Nat.ofDigitChars 10 [c] 0) := by
    refine ⟨0, ?_⟩
    rw [Nat.ofDigitChars_cons, Nat.ofDigitChars_nil, Nat.mul_zero, Nat.zero_add,
      Nat.toDigits_of_lt_base hlt, hchar]
    rfl
  -- On the digits that are left, which go behind those that were read.
  have hrest (read : List Char) (hread : IsNumeral read (Nat.ofDigitChars 10 read 0)) :
      IsNumeral (read ++ cs) (Nat.ofDigitChars 10 (read ++ cs) 0) := by
    induction cs generalizing read with
    | nil => rwa [List.append_nil]
    | cons d ds ih =>
      have hd := hcs d List.mem_cons_self
      have hnext : IsNumeral (read ++ [d]) (Nat.ofDigitChars 10 (read ++ [d]) 0) := by
        rw [Nat.ofDigitChars_append, Nat.ofDigitChars_cons, Nat.ofDigitChars_nil]
        exact hread.concat hd
      have hall := ih (fun e he => hcs e (List.mem_cons_of_mem d he)) (read ++ [d]) hnext
      rwa [List.append_assoc, List.singleton_append] at hall
  exact hrest [c] hfirst

/-! ## String literals -/

theorem escapes_of_unescape? {c v : Char} {body value : List Char} (hc : unescape? c = some v)
    (h : Escapes body value) : Escapes ('\\' :: c :: body) (v :: value) := by
  unfold unescape? at hc
  split at hc
  · rw [← Option.some.inj hc]; exact .lineFeed h
  · rw [← Option.some.inj hc]; exact .tab h
  · rw [← Option.some.inj hc]; exact .backslash h
  · rw [← Option.some.inj hc]; exact .quote h
  · cases hc

/-- A literal that is closed and has no problems stands for its value. -/
theorem StringBody.escapes_scan {pos : Nat} {cs : List Char}
    (hproblems : (StringBody.scan pos cs).problems = [])
    (hclosed : (StringBody.scan pos cs).closed = true) :
    ∃ body, (StringBody.scan pos cs).text = body ++ ['"'] ∧
      Escapes body (StringBody.scan pos cs).value := by
  fun_induction StringBody.scan pos cs with
  | case1 pos c cs width tail v hv ih =>
    obtain ⟨body, htext, hbody⟩ := ih hproblems hclosed
    exact ⟨'\\' :: c :: body, by simp [tail, htext], escapes_of_unescape? hv hbody⟩
  | case2 => simp at hproblems
  | case3 => simp at hclosed
  | case4 => exact ⟨[], rfl, .nil⟩
  | case5 pos c cs hbackslash hfeed hquote tail ih =>
    obtain ⟨body, htext, hbody⟩ := ih hproblems hclosed
    -- A backslash before nothing closes no literal, so this is another character.
    have hplain : c ≠ '\\' := by
      rintro rfl
      cases cs with
      | nil => simp [tail, StringBody.scan] at hclosed
      | cons d ds => exact hbackslash d ds rfl rfl
    exact ⟨c :: body, by simp [tail, htext], .plain hquote hplain hfeed hbody⟩
  | case6 => simp at hclosed

/-! ## Lexemes -/

namespace Lexeme

variable {pos : Nat} {c : Char} {cs : List Char} {kind : TokenKind}

theorem of_mem_takeWhile {p : Char → Bool} {d : Char} (h : d ∈ cs.takeWhile p) : p d = true :=
  List.all_eq_true.mp List.all_takeWhile d h

-- What a run of characters of one class leaves does not start with another one of them.
theorem not_of_head?_dropWhile {p : Char → Bool} {d : Char}
    (h : d ∈ (cs.dropWhile p).head?) : ¬ p d = true := by
  have hnot := List.head?_dropWhile_not p cs
  rw [Option.mem_def.mp h] at hnot
  simpa using hnot

/-- A lexeme that reads a token off its text and stops where it has to. -/
structure Reads (l : Lexeme) (kind : TokenKind) : Prop where
  spells : Spells l.text kind
  stops : ∀ d ∈ l.rest.head?, ¬ Continues kind d

/-! ### Words -/

theorem suffix?_eq_some_iff {s : Char} {after : List Char} :
    suffix? cs = some (s, after) ↔
      cs = s :: after ∧ (s = '?' ∨ s = '!') ∧ after.head? ≠ some '=' := by
  cases cs with
  | nil => simp [suffix?]
  | cons d ds =>
    simp only [suffix?, Option.ite_none_right_eq_some, Bool.and_eq_true, Bool.or_eq_true,
      beq_iff_eq, bne_iff_ne, Option.some.injEq, Prod.mk.injEq, List.cons.injEq]
    constructor
    · rintro ⟨⟨hmark, hnext⟩, rfl, rfl⟩
      exact ⟨⟨rfl, rfl⟩, hmark, hnext⟩
    · rintro ⟨⟨rfl, rfl⟩, hmark, hnext⟩
      exact ⟨⟨hmark, hnext⟩, rfl, rfl⟩

/-- No keyword has a suffix. -/
theorem ofSpelling?_of_suffix {letters : List Char} {s : Char} (hs : s = '?' ∨ s = '!') :
    Keyword.ofSpelling? (String.ofList (letters ++ [s])) = none := by
  cases hk : Keyword.ofSpelling? (String.ofList (letters ++ [s])) with
  | none => rfl
  | some k =>
    have hspelling := congrArg String.toList (Keyword.spelling_of_ofSpelling? hk)
    have hlast : k.spelling.toList.getLast? = some s := by
      rw [hspelling, String.toList_ofList, List.getLast?_concat]
    obtain rfl | rfl := hs <;> cases k <;> simp [Keyword.spelling] at hlast

theorem reads_word (hc : isIdentStart c = true) (hkind : (word c cs).kind = some kind) :
    (word c cs).Reads kind := by
  have hletters : IsWord (c :: cs.takeWhile isIdentRest) :=
    ⟨c, _, rfl, hc, fun _ => of_mem_takeWhile⟩
  unfold word at hkind ⊢
  dsimp only at hkind ⊢
  split at hkind
  · rename_i s after hsuffix
    obtain ⟨-, hs, -⟩ := suffix?_eq_some_iff.mp hsuffix
    obtain rfl := Option.some.inj hkind
    -- Nothing more belongs to a name that has its suffix.
    refine ⟨?_, fun d _ hd => ?_⟩
    · have hname := Spells.ident (String.ofList (c :: cs.takeWhile isIdentRest ++ [s]))
        ⟨_, [s], String.toList_ofList, hletters, by obtain rfl | rfl := hs <;> simp⟩
        (ofSpelling?_of_suffix hs)
      rwa [String.toList_ofList] at hname
    · have hlast := hd.1
      rw [IsUnsuffixed, String.toList_ofList, List.getLast?_concat] at hlast
      obtain rfl | rfl := hs
      · exact hlast.1 rfl
      · exact hlast.2 rfl
  · have hstops : ∀ d ∈ (cs.dropWhile isIdentRest).head?, ¬ isIdentRest d = true :=
      fun _ => not_of_head?_dropWhile
    cases hk : Keyword.ofSpelling? (String.ofList (c :: cs.takeWhile isIdentRest)) with
    | none =>
      rw [hk] at hkind
      obtain rfl := Option.some.inj hkind
      refine ⟨?_, fun d hd h => hstops d hd h.2⟩
      have hname := Spells.ident (String.ofList (c :: cs.takeWhile isIdentRest))
        ⟨_, [], by rw [String.toList_ofList, List.append_nil], hletters, by simp⟩ hk
      rwa [String.toList_ofList] at hname
    | some k =>
      rw [hk] at hkind
      obtain rfl := Option.some.inj hkind
      refine ⟨?_, hstops⟩
      have hname := Spells.keyword k
      rwa [Keyword.spelling_of_ofSpelling? hk, String.toList_ofList] at hname

/-! ### Other tokens -/

theorem reads_integer (hc : c.isDigit = true) (hkind : (integer pos c cs).kind = some kind) :
    (integer pos c cs).Reads kind := by
  unfold integer at hkind ⊢
  dsimp only at hkind ⊢
  split at hkind
  · rename_i hlimit
    obtain rfl := Option.some.inj hkind
    rw [if_pos hlimit]
    refine ⟨.int hc (fun _ => of_mem_takeWhile) ?_ hlimit, fun _ => not_of_head?_dropWhile⟩
    -- The first character is kept, so there is a digit; the others are digits once no underscore
    -- is left among them.
    have hfirst : c ≠ '_' := by
      rintro rfl
      exact absurd hc (by decide)
    rw [List.filter_cons_of_pos (by simpa using hfirst)]
    refine isNumeral_ofDigitChars hc fun d hd => ?_
    obtain ⟨hmem, hne⟩ := List.mem_filter.mp hd
    have hrest := of_mem_takeWhile hmem
    simp only [isIntegerRest, Bool.or_eq_true, beq_iff_eq] at hrest
    obtain hdigit | rfl := hrest
    · exact hdigit
    · simp at hne
  · cases hkind

theorem reads_string (hkind : (string pos '"' cs).kind = some kind)
    (hproblems : (string pos '"' cs).problems = []) : (string pos '"' cs).Reads kind := by
  unfold string at hkind hproblems ⊢
  dsimp only at hkind hproblems ⊢
  split at hkind
  · rename_i hclosed
    rw [if_pos hclosed] at hproblems ⊢
    obtain rfl := Option.some.inj hkind
    obtain ⟨body, htext, hbody⟩ := StringBody.escapes_scan hproblems hclosed
    refine ⟨?_, fun _ _ h => h⟩
    dsimp only
    rw [htext]
    exact .string (by rwa [String.toList_ofList])
  · cases hkind

theorem reads_operator (hc : isOperatorChar c = true) (hkind : (operator c cs).kind = some kind) :
    (operator c cs).Reads kind := by
  obtain rfl := Option.some.inj hkind
  refine ⟨?_, fun _ => not_of_head?_dropWhile⟩
  have htext := Spells.operator (String.ofList (c :: cs.takeWhile isOperatorChar))
    (by simp) (by
      intro d hd
      rw [String.toList_ofList] at hd
      obtain rfl | hd := List.mem_cons.mp hd
      · exact hc
      · exact of_mem_takeWhile hd)
  rwa [String.toList_ofList] at htext

theorem reads_mark (hkind : (mark pos c cs).kind = some kind) : (mark pos c cs).Reads kind := by
  unfold mark at hkind ⊢
  cases hp : Punctuation.ofChar? c with
  | none =>
    rw [hp] at hkind
    cases hkind
  | some p =>
    rw [hp] at hkind
    obtain rfl := Option.some.inj hkind
    refine ⟨?_, fun _ _ h => h⟩
    have htext := Spells.punctuation p
    rwa [Punctuation.spelling, Punctuation.char_of_ofChar? hp, String.toList_singleton] at htext

/-- A token is what its text spells, and nothing that comes after the text belongs to it. -/
theorem reads_scan (hkind : (scan pos c cs).kind = some kind)
    (hproblems : (scan pos c cs).problems = []) : (scan pos c cs).Reads kind := by
  revert hkind hproblems
  unfold scan
  split
  · intro hkind
    cases hkind
  split
  · rename_i hfeed
    intro hkind _
    subst hfeed
    obtain rfl := Option.some.inj hkind
    exact ⟨.newline, fun _ _ h => h⟩
  split
  · intro hkind
    cases hkind
  split
  · rename_i hquote
    subst hquote
    exact reads_string
  split
  · rename_i hdigit
    exact fun hkind _ => reads_integer hdigit hkind
  split
  · rename_i hstart
    exact fun hkind _ => reads_word hstart hkind
  split
  · rename_i hoperator
    exact fun hkind _ => reads_operator hoperator hkind
  · exact fun hkind _ => reads_mark hkind

/-! ### What is no token -/

/-- A lexeme that is a comment reads up to the end of its line. -/
structure ReadsComment (l : Lexeme) : Prop where
  text : ∃ body, l.text = '#' :: body ∧ '\n' ∉ body
  stops : ∀ d ∈ l.rest.head?, d = '\n'

theorem readsComment_comment : (comment '#' cs).ReadsComment where
  text := by
    refine ⟨cs.takeWhile (· != '\n'), rfl, fun hmem => ?_⟩
    have hne := of_mem_takeWhile hmem
    simp at hne
  stops d hd := by
    have hstop := not_of_head?_dropWhile hd
    simpa using hstop

/-- What is no token and no problem either is a blank or a comment. -/
theorem skips_scan (hkind : (scan pos c cs).kind = none)
    (hproblems : (scan pos c cs).problems = []) :
    isBlank c = true ∧ (scan pos c cs).text = [c] ∧ (scan pos c cs).rest = cs ∨
      (scan pos c cs).ReadsComment := by
  revert hkind hproblems
  unfold scan
  split
  · rename_i hblank
    exact fun _ _ => .inl ⟨hblank, rfl, rfl⟩
  split
  · intro hkind
    cases hkind
  split
  · rename_i hhash
    subst hhash
    exact fun _ _ => .inr readsComment_comment
  split
  · unfold string
    dsimp only
    split <;> simp
  split
  · unfold integer
    dsimp only
    split <;> simp
  split
  · unfold word
    dsimp only
    split <;> simp
  split
  · simp [operator]
  · unfold mark
    split <;> simp

end Lexeme

end DeclLang
