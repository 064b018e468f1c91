import DeclLang.Proofs.Token.Printing

/-!
# The canonical text of tokens

A token has many spellings, one of which is canonical: integers are written without underscores and
zeros in front, and of the characters of a string only those are escaped that have to be. Tokens
that are written so with one blank between any two are read back (`lex_canonicalText`), and those
that can be written are all that the lexer gives. So a text can be replaced by the canonical text of
its tokens.
-/

namespace DeclLang

namespace TokenKind

/-- The tokens that can be written: all but the end of a file, with what the syntax of names,
    operators and integers allows. -/
def IsWritable : TokenKind → Prop
  | .keyword _ | .punctuation _ | .string _ | .newline => True
  | .operator text => text ≠ "" ∧ ∀ c ∈ text.toList, isOperatorChar c = true
  | .ident name => IsIdentifier name.toList ∧ ∀ k : Keyword, k.spelling ≠ name
  | .int value => value < 2 ^ 64
  | .eof => False

/-- How a character is written in a string literal. -/
def escaped : Char → List Char
  | '\n' => ['\\', 'n']
  | '\t' => ['\\', 't']
  | '\\' => ['\\', '\\']
  | '"' => ['\\', '"']
  | c => [c]

/-- The spelling of a token that is used when it is written. -/
def canonical : TokenKind → String
  | .keyword k => k.spelling
  | .punctuation p => p.spelling
  | .operator text => text
  | .ident name => name
  | .string value => String.ofList ('"' :: value.toList.flatMap escaped ++ ['"'])
  | .int value => toString value
  | .newline => "\n"
  | .eof => ""

end TokenKind

/-- A text of the tokens, with one blank between any two. -/
def canonicalText (kinds : List TokenKind) : String :=
  " ".intercalate (kinds.map (·.canonical))

/-! ## One token -/

theorem escapes_flatMap_escaped (value : List Char) :
    Escapes (value.flatMap TokenKind.escaped) value := by
  induction value with
  | nil => exact .nil
  | cons c cs ih =>
    rw [List.flatMap_cons]
    unfold TokenKind.escaped
    split
    · exact .lineFeed ih
    · exact .tab ih
    · exact .backslash ih
    · exact .quote ih
    · rename_i hfeed _ hbackslash hquote
      exact .plain hquote hbackslash hfeed ih

/-- The decimal digits of a value are a text of it. -/
theorem spells_int {value : Nat} (h : value < 2 ^ 64) :
    Spells (toString value).toList (.int value) := by
  have htext : (toString value).toList = Nat.toDigits 10 value := Nat.toList_repr
  have hdigits : ∀ c ∈ Nat.toDigits 10 value, c.isDigit = true :=
    fun c hc => Nat.isDigit_of_mem_toDigits (by decide) (by decide) hc
  have hne : Nat.toDigits 10 value ≠ [] := Nat.toDigits_ne_nil
  obtain ⟨c, cs, hcons⟩ := List.exists_cons_of_ne_nil hne
  have hfilter : (c :: cs).filter (· != '_') = Nat.toDigits 10 value := by
    rw [hcons] at hdigits ⊢
    refine List.filter_eq_self.mpr fun d hd => bne_iff_ne.mpr ?_
    rintro rfl
    exact absurd (hdigits '_' hd) (by decide)
  rw [htext, hcons]
  rw [hcons] at hdigits
  obtain ⟨hc, hcs⟩ := List.forall_mem_cons.mp hdigits
  refine .int hc (fun d hd => isIntegerRest_of_isDigit (hcs d hd)) ?_ h
  rw [hfilter]
  exact ⟨0, rfl⟩

theorem spells_canonical {kind : TokenKind} (h : kind.IsWritable) :
    Spells kind.canonical.toList kind := by
  cases kind with
  | keyword k => exact .keyword k
  | punctuation p => exact .punctuation p
  | operator text => exact .operator text h.1 h.2
  | ident name =>
    refine .ident name h.1 ?_
    cases hk : Keyword.ofSpelling? name with
    | none => rfl
    | some k => exact absurd (Keyword.spelling_of_ofSpelling? hk) (h.2 k)
  | string value =>
    have htext := Spells.string (escapes_flatMap_escaped value.toList)
    rwa [TokenKind.canonical, String.toList_ofList]
  | int value => exact spells_int h
  | newline => exact .newline
  | eof => exact h.elim

theorem Spells.isWritable {text : List Char} {kind : TokenKind} (h : Spells text kind) :
    kind.IsWritable := by
  cases h with
  | keyword | punctuation | string | newline => trivial
  | operator _ hne hall => exact ⟨hne, hall⟩
  | ident name hname hkeyword =>
    refine ⟨hname, fun k hk => ?_⟩
    rw [Keyword.ofSpelling?_eq_some_iff.mpr hk] at hkeyword
    cases hkeyword
  | int _ _ _ hlimit => exact hlimit

/-! ## Whole texts -/

/-- Blanks between tokens are enough to tell them apart. -/
theorem prints_canonicalText {kinds : List TokenKind} (h : ∀ kind ∈ kinds, kind.IsWritable) :
    Prints (canonicalText kinds).toList fun ts => ts.map (·.value) = kinds := by
  induction kinds with
  | nil => exact .nil rfl
  | cons kind kinds ih =>
    obtain ⟨hkind, hkinds⟩ := List.forall_mem_cons.mp h
    have hfirst : Prints kind.canonical.toList fun ts => ts.map (·.value) = [kind] :=
      .token (spells_canonical hkind) fun _ => rfl
    cases kinds with
    | nil =>
      have htext : canonicalText [kind] = kind.canonical := String.intercalate_singleton
      rwa [htext]
    | cons next kinds =>
      have htext : (canonicalText (kind :: next :: kinds)).toList =
          kind.canonical.toList ++ ' ' :: (canonicalText (next :: kinds)).toList := by
        have hcons : canonicalText (kind :: next :: kinds) =
            kind.canonical ++ " " ++ canonicalText (next :: kinds) :=
          String.intercalate_cons_cons
        rw [hcons, String.toList_append, String.toList_append, List.append_assoc]
        rfl
      rw [htext]
      refine hfirst.append (ih hkinds).blank (breaks_blank _) fun us vs hus hvs => ?_
      rw [List.map_append, hus, hvs]
      rfl

/-- What is read of a text can be written, but for the end. -/
theorem Tokenizes.exists_writable {pos : Nat} {cs : List Char} {ts : List Token}
    (h : Tokenizes pos cs ts) :
    ∃ kinds, ts.map (·.value) = kinds ++ [.eof] ∧ ∀ kind ∈ kinds, kind.IsWritable := by
  induction h with
  | finish => exact ⟨[], rfl, List.forall_mem_nil _⟩
  | blank _ _ ih => exact ih
  | comment _ _ _ ih => exact ih
  | @token pos text rest kind ts hspells _ _ ih =>
    obtain ⟨kinds, hkinds, hwritable⟩ := ih
    refine ⟨kind :: kinds, ?_, List.forall_mem_cons.mpr ⟨hspells.isWritable, hwritable⟩⟩
    rw [List.map_cons, hkinds]
    rfl

theorem exists_lex_canonicalText {kinds : List TokenKind}
    (h : ∀ kind ∈ kinds, kind.IsWritable) :
    ∃ ts, lex (canonicalText kinds) = .ok ts ∧ ts.map (·.value) = kinds ++ [.eof] := by
  obtain ⟨us, hus, htext⟩ := (prints_canonicalText h).tokenizes
  refine ⟨_, lex_eq_ok_iff.mpr htext, ?_⟩
  rw [List.map_append, hus]
  rfl

/-- Reading undoes writing: tokens that can be written are read off their canonical text. And what
    is read of any text can be written, so the canonical text of its tokens has the same ones. -/
theorem lex_canonicalText :
    (∀ kinds : List TokenKind, (∀ kind ∈ kinds, kind.IsWritable) →
      ∃ ts, lex (canonicalText kinds) = .ok ts ∧ ts.map (·.value) = kinds ++ [.eof]) ∧
    ∀ (source : String) (ts : List Token), lex source = .ok ts →
      ∃ kinds, ts.map (·.value) = kinds ++ [.eof] ∧ (∀ kind ∈ kinds, kind.IsWritable) ∧
        ∃ us, lex (canonicalText kinds) = .ok us ∧ us.map (·.value) = ts.map (·.value) := by
  refine ⟨fun kinds h => exists_lex_canonicalText h, fun source ts h => ?_⟩
  obtain ⟨kinds, hkinds, hwritable⟩ := (lex_eq_ok_iff.mp h).exists_writable
  rw [hkinds]
  exact ⟨kinds, rfl, hwritable, exists_lex_canonicalText hwritable⟩

/-- Suffixes before operators, a reserved word with a suffix, characters that are escaped and some
    that need not be, and the largest integer; then a text that is not canonical. -/
theorem lex_canonicalText_suffixes :
    let kinds : List TokenKind :=
      [.ident "class?", .operator "!=", .keyword .classBlock, .operator "!", .newline,
        .string "\x00\r\n\t\\\"#", .int 18446744073709551615, .ident "_a!"]
    let text := "class? != class ! \n \"\x00\r\\n\\t\\\\\\\"#\" 18446744073709551615 _a!"
    let source := "a!= \"\\\\n\"# b\n007,1_0"
    (canonicalText kinds = text ∧ (∀ kind ∈ kinds, kind.IsWritable) ∧
        ∃ ts, lex text = .ok ts ∧ ts.map (·.value) = kinds ++ [.eof]) ∧
      ∃ ts us, lex source = .ok ts ∧ lex "a != \"\\\\n\" \n 7 , 10" = .ok us ∧
        us.map (·.value) = ts.map (·.value) := by
  intro kinds text source
  have hletters : IsWord "class".toList ∧ IsWord "_a".toList :=
    ⟨⟨'c', "lass".toList, rfl, rfl, forall_mem_of_all (by decide)⟩,
      ⟨'_', ['a'], rfl, rfl, forall_mem_of_all (by decide)⟩⟩
  have hnames : (TokenKind.ident "class?").IsWritable ∧ (TokenKind.ident "_a!").IsWritable := by
    refine ⟨⟨⟨_, ['?'], rfl, hletters.1, by simp⟩, fun k => ?_⟩,
      ⟨_, ['!'], rfl, hletters.2, by simp⟩, fun k => ?_⟩
    · cases k <;> decide
    · cases k <;> decide
  have hoperators : (TokenKind.operator "!=").IsWritable ∧ (TokenKind.operator "!").IsWritable :=
    ⟨⟨by decide, forall_mem_of_all (by decide)⟩, by decide, forall_mem_of_all (by decide)⟩
  have hlimit : (TokenKind.int 18446744073709551615).IsWritable := by
    show 18446744073709551615 < 2 ^ 64
    decide
  have hwritable : ∀ kind ∈ kinds, kind.IsWritable := by
    simp only [kinds, List.forall_mem_cons]
    exact ⟨hnames.1, hoperators.1, trivial, hoperators.2, trivial, trivial, hlimit, hnames.2,
      List.forall_mem_nil _⟩
  have htext : canonicalText kinds = text := by decide +kernel
  have hread := lex_canonicalText.1 kinds hwritable
  rw [htext] at hread
  refine ⟨⟨htext, hwritable, hread⟩, ?_⟩
  have hlexed : ∃ ts, lex source = .ok ts ∧ ts.map (·.value) =
      [.ident "a", .operator "!=", .string "\\n", .newline, .int 7, .punctuation .comma, .int 10,
        .eof] := by
    have hproblems : (Lexed.ofSource source).problems = [] := by decide +kernel
    exact ⟨_, lex_of_problems hproblems, by decide +kernel⟩
  obtain ⟨ts, hts, hvalues⟩ := hlexed
  obtain ⟨found, hfound, -, us, hus, hsame⟩ := lex_canonicalText.2 source ts hts
  have hkinds : found = [.ident "a", .operator "!=", .string "\\n", .newline, .int 7,
      .punctuation .comma, .int 10] := by
    refine List.append_cancel_right (hfound.symm.trans (hvalues.trans ?_))
    rfl
  have hcanonical : canonicalText found = "a != \"\\\\n\" \n 7 , 10" := by
    rw [hkinds]
    decide +kernel
  rw [hcanonical] at hus
  exact ⟨ts, us, hts, hus, hsame⟩

end DeclLang
