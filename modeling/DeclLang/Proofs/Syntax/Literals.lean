import DeclLang.Proofs.Syntax.Files
import DeclLang.Proofs.Token.Lossless

/-!
# Literals: the strings in a declaration file

The grammar has a place for a string in the header of a library and nowhere else. So the libraries
that a program names are the string literals of its text, one for one and in the same order
(`Program.libnames_of_ofSource`).
-/

namespace DeclLang

/-- The library that a declaration is linked against, if it names one. -/
def Declaration.libname? : Declaration → Option (Located String)
  | .libBlock _ libname _ => libname
  | .classBlock .. | .moduleBlock .. | .primitive .. | .method _ | .inclusion _ => none

/-- The libraries that a program names, in the order of its text. -/
def Program.libnames (p : Program) : List (Located String) :=
  p.filterMap (·.value.libname?)

/-! ## Literals among tokens -/

def stringLiteral? (t : Token) : Option (Located String) :=
  (stringValue? t).map fun value => ⟨value, t.span⟩

/-- The string literals among some tokens. -/
def stringLiterals (ts : List Token) : List (Located String) :=
  ts.filterMap stringLiteral?

@[simp] theorem stringLiterals_nil : stringLiterals [] = [] := rfl

@[simp] theorem stringLiterals_cons (t : Token) (ts : List Token) :
    stringLiterals (t :: ts) = (stringLiteral? t).toList ++ stringLiterals ts := by
  rw [stringLiterals, List.filterMap_cons]
  cases stringLiteral? t <;> rfl

@[simp] theorem stringLiterals_append (ts us : List Token) :
    stringLiterals (ts ++ us) = stringLiterals ts ++ stringLiterals us :=
  List.filterMap_append

@[simp] theorem stringLiteral?_string (value : String) (span : Span) :
    stringLiteral? ⟨.string value, span⟩ = some ⟨value, span⟩ := rfl

@[simp] theorem stringLiteral?_of_ne {kind : TokenKind} (h : ∀ value, kind ≠ .string value)
    (span : Span) : stringLiteral? ⟨kind, span⟩ = none := by
  cases kind with
  | string value => exact absurd rfl (h value)
  | _ => rfl

/-! ## Phrases -/

variable {ts rest : List Token}

theorem SpellsTypeName.literals {name : Ident} (h : SpellsTypeName ts name) :
    stringLiterals ts = [] := by
  cases h with
  | ident => simp

theorem SpellsType.literals {t : TypeExpr} (h : SpellsType ts t) : stringLiterals ts = [] := by
  induction h with
  | named hname => exact hname.literals
  | generic hbase _ ih => simp [hbase.literals, ih]

theorem SpellsParameter.literals {p : Parameter} (h : SpellsParameter ts p) :
    stringLiterals ts = [] := by
  cases h with
  | typed htype => simp [htype.literals]

theorem SpellsParameters.literals {ps : List Parameter} (h : SpellsParameters ts ps) :
    stringLiterals ts = [] := by
  induction h with
  | last hp => exact hp.literals
  | more hp _ ih => simp [hp.literals, ih]

theorem SpellsParameterList.literals {ps : List Parameter} (h : SpellsParameterList ts ps) :
    stringLiterals ts = [] := by
  cases h with
  | absent => rfl
  | empty => simp
  | parameters h => simp [h.literals]

theorem SpellsReturn.literals {t : Option TypeExpr} (h : SpellsReturn ts t) :
    stringLiterals ts = [] := by
  cases h with
  | absent => rfl
  | type h => simp [h.literals]

theorem SpellsMethodName.literals {name : Ident} (h : SpellsMethodName ts name) :
    stringLiterals ts = [] := by
  cases h <;> simp

theorem SpellsFunctionName.literals {name : Ident} (h : SpellsFunctionName ts name) :
    stringLiterals ts = [] := by
  cases h
  simp

theorem SpellsSignature.literals {k : Keyword} {SpellsName : List Token → Ident → Prop}
    {m : MethodDecl} (h : SpellsSignature k SpellsName ts m)
    (hname : ∀ ns name, SpellsName ns name → stringLiterals ns = []) : stringLiterals ts = [] := by
  cases h with
  | intro hn hps hrs => simp [hname _ _ hn, hps.literals, hrs.literals]

theorem SpellsInclusion.literals {module : Ident} (h : SpellsInclusion ts module) :
    stringLiterals ts = [] := by
  cases h with
  | intro hname => simp [hname.literals]

theorem SpellsMember.literals {m : Member} (h : SpellsMember ts m) : stringLiterals ts = [] := by
  cases h with
  | method h => exact h.literals fun _ _ => SpellsMethodName.literals
  | inclusion h => exact h.literals

theorem SpellsClassHeader.literals {x : Ident × Option Ident} (h : SpellsClassHeader ts x) :
    stringLiterals ts = [] := by
  cases h with
  | root hname => simp [hname.literals]
  | inheriting hname hsuper => simp [hname.literals, hsuper.literals]

theorem SpellsModuleHeader.literals {name : Ident} (h : SpellsModuleHeader ts name) :
    stringLiterals ts = [] := by
  cases h with
  | intro hname => simp [hname.literals]

/-- The one phrase that has a place for a string. -/
theorem SpellsLibHeader.literals {x : Ident × Option (Located String)} (h : SpellsLibHeader ts x) :
    stringLiterals ts = x.2.toList := by
  cases h with
  | unlinked hname => simp [hname.literals]
  | linked hname => simp [hname.literals]

theorem SpellsPrimitive.literals {d : Declaration} (h : SpellsPrimitive ts d) :
    stringLiterals ts = d.libname?.toList := by
  cases h with
  | intro hname hsuper _ => simp [hname.literals, hsuper.literals, Declaration.libname?]

/-! ## Blocks and files -/

theorem EndsLine.literals {ending : List Token} (h : EndsLine ending rest) :
    stringLiterals ending = [] := by
  cases h <;> simp

theorem SpellsBody.literals {α : Type} {SpellsItem : List Token → α → Prop}
    {items : List (Located α)} (h : SpellsBody SpellsItem ts rest items)
    (hitem : ∀ ts a, SpellsItem ts a → stringLiterals ts = []) : stringLiterals ts = [] := by
  induction h with
  | nil => rfl
  | blank _ ih => simp [ih]
  | item hspells hending _ ih => simp [hitem _ _ hspells, hending.literals, ih]

/-- A block has the literals of its header. -/
theorem SpellsBlock.literals {α β : Type} {SpellsHeader : List Token → β → Prop}
    {SpellsItem : List Token → α → Prop} {b : β} {items : List (Located α)}
    {literals : List (Located String)} (h : SpellsBlock SpellsHeader SpellsItem ts rest b items)
    (hheader : ∀ ts, SpellsHeader ts b → stringLiterals ts = literals)
    (hitem : ∀ ts a, SpellsItem ts a → stringLiterals ts = []) :
    stringLiterals ts = literals := by
  cases h with
  | intro hspells hending hbody hending' =>
    simp [hheader _ hspells, hending.literals, hbody.literals hitem, hending'.literals]

theorem SpellsDeclaration.literals {d : Declaration} (h : SpellsDeclaration ts rest d) :
    stringLiterals ts = d.libname?.toList := by
  have hfunction (ts : List Token) (m : MethodDecl) (h : SpellsFunction ts m) :
      stringLiterals ts = [] := h.literals fun _ _ => SpellsFunctionName.literals
  cases h with
  | classBlock h =>
    exact h.literals (fun _ => SpellsClassHeader.literals) fun _ _ => SpellsMember.literals
  | moduleBlock h =>
    exact h.literals (fun _ => SpellsModuleHeader.literals) fun _ _ => SpellsMember.literals
  | libBlock h => exact h.literals (fun _ => SpellsLibHeader.literals) hfunction
  | primitive h hending => simp [h.literals, hending.literals]
  | method h hending =>
    simp [h.literals fun _ _ => SpellsMethodName.literals, hending.literals, Declaration.libname?]
  | inclusion h hending => simp [h.literals, hending.literals, Declaration.libname?]

/-- The strings of a file are the libraries that it names. -/
theorem SpellsProgram.literals {p : Program} (h : SpellsProgram ts p) :
    stringLiterals ts = p.libnames := by
  induction h with
  | nil => rfl
  | blank _ ih => simp [ih]
  | @declaration ts rest d p hd _ ih =>
    rw [stringLiterals_append, hd.literals, ih, Program.libnames, Program.libnames,
      List.filterMap_cons]
    cases d.libname? <;> rfl

/-! ## Programs that are read from a text -/

/-- A literal stands in a text: quotes, and between them characters that mean its value. -/
def Quotes (source : String) (literal : Located String) : Prop :=
  ∃ body, Escapes body literal.value.toList ∧
    literal.span.Covers source.toList ('"' :: body ++ ['"'])

theorem mem_stringLiterals {literal : Located String} :
    literal ∈ stringLiterals ts ↔ ⟨.string literal.value, literal.span⟩ ∈ ts := by
  rw [stringLiterals, List.mem_filterMap]
  constructor
  · rintro ⟨⟨kind, span⟩, ht, hliteral⟩
    obtain ⟨value, hvalue, rfl⟩ := Option.map_eq_some_iff.mp hliteral
    obtain rfl : kind = .string value := stringValue?_eq_some.mp hvalue
    exact ht
  · exact fun ht => ⟨_, ht, rfl⟩

theorem quotes_of_lex {source : String} {tokens : List Token} (h : lex source = .ok tokens) :
    ∀ literal ∈ stringLiterals tokens, Quotes source literal := by
  intro literal hliteral
  have ht := mem_stringLiterals.mp hliteral
  obtain ⟨text, hcovers, hspells⟩ := (laidOut_of_lex h).spelled [] rfl _ ht (by simp)
  generalize hvalue : literal.value = value at hspells
  cases hspells with
  | string hescapes => exact ⟨_, hvalue ▸ hescapes, hcovers⟩

theorem ordered_of_lex {source : String} {tokens : List Token} (h : lex source = .ok tokens) :
    (stringLiterals tokens).Pairwise fun first next => first.span.stop ≤ next.span.start := by
  refine List.Pairwise.filterMap stringLiteral? (fun t u hle first hfirst next hnext => ?_)
    (laidOut_of_lex h).ordered
  obtain ⟨-, -, rfl⟩ := Option.map_eq_some_iff.mp hfirst
  obtain ⟨-, -, rfl⟩ := Option.map_eq_some_iff.mp hnext
  exact hle

/-- The tokens of a text after the end of the file would be left out, but there are none. -/
theorem stringLiterals_of_lex {source : String} {tokens : List Token}
    (h : lex source = .ok tokens) :
    stringLiterals (tokens.takeWhile (·.value ≠ .eof)) = stringLiterals tokens := by
  obtain ⟨body, rfl, hbody⟩ := (laidOut_of_lex h).ends
  rw [List.takeWhile_append_of_pos fun t ht => by simpa using hbody t ht]
  simp

/-- The libraries that a program names are the string literals of its text, in order. -/
theorem Program.libnames_of_ofSource {source : String} {p : Program}
    (h : Program.ofSource source = .ok p) :
    ∃ tokens, lex source = .ok tokens ∧ p.libnames = stringLiterals tokens ∧
      (∀ literal ∈ p.libnames, Quotes source literal) ∧
      p.libnames.Pairwise fun first next => first.span.stop ≤ next.span.start := by
  obtain ⟨tokens, hlex, htokens⟩ := ofSource_eq_ok h
  have hliterals : p.libnames = stringLiterals tokens := by
    rw [← (spells_of_ofTokens htokens).literals, stringLiterals_of_lex hlex]
  exact ⟨tokens, hlex, hliterals, hliterals ▸ quotes_of_lex hlex, hliterals ▸ ordered_of_lex hlex⟩

end DeclLang
