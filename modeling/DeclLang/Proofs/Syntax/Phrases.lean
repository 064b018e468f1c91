import DeclLang.Proofs.Syntax.Grammar
import DeclLang.Syntax.Program

/-!
# Phrases: the parsers of a line read what the grammar derives

Each parser of a part of a line is sound: the tokens that it reads spell what it returns. And it is
complete: it reads a phrase that is followed by nothing that could belong to it.
-/

namespace DeclLang

namespace LineParser

variable {α β : Type}

/-! ## Single tokens -/

/-- The kind of the next token, if there is one. -/
def next? (ts : List Token) : Option TokenKind :=
  ts.head?.map (·.value)

@[simp] theorem next?_nil : next? [] = none := rfl

@[simp] theorem next?_cons (t : Token) (ts : List Token) : next? (t :: ts) = some t.value := rfl

-- For completeness: a parser in front is run by giving what it reads and what it leaves.
theorem bind_eq {p : LineParser α} {stop : Token} {ts mid : List Token} {a : α}
    (h : p stop ts = .ok (a, mid)) (f : α → LineParser β) :
    (p >>= f) stop ts = f a stop mid := by
  simp only [bind, h]

theorem pure_eq_ok {a b : α} {stop : Token} {ts rest : List Token} :
    (pure a : LineParser α) stop ts = .ok (b, rest) ↔ a = b ∧ ts = rest := by
  simp [pure]

theorem expect_cons {problem : TokenKind → SyntaxProblem} {f : Token → Option α} {t : Token} {a : α}
    (h : f t = some a) (stop : Token) (rest : List Token) :
    expect problem f stop (t :: rest) = .ok (⟨a, t.span⟩, rest) := by
  simp [expect, bind, accept?, h, pure]

theorem accept?_cons {f : Token → Option α} {t : Token} {a : α} (h : f t = some a) (stop : Token)
    (rest : List Token) : accept? f stop (t :: rest) = .ok (some ⟨a, t.span⟩, rest) := by
  simp [accept?, h]

theorem accept?_eq_none {f : Token → Option α} {stop : Token} {ts rest : List Token}
    (h : accept? f stop ts = .ok (none, rest)) : ts = rest := by
  cases ts with
  | nil => simpa [accept?] using h
  | cons t ts =>
    simp only [accept?] at h
    split at h <;> simp_all

/-- A token that is not accepted is left where it is. -/
theorem accept?_of_forall_none {f : Token → Option α} {ts : List Token}
    (h : ∀ t ∈ ts.head?, f t = none) (stop : Token) : accept? f stop ts = .ok (none, ts) := by
  cases ts with
  | nil => rfl
  | cons t ts => simp [accept?, h t rfl]

theorem exactly_eq_some {kind : TokenKind} {t : Token} {u : Unit} :
    exactly kind t = some u ↔ t.value = kind := by
  simp [exactly]

theorem exactly_eq_none {kind : TokenKind} {t : Token} :
    exactly kind t = none ↔ t.value ≠ kind := by
  simp [exactly]

theorem identName?_eq_some {t : Token} {name : String} :
    identName? t = some name ↔ t.value = .ident name := by
  unfold identName?
  split <;> simp_all

theorem expect_exactly_eq_ok {problem : TokenKind → SyntaxProblem} {kind : TokenKind} {stop : Token}
    {ts rest : List Token} {u : Located Unit} :
    expect problem (exactly kind) stop ts = .ok (u, rest) ↔ ts = ⟨kind, u.span⟩ :: rest := by
  constructor
  · intro h
    rcases expect_eq_ok h with ⟨t, rfl, hkind, hspan⟩
    rw [exactly_eq_some] at hkind
    rw [hspan, ← hkind]
  · rintro rfl
    exact expect_cons (exactly_eq_some.mpr rfl) stop rest

theorem keyword_eq_ok {k : Keyword} {stop : Token} {ts rest : List Token} {u : Located Unit} :
    keyword k stop ts = .ok (u, rest) ↔ ts = ⟨.keyword k, u.span⟩ :: rest :=
  expect_exactly_eq_ok

theorem punctuation_eq_ok {p : Punctuation} {stop : Token} {ts rest : List Token}
    {u : Located Unit} :
    punctuation p stop ts = .ok (u, rest) ↔ ts = ⟨.punctuation p, u.span⟩ :: rest :=
  expect_exactly_eq_ok

theorem ident_eq_ok {expected : Expected} {stop : Token} {ts rest : List Token} {name : Ident} :
    ident expected stop ts = .ok (name, rest) ↔ ts = ⟨.ident name.value, name.span⟩ :: rest := by
  constructor
  · intro h
    rcases expect_eq_ok h with ⟨t, rfl, hkind, hspan⟩
    rw [identName?_eq_some] at hkind
    rw [hspan, ← hkind]
  · rintro rfl
    exact expect_cons (identName?_eq_some.mpr rfl) stop rest

theorem keyword_cons (k : Keyword) (stop : Token) (span : Span) (rest : List Token) :
    keyword k stop (⟨.keyword k, span⟩ :: rest) = .ok (⟨(), span⟩, rest) :=
  keyword_eq_ok.mpr rfl

theorem punctuation_cons (p : Punctuation) (stop : Token) (span : Span) (rest : List Token) :
    punctuation p stop (⟨.punctuation p, span⟩ :: rest) = .ok (⟨(), span⟩, rest) :=
  punctuation_eq_ok.mpr rfl

theorem ident_cons (expected : Expected) (stop : Token) (name : String) (span : Span)
    (rest : List Token) :
    ident expected stop (⟨.ident name, span⟩ :: rest) = .ok (⟨name, span⟩, rest) :=
  ident_eq_ok.mpr rfl

theorem accept?_exactly_cons (kind : TokenKind) (stop : Token) (span : Span)
    (rest : List Token) :
    accept? (exactly kind) stop (⟨kind, span⟩ :: rest) = .ok (some ⟨(), span⟩, rest) :=
  accept?_cons (exactly_eq_some.mpr rfl) stop rest

theorem accept?_exactly_of_ne {kind : TokenKind} {ts : List Token} (h : next? ts ≠ some kind)
    (stop : Token) : accept? (exactly kind) stop ts = .ok (none, ts) := by
  refine accept?_of_forall_none (fun t ht => exactly_eq_none.mpr fun hkind => h ?_) stop
  rw [next?, ht, Option.map_some, hkind]

theorem punctuation?_cons (p : Punctuation) (stop : Token) (span : Span) (rest : List Token) :
    punctuation? p stop (⟨.punctuation p, span⟩ :: rest) = .ok (some ⟨(), span⟩, rest) :=
  accept?_exactly_cons (.punctuation p) stop span rest

theorem punctuation?_of_ne {p : Punctuation} {ts : List Token}
    (h : next? ts ≠ some (.punctuation p)) (stop : Token) :
    punctuation? p stop ts = .ok (none, ts) :=
  accept?_exactly_of_ne h stop

theorem accept?_exactly_eq_some {kind : TokenKind} {stop : Token} {ts rest : List Token}
    {u : Located Unit} (h : accept? (exactly kind) stop ts = .ok (some u, rest)) :
    ts = ⟨kind, u.span⟩ :: rest := by
  rcases accept?_eq_some h with ⟨t, rfl, hkind, hspan⟩
  rw [exactly_eq_some] at hkind
  rw [hspan, ← hkind]

end LineParser

open LineParser

/-! ## Types -/

theorem isTypeName_iff {name : String} :
    isTypeName name = true ↔ ∃ c cs, name.toList = c :: cs ∧ 'A' ≤ c ∧ c ≤ 'Z' := by
  unfold isTypeName
  cases name.toList with
  | nil => simp
  | cons c cs =>
    have hupper : c.isUpper = true ↔ 'A' ≤ c ∧ c ≤ 'Z' := decide_eq_true_iff
    simp [hupper]

theorem parseTypeName_sound {stop : Token} {ts rest : List Token} {name : Ident}
    (h : parseTypeName stop ts = .ok (name, rest)) :
    ∃ used, ts = used ++ rest ∧ SpellsTypeName used name := by
  rcases bind_eq_ok h with ⟨found, mid, hident, h⟩
  rw [ident_eq_ok] at hident
  split at h
  · rename_i hupper
    rcases pure_eq_ok.mp h with ⟨rfl, rfl⟩
    rcases isTypeName_iff.mp hupper with ⟨c, cs, hname, hA, hZ⟩
    exact ⟨[⟨.ident found.value, found.span⟩], hident, .ident hname hA hZ⟩
  · simp [failAt] at h

theorem parseTypeName_complete {used : List Token} {name : Ident} (h : SpellsTypeName used name)
    (stop : Token) (rest : List Token) :
    parseTypeName stop (used ++ rest) = .ok (name, rest) := by
  cases h with
  | @ident text c cs span hname hA hZ =>
    have hupper : isTypeName text = true := isTypeName_iff.mpr ⟨c, cs, hname, hA, hZ⟩
    rw [List.singleton_append, parseTypeName, bind_eq (ident_cons .typeName stop text span rest),
      if_pos hupper]
    rfl

theorem parseTypeName_complete_nil {used : List Token} {name : Ident} (h : SpellsTypeName used name)
    (stop : Token) : parseTypeName stop used = .ok (name, []) := by
  have hparse := parseTypeName_complete h stop []
  rwa [List.append_nil] at hparse

-- `parseType` hands over one token at a time, so the name is all of that token.
theorem parseTypeName_singleton {stop t : Token} {rest : List Token} {name : Ident}
    (h : parseTypeName stop [t] = .ok (name, rest)) : SpellsTypeName [t] name := by
  rcases parseTypeName_sound h with ⟨used, hused, hname⟩
  cases hname with
  | ident htext hA hZ =>
    rw [List.singleton_append, List.cons.injEq] at hused
    rw [hused.1]
    exact .ident htext hA hZ

theorem parseType_sound {stop : Token} {ts rest : List Token} {t : TypeExpr}
    (h : parseType stop ts = .ok (t, rest)) : ∃ used, ts = used ++ rest ∧ SpellsType used t := by
  -- Along the calls of the parser; only the case of a bracket has an inner type.
  fun_induction parseType stop ts generalizing t rest with
  | case1 => simp [unexpected, failAtNext] at h
  | case2 => simp at h
  | case3 u name _ hname =>
    simp only [Except.ok.injEq, Prod.mk.injEq] at h
    rcases h with ⟨rfl, rfl⟩
    exact ⟨[u], rfl, .named (parseTypeName_singleton hname)⟩
  | case4 => simp at h
  | case5 u name _ v inner hname hbracket arg after harg ih =>
    rcases ih harg with ⟨used, rfl, hspells⟩
    rcases bind_eq_ok h with ⟨close, mid, hclose, h⟩
    rw [punctuation_eq_ok] at hclose
    rcases pure_eq_ok.mp h with ⟨rfl, rfl⟩
    rcases v with ⟨value, opening⟩
    dsimp only at hbracket
    subst hbracket hclose
    exact ⟨[u] ++ ⟨.punctuation .leftBracket, opening⟩ :: used ++
      [⟨.punctuation .rightBracket, close.span⟩], by simp,
      .generic (parseTypeName_singleton hname) hspells⟩
  | case6 u name _ v inner hname =>
    simp only [Except.ok.injEq, Prod.mk.injEq] at h
    rcases h with ⟨rfl, rfl⟩
    exact ⟨[u], rfl, .named (parseTypeName_singleton hname)⟩

-- A bracket after a type would make it the base of a generic one, so none may follow.
theorem parseType_complete {used : List Token} {t : TypeExpr} (h : SpellsType used t) (stop : Token)
    {rest : List Token} (hrest : next? rest ≠ some (.punctuation .leftBracket)) :
    parseType stop (used ++ rest) = .ok (t, rest) := by
  -- On the derivation; the rest of the inner type starts with the bracket that closes it.
  induction h generalizing rest with
  | @named ts name hname =>
    have hparse := parseTypeName_complete_nil hname stop
    cases hname with
    | ident =>
      rw [List.singleton_append]
      unfold parseType
      rw [hparse]
      cases rest with
      | nil => rfl
      | cons u inner =>
        dsimp only
        rw [if_neg]
        exact fun hu => hrest (by rw [next?_cons, hu])
  | @generic ts inner base arg opening closing hname _ ih =>
    have hparse := parseTypeName_complete_nil hname stop
    have harg : parseType stop (inner ++ ⟨.punctuation .rightBracket, closing⟩ :: rest) =
        .ok (arg, ⟨.punctuation .rightBracket, closing⟩ :: rest) := ih (by simp)
    cases hname with
    | ident =>
      simp only [List.append_assoc, List.cons_append, List.nil_append]
      unfold parseType
      rw [hparse]
      dsimp only
      rw [if_pos rfl, harg]
      dsimp only
      rw [closeGeneric, bind_eq (punctuation_cons .rightBracket stop closing rest)]
      rfl

/-! ## Parameters -/

theorem parseParameter_sound {stop : Token} {ts rest : List Token} {p : Parameter}
    (h : parseParameter stop ts = .ok (p, rest)) :
    ∃ used, ts = used ++ rest ∧ SpellsParameter used p := by
  rcases bind_eq_ok h with ⟨name, mid, hname, h₁⟩
  rcases bind_eq_ok h₁ with ⟨colon, mid', hcolon, h₂⟩
  rcases bind_eq_ok h₂ with ⟨type, mid'', htype, h₃⟩
  rcases pure_eq_ok.mp h₃ with ⟨rfl, rfl⟩
  rcases parseType_sound htype with ⟨used, rfl, hspells⟩
  rw [ident_eq_ok] at hname
  rw [expect_exactly_eq_ok] at hcolon
  subst hname hcolon
  exact ⟨⟨.ident name.value, name.span⟩ :: ⟨.punctuation .colon, colon.span⟩ :: used, by simp,
    .typed hspells⟩

theorem parseParameter_complete {used : List Token} {p : Parameter} (h : SpellsParameter used p)
    (stop : Token) {rest : List Token} (hrest : next? rest ≠ some (.punctuation .leftBracket)) :
    parseParameter stop (used ++ rest) = .ok (p, rest) := by
  cases h with
  | @typed name type ts span colon htype =>
    have hcolon : expect (.missingParameterType name) (exactly (.punctuation .colon)) stop
        (⟨.punctuation .colon, colon⟩ :: (ts ++ rest)) = .ok (⟨(), colon⟩, ts ++ rest) :=
      expect_exactly_eq_ok.mpr rfl
    rw [List.cons_append, List.cons_append, parseParameter,
      bind_eq (ident_cons .parameterName stop name span _), bind_eq hcolon,
      bind_eq (parseType_complete htype stop hrest)]
    rfl

theorem parseParameters_sound {stop : Token} {ts rest : List Token} {ps : List Parameter}
    (h : parseParameters stop ts = .ok (ps, rest)) :
    ∃ used, ts = used ++ rest ∧ SpellsParameters used ps := by
  -- Along the calls of the parser: it goes on after each comma.
  fun_induction parseParameters stop ts generalizing ps rest with
  | case1 => simp at h
  | case2 ts p hp =>
    simp only [Except.ok.injEq, Prod.mk.injEq] at h
    rcases h with ⟨rfl, rfl⟩
    rcases parseParameter_sound hp with ⟨used, rfl, hspells⟩
    exact ⟨used, rfl, .last hspells⟩
  | case3 => simp at h
  | case4 ts p u after hp hcomma ps' rest' hps ih =>
    simp only [Except.ok.injEq, Prod.mk.injEq] at h
    rcases h with ⟨rfl, rfl⟩
    rcases parseParameter_sound hp with ⟨used, rfl, hspells⟩
    rcases ih hps with ⟨used', rfl, hspells'⟩
    rcases u with ⟨value, comma⟩
    dsimp only at hcomma
    subst hcomma
    exact ⟨used ++ ⟨.punctuation .comma, comma⟩ :: used', by simp, .more hspells hspells'⟩
  | case5 ts p u after hp hcomma =>
    simp only [Except.ok.injEq, Prod.mk.injEq] at h
    rcases h with ⟨rfl, rfl⟩
    rcases parseParameter_sound hp with ⟨used, rfl, hspells⟩
    exact ⟨used, rfl, .last hspells⟩

/-- One step of the list, whatever its first parameter comes to. -/
theorem parseParameters_eq (stop : Token) (ts : List Token) :
    parseParameters stop ts =
      match parseParameter stop ts with
      | .error e => .error e
      | .ok (p, []) => .ok ([p], [])
      | .ok (p, u :: after) =>
        if u.value = .punctuation .comma then
          match parseParameters stop after with
          | .error e => .error e
          | .ok (ps, rest) => .ok (p :: ps, rest)
        else .ok ([p], u :: after) := by
  rw [parseParameters]
  split
  all_goals
    rename_i h
    rewrite [h]
    rfl

-- The same by what comes after the first parameter.
theorem parseParameters_of_last {stop : Token} {ts rest : List Token} {p : Parameter}
    (h : parseParameter stop ts = .ok (p, rest)) (hrest : next? rest ≠ some (.punctuation .comma)) :
    parseParameters stop ts = .ok ([p], rest) := by
  rw [parseParameters_eq, h]
  cases rest with
  | nil => rfl
  | cons u after =>
    have hcomma : ¬ u.value = .punctuation .comma := fun hu => hrest (by rw [next?_cons, hu])
    exact if_neg hcomma

theorem parseParameters_of_more {stop : Token} {ts after rest : List Token} {p : Parameter}
    {ps : List Parameter} {comma : Span}
    (h : parseParameter stop ts = .ok (p, ⟨.punctuation .comma, comma⟩ :: after))
    (hmore : parseParameters stop after = .ok (ps, rest)) :
    parseParameters stop ts = .ok (p :: ps, rest) := by
  rw [parseParameters_eq, h]
  dsimp only
  rw [if_pos rfl, hmore]

theorem parseParameters_complete {used : List Token} {ps : List Parameter}
    (h : SpellsParameters used ps) (stop : Token) {rest : List Token}
    (hbracket : next? rest ≠ some (.punctuation .leftBracket))
    (hcomma : next? rest ≠ some (.punctuation .comma)) :
    parseParameters stop (used ++ rest) = .ok (ps, rest) := by
  induction h with
  | last hp => exact parseParameters_of_last (parseParameter_complete hp stop hbracket) hcomma
  | more hp _ ih =>
    rw [List.append_assoc, List.cons_append]
    exact parseParameters_of_more (parseParameter_complete hp stop (by simp)) ih

/-- The parameters of a method, if there is a parenthesis. -/
theorem parseParameterList_sound {stop : Token} {ts rest : List Token} {ps : List Parameter}
    (h : parseParameterList stop ts = .ok (ps, rest)) :
    ∃ used, ts = used ++ rest ∧ SpellsParameterList used ps := by
  rcases bind_eq_ok h with ⟨opening, mid, hopening, h₁⟩
  cases opening with
  | none =>
    rcases pure_eq_ok.mp h₁ with ⟨rfl, rfl⟩
    exact ⟨[], accept?_eq_none hopening, .absent⟩
  | some opening =>
    rcases bind_eq_ok h₁ with ⟨closing, mid', hclosing, h₂⟩
    have hts := accept?_exactly_eq_some hopening
    subst hts
    cases closing with
    | some closing =>
      rcases pure_eq_ok.mp h₂ with ⟨rfl, rfl⟩
      have hmid := accept?_exactly_eq_some hclosing
      subst hmid
      exact ⟨_, rfl, .empty⟩
    | none =>
      rcases bind_eq_ok h₂ with ⟨parameters, mid'', hparameters, h₃⟩
      rcases bind_eq_ok h₃ with ⟨closing, mid''', hclosing', h₄⟩
      rcases pure_eq_ok.mp h₄ with ⟨rfl, rfl⟩
      rcases accept?_eq_none hclosing with rfl
      rcases parseParameters_sound hparameters with ⟨used, rfl, hspells⟩
      rw [punctuation_eq_ok] at hclosing'
      subst hclosing'
      exact ⟨⟨.punctuation .leftParen, opening.span⟩ :: used ++
        [⟨.punctuation .rightParen, closing.span⟩], by simp, .parameters hspells⟩

-- This tells a list with parameters from an empty one.
theorem next?_parameters {ts : List Token} {ps : List Parameter} (h : SpellsParameters ts ps)
    (rest : List Token) : ∃ name, next? (ts ++ rest) = some (.ident name) := by
  cases h with
  | last hp =>
    cases hp
    exact ⟨_, rfl⟩
  | more hp =>
    cases hp
    exact ⟨_, rfl⟩

theorem parseParameterList_complete {used : List Token} {ps : List Parameter}
    (h : SpellsParameterList used ps) (stop : Token) {rest : List Token}
    (hrest : next? rest ≠ some (.punctuation .leftParen)) :
    parseParameterList stop (used ++ rest) = .ok (ps, rest) := by
  cases h with
  | absent =>
    rw [List.nil_append, parseParameterList, bind_eq (punctuation?_of_ne hrest stop)]
    rfl
  | @empty opening closing =>
    simp only [List.cons_append, List.nil_append]
    rw [parseParameterList, bind_eq (punctuation?_cons .leftParen stop opening _)]
    dsimp only
    rw [bind_eq (punctuation?_cons .rightParen stop closing _)]
    rfl
  | @parameters ts ps opening closing hps =>
    have hnonempty : next? (ts ++ ⟨.punctuation .rightParen, closing⟩ :: rest) ≠
        some (.punctuation .rightParen) := by
      rcases next?_parameters hps (⟨.punctuation .rightParen, closing⟩ :: rest) with ⟨name, hname⟩
      simp [hname]
    have hitems : parseParameters stop (ts ++ ⟨.punctuation .rightParen, closing⟩ :: rest) =
        .ok (ps, ⟨.punctuation .rightParen, closing⟩ :: rest) :=
      parseParameters_complete hps stop (by simp) (by simp)
    simp only [List.append_assoc, List.cons_append, List.nil_append]
    rw [parseParameterList, bind_eq (punctuation?_cons .leftParen stop opening _)]
    dsimp only
    rw [bind_eq (punctuation?_of_ne hnonempty stop)]
    refine (bind_eq (p := parseParameters) hitems _).trans ?_
    rw [bind_eq (punctuation_cons .rightParen stop closing rest)]
    rfl

/-! ## Methods -/

theorem operatorText?_eq_some {t : Token} {text : String} :
    operatorText? t = some text ↔ t.value = .operator text := by
  unfold operatorText?
  split <;> simp_all

theorem parseSetter_sound {name : Ident} {stop : Token} {ts rest : List Token} {m : Ident}
    (h : parseSetter name stop ts = .ok (m, rest)) :
    ∃ used, ts = used ++ rest ∧
      SpellsMethodName (⟨.ident name.value, name.span⟩ :: used) m := by
  rcases bind_eq_ok h with ⟨eq, mid, heq, h₁⟩
  cases eq with
  | none =>
    rcases pure_eq_ok.mp h₁ with ⟨rfl, rfl⟩
    exact ⟨[], accept?_eq_none heq, .ident⟩
  | some eq =>
    rcases pure_eq_ok.mp h₁ with ⟨rfl, rfl⟩
    rcases accept?_eq_some heq with ⟨t, rfl, htouches, hspan⟩
    -- An `=` that does not touch the name is not accepted, so this one does.
    rw [Option.ite_none_right_eq_some] at htouches
    rcases htouches with ⟨⟨hkind, hstart⟩, -⟩
    rcases t with ⟨value, span⟩
    dsimp only at hkind hstart hspan
    subst hkind
    rw [hspan]
    exact ⟨[⟨.operator "=", span⟩], rfl, .setter hstart⟩

theorem parseIndexer_sound {bracket : Span} {stop : Token} {ts rest : List Token} {m : Ident}
    (h : parseIndexer bracket stop ts = .ok (m, rest)) :
    ∃ used, ts = used ++ rest ∧
      SpellsMethodName (⟨.punctuation .leftBracket, bracket⟩ :: used) m := by
  rcases bind_eq_ok h with ⟨close, mid, hclose, h₁⟩
  rcases bind_eq_ok h₁ with ⟨eq, mid', heq, h₂⟩
  rw [punctuation_eq_ok] at hclose
  subst hclose
  cases eq with
  | none =>
    rcases pure_eq_ok.mp h₂ with ⟨rfl, rfl⟩
    rcases accept?_eq_none heq with rfl
    exact ⟨[⟨.punctuation .rightBracket, close.span⟩], rfl, .index⟩
  | some eq =>
    rcases pure_eq_ok.mp h₂ with ⟨rfl, rfl⟩
    have hmid := accept?_exactly_eq_some heq
    subst hmid
    exact ⟨[⟨.punctuation .rightBracket, close.span⟩, ⟨.operator "=", eq.span⟩], rfl, .indexSetter⟩

theorem parseMethodName_sound {stop : Token} {ts rest : List Token} {m : Ident}
    (h : parseMethodName stop ts = .ok (m, rest)) :
    ∃ used, ts = used ++ rest ∧ SpellsMethodName used m := by
  rcases bind_eq_ok h with ⟨name, mid, hname, h₁⟩
  cases name with
  | some name =>
    rcases accept?_eq_some hname with ⟨t, rfl, hkind, hspan⟩
    rw [identName?_eq_some] at hkind
    rcases parseSetter_sound h₁ with ⟨used, rfl, hspells⟩
    rw [hspan, ← hkind] at hspells
    exact ⟨t :: used, rfl, hspells⟩
  | none =>
    rcases accept?_eq_none hname with rfl
    rcases bind_eq_ok h₁ with ⟨operator, mid', hoperator, h₂⟩
    cases operator with
    | some operator =>
      rcases pure_eq_ok.mp h₂ with ⟨rfl, rfl⟩
      rcases accept?_eq_some hoperator with ⟨t, rfl, hkind, hspan⟩
      rw [operatorText?_eq_some] at hkind
      rcases t with ⟨value, span⟩
      dsimp only at hkind hspan
      subst hkind
      refine ⟨[⟨.operator operator.value, span⟩], rfl, ?_⟩
      rw [← hspan]
      exact .operator
    | none =>
      rcases accept?_eq_none hoperator with rfl
      rcases bind_eq_ok h₂ with ⟨bracket, mid'', hbracket, h₃⟩
      cases bracket with
      | none => simp [unexpected, failAtNext] at h₃
      | some bracket =>
        have hts := accept?_exactly_eq_some hbracket
        subst hts
        rcases parseIndexer_sound h₃ with ⟨used, rfl, hspells⟩
        exact ⟨_, rfl, hspells⟩

theorem accept?_ident_cons (name : String) (stop : Token) (span : Span) (rest : List Token) :
    accept? identName? stop (⟨.ident name, span⟩ :: rest) = .ok (some ⟨name, span⟩, rest) :=
  accept?_cons (identName?_eq_some.mpr rfl) stop rest

theorem accept?_ident_of_ne {t : Token} (h : ∀ name, t.value ≠ .ident name) (stop : Token)
    (rest : List Token) : accept? identName? stop (t :: rest) = .ok (none, t :: rest) := by
  refine accept?_of_forall_none (fun u hu => ?_) stop
  obtain rfl : t = u := by simpa using hu
  cases hname : identName? t with
  | none => rfl
  | some name => exact absurd (identName?_eq_some.mp hname) (h name)

/-- A setter is only read where an `=` follows. -/
theorem parseSetter_of_ne (name : Ident) (stop : Token) {rest : List Token}
    (hrest : next? rest ≠ some (.operator "=")) :
    parseSetter name stop rest = .ok (name, rest) := by
  rw [parseSetter, bind_eq (accept?_of_forall_none (fun t ht => ?_) stop)]
  · rfl
  · rw [if_neg]
    rintro ⟨hkind, -⟩
    exact hrest (by rw [next?, ht, Option.map_some, hkind])

theorem parseIndexer_of_ne (opening closing : Span) (stop : Token) {rest : List Token}
    (hrest : next? rest ≠ some (.operator "=")) :
    parseIndexer opening stop (⟨.punctuation .rightBracket, closing⟩ :: rest) =
      .ok (⟨"[]", opening.merge closing⟩, rest) := by
  rw [parseIndexer, bind_eq (punctuation_cons .rightBracket stop closing rest),
    bind_eq (accept?_exactly_of_ne hrest stop)]
  rfl

theorem parseIndexer_setter (opening closing eq : Span) (stop : Token) (rest : List Token) :
    parseIndexer opening stop
        (⟨.punctuation .rightBracket, closing⟩ :: ⟨.operator "=", eq⟩ :: rest) =
      .ok (⟨"[]=", opening.merge eq⟩, rest) := by
  rw [parseIndexer, bind_eq (punctuation_cons .rightBracket stop closing _),
    bind_eq (accept?_exactly_cons (.operator "=") stop eq rest)]
  rfl

theorem parseMethodName_of_bracket (stop : Token) (opening : Span) (rest : List Token) :
    parseMethodName stop (⟨.punctuation .leftBracket, opening⟩ :: rest) =
      parseIndexer opening stop rest := by
  rw [parseMethodName, bind_eq (accept?_ident_of_ne (by simp) stop rest)]
  dsimp only
  rw [bind_eq (accept?_of_forall_none (by simp [operatorText?]) stop)]
  dsimp only
  rw [bind_eq (punctuation?_cons .leftBracket stop opening rest)]

theorem parseMethodName_complete {used : List Token} {m : Ident} (h : SpellsMethodName used m)
    (stop : Token) {rest : List Token} (hrest : next? rest ≠ some (.operator "=")) :
    parseMethodName stop (used ++ rest) = .ok (m, rest) := by
  cases h with
  | @ident name span =>
    rw [List.singleton_append, parseMethodName, bind_eq (accept?_ident_cons name stop span rest)]
    exact parseSetter_of_ne ⟨name, span⟩ stop hrest
  | @setter name span eq htouches =>
    rw [List.cons_append, List.singleton_append, parseMethodName,
      bind_eq (accept?_ident_cons name stop span _)]
    dsimp only
    rw [parseSetter, bind_eq (accept?_cons (if_pos ⟨rfl, htouches⟩) stop rest)]
    rfl
  | @operator text span =>
    have htext : operatorText? ⟨.operator text, span⟩ = some text := rfl
    rw [List.singleton_append, parseMethodName, bind_eq (accept?_ident_of_ne (by simp) stop rest)]
    dsimp only
    rw [bind_eq (accept?_cons htext stop rest)]
    rfl
  | @index opening closing =>
    rw [List.cons_append, List.singleton_append, parseMethodName_of_bracket]
    exact parseIndexer_of_ne opening closing stop hrest
  | @indexSetter opening closing eq =>
    simp only [List.cons_append, List.nil_append]
    rw [parseMethodName_of_bracket]
    exact parseIndexer_setter opening closing eq stop rest

theorem parseMethodTail_sound {name : Ident} {stop : Token} {ts rest : List Token} {m : MethodDecl}
    (h : parseMethodTail name stop ts = .ok (m, rest)) :
    ∃ ps rs, ts = ps ++ rs ++ rest ∧ m.name = name ∧ SpellsParameterList ps m.parameters ∧
      SpellsReturn rs m.returns := by
  rcases bind_eq_ok h with ⟨parameters, mid, hparameters, h₁⟩
  rcases bind_eq_ok h₁ with ⟨colon, mid', hcolon, h₂⟩
  rcases parseParameterList_sound hparameters with ⟨ps, rfl, hps⟩
  cases colon with
  | none =>
    rcases pure_eq_ok.mp h₂ with ⟨rfl, rfl⟩
    rcases accept?_eq_none hcolon with rfl
    exact ⟨ps, [], by rw [List.append_nil], rfl, hps, .absent⟩
  | some colon =>
    rcases bind_eq_ok h₂ with ⟨type, mid'', htype, h₃⟩
    rcases pure_eq_ok.mp h₃ with ⟨rfl, rfl⟩
    have hmid := accept?_exactly_eq_some hcolon
    rcases parseType_sound htype with ⟨rs, rfl, hrs⟩
    subst hmid
    exact ⟨ps, ⟨.punctuation .colon, colon.span⟩ :: rs, by simp, rfl, hps, .type hrs⟩

theorem parseMethodTail_complete {ps rs : List Token} {parameters : List Parameter}
    {returns : Option TypeExpr} (hps : SpellsParameterList ps parameters)
    (hrs : SpellsReturn rs returns) (name : Ident) (stop : Token) :
    parseMethodTail name stop (ps ++ rs) = .ok (⟨name, parameters, returns⟩, []) := by
  -- A return type starts with a colon, so it is not taken for parameters that are left out.
  have hopen : next? rs ≠ some (.punctuation .leftParen) := by
    cases hrs <;> simp
  rw [parseMethodTail, bind_eq (parseParameterList_complete hps stop hopen)]
  cases hrs with
  | absent => rfl
  | @type ts t colon htype =>
    have htype' : parseType stop (ts ++ []) = .ok (t, []) :=
      parseType_complete htype stop (by simp)
    rw [List.append_nil] at htype'
    rw [bind_eq (punctuation?_cons .colon stop colon ts)]
    refine (bind_eq (p := parseType) htype' _).trans ?_
    rfl

/-- What comes after a name is a parenthesis, a colon or nothing: it never adds to the name. -/
theorem next?_tail {ps rs : List Token} {parameters : List Parameter} {returns : Option TypeExpr}
    (hps : SpellsParameterList ps parameters) (hrs : SpellsReturn rs returns) (text : String) :
    next? (ps ++ rs) ≠ some (.operator text) := by
  cases hps with
  | absent => cases hrs <;> simp
  | empty => simp
  | parameters => simp

end DeclLang
