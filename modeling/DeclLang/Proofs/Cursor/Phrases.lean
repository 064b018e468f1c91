import DeclLang.Proofs.Cursor.Lines
import DeclLang.Proofs.Syntax.Lines

/-!
# Phrases under a cursor

Within a line, reading with a cursor is reading the tokens of that line: both find the same, or meet
the same problem, and the cursor is behind the tokens that were read (`Follows`). The relation goes
through `>>=`, so there is one lemma for each kind of phrase.
-/

namespace DeclLang

open Cursor

/-! ## Lists of tokens, one step at a time -/

namespace LineParser

variable {α β : Type}

theorem map_of_ok {p : LineParser α} {stop : Token} {ts rest : List Token} {a : α}
    (h : p stop ts = .ok (a, rest)) (f : α → β) : (f <$> p) stop ts = .ok (f a, rest) := by
  show (p >>= fun a => pure (f a)) stop ts = _
  simp only [Bind.bind, h]
  rfl

theorem map_of_error {p : LineParser α} {stop : Token} {ts : List Token} {e : SyntaxError}
    (h : p stop ts = .error e) (f : α → β) : (f <$> p) stop ts = .error e := by
  show (p >>= fun a => pure (f a)) stop ts = _
  simp only [Bind.bind, h]

end LineParser

theorem parseTypeName_cons (stop t : Token) (rest : List Token) :
    parseTypeName stop (t :: rest) =
      match parseTypeName stop [t] with
      | .error e => .error e
      | .ok (name, _) => .ok (name, rest) := by
  unfold parseTypeName
  cases hname : LineParser.identName? t with
  | none =>
    have hnone (us : List Token) : LineParser.ident .typeName stop (t :: us) =
        .error ⟨.unexpected .typeName t.value, t.span⟩ := by
      simp [LineParser.ident, LineParser.expect, Bind.bind, LineParser.accept?, hname,
        LineParser.failAtNext]
    simp only [Bind.bind, hnone]
  | some name =>
    have hsome (us : List Token) : LineParser.ident .typeName stop (t :: us) =
        .ok (⟨name, t.span⟩, us) := LineParser.expect_cons hname stop us
    simp only [Bind.bind, hsome]
    split <;> rfl

/-- A type is a name, and maybe an argument in brackets. -/
theorem parseType_eq : parseType = (do
    let name ← parseTypeName
    match ← LineParser.punctuation? .leftBracket with
    | some _ => closeGeneric name (← parseType)
    | none => return .named name : LineParser TypeExpr) := by
  funext stop ts
  cases ts with
  | nil => rfl
  | cons t rest =>
    simp only [Bind.bind]
    conv => lhs; unfold parseType
    rw [parseTypeName_cons stop t rest]
    cases parseTypeName stop [t] with
    | error e => rfl
    | ok x =>
      obtain ⟨name, nothing⟩ := x
      cases rest with
      | nil => rfl
      | cons u inner =>
        dsimp only
        by_cases hu : u.value = .punctuation .leftBracket
        · obtain ⟨kind, span⟩ := u
          dsimp only at hu
          subst hu
          rw [if_pos rfl, LineParser.punctuation?_cons]
          dsimp only
          cases parseType stop inner <;> rfl
        · rw [if_neg hu, LineParser.punctuation?_of_ne (by simpa using hu)]
          rfl

/-- One step of a list of parameters, when some have been read before. -/
theorem append_parseParameters_eq (before : List Parameter) :
    ((before ++ ·) <$> parseParameters : LineParser (List Parameter)) = (do
      let p ← parseParameter
      match ← LineParser.punctuation? .comma with
      | some _ => ((before ++ [p]) ++ ·) <$> parseParameters
      | none => return before ++ [p] : LineParser (List Parameter)) := by
  funext stop ts
  have hparameters := parseParameters_eq stop ts
  simp only [Bind.bind]
  cases hp : parseParameter stop ts with
  | error e =>
    rw [hp] at hparameters
    exact LineParser.map_of_error hparameters _
  | ok x =>
    obtain ⟨p, rest⟩ := x
    rw [hp] at hparameters
    dsimp only
    cases rest with
    | nil => exact LineParser.map_of_ok hparameters _
    | cons u after =>
      by_cases hu : u.value = .punctuation .comma
      · obtain ⟨kind, span⟩ := u
        dsimp only at hu
        subst hu
        dsimp only at hparameters
        rw [if_pos rfl] at hparameters
        rw [LineParser.punctuation?_cons]
        dsimp only
        cases hmore : parseParameters stop after with
        | error e =>
          rw [hmore] at hparameters
          rw [LineParser.map_of_error hparameters, LineParser.map_of_error hmore]
        | ok y =>
          obtain ⟨ps, left⟩ := y
          rw [hmore] at hparameters
          rw [LineParser.map_of_ok hparameters, LineParser.map_of_ok hmore, List.append_assoc]
          rfl
      · dsimp only at hparameters
        rw [if_neg hu] at hparameters
        rw [LineParser.punctuation?_of_ne (by simpa using hu)]
        exact LineParser.map_of_ok hparameters _

namespace CursorParser

variable {α β : Type} {n : Nat}

/-- What reading with a cursor comes to, when reading a list of tokens comes to something. -/
def Follows (c : Cursor) (ts : List Token) :
    Except SyntaxError (α × List Token) → Result α → Prop
  | .ok (a, rest), result =>
    ∃ used, ts = used ++ rest ∧ result = .finished (.ok a) (c.after used.length [])
  | .error e, result =>
    ∃ used rest, ts = used ++ rest ∧ result = .finished (.error e) (c.after used.length [])

/-- The first parser reads with a cursor what the second one reads of a line, if that has less than
    `n` tokens. -/
def Simulates (n : Nat) (p : CursorParser α) (q : LineParser α) : Prop :=
  ∀ ⦃rounds : Nat⦄ ⦃ts : List Token⦄ ⦃c : Cursor⦄ ⦃l : Line⦄ ⦃below : List Line⦄, HasEnd ts →
    (textOf ts).length < rounds → Sees ts c (l :: below) → l.tokens.length < n →
    Follows c l.tokens (q l.stop l.tokens) (p rounds ts c)

/-! ## Composition -/

theorem simulates_pure (a : α) : Simulates n (pure a) (pure a) :=
  fun _ _ c _ _ _ _ _ _ => ⟨[], rfl, congrArg _ c.after_zero.symm⟩

theorem simulates_fail (problem : SyntaxProblem) (span : Span) :
    Simulates n (fail ⟨problem, span⟩ : CursorParser α) (LineParser.failAt problem span) :=
  fun _ _ c l _ _ _ _ _ => ⟨[], l.tokens, rfl, congrArg _ c.after_zero.symm⟩

/-- What is read behind something else is read of a shorter line, if something was read before. -/
theorem Simulates.bind_shorter {p : CursorParser α} {q : LineParser α}
    {f : α → CursorParser β} {g : α → LineParser β} {m : Nat} (h : Simulates m p q)
    (hf : ∀ a, Simulates n (f a) (g a))
    (hshorter : ∀ stop used rest a, q stop (used ++ rest) = .ok (a, rest) →
      (used ++ rest).length < m → rest.length < n) :
    Simulates m (p >>= f) (q >>= g) := by
  intro rounds ts c l below hend hrounds hsees hm
  have hp := h hend hrounds hsees hm
  simp only [Bind.bind]
  cases hq : q l.stop l.tokens with
  | error e =>
    rw [hq] at hp
    obtain ⟨used, rest, hl, hrun⟩ := hp
    rw [hrun]
    exact ⟨used, rest, hl, rfl⟩
  | ok x =>
    obtain ⟨a, mid⟩ := x
    rw [hq] at hp
    obtain ⟨used, hl, hrun⟩ := hp
    rw [hl] at hq hm
    have hmid := hf a hend hrounds (hsees.forward hl []) (hshorter _ _ _ _ hq hm)
    rw [hrun]
    dsimp only at hmid ⊢
    cases hg : g a l.stop mid with
    | error e =>
      rw [hg] at hmid
      obtain ⟨used', rest, rfl, hrun'⟩ := hmid
      refine ⟨used ++ used', rest, by rw [hl, List.append_assoc], ?_⟩
      rw [hrun', after_after, List.length_append]
      rfl
    | ok y =>
      obtain ⟨b, rest⟩ := y
      rw [hg] at hmid
      obtain ⟨used', rfl, hrun'⟩ := hmid
      refine ⟨used ++ used', by rw [hl, List.append_assoc], ?_⟩
      rw [hrun', after_after, List.length_append]
      rfl

theorem Simulates.bind {p : CursorParser α} {q : LineParser α} {f : α → CursorParser β}
    {g : α → LineParser β} (h : Simulates n p q) (hf : ∀ a, Simulates n (f a) (g a)) :
    Simulates n (p >>= f) (q >>= g) := by
  refine h.bind_shorter hf fun _ used rest _ _ hn => ?_
  rw [List.length_append] at hn
  omega

/-- Behind something of which a token at least was read, a token less is left. -/
theorem Simulates.bind_of_consumes {p : CursorParser α} {q : LineParser α} {f : α → CursorParser β}
    {g : α → LineParser β} (h : Simulates (n + 1) p q) (hq : LineParser.Consumes q)
    (hf : ∀ a, Simulates n (f a) (g a)) : Simulates (n + 1) (p >>= f) (q >>= g) := by
  refine h.bind_shorter hf fun _ used rest _ hread hn => ?_
  have hlt := hq.length_lt hread
  omega

theorem Simulates.map {p : CursorParser α} {q : LineParser α} (h : Simulates n p q) (f : α → β) :
    Simulates n (f <$> p) (f <$> q) :=
  h.bind fun a => simulates_pure (f a)

/-! ## Single tokens -/

theorem simulates_failAtNext (problem : TokenKind → SyntaxProblem) :
    Simulates n (failAtNext problem : CursorParser α) (LineParser.failAtNext problem) := by
  intro rounds ts c l below hend _ hsees _
  refine ⟨[], l.tokens, rfl, ?_⟩
  unfold failAtNext
  rw [peek_bind, hsees.token hend, List.length_nil, after_zero]
  rfl

/-- Tokens that end a line are not accepted. -/
theorem simulates_accept? {f : Token → Option α} (hf : ∀ t a, f t = some a → t.Inner) :
    Simulates n (accept? f) (LineParser.accept? f) := by
  intro rounds ts c l below hend _ hsees _
  unfold accept? LineParser.accept?
  rw [peek_bind, hsees.token hend, Line.first]
  cases hl : l.tokens with
  | nil =>
    have hnone : f l.stop = none := by
      cases hstop : f l.stop with
      | none => rfl
      | some a =>
        have hinner := hf _ a hstop
        rcases ending_cases hsees with ⟨hfeed, -⟩ | ⟨heof, -⟩
        · exact absurd hfeed hinner.1
        · exact absurd heof hinner.2
    dsimp only [List.headD_nil]
    rw [hnone]
    exact ⟨[], rfl, congrArg _ (after_zero c).symm⟩
  | cons t rest =>
    dsimp only [List.headD_cons]
    cases ht : f t with
    | none => exact ⟨[], rfl, congrArg _ (after_zero c).symm⟩
    | some a =>
      refine ⟨[t], rfl, ?_⟩
      dsimp only
      rw [bind_of_ok (advance_token hend hsees hl)]
      rfl

theorem simulates_expect {f : Token → Option α} (hf : ∀ t a, f t = some a → t.Inner)
    (problem : TokenKind → SyntaxProblem) :
    Simulates n (expect problem f) (LineParser.expect problem f) := by
  refine (simulates_accept? hf).bind fun found => ?_
  cases found with
  | some a => exact simulates_pure a
  | none => exact simulates_failAtNext problem

theorem inner_of_exactly {kind : TokenKind} (hkind : kind ≠ .newline ∧ kind ≠ .eof) (t : Token)
    (u : Unit) (h : LineParser.exactly kind t = some u) : t.Inner := by
  rw [LineParser.exactly_eq_some] at h
  rw [Token.Inner, h]
  exact hkind

theorem simulates_keyword (k : Keyword) : Simulates n (keyword k) (LineParser.keyword k) :=
  simulates_expect (inner_of_exactly ⟨by simp, by simp⟩) _

theorem simulates_punctuation (p : Punctuation) :
    Simulates n (punctuation p) (LineParser.punctuation p) :=
  simulates_expect (inner_of_exactly ⟨by simp, by simp⟩) _

theorem simulates_punctuation? (p : Punctuation) :
    Simulates n (punctuation? p) (LineParser.punctuation? p) :=
  simulates_accept? (inner_of_exactly ⟨by simp, by simp⟩)

theorem simulates_operator? (text : String) :
    Simulates n (operator? text) (LineParser.operator? text) :=
  simulates_accept? (inner_of_exactly ⟨by simp, by simp⟩)

theorem inner_of_identName? (t : Token) (name : String) (h : LineParser.identName? t = some name) :
    t.Inner := by
  rw [LineParser.identName?_eq_some] at h
  simp [Token.Inner, h]

theorem simulates_ident (expected : Expected) :
    Simulates n (ident expected) (LineParser.ident expected) :=
  simulates_expect inner_of_identName? _

/-! ## Types -/

theorem simulates_typeName : Simulates n typeName parseTypeName := by
  refine (simulates_ident .typeName).bind fun name => ?_
  split
  · exact simulates_pure name
  · exact simulates_fail _ _

theorem simulates_typeWithin : Simulates n (typeWithin n) parseType := by
  induction n with
  | zero => exact fun _ _ _ _ _ _ _ _ h => absurd h (Nat.not_lt_zero _)
  | succ n ih =>
    rw [parseType_eq, typeWithin]
    refine simulates_typeName.bind_of_consumes consumes_parseTypeName fun name => ?_
    refine (simulates_punctuation? .leftBracket).bind fun opening => ?_
    cases opening with
    | none => exact simulates_pure _
    | some _ =>
      exact ih.bind fun arg => (simulates_punctuation .rightBracket).bind fun close =>
        simulates_pure _

/-- Lines have no more tokens than their file. -/
theorem length_tokens_le {ts : List Token} {c : Cursor} {l : Line} {below : List Line}
    (h : Sees ts c (l :: below)) : l.tokens.length ≤ (textOf ts).length := by
  have hwithin := (h.forward (List.append_nil l.tokens).symm []).within
  exact Nat.le_trans (Nat.le_add_left _ _) hwithin

theorem simulates_typeExpr : Simulates n typeExpr parseType := by
  intro rounds ts c l below hend hrounds hsees _
  have hle := length_tokens_le hsees
  exact simulates_typeWithin hend hrounds hsees (by omega)

/-! ## Signatures -/

theorem simulates_parameter : Simulates n parameter parseParameter := by
  refine (simulates_ident .parameterName).bind fun name => ?_
  refine (simulates_expect (inner_of_exactly ⟨by simp, by simp⟩) _).bind fun _ => ?_
  exact simulates_typeExpr.bind fun type => simulates_pure _

theorem bind_assoc {γ : Type} (p : CursorParser α) (f : α → CursorParser β)
    (g : β → CursorParser γ) : p >>= f >>= g = p >>= fun a => f a >>= g := by
  funext rounds ts c
  simp only [Bind.bind]
  cases p rounds ts c with
  | finished result c' => cases result <;> rfl
  | outOfRange => rfl
  | unfinished => rfl

/-- Every round of the loop reads one parameter, and there are as many rounds as tokens at least. -/
theorem simulates_repeatFor_parameterRound {rounds : Nat} (before : List Parameter)
    (hn : n ≤ rounds) :
    Simulates n (repeatFor parameterRound rounds before) ((before ++ ·) <$> parseParameters) := by
  induction rounds generalizing n before with
  | zero =>
    obtain rfl := Nat.le_zero.mp hn
    exact fun _ _ _ _ _ _ _ _ h => absurd h (Nat.not_lt_zero _)
  | succ rounds ih =>
    cases n with
    | zero => exact fun _ _ _ _ _ _ _ _ h => absurd h (Nat.not_lt_zero _)
    | succ n =>
      rw [append_parseParameters_eq, repeatFor, parameterRound, bind_assoc]
      refine simulates_parameter.bind_of_consumes consumes_parseParameter fun p => ?_
      rw [bind_assoc]
      refine (simulates_punctuation? .comma).bind fun comma => ?_
      cases comma with
      | some _ => exact ih (before ++ [p]) (Nat.le_of_succ_le_succ hn)
      | none => exact simulates_pure (before ++ [p])

theorem simulates_parameters : Simulates n parameters parseParameters := by
  intro rounds ts c l below hend hrounds hsees _
  have hle := length_tokens_le hsees
  have hloop := simulates_repeatFor_parameterRound [] (Nat.le_refl rounds) hend hrounds hsees
    (by omega)
  have hid : (([] ++ ·) <$> parseParameters : LineParser (List Parameter)) = parseParameters := by
    funext stop ts
    cases hps : parseParameters stop ts with
    | error e => exact LineParser.map_of_error hps _
    | ok x => exact LineParser.map_of_ok hps _
  rwa [hid] at hloop

theorem simulates_parameterList : Simulates n parameterList parseParameterList := by
  refine (simulates_punctuation? .leftParen).bind fun opening => ?_
  cases opening with
  | none => exact simulates_pure _
  | some _ =>
    refine (simulates_punctuation? .rightParen).bind fun closing => ?_
    cases closing with
    | some _ => exact simulates_pure _
    | none =>
      exact simulates_parameters.bind fun ps => (simulates_punctuation .rightParen).bind fun _ =>
        simulates_pure ps

theorem simulates_setter (name : Ident) : Simulates n (setter name) (parseSetter name) := by
  refine (simulates_accept? fun t u ht => ?_).bind fun eq => ?_
  · split at ht
    · rename_i htouches
      rw [Token.Inner, htouches.1]
      simp
    · cases ht
  · cases eq with
    | some _ => exact simulates_pure _
    | none => exact simulates_pure _

theorem simulates_indexer (bracket : Span) :
    Simulates n (indexer bracket) (parseIndexer bracket) := by
  refine (simulates_punctuation .rightBracket).bind fun close => ?_
  refine (simulates_accept? (inner_of_exactly ⟨by simp, by simp⟩)).bind fun eq => ?_
  cases eq with
  | some _ => exact simulates_pure _
  | none => exact simulates_pure _

theorem simulates_methodName : Simulates n methodName parseMethodName := by
  refine (simulates_accept? inner_of_identName?).bind fun name => ?_
  cases name with
  | some name => exact simulates_setter name
  | none =>
    refine (simulates_accept? fun t text ht => ?_).bind fun operator => ?_
    · rw [operatorText?_eq_some] at ht
      simp [Token.Inner, ht]
    · cases operator with
      | some operator => exact simulates_pure operator
      | none =>
        refine (simulates_punctuation? .leftBracket).bind fun bracket => ?_
        cases bracket with
        | some bracket => exact simulates_indexer bracket.span
        | none => exact simulates_failAtNext _

theorem simulates_methodTail (name : Ident) :
    Simulates n (methodTail name) (parseMethodTail name) := by
  refine simulates_parameterList.bind fun ps => ?_
  refine (simulates_punctuation? .colon).bind fun colon => ?_
  cases colon with
  | some _ => exact simulates_typeExpr.bind fun type => simulates_pure _
  | none => exact simulates_pure _

theorem simulates_method : Simulates n method parseMethod :=
  (simulates_keyword .method).bind fun _ => simulates_methodName.bind simulates_methodTail

theorem simulates_function : Simulates n function parseFunction :=
  (simulates_keyword .function).bind fun _ =>
    (simulates_ident .functionName).bind simulates_methodTail

theorem simulates_inclusion : Simulates n inclusion parseInclusion :=
  (simulates_keyword .inclusion).bind fun _ => simulates_typeName

/-! ## Members and headers -/

theorem simulates_member : Simulates n member parseMember := by
  intro rounds ts c l below hend hrounds hsees hn
  unfold member parseMember
  rw [peek_bind, hsees.token hend, Line.first]
  have hother : Simulates n (unexpected .member : CursorParser Member)
      (LineParser.unexpected .member) := simulates_failAtNext _
  generalize (l.tokens.headD l.stop).value = found
  cases found with
  | keyword k =>
    cases k with
    | method => exact simulates_method.map Member.method hend hrounds hsees hn
    | inclusion => exact simulates_inclusion.map Member.inclusion hend hrounds hsees hn
    | _ => exact hother hend hrounds hsees hn
  | _ => exact hother hend hrounds hsees hn

theorem simulates_classHeader : Simulates n classHeader parseClassHeader := by
  refine (simulates_keyword .classBlock).bind fun _ => simulates_typeName.bind fun name => ?_
  refine (simulates_operator? "<").bind fun mark => ?_
  cases mark with
  | some _ => exact simulates_typeName.bind fun superclass => simulates_pure _
  | none => exact simulates_pure _

theorem simulates_moduleHeader : Simulates n moduleHeader parseModuleHeader :=
  (simulates_keyword .moduleBlock).bind fun _ => simulates_typeName

theorem simulates_libHeader : Simulates n libHeader parseLibHeader := by
  refine (simulates_keyword .libBlock).bind fun _ => simulates_typeName.bind fun name => ?_
  refine (simulates_punctuation? .leftParen).bind fun opening => ?_
  cases opening with
  | none => exact simulates_pure _
  | some _ =>
    refine (simulates_expect (fun t value ht => ?_) _).bind fun libname => ?_
    · rw [stringValue?_eq_some] at ht
      simp [Token.Inner, ht]
    · exact (simulates_punctuation .rightParen).bind fun _ => simulates_pure _

theorem simulates_primitive : Simulates n primitive parsePrimitive := by
  refine (simulates_keyword .primitive).bind fun _ => simulates_typeName.bind fun name => ?_
  refine (simulates_expect (inner_of_exactly ⟨by simp, by simp⟩) _).bind fun _ => ?_
  refine simulates_typeName.bind fun superclass => ?_
  refine (simulates_punctuation .colon).bind fun _ => ?_
  refine (simulates_ident .representation).bind fun repr => ?_
  refine (simulates_expect (fun t value ht => ?_) _).bind fun size => ?_
  · rw [intValue?_eq_some] at ht
    simp [Token.Inner, ht]
  · split
    · exact simulates_pure _
    · exact simulates_fail _ _

end CursorParser

end DeclLang
