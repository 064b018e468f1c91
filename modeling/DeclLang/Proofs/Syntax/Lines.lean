import DeclLang.Proofs.Syntax.Phrases

/-!
# Whole lines: a line is accepted exactly when it spells something

A line must be used up by the parser that reads it, so what the parsers of its parts read and leave
becomes an equivalence here (`Parses`), one for each kind of line.
-/

namespace DeclLang

open LineParser

variable {α β : Type}

/-- The parser accepts a whole line exactly when the tokens of the line spell what it returns. -/
def Parses (p : LineParser α) (Spells : List Token → α → Prop) : Prop :=
  ∀ stop ts a, p stop ts = .ok (a, []) ↔ Spells ts a

theorem Parses.onLine_eq_ok {p : LineParser α} {Spells : List Token → α → Prop}
    (h : Parses p Spells) {l : Line} {x : Located α} :
    p.onLine l = .ok x ↔ Spells l.tokens x.value ∧ x.span = l.span := by
  rw [← h l.stop]
  unfold onLine
  split
  · rename_i e he
    simp [he]
  · rename_i a ha
    rw [ha]
    constructor
    · intro hx
      rw [Except.ok.injEq] at hx
      subst hx
      exact ⟨rfl, rfl⟩
    · rintro ⟨hvalue, hspan⟩
      rcases x with ⟨value, span⟩
      simp only [Except.ok.injEq, Prod.mk.injEq, and_true] at hvalue
      dsimp only at hspan
      rw [hvalue, hspan]
  · rename_i a t rest ha
    simp [ha]

/-! ## Members of blocks -/

/-- A signature is read by its keyword, its kind of name and what every method has after that. -/
theorem parses_signature (k : Keyword) {name : LineParser Ident}
    {SpellsName : List Token → Ident → Prop}
    (hsound : ∀ {stop ts rest m}, name stop ts = .ok (m, rest) →
      ∃ used, ts = used ++ rest ∧ SpellsName used m)
    (hcomplete : ∀ {used m}, SpellsName used m → ∀ stop {rest},
      next? rest ≠ some (.operator "=") → name stop (used ++ rest) = .ok (m, rest)) :
    Parses (do let _ ← keyword k; parseMethodTail (← name)) (SpellsSignature k SpellsName) := by
  intro stop ts m
  constructor
  · intro h
    rcases bind_eq_ok h with ⟨u, mid, hkeyword, h₁⟩
    rcases bind_eq_ok h₁ with ⟨n, mid', hname, h₂⟩
    rw [keyword_eq_ok] at hkeyword
    rcases hsound hname with ⟨ns, rfl, hns⟩
    rcases parseMethodTail_sound h₂ with ⟨ps, rs, rfl, rfl, hps, hrs⟩
    subst hkeyword
    rw [List.append_nil, ← List.append_assoc]
    exact .intro hns hps hrs
  · intro h
    cases h with
    | @intro n parameters returns ns ps rs span hns hps hrs =>
      rw [bind_eq (keyword_cons k stop span _), List.append_assoc,
        bind_eq (hcomplete hns stop (next?_tail hps hrs "="))]
      exact parseMethodTail_complete hps hrs n stop

theorem parses_parseMethod : Parses parseMethod SpellsMethod :=
  parses_signature .method parseMethodName_sound parseMethodName_complete

theorem parses_parseFunction : Parses parseFunction SpellsFunction := by
  refine parses_signature .function (fun h => ?_) (fun h stop rest _ => ?_)
  · rw [ident_eq_ok] at h
    exact ⟨_, h, .ident⟩
  · cases h
    rw [List.singleton_append, ident_eq_ok]

/-- A keyword and a type name, as an `include` and the header of a module are. -/
theorem keyword_typeName_eq_ok {k : Keyword} {stop : Token} {ts : List Token} {name : Ident} :
    (do let _ ← keyword k; parseTypeName : LineParser Ident) stop ts = .ok (name, []) ↔
      ∃ span us, ts = ⟨.keyword k, span⟩ :: us ∧ SpellsTypeName us name := by
  constructor
  · intro h
    rcases bind_eq_ok h with ⟨u, mid, hkeyword, h₁⟩
    rw [keyword_eq_ok] at hkeyword
    rcases parseTypeName_sound h₁ with ⟨us, rfl, hus⟩
    rw [List.append_nil] at hkeyword
    exact ⟨u.span, us, hkeyword, hus⟩
  · rintro ⟨span, us, rfl, hus⟩
    rw [bind_eq (keyword_cons k stop span us), parseTypeName_complete_nil hus stop]

theorem parses_parseInclusion : Parses parseInclusion SpellsInclusion := by
  intro stop ts module
  refine keyword_typeName_eq_ok.trans ⟨?_, ?_⟩
  · rintro ⟨span, us, rfl, hus⟩
    exact .intro hus
  · rintro (@⟨us, _, span, hus⟩)
    exact ⟨span, us, rfl, hus⟩

theorem map_eq_bind (f : α → β) (p : LineParser α) : f <$> p = p >>= fun a => pure (f a) := rfl

-- What is read and then wrapped, as the members of a block and the declarations of a file are.
theorem Parses.map {p : LineParser α} {Spells : List Token → α → Prop} (h : Parses p Spells)
    (f : α → β) : Parses (f <$> p) fun ts b => ∃ a, f a = b ∧ Spells ts a := by
  intro stop ts b
  rw [map_eq_bind]
  constructor
  · intro hp
    rcases bind_eq_ok hp with ⟨a, mid, ha, hb⟩
    rcases pure_eq_ok.mp hb with ⟨rfl, rfl⟩
    exact ⟨a, rfl, (h _ _ _).mp ha⟩
  · rintro ⟨a, rfl, ha⟩
    rw [bind_eq ((h stop ts a).mpr ha)]
    rfl

theorem parses_parseMember : Parses parseMember SpellsMember := by
  intro stop ts m
  constructor
  · intro h
    unfold parseMember at h
    split at h
    · rcases (parses_parseMethod.map Member.method _ _ _).mp h with ⟨decl, rfl, hdecl⟩
      exact .method hdecl
    · rcases (parses_parseInclusion.map Member.inclusion _ _ _).mp h with ⟨module, rfl, hmodule⟩
      exact .inclusion hmodule
    · simp [unexpected, failAtNext] at h
  · intro h
    cases h with
    -- The derivation is only opened for its keyword, by which `parseMember` chooses.
    | method hm =>
      have hparse := (parses_parseMethod.map Member.method stop _ _).mpr ⟨_, rfl, hm⟩
      cases hm
      exact hparse
    | inclusion hm =>
      have hparse := (parses_parseInclusion.map Member.inclusion stop _ _).mpr ⟨_, rfl, hm⟩
      cases hm
      exact hparse

/-! ## Headers -/

theorem parses_parseModuleHeader : Parses parseModuleHeader SpellsModuleHeader := by
  intro stop ts name
  refine keyword_typeName_eq_ok.trans ⟨?_, ?_⟩
  · rintro ⟨span, us, rfl, hus⟩
    exact .intro hus
  · rintro (@⟨us, _, span, hus⟩)
    exact ⟨span, us, rfl, hus⟩

theorem parses_parseClassHeader : Parses parseClassHeader SpellsClassHeader := by
  intro stop ts x
  constructor
  · intro h
    rcases bind_eq_ok h with ⟨u, mid, hkeyword, h₁⟩
    rcases bind_eq_ok h₁ with ⟨name, mid₁, hname, h₂⟩
    rcases bind_eq_ok h₂ with ⟨mark, mid₂, hmark, h₃⟩
    rw [keyword_eq_ok] at hkeyword
    rcases parseTypeName_sound hname with ⟨used, rfl, hused⟩
    subst hkeyword
    cases mark with
    | none =>
      rcases pure_eq_ok.mp h₃ with ⟨rfl, rfl⟩
      rcases accept?_eq_none hmark with rfl
      rw [List.append_nil]
      exact .root hused
    | some mark =>
      rcases bind_eq_ok h₃ with ⟨superclass, mid₃, hsuperclass, h₄⟩
      rcases pure_eq_ok.mp h₄ with ⟨rfl, rfl⟩
      have hmid := accept?_exactly_eq_some hmark
      rcases parseTypeName_sound hsuperclass with ⟨used', rfl, hused'⟩
      subst hmid
      rw [List.append_nil]
      exact .inheriting hused hused'
  · intro h
    cases h with
    | @root us name span hus =>
      rw [parseClassHeader, bind_eq (keyword_cons .classBlock stop span us),
        bind_eq (parseTypeName_complete_nil hus stop)]
      rfl
    | @inheriting us vs name superclass span mark hus hvs =>
      have hmark : operator? "<" stop (⟨.operator "<", mark⟩ :: vs) = .ok (some ⟨(), mark⟩, vs) :=
        accept?_exactly_cons (.operator "<") stop mark vs
      rw [parseClassHeader, bind_eq (keyword_cons .classBlock stop span _),
        bind_eq (parseTypeName_complete hus stop _), bind_eq hmark]
      dsimp only
      rw [bind_eq (parseTypeName_complete_nil hvs stop)]
      rfl

theorem stringValue?_eq_some {t : Token} {value : String} :
    stringValue? t = some value ↔ t.value = .string value := by
  unfold stringValue?
  split <;> simp_all

theorem parses_parseLibHeader : Parses parseLibHeader SpellsLibHeader := by
  intro stop ts x
  constructor
  · intro h
    rcases bind_eq_ok h with ⟨u, mid, hkeyword, h₁⟩
    rcases bind_eq_ok h₁ with ⟨name, mid₁, hname, h₂⟩
    rcases bind_eq_ok h₂ with ⟨opening, mid₂, hopening, h₃⟩
    rw [keyword_eq_ok] at hkeyword
    rcases parseTypeName_sound hname with ⟨used, rfl, hused⟩
    subst hkeyword
    cases opening with
    | none =>
      rcases pure_eq_ok.mp h₃ with ⟨rfl, rfl⟩
      rcases accept?_eq_none hopening with rfl
      rw [List.append_nil]
      exact .unlinked hused
    | some opening =>
      rcases bind_eq_ok h₃ with ⟨libname, mid₃, hlibname, h₄⟩
      rcases bind_eq_ok h₄ with ⟨closing, mid₄, hclosing, h₅⟩
      rcases pure_eq_ok.mp h₅ with ⟨rfl, rfl⟩
      have hmid := accept?_exactly_eq_some hopening
      rcases expect_eq_ok hlibname with ⟨⟨kind, span⟩, rfl, hkind, hspan⟩
      rw [stringValue?_eq_some] at hkind
      rw [punctuation_eq_ok] at hclosing
      dsimp only at hkind hspan
      subst hmid hkind hclosing
      rw [← hspan]
      exact .linked hused
  · intro h
    cases h with
    | @unlinked us name span hus =>
      rw [parseLibHeader, bind_eq (keyword_cons .libBlock stop span us),
        bind_eq (parseTypeName_complete_nil hus stop)]
      rfl
    | @linked us name libname span opening at_ closing hus =>
      have hstring : stringValue? ⟨.string libname, at_⟩ = some libname := rfl
      rw [parseLibHeader, bind_eq (keyword_cons .libBlock stop span _),
        bind_eq (parseTypeName_complete hus stop _),
        bind_eq (punctuation?_cons .leftParen stop opening _)]
      dsimp only
      rw [bind_eq (expect_cons hstring stop _),
        bind_eq (punctuation_cons .rightParen stop closing [])]
      rfl

theorem intValue?_eq_some {t : Token} {value : Nat} :
    intValue? t = some value ↔ t.value = .int value := by
  unfold intValue?
  split <;> simp_all

theorem parses_parsePrimitive : Parses parsePrimitive SpellsPrimitive := by
  intro stop ts d
  constructor
  · intro h
    rcases bind_eq_ok h with ⟨u, mid, hkeyword, h₁⟩
    rcases bind_eq_ok h₁ with ⟨name, mid₁, hname, h₂⟩
    rcases bind_eq_ok h₂ with ⟨mark, mid₂, hmark, h₃⟩
    rcases bind_eq_ok h₃ with ⟨superclass, mid₃, hsuperclass, h₄⟩
    rcases bind_eq_ok h₄ with ⟨colon, mid₄, hcolon, h₅⟩
    rcases bind_eq_ok h₅ with ⟨tag, mid₅, htag, h₆⟩
    rcases bind_eq_ok h₆ with ⟨⟨size, sizeSpan⟩, mid₆, hsize, h₇⟩
    rw [keyword_eq_ok] at hkeyword
    rcases parseTypeName_sound hname with ⟨used, rfl, hused⟩
    rw [expect_exactly_eq_ok] at hmark
    rcases parseTypeName_sound hsuperclass with ⟨used', rfl, hused'⟩
    rw [punctuation_eq_ok] at hcolon
    rw [ident_eq_ok] at htag
    rcases expect_eq_ok hsize with ⟨⟨kind, span⟩, rfl, hkind, hspan⟩
    rw [intValue?_eq_some] at hkind
    dsimp only at hkind hspan
    split at h₇
    · rename_i hbound
      rcases pure_eq_ok.mp h₇ with ⟨rfl, rfl⟩
      -- The size is checked last, when everything before it is read.
      simp only [byteSizeLimit] at hbound
      subst hkeyword hmark hcolon htag hkind hspan
      have hspells := @SpellsPrimitive.intro used used' name superclass tag.value size u.span
        mark.span colon.span tag.span sizeSpan hused hused' (by omega)
      rw [List.append_assoc, List.cons_append] at hspells
      exact hspells
    · simp [failAt] at h₇
  · intro h
    cases h with
    | @intro us vs name superclass tag size span mark colon tagSpan sizeSpan hus hvs hbound =>
      have hmark (rest : List Token) :
          expect .missingSuperclass (exactly (.operator "<")) stop
            (⟨.operator "<", mark⟩ :: rest) = .ok (⟨(), mark⟩, rest) :=
        expect_exactly_eq_ok.mpr rfl
      have hsize : intValue? ⟨.int size, sizeSpan⟩ = some size := rfl
      rw [List.append_assoc, List.cons_append, parsePrimitive,
        bind_eq (keyword_cons .primitive stop span _),
        bind_eq (parseTypeName_complete hus stop _), bind_eq (hmark _),
        bind_eq (parseTypeName_complete hvs stop _),
        bind_eq (punctuation_cons .colon stop colon _),
        bind_eq (ident_cons .representation stop tag tagSpan _),
        bind_eq (expect_cons hsize stop [])]
      dsimp only
      rw [if_pos (by unfold byteSizeLimit; omega)]
      rfl

end DeclLang
