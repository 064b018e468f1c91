import DeclLang.Proofs.Syntax.Names
import DeclLang.Proofs.Syntax.Slices
import DeclLang.Proofs.Token.Blanks

/-!
# Parts of a program: what stands at their spans

An error about a program points at one of its names, types or sizes. Names and types may be written
with blanks in them. Without the blanks, the text that such a part covers is the name or the type,
and the text of a size is a literal of it (`Program.shownIn_of_ofSource`).
-/

namespace DeclLang

/-! ## Parts -/

/-- The parts of a program that an error may point at. -/
inductive Part where
  | name (x : Ident)
  | type (t : TypeExpr)
  | size (n : Located Nat)

namespace Part

def span : Part → Span
  | .name x => x.span
  | .type t => t.span
  | .size n => n.span

/-- The texts that a part may have. -/
def HasText : Part → List Char → Prop
  | .name x, text => withoutBlanks text = x.value.toList
  | .type t, text => withoutBlanks text = t.text.toList
  | .size n, text => Spells text (.int n.value)

/-- A part has a text in a source, at its span. -/
def ShownIn (part : Part) (source : List Char) : Prop :=
  ∃ text, text ≠ [] ∧ part.span.Covers source text ∧ part.HasText text

end Part

/-- A type, and the types inside of it. -/
def TypeExpr.parts : TypeExpr → List Part
  | .named name => [.type (.named name)]
  | .generic base arg span => .type (.generic base arg span) :: arg.parts

def MethodDecl.parts (m : MethodDecl) : List Part :=
  .name m.name :: m.types.flatMap (·.parts)

def Member.parts : Member → List Part
  | .method decl => decl.parts
  | .inclusion module => [.name module]

def Declaration.parts : Declaration → List Part
  | .classBlock name superclass members =>
    .name name :: superclass.toList.map .name ++ members.flatMap (·.value.parts)
  | .moduleBlock name members => .name name :: members.flatMap (·.value.parts)
  | .libBlock name _ functions => .name name :: functions.flatMap (·.value.parts)
  | .primitive name superclass repr size => [.name name, .name superclass, .name repr, .size size]
  | .method decl => decl.parts
  | .inclusion module => [.name module]

def Program.parts (p : Program) : List Part :=
  p.flatMap (·.value.parts)

/-! ## Tokens of parts -/

/-- Fixed tokens that are a text when nothing is put between them. -/
structure Writes (ts : List Token) (text : String) : Prop where
  fixed : ∀ t ∈ ts, t.value.IsFixed
  text : (ts.flatMap fun t => t.value.canonical.toList) = text.toList

/-- Such tokens, and the span from the first of them to the last. -/
structure WritesAt (ts : List Token) (text : String) (span : Span) : Prop extends
    Writes ts text where
  nonempty : ts ≠ []
  span : span = extent ts

theorem writes_token (kind : TokenKind) (hkind : kind.IsFixed) (span : Span) :
    Writes [⟨kind, span⟩] kind.canonical where
  fixed := List.forall_mem_singleton.mpr hkind
  text := List.flatMap_singleton ..

theorem Writes.append {ts us : List Token} {text text' : String} (h : Writes ts text)
    (h' : Writes us text') : Writes (ts ++ us) (text ++ text') where
  fixed := List.forall_mem_append.mpr ⟨h.fixed, h'.fixed⟩
  text := by rw [List.flatMap_append, h.text, h'.text, String.toList_append]

theorem writesAt_token (kind : TokenKind) (hkind : kind.IsFixed) (span : Span) :
    WritesAt [⟨kind, span⟩] kind.canonical span where
  toWrites := writes_token kind hkind span
  nonempty := List.cons_ne_nil _ _
  span := (Span.merge_self span).symm

namespace Part

/-- The tokens of a part. -/
def SpelledBy : Part → List Token → Prop
  | .name x, ts => WritesAt ts x.value x.span
  | .type t, ts => WritesAt ts t.text t.span
  | .size n, ts => ts = [⟨.int n.value, n.span⟩]

/-- Some of the tokens in a row are those of a part. -/
def StandsIn (part : Part) (ts : List Token) : Prop :=
  ∃ us, us <:+: ts ∧ part.SpelledBy us

variable {part : Part} {ts us : List Token}

theorem StandsIn.mono (h : part.StandsIn ts) (hts : ts <:+: us) : part.StandsIn us := by
  rcases h with ⟨vs, hvs, hspelled⟩
  exact ⟨vs, hvs.trans hts, hspelled⟩

theorem StandsIn.left (h : part.StandsIn ts) (us : List Token) : part.StandsIn (ts ++ us) :=
  h.mono (List.prefix_append ts us).isInfix

theorem StandsIn.right (h : part.StandsIn us) (ts : List Token) : part.StandsIn (ts ++ us) :=
  h.mono (List.suffix_append ts us).isInfix

theorem StandsIn.cons (h : part.StandsIn ts) (t : Token) : part.StandsIn (t :: ts) :=
  h.mono (List.suffix_cons t ts).isInfix

theorem SpelledBy.standsIn (h : part.SpelledBy ts) : part.StandsIn ts :=
  ⟨ts, List.infix_rfl, h⟩

end Part

/-! ## Parts in the grammar -/

section Spelled

variable {ts rest : List Token}

theorem SpellsTypeName.writesAt {name : Ident} (h : SpellsTypeName ts name) :
    WritesAt ts name.value name.span := by
  cases h with
  | @ident name _ _ span => exact writesAt_token (.ident name) trivial span

theorem SpellsType.writesAt {t : TypeExpr} (h : SpellsType ts t) : WritesAt ts t.text t.span := by
  induction h with
  | named hname => exact hname.writesAt
  | @generic ts inner base arg opening closing hbase hinner ih =>
    have hopen : Writes (ts ++ [⟨.punctuation .leftBracket, opening⟩]) (base.value ++ "[") :=
      hbase.writesAt.append (writes_token (.punctuation .leftBracket) trivial opening)
    have hclose : Writes [⟨.punctuation .rightBracket, closing⟩] "]" :=
      writes_token (.punctuation .rightBracket) trivial closing
    have hwrites := (hopen.append ih.toWrites).append hclose
    rw [List.append_assoc ts] at hwrites
    refine ⟨hwrites, by simp, ?_⟩
    cases hbase with
    | ident =>
      rw [extent, List.getLast?_concat]
      rfl

theorem SpellsMethodName.writesAt {name : Ident} (h : SpellsMethodName ts name) :
    WritesAt ts name.value name.span := by
  have hmark (p : Punctuation) (span : Span) : Writes [⟨.punctuation p, span⟩] p.spelling :=
    writes_token (.punctuation p) trivial span
  have hequals (span : Span) : Writes [⟨.operator "=", span⟩] "=" :=
    writes_token (.operator "=") trivial span
  cases h with
  | @ident name span => exact writesAt_token (.ident name) trivial span
  | @setter name span eq =>
    have hname := writes_token (.ident name) trivial span
    exact ⟨hname.append (hequals eq), List.cons_ne_nil _ _, rfl⟩
  | @operator text span => exact writesAt_token (.operator text) trivial span
  | @index opening closing =>
    have hbrackets := (hmark .leftBracket opening).append (hmark .rightBracket closing)
    exact ⟨hbrackets, List.cons_ne_nil _ _, rfl⟩
  | @indexSetter opening closing eq =>
    have hbrackets := (hmark .leftBracket opening).append (hmark .rightBracket closing)
    exact ⟨hbrackets.append (hequals eq), List.cons_ne_nil _ _, rfl⟩

theorem SpellsTypeName.name_standsIn {name : Ident} (h : SpellsTypeName ts name) :
    (Part.name name).StandsIn ts :=
  Part.SpelledBy.standsIn h.writesAt

theorem SpellsType.parts_standIn {t : TypeExpr} (h : SpellsType ts t) :
    ∀ part ∈ t.parts, part.StandsIn ts := by
  have hwhole {ts : List Token} {t : TypeExpr} (h : SpellsType ts t) :
      (Part.type t).StandsIn ts :=
    Part.SpelledBy.standsIn h.writesAt
  induction h with
  | named hname => exact List.forall_mem_singleton.mpr (hwhole (.named hname))
  | @generic ts inner base arg opening closing hbase hinner ih =>
    refine List.forall_mem_cons.mpr ⟨?_, ?_⟩
    · exact hwhole (.generic hbase hinner)
    · intro part hpart
      exact (((ih part hpart).cons _).right ts).left _

theorem SpellsParameters.parts_standIn {ps : List Parameter} (h : SpellsParameters ts ps) :
    ∀ p ∈ ps, ∀ part ∈ p.type.parts, part.StandsIn ts := by
  have hparameter {ts : List Token} {p : Parameter} (h : SpellsParameter ts p) :
      ∀ part ∈ p.type.parts, part.StandsIn ts := by
    cases h with
    | typed htype =>
      intro part hpart
      exact ((htype.parts_standIn part hpart).cons _).cons _
  induction h with
  | last hp => exact List.forall_mem_singleton.mpr (hparameter hp)
  | @more ts us p ps comma hp _ ih =>
    refine List.forall_mem_cons.mpr ⟨?_, ?_⟩
    · exact fun part hpart => (hparameter hp part hpart).left _
    · exact fun q hq part hpart => ((ih q hq part hpart).cons _).right _

theorem SpellsSignature.parts_standIn {k : Keyword} {m : MethodDecl}
    (h : SpellsSignature k SpellsMethodName ts m) : ∀ part ∈ m.parts, part.StandsIn ts := by
  cases h with
  | @intro name parameters returns ns ps rs span hname hparameters hreturns =>
    have hns : (Part.name name).StandsIn ns := Part.SpelledBy.standsIn hname.writesAt
    have hps : ∀ p ∈ parameters, ∀ part ∈ p.type.parts, part.StandsIn ps := by
      cases hparameters with
      | absent | empty => exact List.forall_mem_nil _
      | parameters h =>
        intro p hp part hpart
        exact ((h.parts_standIn p hp part hpart).cons _).left _
    have hrs : ∀ t ∈ returns, ∀ part ∈ t.parts, part.StandsIn rs := by
      cases hreturns with
      | absent =>
        intro t ht
        cases ht
      | type h =>
        intro t ht part hpart
        rcases Option.some.inj ht with rfl
        exact (h.parts_standIn part hpart).cons _
    refine List.forall_mem_cons.mpr ⟨?_, ?_⟩
    · exact ((hns.left ps).left rs).cons _
    · intro part hpart
      rcases List.mem_flatMap.mp hpart with ⟨t, ht, hpart⟩
      rcases List.mem_append.mp ht with hparameter | hreturn
      · rcases List.mem_map.mp hparameter with ⟨p, hp, rfl⟩
        exact (((hps p hp part hpart).right ns).left rs).cons _
      · exact ((hrs t (Option.mem_toList.mp hreturn) part hpart).right (ns ++ ps)).cons _

theorem SpellsInclusion.name_standsIn {module : Ident} (h : SpellsInclusion ts module) :
    (Part.name module).StandsIn ts := by
  cases h with
  | intro hname => exact hname.name_standsIn.cons _

theorem SpellsMember.parts_standIn {m : Member} (h : SpellsMember ts m) :
    ∀ part ∈ m.parts, part.StandsIn ts := by
  cases h with
  | method h => exact h.parts_standIn
  | inclusion h => exact List.forall_mem_singleton.mpr h.name_standsIn

/-- The parts of a block are those of its header and those of its items. -/
theorem SpellsBlock.parts_standIn {α β : Type} {SpellsHeader : List Token → β → Prop}
    {SpellsItem : List Token → α → Prop} {headerParts : β → List Part} {itemParts : α → List Part}
    {b : β} {items : List (Located α)} (h : SpellsBlock SpellsHeader SpellsItem ts rest b items)
    (hheader : ∀ ts b, SpellsHeader ts b → ∀ part ∈ headerParts b, part.StandsIn ts)
    (hitem : ∀ ts a, SpellsItem ts a → ∀ part ∈ itemParts a, part.StandsIn ts) :
    ∀ part ∈ headerParts b ++ items.flatMap (fun item => itemParts item.value),
      part.StandsIn ts := by
  rcases h.exists_infix with ⟨⟨us, hus, hspells⟩, hitems⟩
  intro part hpart
  rcases List.mem_append.mp hpart with hpart | hpart
  · exact (hheader us b hspells part hpart).mono hus
  · rcases List.mem_flatMap.mp hpart with ⟨item, hmem, hpart⟩
    rcases hitems item hmem with ⟨vs, hvs, hspells⟩
    exact (hitem vs item.value hspells part hpart).mono hvs

theorem SpellsClassHeader.parts_standIn {x : Ident × Option Ident} (h : SpellsClassHeader ts x) :
    ∀ part ∈ Part.name x.1 :: x.2.toList.map .name, part.StandsIn ts := by
  cases h with
  | root hname => exact List.forall_mem_singleton.mpr (hname.name_standsIn.cons _)
  | inheriting hname hsuper =>
    refine List.forall_mem_cons.mpr ⟨?_, ?_⟩
    · exact (hname.name_standsIn.left _).cons _
    · exact List.forall_mem_singleton.mpr (((hsuper.name_standsIn.cons _).right _).cons _)

theorem SpellsModuleHeader.parts_standIn {name : Ident} (h : SpellsModuleHeader ts name) :
    ∀ part ∈ [Part.name name], part.StandsIn ts := by
  cases h with
  | intro hname => exact List.forall_mem_singleton.mpr (hname.name_standsIn.cons _)

theorem SpellsLibHeader.parts_standIn {x : Ident × Option (Located String)}
    (h : SpellsLibHeader ts x) : ∀ part ∈ [Part.name x.1], part.StandsIn ts := by
  cases h with
  | unlinked hname => exact List.forall_mem_singleton.mpr (hname.name_standsIn.cons _)
  | linked hname => exact List.forall_mem_singleton.mpr ((hname.name_standsIn.left _).cons _)

theorem SpellsPrimitive.parts_standIn {d : Declaration} (h : SpellsPrimitive ts d) :
    ∀ part ∈ d.parts, part.StandsIn ts := by
  cases h with
  | @intro ts us name superclass tag size span mark colon tagSpan sizeSpan hname hsuper =>
    have htag : (Part.name ⟨tag, tagSpan⟩).StandsIn
        [⟨.punctuation .colon, colon⟩, ⟨.ident tag, tagSpan⟩, ⟨.int size, sizeSpan⟩] := by
      have htoken : (Part.name ⟨tag, tagSpan⟩).SpelledBy [⟨.ident tag, tagSpan⟩] :=
        writesAt_token (.ident tag) trivial tagSpan
      exact (htoken.standsIn.left [⟨.int size, sizeSpan⟩]).cons _
    have hsize : (Part.size ⟨size, sizeSpan⟩).StandsIn
        [⟨.punctuation .colon, colon⟩, ⟨.ident tag, tagSpan⟩, ⟨.int size, sizeSpan⟩] := by
      have htoken : (Part.size ⟨size, sizeSpan⟩).SpelledBy [⟨.int size, sizeSpan⟩] := rfl
      exact (htoken.standsIn.cons _).cons _
    intro part hpart
    apply Part.StandsIn.cons
    simp only [Declaration.parts, List.mem_cons, List.not_mem_nil, or_false] at hpart
    rcases hpart with rfl | rfl | rfl | rfl
    · exact (hname.name_standsIn.left _).left _
    · exact ((hsuper.name_standsIn.cons _).right ts).left _
    · exact htag.right _
    · exact hsize.right _

theorem SpellsDeclaration.parts_standIn {d : Declaration} (h : SpellsDeclaration ts rest d) :
    ∀ part ∈ d.parts, part.StandsIn ts := by
  cases h with
  | classBlock h =>
    exact h.parts_standIn (fun _ _ h => h.parts_standIn) fun _ _ h => h.parts_standIn
  | moduleBlock h =>
    exact h.parts_standIn (fun _ _ h => h.parts_standIn) fun _ _ h => h.parts_standIn
  | libBlock h =>
    exact h.parts_standIn (fun _ _ h => h.parts_standIn) fun _ _ h => h.signature.parts_standIn
  | primitive h => exact fun part hpart => (h.parts_standIn part hpart).left _
  | method h => exact fun part hpart => (h.parts_standIn part hpart).left _
  | inclusion h => exact List.forall_mem_singleton.mpr (h.name_standsIn.left _)

end Spelled

/-! ## Parts in a source -/

/-- The tokens of a part cover a text of it. -/
theorem Part.SpelledBy.shownIn {part : Part} {cs : List Char} {front us more : List Token}
    (h : part.SpelledBy us) (hcs : Tokenizes 0 cs (front ++ (us ++ more))) : part.ShownIn cs := by
  have hwritten {text : String} {span : Span} (h : WritesAt us text span) :
      ∃ written, written ≠ [] ∧ span.Covers cs written ∧ withoutBlanks written = text.toList := by
    rcases hcs.exists_written h.nonempty h.fixed with ⟨written, hne, hcovers, htext⟩
    exact ⟨written, hne, h.span ▸ hcovers, htext.trans h.text⟩
  cases part with
  | name x => exact hwritten h
  | type t => exact hwritten h
  | size n =>
    have hus : us = [⟨.int n.value, n.span⟩] := h
    subst hus
    rcases hcs.laidOut.spelled [] rfl ⟨.int n.value, n.span⟩ (by simp) (by simp) with
      ⟨text, hcovers, htext⟩
    exact ⟨text, htext.ne_nil, hcovers, htext⟩

/-- Every part of a program that was read from a text has a text there, at its span. -/
theorem Program.shownIn_of_ofSource {source : String} {p : Program}
    (h : Program.ofSource source = .ok p) : ∀ part ∈ p.parts, part.ShownIn source.toList := by
  rcases tokenizes_of_ofSource h with ⟨tokens, hall, htokens⟩
  intro part hpart
  rcases List.mem_flatMap.mp hpart with ⟨d, hd, hpart⟩
  rcases (spells_of_ofTokens htokens).exists_slice d hd with
    ⟨front, us, more, hsplit, hdeclaration, -⟩
  rcases hdeclaration.parts_standIn part hpart with ⟨vs, ⟨before, after, rfl⟩, hspelled⟩
  have hwhole : tokens.takeWhile (·.value ≠ .eof) ++ tokens.dropWhile (·.value ≠ .eof) = tokens :=
    List.takeWhile_append_dropWhile
  rw [← hwhole, hsplit] at hall
  have hrow : Tokenizes 0 source.toList ((front ++ before) ++
      (vs ++ (after ++ more ++ tokens.dropWhile (·.value ≠ .eof)))) := by
    simpa only [List.append_assoc] using hall
  exact hspelled.shownIn hrow

end DeclLang
