import DeclLang.Proofs.Syntax.Literals
import DeclLang.Proofs.Syntax.Parts

/-!
# Nesting: the spans of a program are those of its tree

The parts of a declaration stand inside its span, one behind the other, and so do the parts of its
members, of their parameters and of their types. All of this comes from the tokens, which stand one
behind the other in their text (`LaidOut.row`): a phrase that takes the tokens from one offset to
another one has the spans of its parts between the two (`Follow`). The main statement is
`Program.nested_of_ofSource`.
-/

namespace DeclLang

/-! ## Spans in a row -/

/-- Spans that stand inside another one, none of them empty, and one behind the other. -/
structure Span.Holds (outer : Span) (inner : List Span) : Prop where
  nonempty : ∀ s ∈ inner, s.start < s.stop
  inside : ∀ s ∈ inner, outer.start ≤ s.start ∧ s.stop ≤ outer.stop
  ordered : inner.Pairwise fun s t => s.stop ≤ t.start

/-- The same, read from the left: each span starts behind the one before it. -/
def Follow : Nat → List Span → Nat → Prop
  | first, [], last => first ≤ last
  | first, s :: ss, last => first ≤ s.start ∧ s.start < s.stop ∧ Follow s.stop ss last

section Follow

variable {first last : Nat} {ss us : List Span}

theorem Follow.le (h : Follow first ss last) : first ≤ last := by
  induction ss generalizing first with
  | nil => exact h
  | cons s ss ih =>
    obtain ⟨hstart, hpos, hrest⟩ := h
    have hle := ih hrest
    omega

theorem follow_append :
    Follow first (ss ++ us) last ↔ ∃ mid, Follow first ss mid ∧ Follow mid us last := by
  induction ss generalizing first with
  | nil =>
    constructor
    · exact fun h => ⟨first, Nat.le_refl first, h⟩
    · rintro ⟨mid, hmid, h⟩
      cases us with
      | nil => exact Nat.le_trans hmid h
      | cons u us => exact ⟨Nat.le_trans hmid h.1, h.2⟩
  | cons s ss ih =>
    simp only [List.cons_append, Follow, ih]
    grind

theorem Follow.append {mid : Nat} (h : Follow first ss mid) (h' : Follow mid us last) :
    Follow first (ss ++ us) last :=
  follow_append.mpr ⟨mid, h, h'⟩

theorem follow_singleton {s : Span} :
    Follow first [s] last ↔ first ≤ s.start ∧ s.start < s.stop ∧ s.stop ≤ last := Iff.rfl

/-- Something may stand before some spans or behind them. -/
theorem Follow.mono {first' last' : Nat} (h : Follow first ss last) (hfirst : first' ≤ first)
    (hlast : last ≤ last') : Follow first' ss last' := by
  have hbefore : Follow first' [] first := hfirst
  have hbehind : Follow last [] last' := hlast
  have hspans := (hbefore.append h).append hbehind
  rwa [List.nil_append, List.append_nil] at hspans

theorem Follow.holds (h : Follow first ss last) : Span.Holds ⟨first, last⟩ ss := by
  induction ss generalizing first with
  | nil => exact ⟨List.forall_mem_nil _, List.forall_mem_nil _, .nil⟩
  | cons s ss ih =>
    obtain ⟨hstart, hpos, hrest⟩ := h
    have htail := ih hrest
    have hle := hrest.le
    refine ⟨?_, ?_, ?_⟩
    · exact List.forall_mem_cons.mpr ⟨hpos, htail.nonempty⟩
    · refine List.forall_mem_cons.mpr ⟨⟨hstart, hle⟩, fun t ht => ?_⟩
      obtain ⟨hafter, hbefore⟩ : s.stop ≤ t.start ∧ t.stop ≤ last := htail.inside t ht
      exact ⟨by show first ≤ t.start; omega, hbefore⟩
    · exact List.pairwise_cons.mpr ⟨fun t ht => (htail.inside t ht).1, htail.ordered⟩

end Follow

/-! ## Tokens in a row -/

/-- Tokens that stand one behind the other between two offsets. -/
def Row (first : Nat) (ts : List Token) (last : Nat) : Prop :=
  Follow first (ts.map (·.span)) last

section Row

variable {first last : Nat} {ts us : List Token} {t : Token}

theorem row_cons : Row first (t :: ts) last ↔
    first ≤ t.span.start ∧ t.span.start < t.span.stop ∧ Row t.span.stop ts last := Iff.rfl

theorem row_append :
    Row first (ts ++ us) last ↔ ∃ mid, Row first ts mid ∧ Row mid us last := by
  unfold Row
  rw [List.map_append, follow_append]

theorem Row.tail (h : Row first (t :: ts) last) : Row first ts last := by
  obtain ⟨hstart, hpos, hrest⟩ := row_cons.mp h
  exact Follow.mono hrest (by omega) (Nat.le_refl _)

/-- A row of tokens starts with the first of them and ends with the last. -/
theorem Row.extent (h : Row first ts last) (hne : ts ≠ []) :
    Follow first [extent ts] last ∧ Row (extent ts).start ts (extent ts).stop := by
  obtain ⟨t, us, rfl⟩ := List.exists_cons_of_ne_nil hne
  obtain ⟨hstart, hpos, hrest⟩ := row_cons.mp h
  rcases List.eq_nil_or_concat us with rfl | ⟨init, u, rfl⟩
  · have hextent : DeclLang.extent [t] = t.span := Span.merge_self t.span
    rw [hextent]
    exact ⟨⟨hstart, hpos, hrest⟩, ⟨Nat.le_refl _, hpos, Nat.le_refl _⟩⟩
  · rw [List.concat_eq_append] at hrest ⊢
    obtain ⟨mid, hinit, hend⟩ := row_append.mp hrest
    obtain ⟨hmid, hlast, hstop⟩ := row_cons.mp hend
    have hinner : t.span.stop ≤ mid := hinit.le
    have hextent : DeclLang.extent (t :: (init ++ [u])) = ⟨t.span.start, u.span.stop⟩ := by
      rw [extent_eq rfl (by rw [← List.cons_append, List.getLast?_concat]), Span.merge]
      congr 1
      · exact Nat.min_eq_left (by omega)
      · exact Nat.max_eq_right (by omega)
    have hrow : Row mid [u] u.span.stop := ⟨hmid, hlast, Nat.le_refl _⟩
    rw [hextent]
    refine ⟨⟨hstart, ?_, hstop⟩, Nat.le_refl _, hpos, row_append.mpr ⟨mid, hinit, hrow⟩⟩
    show t.span.start < u.span.stop
    omega

theorem WritesAt.follow {text : String} {span : Span} (h : WritesAt ts text span)
    (hrow : Row first ts last) : Follow first [span] last := by
  rw [h.span]
  exact (hrow.extent h.nonempty).1

end Row

/-! ## Trees -/

/-- Every argument of a generic type stands strictly inside of the type. -/
def TypeExpr.Nested : TypeExpr → Prop
  | .named _ => True
  | .generic _ arg span =>
    span.start < arg.span.start ∧ arg.span.stop < span.stop ∧ arg.Nested

/-- A parameter holds its type. -/
def Parameter.Nested (p : Parameter) : Prop :=
  p.span.Holds [p.type.span] ∧ p.type.Nested

/-- The parts of a method, in the order of the text. -/
def MethodDecl.spans (m : MethodDecl) : List Span :=
  m.name.span :: m.parameters.map (·.span) ++ m.returns.toList.map (·.span)

def MethodDecl.Nested (m : MethodDecl) : Prop :=
  (∀ p ∈ m.parameters, p.Nested) ∧ ∀ t ∈ m.returns, t.Nested

def Member.spans : Member → List Span
  | .method decl => decl.spans
  | .inclusion module => [module.span]

def Member.Nested : Member → Prop
  | .method decl => decl.Nested
  | .inclusion _ => True

/-- Something with parts, which stand inside its span and are well nested themselves. -/
def Located.Nested {α : Type} (spans : α → List Span) (Nested : α → Prop) (x : Located α) : Prop :=
  x.span.Holds (spans x.value) ∧ Nested x.value

/-- The parts of a declaration, in the order of the text. -/
def Declaration.spans : Declaration → List Span
  | .classBlock name superclass members =>
    name.span :: superclass.toList.map (·.span) ++ members.map (·.span)
  | .moduleBlock name members => name.span :: members.map (·.span)
  | .libBlock name libname functions =>
    name.span :: libname.toList.map (·.span) ++ functions.map (·.span)
  | .primitive name superclass repr size =>
    [name.span, superclass.span, repr.span, size.span]
  | .method decl => decl.spans
  | .inclusion module => [module.span]

def Declaration.Nested : Declaration → Prop
  | .classBlock _ _ members => ∀ m ∈ members, m.Nested Member.spans Member.Nested
  | .moduleBlock _ members => ∀ m ∈ members, m.Nested Member.spans Member.Nested
  | .libBlock _ _ functions => ∀ f ∈ functions, f.Nested MethodDecl.spans MethodDecl.Nested
  | .method decl => decl.Nested
  | .primitive .. | .inclusion _ => True

/-- The declarations of a program stand one behind the other in their text. -/
def Program.Nested (p : Program) (whole : Span) : Prop :=
  whole.Holds (p.map (·.span)) ∧ ∀ d ∈ p, d.Nested Declaration.spans Declaration.Nested

/-! ## Phrases -/

section Phrases

variable {first last : Nat} {ts rest : List Token}

theorem SpellsTypeName.follow {name : Ident} (h : SpellsTypeName ts name)
    (hrow : Row first ts last) : Follow first [name.span] last :=
  h.writesAt.follow hrow

theorem SpellsType.follow {t : TypeExpr} (h : SpellsType ts t) (hrow : Row first ts last) :
    Follow first [t.span] last :=
  h.writesAt.follow hrow

theorem SpellsType.nested {t : TypeExpr} (h : SpellsType ts t) (hrow : Row first ts last) :
    t.Nested := by
  induction h generalizing first last with
  | named => trivial
  | @generic ts inner base arg opening closing hbase hinner ih =>
    obtain ⟨mid, hfront, hclosing⟩ := row_append.mp hrow
    obtain ⟨opened, hname, hopening⟩ := row_append.mp hfront
    obtain ⟨hopen, hbracket, harg⟩ := row_cons.mp hopening
    obtain ⟨hclose, hbracket', -⟩ := row_cons.mp hclosing
    obtain ⟨-, hpos, hstop⟩ := follow_singleton.mp (hbase.follow hname)
    obtain ⟨hstart, -, hend⟩ := follow_singleton.mp (hinner.follow harg)
    dsimp only at hopen hbracket hclose hbracket' hstart
    refine ⟨?_, ?_, ih harg⟩
    · -- The name starts before the bracket.
      show min base.span.start closing.start < arg.span.start
      exact Nat.lt_of_le_of_lt (Nat.min_le_left _ _) (by omega)
    · show arg.span.stop < max base.span.stop closing.stop
      exact Nat.lt_of_lt_of_le (by omega) (Nat.le_max_right _ _)

theorem SpellsParameter.nested {p : Parameter} (h : SpellsParameter ts p)
    (hrow : Row first ts last) : Follow first [p.span] last ∧ p.Nested := by
  cases h with
  | @typed name type ts span colon htype =>
    obtain ⟨hstart, hpos, hrest⟩ := row_cons.mp hrow
    obtain ⟨hcolon, hpos', htokens⟩ := row_cons.mp hrest
    obtain ⟨hafter, htype', hlast⟩ := follow_singleton.mp (htype.follow htokens)
    dsimp only at hstart hpos hcolon hpos' hafter
    have hspan : span.merge type.span = ⟨span.start, type.span.stop⟩ := by
      unfold Span.merge
      congr 1
      · exact Nat.min_eq_left (by omega)
      · exact Nat.max_eq_right (by omega)
    unfold Parameter.Nested
    rw [hspan]
    refine ⟨⟨hstart, ?_, hlast⟩, ?_, htype.nested htokens⟩
    · show span.start < type.span.stop
      omega
    · exact Follow.holds ⟨by show span.start ≤ type.span.start; omega, htype', Nat.le_refl _⟩

theorem SpellsParameters.nested {ps : List Parameter} (h : SpellsParameters ts ps)
    (hrow : Row first ts last) :
    Follow first (ps.map (·.span)) last ∧ ∀ p ∈ ps, p.Nested := by
  induction h generalizing first with
  | last hp =>
    obtain ⟨hspan, hnested⟩ := hp.nested hrow
    exact ⟨hspan, List.forall_mem_singleton.mpr hnested⟩
  | more hp _ ih =>
    obtain ⟨mid, hfirst, hmore⟩ := row_append.mp hrow
    obtain ⟨hspan, hnested⟩ := hp.nested hfirst
    obtain ⟨hspans, hall⟩ := ih hmore.tail
    exact ⟨hspan.append hspans, List.forall_mem_cons.mpr ⟨hnested, hall⟩⟩

theorem SpellsParameterList.nested {ps : List Parameter} (h : SpellsParameterList ts ps)
    (hrow : Row first ts last) :
    Follow first (ps.map (·.span)) last ∧ ∀ p ∈ ps, p.Nested := by
  cases h with
  | absent => exact ⟨hrow, List.forall_mem_nil _⟩
  | empty => exact ⟨hrow.tail.tail, List.forall_mem_nil _⟩
  | parameters hps =>
    obtain ⟨mid, hopened, hclosing⟩ := row_append.mp hrow
    obtain ⟨hspans, hall⟩ := hps.nested hopened.tail
    exact ⟨hspans.mono (Nat.le_refl _) hclosing.le, hall⟩

theorem SpellsReturn.nested {t : Option TypeExpr} (h : SpellsReturn ts t)
    (hrow : Row first ts last) :
    Follow first (t.toList.map (·.span)) last ∧ ∀ u ∈ t, u.Nested := by
  cases h with
  | absent => exact ⟨hrow, fun u hu => by cases hu⟩
  | type htype =>
    refine ⟨htype.follow hrow.tail, fun u hu => ?_⟩
    obtain rfl := Option.some.inj hu
    exact htype.nested hrow.tail

theorem SpellsSignature.nested {k : Keyword} {m : MethodDecl}
    (h : SpellsSignature k SpellsMethodName ts m) (hrow : Row first ts last) :
    Follow first m.spans last ∧ m.Nested := by
  cases h with
  | intro hname hparameters hreturns =>
    obtain ⟨mid, hfront, hrs⟩ := row_append.mp hrow.tail
    obtain ⟨named, hns, hps⟩ := row_append.mp hfront
    obtain ⟨hspans, hall⟩ := hparameters.nested hps
    obtain ⟨hreturn, hreturned⟩ := hreturns.nested hrs
    exact ⟨((hname.writesAt.follow hns).append hspans).append hreturn, hall, hreturned⟩

theorem SpellsInclusion.follow {module : Ident} (h : SpellsInclusion ts module)
    (hrow : Row first ts last) : Follow first [module.span] last := by
  cases h with
  | intro hname => exact hname.follow hrow.tail

theorem SpellsMember.nested {m : Member} (h : SpellsMember ts m) (hrow : Row first ts last) :
    Follow first m.spans last ∧ m.Nested := by
  cases h with
  | method hm => exact hm.nested hrow
  | inclusion hm => exact ⟨hm.follow hrow, trivial⟩

theorem SpellsFunction.nested {m : MethodDecl} (h : SpellsFunction ts m)
    (hrow : Row first ts last) : Follow first m.spans last ∧ m.Nested :=
  h.signature.nested hrow

theorem SpellsClassHeader.follow {x : Ident × Option Ident} (h : SpellsClassHeader ts x)
    (hrow : Row first ts last) :
    Follow first (x.1.span :: x.2.toList.map (·.span)) last := by
  cases h with
  | root hname => exact hname.follow hrow.tail
  | inheriting hname hsuper =>
    obtain ⟨mid, hns, hrest⟩ := row_append.mp hrow.tail
    exact (hname.follow hns).append (hsuper.follow hrest.tail)

theorem SpellsModuleHeader.follow {name : Ident} (h : SpellsModuleHeader ts name)
    (hrow : Row first ts last) : Follow first [name.span] last := by
  cases h with
  | intro hname => exact hname.follow hrow.tail

theorem SpellsLibHeader.follow {x : Ident × Option (Located String)} (h : SpellsLibHeader ts x)
    (hrow : Row first ts last) :
    Follow first (x.1.span :: x.2.toList.map (·.span)) last := by
  cases h with
  | unlinked hname => exact hname.follow hrow.tail
  | @linked ts name libname span opening at_ closing hname =>
    obtain ⟨mid, hns, hrest⟩ := row_append.mp hrow.tail
    have hbehind : Row mid ([⟨.string libname, at_⟩] ++ _) last := hrest.tail
    obtain ⟨named, hliteral, hclosing⟩ := row_append.mp hbehind
    exact (hname.follow hns).append (Follow.mono hliteral (Nat.le_refl _) hclosing.le)

theorem SpellsPrimitive.nested {d : Declaration} (h : SpellsPrimitive ts d)
    (hrow : Row first ts last) : Follow first d.spans last ∧ d.Nested := by
  cases h with
  | intro hname hsuper =>
    obtain ⟨mid, hfront, hrest⟩ := row_append.mp hrow.tail
    obtain ⟨named, hns, hss⟩ := row_append.mp hfront
    exact ⟨((hname.follow hns).append (hsuper.follow hss.tail)).append hrest.tail, trivial⟩

/-- The line of a phrase, in which the parts of the phrase stand. -/
theorem Row.line {ending : List Token} {ss : List Span} (hrow : Row first (ts ++ ending) last)
    (hne : ts ≠ []) (hss : ∀ {first last : Nat}, Row first ts last → Follow first ss last) :
    Follow first [DeclLang.extent (ts ++ ending)] last ∧
      (DeclLang.extent (ts ++ ending)).Holds ss := by
  obtain ⟨hspan, hline⟩ := hrow.extent (List.append_ne_nil_of_left_ne_nil hne ending)
  obtain ⟨mid, hts, hending⟩ := row_append.mp hline
  exact ⟨hspan, ((hss hts).mono (Nat.le_refl _) hending.le).holds⟩

end Phrases

/-! ## Blocks and files -/

section Blocks

variable {α β : Type} {SpellsItem : List Token → α → Prop} {SpellsHeader : List Token → β → Prop}
  {spans : α → List Span} {Nested : α → Prop} {first last : Nat} {ts rest : List Token}
  {items : List (Located α)}

/-- The items of a body stand one behind the other, on lines that hold their parts. -/
theorem SpellsBody.nested (hfills : FillsLine SpellsItem)
    (hitem : ∀ {us a first last}, SpellsItem us a → Row first us last →
      Follow first (spans a) last ∧ Nested a)
    (h : SpellsBody SpellsItem ts rest items) (hrow : Row first ts last) :
    Follow first (items.map (·.span)) last ∧ ∀ item ∈ items, item.Nested spans Nested := by
  induction h generalizing first with
  | nil => exact ⟨hrow, List.forall_mem_nil _⟩
  | blank _ ih => exact ih hrow.tail
  | @item ts ending us rest a items hspells _ _ ih =>
    obtain ⟨mid, hline, hus⟩ := row_append.mp hrow
    obtain ⟨hspans, hall⟩ := ih hus
    obtain ⟨k, -, hopens⟩ := hfills.opens hspells
    have hne : ts ≠ [] := by
      rintro rfl
      cases hopens
    obtain ⟨hspan, hholds⟩ := hline.line hne fun hts => (hitem hspells hts).1
    obtain ⟨front, hts, -⟩ := row_append.mp hline
    refine ⟨hspan.append hspans, List.forall_mem_cons.mpr ⟨⟨hholds, ?_⟩, hall⟩⟩
    exact (hitem hspells hts).2

theorem SpellsBlock.nested (hfills : FillsLine SpellsItem)
    (hitem : ∀ {us a first last}, SpellsItem us a → Row first us last →
      Follow first (spans a) last ∧ Nested a)
    {headerSpans : List Span} {b : β}
    (hheader : ∀ {us first last}, SpellsHeader us b → Row first us last →
      Follow first headerSpans last)
    (h : SpellsBlock SpellsHeader SpellsItem ts rest b items) (hrow : Row first ts last) :
    Follow first (headerSpans ++ items.map (·.span)) last ∧
      ∀ item ∈ items, item.Nested spans Nested := by
  cases h with
  | intro hspells hending hbody hending' =>
    obtain ⟨mid, hopened, hclosing⟩ := row_append.mp hrow
    obtain ⟨top, hline, hlines⟩ := row_append.mp hopened
    obtain ⟨named, hfirst, hend⟩ := row_append.mp hline
    obtain ⟨hspans, hall⟩ := hbody.nested hfills hitem hlines
    have hfront := (hheader hspells hfirst).mono (Nat.le_refl _) hend.le
    exact ⟨(hfront.append hspans).mono (Nat.le_refl _) hclosing.le, hall⟩

end Blocks

section Files

variable {first last : Nat} {ts rest : List Token}

theorem SpellsDeclaration.nested {d : Declaration} (h : SpellsDeclaration ts rest d)
    (hrow : Row first ts last) : Follow first d.spans last ∧ d.Nested := by
  cases h with
  | classBlock h =>
    exact h.nested fillsLine_member (fun h => h.nested) (fun h => h.follow) hrow
  | moduleBlock h =>
    exact h.nested fillsLine_member (fun h => h.nested) (fun h => h.follow) hrow
  | libBlock h =>
    exact h.nested fillsLine_function (fun h => h.nested) (fun h => h.follow) hrow
  | primitive h _ =>
    obtain ⟨mid, hts, hending⟩ := row_append.mp hrow
    obtain ⟨hspans, hnested⟩ := h.nested hts
    exact ⟨hspans.mono (Nat.le_refl _) hending.le, hnested⟩
  | method h _ =>
    obtain ⟨mid, hts, hending⟩ := row_append.mp hrow
    obtain ⟨hspans, hnested⟩ := h.nested hts
    exact ⟨hspans.mono (Nat.le_refl _) hending.le, hnested⟩
  | inclusion h _ =>
    obtain ⟨mid, hts, hending⟩ := row_append.mp hrow
    exact ⟨(h.follow hts).mono (Nat.le_refl _) hending.le, trivial⟩

theorem SpellsProgram.nested {p : Program} (h : SpellsProgram ts p) (hrow : Row first ts last) :
    Follow first (p.map (·.span)) last ∧
      ∀ d ∈ p, d.Nested Declaration.spans Declaration.Nested := by
  induction h generalizing first with
  | nil => exact ⟨hrow, List.forall_mem_nil _⟩
  | blank _ ih => exact ih hrow.tail
  | declaration hd _ ih =>
    obtain ⟨mid, hts, hrest⟩ := row_append.mp hrow
    obtain ⟨hspans, hall⟩ := ih hrest
    obtain ⟨hspan, hinner⟩ := hts.extent hd.ne_nil
    obtain ⟨hholds, hnested⟩ := hd.nested hinner
    exact ⟨hspan.append hspans, List.forall_mem_cons.mpr ⟨⟨hholds.holds, hnested⟩, hall⟩⟩

end Files

/-! ## Texts -/

/-- The tokens of a text stand one behind the other in it. -/
theorem LaidOut.row {pos : Nat} {cs : List Char} {ts : List Token} (h : LaidOut pos cs ts) :
    Row pos (ts.takeWhile (·.value ≠ .eof)) (pos + utf8Length cs) := by
  induction h with
  | finish => exact Nat.le_add_right _ _
  | @token pos gap text rest kind ts _ htext _ _ ih =>
    have hwidth := utf8Length_pos htext.ne_nil
    rw [List.takeWhile_cons_of_pos (by simpa using htext.ne_eof)]
    refine ⟨Nat.le_add_right _ _, ?_, ?_⟩
    · show pos + utf8Length gap < pos + utf8Length gap + utf8Length text
      omega
    · rw [utf8Length_append, utf8Length_append, ← Nat.add_assoc, ← Nat.add_assoc]
      exact ih

/-- In a program that is read from a text, the declarations stand one behind the other, and each of
    them holds its parts, down to the types. At the spans of its names and types their text is
    found, and at those of its library names a literal. -/
theorem Program.nested_of_ofSource {source : String} {p : Program}
    (h : Program.ofSource source = .ok p) :
    p.Nested ⟨0, source.utf8ByteSize⟩ ∧ (∀ part ∈ p.parts, part.ShownIn source.toList) ∧
      ∀ literal ∈ p.libnames, Quotes source literal := by
  obtain ⟨tokens, hall, htokens⟩ := tokenizes_of_ofSource h
  have hrow := hall.laidOut.row
  rw [Nat.zero_add, utf8Length_toList] at hrow
  obtain ⟨hspans, hnested⟩ := (spells_of_ofTokens htokens).nested hrow
  obtain ⟨-, -, -, hquotes, -⟩ := Program.libnames_of_ofSource h
  exact ⟨⟨hspans.holds, hnested⟩, Program.shownIn_of_ofSource h, hquotes⟩

/-- A module with an indexer, whose name is written with a blank, and a library at the end of the
    file. -/
theorem Program.nested_of_ofSource_indexer :
    let source := "module Ring\n  def [ ]=(at: Array[Ring])\nend\nlib Lm (\"m\")\nend"
    let at_ : Parameter :=
      ⟨"at", .generic "Array" (.named ⟨"Ring", ⟨33, 37⟩⟩) ⟨27, 38⟩, ⟨23, 38⟩⟩
    let p : Program :=
      [⟨.moduleBlock ⟨"Ring", ⟨7, 11⟩⟩ [⟨.method ⟨⟨"[]=", ⟨18, 22⟩⟩, [at_], none⟩, ⟨14, 40⟩⟩],
          ⟨0, 44⟩⟩,
        ⟨.libBlock ⟨"Lm", ⟨48, 50⟩⟩ (some ⟨"m", ⟨52, 55⟩⟩) [], ⟨44, 60⟩⟩]
    Program.ofSource source = .ok p ∧ p.Nested ⟨0, source.utf8ByteSize⟩ ∧
      (∀ part ∈ p.parts, part.ShownIn source.toList) ∧
      ∀ literal ∈ p.libnames, Quotes source literal := by
  intro source at_ p
  have hsource : Program.ofSource source = .ok p :=
    ofSource_of_parsed ⟨p, []⟩ (by decide +kernel) (by decide +kernel)
  exact ⟨hsource, Program.nested_of_ofSource hsource⟩

end DeclLang
