import DeclLang.Proofs.Syntax.Files
import DeclLang.Proofs.Token.Lossless

/-!
# Names: the types that a program is about

Every type that a program names is one of the identifiers of its text, and no identifier has a
bracket in it (`Program.plain_of_ofSource`). Array instances have names with brackets, so no
program can declare a type with such a name, or refer to one otherwise than by its element.
-/

namespace DeclLang

/-! ## Names in the syntax -/

/-- Whether a name has no opening bracket in it. -/
def IsPlain (name : String) : Prop :=
  '[' ∉ name.toList

instance (name : String) : Decidable (IsPlain name) :=
  inferInstanceAs (Decidable ('[' ∉ name.toList))

namespace TypeExpr

/-- The names in a type, from the outermost base to the innermost argument. -/
def names : TypeExpr → List String
  | .named name => [name.value]
  | .generic base arg _ => base :: arg.names

end TypeExpr

namespace MethodDecl

/-- The types of a method, in the order in which they are resolved. -/
def types (m : MethodDecl) : List TypeExpr :=
  m.parameters.map (·.type) ++ m.returns.toList

def typeNames (m : MethodDecl) : List String :=
  m.types.flatMap (·.names)

end MethodDecl

def Member.typeNames : Member → List String
  | .method decl => decl.typeNames
  | .inclusion module => [module.value]

/-- All names of types in a declaration: of the one that it declares and of those that it needs. -/
def Declaration.typeNames : Declaration → List String
  | .classBlock name superclass members =>
    name.value :: superclass.toList.map (·.value) ++ members.flatMap (·.value.typeNames)
  | .moduleBlock name members => name.value :: members.flatMap (·.value.typeNames)
  | .libBlock name _ functions => name.value :: functions.flatMap (·.value.typeNames)
  | .primitive name superclass _ _ => [name.value, superclass.value]
  | .method decl => decl.typeNames
  | .inclusion module => [module.value]

namespace Program

/-- Whether all types that a program names have plain names. -/
def Plain (p : Program) : Prop :=
  ∀ d ∈ p, ∀ n ∈ d.value.typeNames, IsPlain n

instance (p : Program) : Decidable p.Plain :=
  inferInstanceAs (Decidable (∀ d ∈ p, ∀ n ∈ d.value.typeNames, IsPlain n))

end Program

/-! ## Names in the text -/

/-- The identifiers among some tokens. -/
def identNames (ts : List Token) : List String :=
  ts.filterMap LineParser.identName?

@[simp] theorem identNames_nil : identNames [] = [] := rfl

@[simp] theorem identNames_append (ts us : List Token) :
    identNames (ts ++ us) = identNames ts ++ identNames us :=
  List.filterMap_append

@[simp] theorem identNames_cons (t : Token) (ts : List Token) :
    identNames (t :: ts) = (LineParser.identName? t).toList ++ identNames ts := by
  rw [identNames, List.filterMap_cons]
  cases LineParser.identName? t <;> rfl

theorem singleton_subset_of_mem {α : Type} {a : α} {l : List α} (h : a ∈ l) : [a] ⊆ l :=
  List.cons_subset.mpr ⟨h, List.nil_subset l⟩

variable {ts rest : List Token}

theorem SpellsTypeName.names {name : Ident} (h : SpellsTypeName ts name) :
    name.value ∈ identNames ts := by
  cases h with
  | ident => exact List.mem_cons_self

theorem SpellsType.names {t : TypeExpr} (h : SpellsType ts t) : t.names ⊆ identNames ts := by
  induction h with
  | named hname => exact singleton_subset_of_mem hname.names
  | generic hbase _ ih =>
    have hbase := hbase.names
    simp only [TypeExpr.names, List.cons_subset, identNames_append, identNames_cons]
    grind

theorem SpellsParameters.names {ps : List Parameter} (h : SpellsParameters ts ps) :
    ps.flatMap (·.type.names) ⊆ identNames ts := by
  induction h with
  | last hp =>
    cases hp with
    | typed htype =>
      have htype := htype.names
      simp only [List.flatMap_singleton, identNames_cons]
      grind
  | more hp _ ih =>
    cases hp with
    | typed htype =>
      have htype := htype.names
      simp only [List.flatMap_cons, identNames_append, identNames_cons]
      grind

theorem SpellsSignature.names {k : Keyword} {SpellsName : List Token → Ident → Prop}
    {m : MethodDecl} (h : SpellsSignature k SpellsName ts m) : m.typeNames ⊆ identNames ts := by
  cases h with
  | @intro name parameters returns ns ps rs span hname hparameters hreturns =>
    have hps : parameters.flatMap (·.type.names) ⊆ identNames ps := by
      cases hparameters with
      | absent | empty => exact List.nil_subset _
      | parameters h =>
        have h := h.names
        simp only [identNames_append, identNames_cons]
        grind
    have hrs : returns.toList.flatMap (·.names) ⊆ identNames rs := by
      cases hreturns with
      | absent => exact List.nil_subset _
      | type h =>
        have h := h.names
        simp only [Option.toList_some, List.flatMap_singleton, identNames_cons]
        grind
    simp only [MethodDecl.typeNames, MethodDecl.types, List.flatMap_append, List.flatMap_map,
      identNames_append, identNames_cons]
    grind

theorem SpellsInclusion.names {module : Ident} (h : SpellsInclusion ts module) :
    module.value ∈ identNames ts := by
  cases h with
  | intro hname => exact hname.names

theorem SpellsMember.names {m : Member} (h : SpellsMember ts m) : m.typeNames ⊆ identNames ts := by
  cases h with
  | method h => exact h.names
  | inclusion h => exact singleton_subset_of_mem h.names

/-- Blank lines and line ends have no names, so those of a body are those of its items. -/
theorem SpellsBody.names {α : Type} {SpellsItem : List Token → α → Prop}
    {itemNames : α → List String}
    {items : List (Located α)} (h : SpellsBody SpellsItem ts rest items)
    (hitem : ∀ ts a, SpellsItem ts a → itemNames a ⊆ identNames ts) :
    items.flatMap (fun item => itemNames item.value) ⊆ identNames ts := by
  induction h with
  | nil => exact List.nil_subset _
  | blank _ ih => exact ih
  | item hspells _ _ ih =>
    have hitem := hitem _ _ hspells
    simp only [List.flatMap_cons, identNames_append]
    grind

theorem SpellsBlock.names {α β : Type} {SpellsHeader : List Token → β → Prop}
    {SpellsItem : List Token → α → Prop} {itemNames : α → List String}
    {headerNames : β → List String}
    {b : β} {items : List (Located α)} (h : SpellsBlock SpellsHeader SpellsItem ts rest b items)
    (hheader : ∀ ts b, SpellsHeader ts b → headerNames b ⊆ identNames ts)
    (hitem : ∀ ts a, SpellsItem ts a → itemNames a ⊆ identNames ts) :
    headerNames b ++ items.flatMap (fun item => itemNames item.value) ⊆ identNames ts := by
  cases h with
  | intro hspells _ hbody _ =>
    have hheader := hheader _ _ hspells
    have hbody := hbody.names hitem
    simp only [identNames_append, identNames_cons]
    grind

theorem SpellsClassHeader.names {x : Ident × Option Ident} (h : SpellsClassHeader ts x) :
    x.1.value :: x.2.toList.map (·.value) ⊆ identNames ts := by
  cases h with
  | root hname => exact singleton_subset_of_mem hname.names
  | inheriting hname hsuper =>
    have hname := hname.names
    have hsuper := hsuper.names
    simp only [identNames_append, identNames_cons]
    grind

theorem SpellsModuleHeader.names {name : Ident} (h : SpellsModuleHeader ts name) :
    [name.value] ⊆ identNames ts := by
  cases h with
  | intro hname => exact singleton_subset_of_mem hname.names

theorem SpellsLibHeader.names {x : Ident × Option (Located String)} (h : SpellsLibHeader ts x) :
    [x.1.value] ⊆ identNames ts := by
  cases h with
  | unlinked hname => exact singleton_subset_of_mem hname.names
  | linked hname =>
    have hname := hname.names
    simp only [identNames_append, identNames_cons]
    grind

theorem SpellsPrimitive.names {d : Declaration} (h : SpellsPrimitive ts d) :
    d.typeNames ⊆ identNames ts := by
  cases h with
  | intro hname hsuper =>
    have hname := hname.names
    have hsuper := hsuper.names
    simp only [Declaration.typeNames, identNames_append, identNames_cons]
    grind

theorem SpellsDeclaration.names {d : Declaration} (h : SpellsDeclaration ts rest d) :
    d.typeNames ⊆ identNames ts := by
  cases h with
  | classBlock h => exact h.names (fun _ _ => SpellsClassHeader.names) fun _ _ => SpellsMember.names
  | moduleBlock h =>
    exact h.names (fun _ _ => SpellsModuleHeader.names) fun _ _ => SpellsMember.names
  | libBlock h => exact h.names (fun _ _ => SpellsLibHeader.names) fun _ _ => SpellsSignature.names
  | primitive h =>
    have h := h.names
    rw [identNames_append]
    exact List.subset_append_of_subset_left _ h
  | method h =>
    have h := h.names
    rw [identNames_append]
    exact List.subset_append_of_subset_left _ h
  | inclusion h =>
    rw [identNames_append]
    exact singleton_subset_of_mem (List.mem_append_left _ h.names)

theorem SpellsProgram.names {p : Program} (h : SpellsProgram ts p) :
    ∀ d ∈ p, d.value.typeNames ⊆ identNames ts := by
  induction h with
  | nil => exact List.forall_mem_nil _
  | blank _ ih => exact ih
  | declaration hd _ ih =>
    have hd := hd.names
    rw [identNames_append]
    refine List.forall_mem_cons.mpr ⟨List.subset_append_of_subset_left _ hd, fun d hmem => ?_⟩
    exact List.subset_append_of_subset_right _ (ih d hmem)

/-! ## Programs that are read from a text -/

/-- No identifier has a bracket in it. -/
theorem IsIdentifier.isPlain {name : String} (h : IsIdentifier name.toList) : IsPlain name := by
  obtain ⟨letters, suffix, htext, ⟨c, cs, rfl, hc, hcs⟩, hsuffix⟩ := h
  have hbracket : ¬ isIdentStart '[' = true ∧ ¬ isIdentRest '[' = true ∧
      ∀ suffix ∈ [[], ['?'], ['!']], '[' ∉ suffix := by decide
  unfold IsPlain
  rw [htext]
  intro hmem
  obtain hmem | hmem := List.mem_append.mp hmem
  · obtain rfl | hmem := List.mem_cons.mp hmem
    · exact hbracket.1 hc
    · exact hbracket.2.1 (hcs _ hmem)
  · exact hbracket.2.2 suffix hsuffix hmem

theorem isPlain_of_lex {source : String} {tokens : List Token} (h : lex source = .ok tokens) :
    ∀ n ∈ identNames tokens, IsPlain n := by
  intro n hn
  obtain ⟨t, ht, hname⟩ := List.mem_filterMap.mp hn
  have hvalue := LineParser.identName?_eq_some.mp hname
  obtain ⟨text, -, hspells⟩ := (laidOut_of_lex h).spelled [] rfl t ht (by rw [hvalue]; simp)
  rw [hvalue] at hspells
  cases hspells with
  | ident _ hname => exact hname.isPlain

theorem Program.names_of_ofTokens {ts : List Token} {p : Program}
    (h : Program.ofTokens ts = .ok p) :
    ∀ d ∈ p, d.value.typeNames ⊆ identNames ts := by
  intro d hd n hn
  -- The identifiers before the end of the file are among all of them.
  exact (List.takeWhile_sublist _).filterMap _ |>.subset ((spells_of_ofTokens h).names d hd hn)

/-- All types that a program names have plain names, if the program was read from a text. -/
theorem Program.plain_of_ofSource {source : String} {p : Program}
    (h : Program.ofSource source = .ok p) : p.Plain := by
  have ⟨tokens, hlex, htokens⟩ := ofSource_eq_ok h
  intro d hd n hn
  exact isPlain_of_lex hlex n (names_of_ofTokens htokens d hd hn)

end DeclLang
