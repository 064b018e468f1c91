import DeclLang.Proofs.Collection.Legible
import DeclLang.Proofs.Token.Printing
import DeclLang.Registry.Description

/-!
# Printing signatures: what is described is read back

In a legible registry the name of every type is a type expression that stands for it, that of an
instance as well (`Legible.prints_nameOf`). So a signature that an owner has is described by a text
that is read as one method with the same names, whose types are there already
(`ofSource_describeMethod`).
-/

namespace DeclLang

/-! ## Names -/

theorem IsName.spells {name : String} (h : IsName name) : Spells name.toList (.ident name) :=
  .ident name h.identifier h.free

theorem IsTypeName.prints {name : String} (h : IsTypeName name) :
    Prints name.toList fun us => ∃ span, SpellsTypeName us ⟨name, span⟩ := by
  obtain ⟨c, cs, htext, hlow, hhigh⟩ := h.upper
  exact Prints.token h.toIsName.spells fun span => ⟨span, .ident htext hlow hhigh⟩

theorem spells_eq : Spells ['='] (.operator "=") :=
  .operator "=" (by decide) (forall_mem_of_all (by decide))

/-- The `=` of a setter touches the name before it, and does not go on with it. -/
theorem prints_setter {name : String} (h : IsName name) (hunsuffixed : IsUnsuffixed name) :
    Prints (name ++ "=").toList fun us => ∃ span, SpellsMethodName us ⟨name ++ "=", span⟩ := by
  intro pos rest ts hbreaks hrest
  rw [String.toList_append, utf8Length_append, ← Nat.add_assoc] at hrest
  have heq := Tokenizes.token spells_eq (hbreaks.stops _) hrest
  have hends : EndsWord ('=' :: rest) := by
    refine ⟨fun c hc => ?_, rfl⟩
    obtain rfl := Option.some.inj hc
    decide
  have hname := Tokenizes.token h.spells (.inl ⟨hunsuffixed, hends⟩) heq
  rw [String.toList_append, List.append_assoc]
  exact ⟨[_, _], ⟨_, .setter (by rfl)⟩, hname⟩

theorem IsMethodName.prints {name : String} (h : IsMethodName name) :
    Prints name.toList fun us => ∃ span, SpellsMethodName us ⟨name, span⟩ := by
  cases h with
  | ident h => exact Prints.token h.spells fun span => ⟨span, .ident⟩
  | operator hne hchars =>
    exact Prints.token (.operator name hne hchars) fun span => ⟨span, .operator⟩
  | setter h hunsuffixed => exact prints_setter h hunsuffixed
  | index =>
    have hclosing : Prints [']'] fun us => ∀ opening, ∃ span,
        SpellsMethodName (⟨.punctuation .leftBracket, opening⟩ :: us) ⟨"[]", span⟩ :=
      Prints.token (.punctuation .rightBracket) fun closing opening => ⟨_, .index⟩
    exact Prints.mark .leftBracket hclosing fun us opening hus => hus opening
  | indexSetter =>
    have heq : Prints ['='] fun us => ∀ opening closing, ∃ span,
        SpellsMethodName (⟨.punctuation .leftBracket, opening⟩ ::
          ⟨.punctuation .rightBracket, closing⟩ :: us) ⟨"[]=", span⟩ :=
      Prints.token spells_eq fun eq opening closing => ⟨_, .indexSetter⟩
    have hclosing : Prints [']', '='] fun us => ∀ opening, ∃ span,
        SpellsMethodName (⟨.punctuation .leftBracket, opening⟩ :: us) ⟨"[]=", span⟩ :=
      Prints.mark .rightBracket heq fun us closing hus opening => hus opening closing
    exact Prints.mark .leftBracket hclosing fun us opening hus => hus opening

namespace Registry

variable {r : Registry}

/-! ## Types -/

/-- Tokens of a type expression that stands for a type. -/
def ReadsType (r : Registry) (id : TypeId) (us : List Token) : Prop :=
  ∃ t, SpellsType us t ∧ r.typeOf? t = some id

theorem Legible.prints_name (h : r.Legible) {id : TypeId} {e : Entry} (he : r.get? id = some e)
    (hname : IsTypeName e.name) : Prints e.name.toList (r.ReadsType id) := by
  refine hname.prints.mono fun us hus => ?_
  obtain ⟨span, hspells⟩ := hus
  refine ⟨.named ⟨e.name, span⟩, .named hspells, ?_⟩
  exact h.toWellFormed.lookup?_eq_some_iff.mpr ⟨e, he, rfl⟩

/-- The builtin array applied to an element stands for the instance that the cache has. -/
theorem Consed.typeOf?_generic (h : Consed r) {arg : TypeExpr} {element id : TypeId}
    (harg : r.typeOf? arg = some element)
    (hcached : r.cached? Builtin.array.typeId element = some id) (span : Span) :
    r.typeOf? (.generic "Array" arg span) = some id := by
  obtain ⟨e, he, hname, hkind⟩ := h.start.builtin .array
  have hlookup : r.lookup? "Array" = some Builtin.array.typeId :=
    h.toWellFormed.lookup?_eq_some_iff.mpr ⟨e, he, hname⟩
  have harray : e.kind.isArray = true := by rw [hkind]; rfl
  have htemplate : r.templateOf Builtin.array.typeId = .ok Builtin.array.typeId :=
    templateOf_eq_ok.mpr ⟨e, he, harray, h.template he harray⟩
  exact typeOf?_generic_eq_some.mpr ⟨_, element, _, hlookup, harg, htemplate, hcached⟩

theorem Consed.prints_instanceOf (h : Consed r) {name : String} {element id : TypeId}
    (helement : Prints name.toList (r.ReadsType element))
    (hcached : r.cached? Builtin.array.typeId element = some id) :
    Prints (instanceOf name).toList (r.ReadsType id) := by
  have hargument : Prints ('[' :: name.toList ++ [']']) fun vs => ∀ us span,
      SpellsTypeName us ⟨"Array", span⟩ → r.ReadsType id (us ++ vs) := by
    refine Prints.enclosed .leftBracket .rightBracket helement
      fun vs opening closing hvs us span hus => ?_
    obtain ⟨t, hspells, ht⟩ := hvs
    have htype := @SpellsType.generic _ _ _ _ opening closing hus hspells
    rw [List.append_assoc] at htype
    exact ⟨_, htype, h.typeOf?_generic ht hcached _⟩
  have htext : (instanceOf name).toList = "Array".toList ++ ('[' :: name.toList ++ [']']) := by
    rw [instanceOf, String.toList_append, String.toList_append]
    rfl
  rw [htext]
  refine Prints.append Builtin.array.isTypeName.prints hargument (breaks_mark .leftBracket _)
    fun us vs hus hvs => ?_
  obtain ⟨span, hus⟩ := hus
  exact hvs us span hus

/-- The name of a type is an expression that stands for it. -/
theorem Legible.prints_nameOf (h : r.Legible) {id : TypeId} (hid : (r.get? id).isSome = true) :
    Prints (r.nameOf id).toList (r.ReadsType id) := by
  -- On the places: an instance comes after its element and is named after it.
  induction hindex : id.index using Nat.strongRecOn generalizing id with
  | ind n ih =>
    obtain ⟨e, he⟩ := Option.isSome_iff_exists.mp hid
    rw [nameOf_of_get? he]
    cases htemplate : e.kind.template? with
    | none => exact h.prints_name he (h.types he htemplate)
    | some template =>
      obtain ⟨superclass, element, hkind⟩ := TypeKind.eq_array_of_template? htemplate
      obtain ⟨hlt, hcached, rfl | hname⟩ := h.made he hkind
      · obtain ⟨f, hf, hname, -⟩ := h.start.builtin .argv
        obtain rfl : e = f := Option.some.inj (he.symm.trans hf)
        exact h.prints_name he (hname ▸ Builtin.argv.isTypeName)
      · have helement : (r.get? element).isSome = true := by
          have hbound := index_lt_of_get? he
          exact isSome_get?_iff.mpr (by omega)
        rw [hname]
        exact h.toConsed.prints_instanceOf (ih element.index (by omega) helement rfl) hcached

/-! ## Signatures -/

/-- Tokens of a method that has a signature. -/
def ReadsMethod (r : Registry) (s : Signature) (us : List Token) : Prop :=
  ∃ m, SpellsMethod us m ∧ r.signature? m = some s

/-- The parameters of a signature, if it has any. -/
def describeParameterList (r : Registry) (ps : List SignatureParameter) : String :=
  if ps.isEmpty then "" else "(" ++ ", ".intercalate (ps.map r.describeParameter) ++ ")"

/-- A type behind a colon. -/
def describeTyped (r : Registry) (id : TypeId) : String :=
  " : " ++ r.nameOf id

/-- The type that a signature returns, if it does. -/
def describeReturn (r : Registry) (returns : Option TypeId) : String :=
  returns.elim "" r.describeTyped

theorem describeParameter_eq (r : Registry) (p : SignatureParameter) :
    r.describeParameter p = p.name ++ r.describeTyped p.type :=
  String.append_assoc

theorem describeMethod_eq (r : Registry) (keyword : String) (s : Signature) :
    r.describeMethod keyword s = keyword ++ " " ++ s.name ++ r.describeParameterList s.parameters ++
      r.describeReturn s.returns :=
  rfl

theorem breaks_typed (r : Registry) (id : TypeId) :
    Breaks (r.describeTyped id).toList := by
  rw [describeTyped, String.toList_append]
  exact breaks_blank _

theorem breaks_parameterList (r : Registry) (ps : List SignatureParameter) :
    Breaks (r.describeParameterList ps).toList := by
  cases ps with
  | nil => exact breaks_nil
  | cons p ps =>
    rw [describeParameterList, if_neg (by simp), String.toList_append, String.toList_append]
    exact breaks_mark .leftParen _

theorem breaks_return (r : Registry) (returns : Option TypeId) :
    Breaks (r.describeReturn returns).toList := by
  cases returns with
  | none => exact breaks_nil
  | some id => exact r.breaks_typed id

theorem Legible.prints_typed (h : r.Legible) {id : TypeId}
    (hid : (r.get? id).isSome = true) {Q : List Token → Prop}
    (hQ : ∀ us t colon, SpellsType us t → r.typeOf? t = some id →
      Q (⟨.punctuation .colon, colon⟩ :: us)) :
    Prints (r.describeTyped id).toList Q := by
  have htype : Prints (':' :: ' ' :: (r.nameOf id).toList) Q := by
    refine Prints.mark .colon (h.prints_nameOf hid).blank fun us colon hus => ?_
    obtain ⟨t, hspells, ht⟩ := hus
    exact hQ us t colon hspells ht
  rw [describeTyped, String.toList_append]
  exact htype.blank

theorem Legible.prints_parameter (h : r.Legible) {p : SignatureParameter} (hname : IsName p.name)
    (htype : (r.get? p.type).isSome = true) :
    Prints (r.describeParameter p).toList fun us =>
      ∃ q, SpellsParameter us q ∧ r.parameter? q = some p := by
  have hword : Prints p.name.toList fun us => ∃ span, us = [⟨.ident p.name, span⟩] :=
    Prints.token hname.spells fun span => ⟨span, rfl⟩
  have htyped : Prints (r.describeTyped p.type).toList fun us => ∀ span, ∃ q,
      SpellsParameter (⟨.ident p.name, span⟩ :: us) q ∧ r.parameter? q = some p := by
    refine h.prints_typed htype fun us t colon hspells ht span => ?_
    refine ⟨⟨p.name, t, span.merge t.span⟩, .typed hspells, ?_⟩
    rw [parameter?, ht]
    rfl
  rw [describeParameter_eq, String.toList_append]
  refine Prints.append hword htyped (r.breaks_typed _) fun us vs hus hvs => ?_
  obtain ⟨span, rfl⟩ := hus
  exact hvs span

theorem Legible.prints_parameters (h : r.Legible) {ps : List SignatureParameter} (hne : ps ≠ [])
    (hps : ∀ p ∈ ps, IsName p.name ∧ (r.get? p.type).isSome = true) :
    Prints (", ".intercalate (ps.map r.describeParameter)).toList fun us =>
      ∃ qs, SpellsParameters us qs ∧ qs.mapM r.parameter? = some ps := by
  induction ps with
  | nil => exact absurd rfl hne
  | cons p ps ih =>
    obtain ⟨⟨hname, htype⟩, hps⟩ := List.forall_mem_cons.mp hps
    have hfirst := h.prints_parameter hname htype
    cases ps with
    | nil =>
      rw [List.map_singleton, String.intercalate_singleton]
      refine hfirst.mono fun us hus => ?_
      obtain ⟨q, hspells, hq⟩ := hus
      exact ⟨[q], .last hspells, by simp [hq]⟩
    | cons p' ps =>
      let more := (", ".intercalate ((p' :: ps).map r.describeParameter)).toList
      have hrest : Prints (',' :: ' ' :: more) fun us => ∀ vs q,
          SpellsParameter vs q → r.parameter? q = some p →
            ∃ qs, SpellsParameters (vs ++ us) qs ∧ qs.mapM r.parameter? = some (p :: p' :: ps) := by
        refine Prints.mark .comma (ih (by simp) hps).blank fun us comma hus vs q hspells hq => ?_
        obtain ⟨qs, hmore, hqs⟩ := hus
        exact ⟨q :: qs, .more hspells hmore, by simp [hq, hqs]⟩
      rw [List.map_cons, List.map_cons, String.intercalate_cons_cons, String.toList_append,
        String.toList_append, List.append_assoc]
      refine Prints.append hfirst hrest (breaks_mark .comma _) fun us vs hus hvs => ?_
      obtain ⟨q, hspells, hq⟩ := hus
      exact hvs us q hspells hq

theorem Legible.prints_parameterList (h : r.Legible) {ps : List SignatureParameter}
    (hps : ∀ p ∈ ps, IsName p.name ∧ (r.get? p.type).isSome = true) :
    Prints (r.describeParameterList ps).toList fun us =>
      ∃ qs, SpellsParameterList us qs ∧ qs.mapM r.parameter? = some ps := by
  cases ps with
  | nil => exact Prints.nil ⟨[], .absent, rfl⟩
  | cons p ps =>
    rw [describeParameterList, if_neg (by simp), String.toList_append, String.toList_append]
    refine Prints.enclosed .leftParen .rightParen (h.prints_parameters (by simp) hps)
      fun us opening closing hus => ?_
    obtain ⟨qs, hspells, hqs⟩ := hus
    exact ⟨qs, .parameters hspells, hqs⟩

theorem Legible.prints_return (h : r.Legible) {returns : Option TypeId}
    (hreturns : ∀ id ∈ returns, (r.get? id).isSome = true) :
    Prints (r.describeReturn returns).toList fun us =>
      ∃ t, SpellsReturn us t ∧ t.mapM r.typeOf? = some returns := by
  cases returns with
  | none => exact Prints.nil ⟨none, .absent, rfl⟩
  | some id =>
    refine h.prints_typed (hreturns id rfl) fun us t colon hspells ht => ?_
    exact ⟨some t, .type hspells, by simp [ht]⟩

/-- A signature is described as a method that has it. -/
theorem Legible.prints_describeMethod (h : r.Legible) {s : Signature} (hs : s.Legible)
    (hids : ∀ id ∈ s.mentions, (r.get? id).isSome = true) :
    Prints (r.describeMethod "def" s).toList (r.ReadsMethod s) := by
  have hparameters := h.prints_parameterList fun p (hp : p ∈ s.parameters) =>
    ⟨hs.parameters p hp, hids _ (List.mem_append_left _ (List.mem_map_of_mem hp))⟩
  have hreturn := h.prints_return fun id (hid : id ∈ s.returns) =>
    hids id (List.mem_append_right _ (Option.mem_toList.mpr hid))
  let tail := (r.describeParameterList s.parameters).toList ++ (r.describeReturn s.returns).toList
  -- From the end: what each part adds in front is told to the parts that come after it.
  have htail : Prints tail fun us => ∀ ns nameSpan span, SpellsMethodName ns ⟨s.name, nameSpan⟩ →
      r.ReadsMethod s (⟨.keyword .method, span⟩ :: (ns ++ us)) := by
    refine Prints.append hparameters hreturn (r.breaks_return _)
      fun ps rs hps hrs ns nameSpan span hns => ?_
    obtain ⟨parameters, hps, hparameters⟩ := hps
    obtain ⟨returns, hrs, hreturns⟩ := hrs
    have hspells : SpellsMethod (⟨.keyword .method, span⟩ :: (ns ++ ps ++ rs))
        ⟨⟨s.name, nameSpan⟩, parameters, returns⟩ := .intro hns hps hrs
    rw [List.append_assoc] at hspells
    exact ⟨_, hspells, signature?_eq_some.mpr ⟨_, _, hparameters, hreturns, rfl⟩⟩
  have hname : Prints (s.name.toList ++ tail) fun us => ∀ span,
      r.ReadsMethod s (⟨.keyword .method, span⟩ :: us) := by
    have hbreaks := (r.breaks_parameterList s.parameters).append (r.breaks_return s.returns)
    refine Prints.append hs.name.prints htail hbreaks fun ns us hns hus span => ?_
    obtain ⟨nameSpan, hns⟩ := hns
    exact hus ns nameSpan span hns
  have hkeyword : Prints "def".toList fun us => ∃ span, us = [⟨.keyword .method, span⟩] :=
    Prints.token (.keyword .method) fun span => ⟨span, rfl⟩
  have htext : (r.describeMethod "def" s).toList =
      "def".toList ++ ' ' :: (s.name.toList ++ tail) := by
    simp only [describeMethod_eq, String.toList_append, List.append_assoc]
    rfl
  rw [htext]
  refine Prints.append hkeyword hname.blank (breaks_blank _) fun us vs hus hvs => ?_
  obtain ⟨span, rfl⟩ := hus
  exact hvs span

/-! ## Reading back -/

theorem names_of_signature? {m : MethodDecl} {s : Signature} (h : r.signature? m = some s) :
    m.name.value = s.name ∧ m.parameters.map (·.name) = s.parameters.map (·.name) := by
  obtain ⟨parameters, returns, hparameters, -, rfl⟩ := signature?_eq_some.mp h
  have hname {q : Parameter} {p : SignatureParameter} (h : r.parameter? q = some p) :
      p.name = q.name := by
    obtain ⟨id, -, rfl⟩ := Option.map_eq_some_iff.mp h
    rfl
  exact ⟨rfl, (map_eq_of_mapM hname hparameters).symm⟩

open Collect in
/-- The types of a method are resolved to those of the signature that it has, without any change. -/
theorem Regular.resolves_of_signature? (hr : Regular r) {m : MethodDecl} {s : Signature}
    (h : r.signature? m = some s) (n : Nat) :
    let c : Collection := ⟨r, n⟩
    (m.parameters.map fun p => outcome (resolveType p.type) c) =
        s.parameters.map (fun p => (.ok p.type, c)) ∧
      (m.returns.map fun t => outcome (resolveType t) c) =
        s.returns.map fun id => (.ok id, c) := by
  intro c
  obtain ⟨parameters, returns, hparameters, hreturns, rfl⟩ := signature?_eq_some.mp h
  constructor
  · have htype {q : Parameter} {p : SignatureParameter} (h : r.parameter? q = some p) :
        (.ok p.type, c) = outcome (resolveType q.type) c := by
      obtain ⟨id, hid, rfl⟩ := Option.map_eq_some_iff.mp h
      exact ((resolveType_eq_ok_iff hr).mpr hid).symm
    exact (map_eq_of_mapM htype hparameters).symm
  · rw [optionMapM_eq_some_iff] at hreturns
    generalize m.returns = t at hreturns ⊢
    cases hreturns with
    | none => rfl
    | some hid => rw [Option.map_some, Option.map_some, (resolveType_eq_ok_iff hr).mpr hid]

/-- What a signature is described as, wherever a run ends that only collects programs that were read
    from a text: a text that is read as one method, with the names of the signature, whose types are
    resolved to those of the signature without any change. -/
theorem ofSource_describeMethod {target : Target} (htarget : ofTarget target = .ok r)
    {ps : List Program} (hps : ∀ p ∈ ps, ∃ source, Program.ofSource source = .ok p) :
    let final := r.collectAll ps
    ∀ owner e s, final.owner? owner = some e → s ∈ e.methods →
      ∃ m span, Program.ofSource (final.describeMethod "def" s) = .ok [⟨.method m, span⟩] ∧
        m.name.value = s.name ∧ m.parameters.map (·.name) = s.parameters.map (·.name) ∧
        ∀ n, let c : Collection := ⟨final, n⟩
          (m.parameters.map fun p => Collect.outcome (Collect.resolveType p.type) c) =
              s.parameters.map (fun p => (.ok p.type, c)) ∧
            (m.returns.map fun t => Collect.outcome (Collect.resolveType t) c) =
              s.returns.map fun id => (.ok id, c) := by
  intro final owner e s he hs
  have hlegible : final.Legible := by
    have hinitial := legible_initial target
    rw [(ofTarget_eq_ok_iff.mp htarget).2] at hinitial
    refine hinitial.collectAll fun p hp => ?_
    obtain ⟨source, hsource⟩ := hps p hp
    exact Program.legible_of_ofSource hsource
  have hids : ∀ id ∈ s.mentions, (final.get? id).isSome = true := fun id hid =>
    hlegible.registered he id (Entry.mem_mentions_of_method hs hid)
  obtain ⟨us, ⟨m, hspells, hm⟩, htext⟩ :=
    (hlegible.prints_describeMethod (hlegible.signatures he s hs) hids).tokenizes
  have hdeclaration : SpellsDeclaration (us ++ []) [] (.method m) := .method hspells .endOfFile
  rw [List.append_nil] at hdeclaration
  obtain ⟨hname, hparameters⟩ := names_of_signature? hm
  refine ⟨m, extent us, ?_, hname, hparameters, hlegible.toRegular.resolves_of_signature? hm⟩
  rw [Program.ofSource_eq_ofTokens htext, Program.ofTokens_declaration hdeclaration htext.ne_eof]
  rfl

/-- A setter with blanks in its types, described behind a program that is refused. -/
theorem ofSource_describeMethod_setter :
    let read (source : String) := (Program.ofSource source).toOption.getD []
    let p := read "class Ring?\nend\ndef rows=(all!: Array [ ARGV ], one: Ring?)"
    let q := read "class Ring?\n  def []=(at: Int): Ring?\n  def +: Rang\nend"
    let final := (initial .host64).collectAll [p, q]
    let s : Signature := ⟨"rows=", [⟨"all!", ⟨15⟩⟩, ⟨"one", ⟨14⟩⟩], none⟩
    let c : Collection := ⟨final, 0⟩
    s ∈ final.main.methods ∧
      final.describeMethod "def" s = "def rows=(all! : Array[ARGV], one : Ring?)" ∧
      ∃ m span, Program.ofSource (final.describeMethod "def" s) = .ok [⟨.method m, span⟩] ∧
        m.name.value = "rows=" ∧ m.parameters.map (·.name) = ["all!", "one"] ∧
        (m.parameters.map fun p => Collect.outcome (Collect.resolveType p.type) c) =
          [(.ok ⟨15⟩, c), (.ok ⟨14⟩, c)] := by
  intro read p q final s c
  have htarget : ofTarget .host64 = .ok (initial .host64) :=
    ofTarget_eq_ok_iff.mpr ⟨by decide, rfl⟩
  have hread (source : String) (h : (Program.ofSource source).isOk = true) :
      ∃ source', Program.ofSource source' = .ok (read source) := by
    refine ⟨source, ?_⟩
    show _ = Except.ok ((Program.ofSource source).toOption.getD [])
    cases hp : Program.ofSource source with
    | ok p => rfl
    | error e =>
      rw [hp] at h
      cases h
  have hps : ∀ p' ∈ [p, q], ∃ source, Program.ofSource source = .ok p' :=
    List.forall_mem_cons.mpr ⟨hread _ (by decide +kernel),
      List.forall_mem_singleton.mpr (hread _ (by decide +kernel))⟩
  have hs : s ∈ final.main.methods := by decide +kernel
  obtain ⟨m, span, hsource, hname, hparameters, hresolved⟩ :=
    ofSource_describeMethod htarget hps .main final.main s rfl hs
  exact ⟨hs, by decide +kernel, m, span, hsource, hname, hparameters, (hresolved 0).1⟩

end Registry

end DeclLang
