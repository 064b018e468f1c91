import DeclLang.Proofs.Collection.Uses
import DeclLang.Proofs.Collection.Nominal
import DeclLang.Proofs.Syntax.Slices

/-!
# Legible names: what a program can call its types, methods and parameters

Every name in a program that was read from a text could be read from a text again
(`Program.legible_of_ofSource`). Types and parameters are identifiers. A method may also be an
operator, an indexer, or the setter of a name without a suffix: a suffix before `=` would have been
read as the start of an operator. The builtin types have such names too, so a registry that only
such programs are collected into has no others, but for those of instances (`Legible.collectAll`).
-/

namespace DeclLang

/-! ## Names -/

/-- What is read as an identifier. -/
structure IsName (name : String) : Prop where
  identifier : IsIdentifier name.toList
  free : Keyword.ofSpelling? name = none

/-- Whether a name starts with an uppercase letter. -/
def IsUpper (name : String) : Prop :=
  ∃ c cs, name.toList = c :: cs ∧ 'A' ≤ c ∧ c ≤ 'Z'

structure IsTypeName (name : String) : Prop extends IsName name where
  upper : IsUpper name

/-- What can be read as the name of a method. -/
inductive IsMethodName : String → Prop where
  | ident {name : String} : IsName name → IsMethodName name
  | setter {name : String} : IsName name → IsUnsuffixed name → IsMethodName (name ++ "=")
  | operator {text : String} : text ≠ "" → (∀ c ∈ text.toList, isOperatorChar c = true) →
      IsMethodName text
  | index : IsMethodName "[]"
  | indexSetter : IsMethodName "[]="

theorem IsTypeName.ofWord {name : String} {c : Char} {cs : List Char}
    (hname : name.toList = c :: cs) (hupper : 'A' ≤ c ∧ c ≤ 'Z') (hc : isIdentStart c = true)
    (hcs : ∀ d ∈ cs, isIdentRest d = true) (hfree : Keyword.ofSpelling? name = none) :
    IsTypeName name where
  identifier := ⟨name.toList, [], (List.append_nil _).symm, ⟨c, cs, hname, hc, hcs⟩, by simp⟩
  free := hfree
  upper := ⟨c, cs, hname, hupper⟩

/-- The names of a method and of its parameters. -/
structure MethodDecl.Legible (m : MethodDecl) : Prop where
  name : IsMethodName m.name.value
  parameters : ∀ p ∈ m.parameters, IsName p.name

/-- The names of all types and methods that a program declares. -/
structure Program.Legible (p : Program) : Prop where
  types : ∀ d ∈ p, ∀ n ∈ d.value.typeName?, IsTypeName n
  methods : ∀ d ∈ p, ∀ m ∈ d.value.methods, m.Legible

/-! ## Names in a text -/

namespace Tokenizes

variable {pos : Nat} {cs : List Char} {ts : List Token}

/-- A text that starts with a token is the text of this token and what comes behind it. -/
theorem next {t : Token} (h : Tokenizes pos cs (t :: ts)) (hpos : t.span.start = pos)
    (ht : t.value ≠ .eof) :
    ∃ text rest, cs = text ++ rest ∧ Spells text t.value ∧ Stops t.value rest ∧
      Tokenizes t.span.stop rest ts := by
  generalize hall : t :: ts = all at h
  cases h with
  | finish =>
    rw [(List.cons.inj hall).1] at ht
    exact absurd rfl ht
  | token htext hstops hrest =>
    obtain ⟨rfl, rfl⟩ := List.cons.inj hall
    exact ⟨_, _, rfl, htext, hstops, hrest⟩
  | @blank _ c _ _ _ hrest =>
    -- What comes before the token would be in front of the text.
    have hle := hrest.laidOut.le_start t (hall ▸ List.mem_cons_self)
    have hlt := utf8Length_pos (List.cons_ne_nil c [])
    omega
  | @comment _ body _ _ _ _ hrest =>
    have hle := hrest.laidOut.le_start t (hall ▸ List.mem_cons_self)
    have hlt := utf8Length_pos (List.cons_ne_nil '#' body)
    omega

theorem isName_of_mem (h : Tokenizes pos cs ts) : ∀ n ∈ identNames ts, IsName n := by
  intro n hn
  obtain ⟨t, ht, hname⟩ := List.mem_filterMap.mp hn
  have hvalue := LineParser.identName?_eq_some.mp hname
  have hne : t.value ≠ .eof := by
    rw [hvalue]
    simp
  obtain ⟨front, more, rfl⟩ := List.append_of_mem ht
  obtain ⟨before, behind, -, -, hbehind⟩ := h.drop hne
  obtain ⟨text, rest, -, hspells, -⟩ := hbehind.next rfl hne
  rw [hvalue] at hspells
  cases hspells with
  | ident _ hidentifier hfree => exact ⟨hidentifier, hfree⟩

/-- A name that an `=` touches has no suffix. -/
theorem isUnsuffixed {front more : List Token} {name : String} {span eq : Span}
    (h : Tokenizes pos cs
      (front ++ ⟨.ident name, span⟩ :: ⟨.operator "=", eq⟩ :: more)) (heq : eq.start = span.stop) :
    IsUnsuffixed name := by
  obtain ⟨before, behind, -, -, hbehind⟩ := h.drop (by simp)
  obtain ⟨text, rest, -, -, hstops, hrest⟩ := hbehind.next rfl (by simp)
  obtain ⟨text', rest', rfl, hspells, -⟩ := hrest.next heq (by simp)
  cases hspells with
  | operator _ _ _ =>
    obtain ⟨hname, -⟩ | ⟨-, hne⟩ := hstops
    · exact hname
    · exact absurd rfl hne

end Tokenizes

/-! ## Names in the syntax -/

section Spelled

variable {ts us rest : List Token}

theorem SpellsMethodName.isMethodName {pos : Nat} {cs : List Char} {all : List Token} {name : Ident}
    (h : SpellsMethodName ts name) (hts : ts <:+: all) (hall : Tokenizes pos cs all) :
    IsMethodName name.value := by
  have hnames : ∀ n ∈ identNames ts, IsName n :=
    fun n hn => hall.isName_of_mem n ((hts.sublist.filterMap _).subset hn)
  obtain ⟨front, more, rfl⟩ := hts
  rw [List.append_assoc] at hall
  cases h with
  | ident => exact .ident (hnames _ List.mem_cons_self)
  | setter heq => exact .setter (hnames _ List.mem_cons_self) (hall.isUnsuffixed heq)
  | operator =>
    obtain ⟨before, behind, -, -, hbehind⟩ := hall.drop (by simp)
    obtain ⟨text, rest, -, hspells, -⟩ := hbehind.next rfl (by simp)
    cases hspells with
    | operator _ hne hchars => exact .operator hne hchars
  | index => exact .index
  | indexSetter => exact .indexSetter

theorem SpellsParameters.parameterNames {ps : List Parameter} (h : SpellsParameters ts ps) :
    ps.map (·.name) ⊆ identNames ts := by
  induction h with
  | last hp =>
    cases hp with
    | typed => exact singleton_subset_of_mem List.mem_cons_self
  | @more _ us _ _ comma hp _ ih =>
    cases hp with
    | @typed name _ ts =>
      have hus : identNames us ⊆ identNames (ts ++ ⟨.punctuation .comma, comma⟩ :: us) := by
        rw [identNames_append]
        exact List.subset_append_right _ _
      exact List.cons_subset_cons name (List.Subset.trans ih hus)

theorem SpellsSignature.legible {pos : Nat} {cs : List Char} {all : List Token} {k : Keyword}
    {m : MethodDecl} (h : SpellsSignature k SpellsMethodName ts m) (hts : ts <:+: all)
    (hall : Tokenizes pos cs all) : m.Legible := by
  cases h with
  | @intro name parameters returns ns ps rs span hname hparameters hreturns =>
    have hns : ns <:+: all := by
      refine List.IsInfix.trans ?_ hts
      exact ⟨[⟨.keyword k, span⟩], ps ++ rs, by simp⟩
    refine ⟨hname.isMethodName hns hall, fun p hp => hall.isName_of_mem _ ?_⟩
    refine (hts.sublist.filterMap _).subset ?_
    cases hparameters with
    | absent | empty => cases hp
    | parameters h =>
      have hmem := h.parameterNames (List.mem_map_of_mem hp)
      show p.name ∈ identNames _
      simp only [identNames_append, identNames_cons]
      grind

theorem SpellsTypeName.upper {name : Ident} (h : SpellsTypeName ts name) : IsUpper name.value := by
  cases h with
  | ident htext hlow hhigh => exact ⟨_, _, htext, hlow, hhigh⟩

theorem SpellsDeclaration.upper {d : Declaration} (h : SpellsDeclaration ts rest d) :
    ∀ n ∈ d.typeName?, IsUpper n := by
  intro n hn
  cases h with
  | classBlock h =>
    obtain rfl := Option.some.inj hn
    obtain ⟨us, -, hheader⟩ := h.exists_infix.1
    cases hheader with
    | root hname | inheriting hname => exact hname.upper
  | moduleBlock h =>
    obtain rfl := Option.some.inj hn
    obtain ⟨us, -, hheader⟩ := h.exists_infix.1
    cases hheader with
    | intro hname => exact hname.upper
  | libBlock h =>
    obtain rfl := Option.some.inj hn
    obtain ⟨us, -, hheader⟩ := h.exists_infix.1
    cases hheader with
    | unlinked hname | linked hname => exact hname.upper
  | primitive h =>
    cases h with
    | intro hname =>
      obtain rfl := Option.some.inj hn
      exact hname.upper
  | method | inclusion => cases hn

/-- Every method of a declaration is spelled by a part of its tokens. -/
theorem SpellsDeclaration.exists_signature {d : Declaration} (h : SpellsDeclaration ts rest d) :
    ∀ m ∈ d.methods, ∃ us k, us <:+: ts ∧ SpellsSignature k SpellsMethodName us m := by
  have hmembers {members : List (Located Member)}
      (h : ∀ member ∈ members, ∃ us, us <:+: ts ∧ SpellsMember us member.value) :
      ∀ m ∈ members.filterMap (·.value.method?),
        ∃ us k, us <:+: ts ∧ SpellsSignature k SpellsMethodName us m := by
    intro m hm
    obtain ⟨member, hmem, hm⟩ := List.mem_filterMap.mp hm
    obtain ⟨us, hus, hspells⟩ := h member hmem
    generalize member.value = value at hm hspells
    cases hspells with
    | method hspells =>
      obtain rfl := Option.some.inj hm
      exact ⟨us, .method, hus, hspells⟩
    | inclusion => cases hm
  cases h with
  | classBlock h => exact hmembers h.exists_infix.2
  | moduleBlock h => exact hmembers h.exists_infix.2
  | libBlock h =>
    intro m hm
    obtain ⟨f, hf, rfl⟩ := List.mem_map.mp hm
    obtain ⟨us, hus, hspells⟩ := h.exists_infix.2 f hf
    exact ⟨us, .function, hus, SpellsFunction.signature hspells⟩
  | primitive h =>
    cases h
    exact List.forall_mem_nil _
  | method h hending =>
    intro m hm
    obtain rfl := List.mem_singleton.mp hm
    exact ⟨_, .method, (List.prefix_append _ _).isInfix, h⟩
  | inclusion => exact List.forall_mem_nil _

end Spelled

/-! ## Programs that are read from a text -/

/-- All names that such a program declares could be read again. -/
theorem Program.legible_of_ofSource {source : String} {p : Program}
    (h : Program.ofSource source = .ok p) : p.Legible := by
  obtain ⟨tokens, hall, htokens⟩ := tokenizes_of_ofSource h
  have hspells := spells_of_ofTokens htokens
  refine ⟨fun d hd n hn => ?_, fun d hd m hm => ?_⟩
  · obtain ⟨-, us, more, -, hd', -⟩ := hspells.exists_slice d hd
    have hmem := names_of_ofTokens htokens d hd (typeName?_mem_typeNames hn)
    exact ⟨hall.isName_of_mem n hmem, hd'.upper n hn⟩
  · obtain ⟨front, us, more, hsplit, hd', -⟩ := hspells.exists_slice d hd
    obtain ⟨vs, k, hvs, hm'⟩ := hd'.exists_signature m hm
    have hus : us <:+: tokens.takeWhile (·.value ≠ .eof) :=
      ⟨front, more, by rw [hsplit, List.append_assoc]⟩
    exact hm'.legible (hvs.trans (hus.trans (List.takeWhile_prefix _).isInfix)) hall

/-! ## Legible registries -/

theorem IsName.isPlain {name : String} (h : IsName name) : IsPlain name :=
  h.identifier.isPlain

theorem Operation.Collects.mono {N N' : String → Prop} {op : Operation} (h : op.Collects N)
    (hN : ∀ name, N name → N' name) : op.Collects N' := by
  cases op with
  | declareObject | declareModule | declarePrimitive | declareLib => exact hN _ h
  | mixIn => trivial
  | _ => exact h

structure Signature.Legible (s : Signature) : Prop where
  name : IsMethodName s.name
  parameters : ∀ p ∈ s.parameters, IsName p.name

namespace Builtin

theorem isTypeName (b : Builtin) : IsTypeName b.name := by
  cases b <;>
    exact .ofWord rfl (by decide) (by decide) (forall_mem_of_all (by decide)) (by decide)

/-- Every operation is named by operator characters, and its parameter is `other`. -/
theorem operations_spelled (b : Builtin) : ∀ s ∈ b.operations, s.name ≠ "" ∧
    s.name.toList.all isOperatorChar = true ∧ s.parameters.map (·.name) = ["other"] := by
  cases b <;> decide +kernel

theorem isName_other : IsName "other" where
  identifier := ⟨_, [], (List.append_nil _).symm,
    ⟨'o', _, rfl, by decide, forall_mem_of_all (by decide)⟩, by simp⟩
  free := by decide

theorem legible_operations (b : Builtin) : ∀ s ∈ b.operations, s.Legible := by
  intro s hs
  obtain ⟨hne, hchars, hparameters⟩ := b.operations_spelled s hs
  refine ⟨.operator hne (List.all_eq_true.mp hchars), fun p hp => ?_⟩
  have hmem : p.name ∈ s.parameters.map (·.name) := List.mem_map_of_mem hp
  rw [hparameters, List.mem_singleton] at hmem
  rw [hmem]
  exact isName_other

end Builtin

namespace Registry

variable {r s : Registry}

/-- A settled registry whose names could all be read from a text, but for those of instances. -/
structure Legible (r : Registry) : Prop extends Settled r where
  types : ∀ {id e}, r.get? id = some e → e.kind.template? = none → IsTypeName e.name
  signatures : ∀ {o e}, r.owner? o = some e → ∀ m ∈ e.methods, m.Legible

theorem legible_initial (target : Target) : Legible (initial target) where
  toSettled := settled_initial target
  types he _ := by
    obtain ⟨b, -, rfl⟩ := eq_entry_of_get?_initial he
    exact b.isTypeName
  signatures {o e} he := by
    cases o with
    | main =>
      obtain rfl := Option.some.inj he
      exact List.forall_mem_nil _
    | type id =>
      obtain ⟨b, -, rfl⟩ := eq_entry_of_get?_initial he
      exact b.legible_operations

/-- Only new types and new methods have to be looked at. -/
theorem Legible.of_retains (h : r.Legible) (hs : Settled s) (hrs : r.Retains s)
    (htypes : ∀ {id e}, s.get? id = some e → r.get? id = none → e.kind.template? = none →
      IsTypeName e.name)
    (hmethods : ∀ {o f}, s.owner? o = some f → ∀ m ∈ f.methods,
      (∃ e, r.owner? o = some e ∧ m ∈ e.methods) ∨ m.Legible) : s.Legible where
  toSettled := hs
  types {id e} he hkind := by
    cases hold : r.get? id with
    | none => exact htypes he hold hkind
    | some e' =>
      obtain ⟨f, hf, hname, hfkind⟩ := hrs.get? hold
      obtain rfl : e = f := Option.some.inj (he.symm.trans hf)
      rw [hname]
      exact h.types hold (hfkind ▸ hkind)
  signatures {o f} hf m hm := by
    obtain ⟨e, he, hmem⟩ | hnew := hmethods hf m hm
    · exact h.signatures he m hmem
    · exact hnew

/-- An entry without methods leaves those of every owner as they were. -/
theorem methods_push {entry : Entry} (hentry : entry.methods = []) {o : Owner} {f : Entry}
    (hf : (r.push entry).2.owner? o = some f) :
    ∀ m ∈ f.methods, ∃ e, r.owner? o = some e ∧ m ∈ e.methods := by
  intro m hm
  rw [owner?_push] at hf
  split at hf
  · obtain rfl := Option.some.inj hf
    rw [hentry] at hm
    cases hm
  · exact ⟨f, hf, hm⟩

/-- Changing the members of an owner adds no types, so only its new methods matter. -/
theorem Legible.modifyOwner (h : r.Legible) {owner : Owner} {g : Entry → Entry}
    [Entry.KeepsName g] (hs : Settled (r.modifyOwner owner g)) (hrs : r.Retains (r.modifyOwner owner g))
    (hg : ∀ e : Entry, ∀ m ∈ (g e).methods, m ∈ e.methods ∨ m.Legible) :
    (r.modifyOwner owner g).Legible := by
  refine h.of_retains hs hrs (fun {id e} he hid _ => ?_) fun {o f} hf m hm => ?_
  · exact absurd hid (get?_ne_none_of_modifyOwner he)
  · rw [owner?_modifyOwner] at hf
    split at hf
    · obtain ⟨e, he, rfl⟩ := Option.map_eq_some_iff.mp hf
      exact (hg e m hm).imp_left fun hmem => ⟨e, he, hmem⟩
    · exact .inl ⟨f, hf, hm⟩

theorem Legible.instantiate (h : r.Legible) {array element id : TypeId}
    (helement : (r.get? element).isSome = true)
    (hmake : r.instantiate array element = .ok (id, s)) : s.Legible ∧ r.Retains s := by
  obtain ⟨hs, hrs⟩ := h.toSettled.instantiate helement hmake
  obtain ⟨-, ⟨-, rfl⟩ | ⟨source, -, -, -, -, rfl⟩⟩ := instantiate_eq_ok h.toRegular hmake
  · exact ⟨h, hrs⟩
  · refine ⟨h.of_retains hs hrs (fun he hid hkind => ?_) fun {o f} hf m hm => .inl ?_, hrs⟩
    · obtain ⟨-, rfl⟩ := get?_withInstance_new he hid
      cases hkind
    · rw [withInstance, owner?_cache] at hf
      exact methods_push rfl hf m hm

theorem Legible.collects (h : r.Legible) {op : Operation} (hop : op.Collects IsTypeName)
    (happly : op.apply r = .ok s) : s.Legible ∧ r.Retains s := by
  obtain ⟨hs, hrs⟩ :=
    h.toSettled.collects (hop.mono fun _ hname => hname.toIsName.isPlain) happly
  refine ⟨?_, hrs⟩
  obtain ⟨name, kind, hname, -, -, rfl⟩ | ⟨owner, module, rfl⟩ := collects_cases hop happly
  · refine h.of_retains hs hrs (fun he hid _ => ?_) fun hf m hm => .inl (methods_push rfl hf m hm)
    obtain ⟨-, rfl⟩ := get?_push_new he hid
    exact hname
  · exact h.modifyOwner hs hrs fun _ _ hm => .inl hm

theorem Legible.define (h : r.Legible) {owner : Owner} {m : MethodDecl} (hm : m.Legible)
    {signature : Signature} (hsignature : r.signature? m = some signature)
    (hdefine : r.defineMethod owner signature = .ok s) : s.Legible ∧ r.Retains s := by
  have hids := h.toRegular.isSome_get?_of_signature? hsignature
  obtain ⟨hs, hrs⟩ := h.toSettled.define hids hdefine
  have hlegible : signature.Legible := by
    obtain ⟨parameters, returns, hparameters, -, rfl⟩ := signature?_eq_some.mp hsignature
    refine ⟨hm.name, fun q hq => ?_⟩
    obtain ⟨p, hp, hqp⟩ := mem_of_mapM hparameters q hq
    obtain ⟨type, -, rfl⟩ := Option.map_eq_some_iff.mp hqp
    exact hm.parameters p hp
  obtain ⟨-, -, -, rfl⟩ := defineMethod_eq_ok hdefine
  refine ⟨h.modifyOwner hs hrs fun e m hm => ?_, hrs⟩
  obtain rfl | hmem := List.mem_cons.mp ((signature.perm_insertInto e.methods).mem_iff.mp hm)
  · exact .inr hlegible
  · exact .inl hmem

/-- Everything that collecting does with legible names keeps a registry legible. -/
theorem Legible.collect (h : r.Legible) {p : Program} (hp : p.Legible) :
    (r.collect p).2.registry.Legible := by
  have hretains : Collect.Composable Retains := ⟨.refl, .trans⟩
  have hdeclares : Collect.DeclaresOn IsTypeName (Collect.Carries Legible Retains) :=
    ⟨Collect.composable_carries hretains, fun _ hop happly hr => hr.collects hop happly⟩
  have hkeeps := hdeclares.keeps_program p hp.types fun d hd m hm owner =>
    Collect.carries_defineMethod hretains (fun hr => hr.toRegular)
      (fun hr helement hmake => hr.instantiate helement hmake)
      fun hr hsignature hdefine => hr.define (hp.methods d hd m hm) hsignature hdefine
  exact (hkeeps ⟨r, 0⟩ h).1

theorem Legible.collectAll (h : r.Legible) {ps : List Program} (hps : ∀ p ∈ ps, p.Legible) :
    (r.collectAll ps).Legible := by
  induction ps generalizing r with
  | nil => exact h
  | cons p ps ih =>
    obtain ⟨hp, hps⟩ := List.forall_mem_cons.mp hps
    exact ih (h.collect hp) hps

end Registry

end DeclLang
