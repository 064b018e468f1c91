import DeclLang.Proofs.Collection.Types
import DeclLang.Proofs.Collection.Consing
import DeclLang.Proofs.Registry.Stability

/-!
# Templates: a specialization answers as its template does

A specialization is made with the modules that its template has at that moment, and whatever the
template is given later comes behind these. So the modules of a specialization that is given no
members of its own are always those with which the modules of its template begin (`Echoes`). A
search that walks over both enters what a walk over those of the template enters, and finds the same
(`specialization_answers`).
-/

namespace DeclLang.Registry

variable {r s base : Registry} {id t : TypeId}

/-! ## Members of its own -/

/-- What a type has itself: the modules mixed into it and its methods. -/
def membersOf? (r : Registry) (id : TypeId) : Option (List TypeId × List Signature) :=
  (r.get? id).map fun e => (e.includes, e.methods)

/-- A type that is there is given no members: all that can happen to members is that they are added,
    so it has those that it had. -/
def KeepsMembers (r s : Registry) (id : TypeId) : Prop :=
  ∀ members ∈ r.membersOf? id, s.membersOf? id = some members

/-- A registry after any run, of operations with any ids and of programs, in which a type was given
    no method and no module once it was there. -/
inductive LeftAlone (id : TypeId) : Registry → Prop where
  | initial {target : Target} {r : Registry} : ofTarget target = .ok r → LeftAlone id r
  | step {r s : Registry} : LeftAlone id r → Step r s → KeepsMembers r s id → LeftAlone id s

/-- If a type has a template, it has no methods, and its modules are the first of its template. -/
def Echoes (r : Registry) (id : TypeId) : Prop :=
  ∀ e t, r.get? id = some e → e.kind.template? = some t →
    e.methods = [] ∧ ∃ f, r.get? t = some f ∧ e.includes <+: f.includes

theorem KeepsMembers.get? (h : KeepsMembers r s id) {e f : Entry} (he : r.get? id = some e)
    (hf : s.get? id = some f) : f.includes = e.includes ∧ f.methods = e.methods := by
  have hmembers : r.membersOf? id = some (e.includes, e.methods) := by rw [membersOf?, he]; rfl
  have hkept := h _ hmembers
  rw [membersOf?, hf, Option.map_some, Option.some.injEq, Prod.mk.injEq] at hkept
  exact hkept

theorem keepsMembers_of_get? (h : ∀ e, r.get? id = some e → s.get? id = some e) :
    KeepsMembers r s id := by
  intro members hmembers
  have ⟨e, he, hpair⟩ := Option.map_eq_some_iff.mp hmembers
  rw [membersOf?, h e he, Option.map_some, hpair]

/-! ## Echoes -/

/-- A type without a template has nothing to echo. -/
theorem echoes_of_template? (h : ∀ e, r.get? id = some e → e.kind.template? = none) :
    r.Echoes id := by
  intro e t he ht
  rw [h e he] at ht
  cases ht

/-- Whatever the template is given, it is given behind what the type has. -/
theorem Echoes.mono (h : r.Echoes id) (hext : r.Extends s) (hid : (r.get? id).isSome = true)
    (hmembers : KeepsMembers r s id) : s.Echoes id := by
  intro f t hf ht
  have ⟨e, he⟩ := Option.isSome_iff_exists.mp hid
  have ⟨f', hf', hef⟩ := hext.get? he
  rw [hf, Option.some.injEq] at hf'
  rw [← hf'] at hef
  rw [hef.template?_eq] at ht
  have ⟨hincludes, hmethods⟩ := hmembers.get? he hf
  have ⟨hnone, source, hsource, hprefix⟩ := h e t he ht
  have ⟨source', hsource', hkept⟩ := hext.get? hsource
  refine ⟨hmethods.trans hnone, source', hsource', ?_⟩
  rw [hincludes]
  exact hprefix.trans hkept.includes

/-- A type that is made from a template is made with the modules of the template. -/
theorem echoes_of_change (h : Change r s) (hid : r.get? id = none) : s.Echoes id := by
  intro e t he ht
  rcases new_of_change h he hid with
    ⟨_, kind, hkind, hnew⟩ | ⟨_, _, _, template, source, _, hsource, hnew⟩
  · rw [hnew, Entry.kind_bare] at ht
    cases kind with
    | array => exact hkind.elim
    | _ => cases ht
  · rw [hnew] at ht ⊢
    have htemplate : template = t := Option.some.inj ht
    have ⟨f, hf, hgrown⟩ := (extends_of_change h).get? hsource
    rw [← htemplate]
    exact ⟨rfl, f, hf, hgrown.includes⟩

/-! ## Programs -/

/-- A later registry whose new types have no templates. -/
structure Untemplated (r s : Registry) : Prop where
  grown : r.Extends s
  new : ∀ {id e}, s.get? id = some e → r.get? id = none → e.kind.template? = none

/-- Declaring types makes no specializations. -/
theorem declaresOn_untemplated : Collect.DeclaresOn (fun _ => True) Untemplated := by
  refine ⟨⟨fun r => ⟨.refl r, fun he hid => ?_⟩, fun {r s t} h h' => ?_⟩, fun op hop happly => ?_⟩
  · rw [hid] at he
    cases he
  · refine ⟨h.grown.trans h'.grown, fun {id e} he hid => ?_⟩
    cases hmid : s.get? id with
    | none => exact h'.new he hmid
    | some f =>
      have ⟨f', hf', hext⟩ := h'.grown.get? hmid
      rw [he, Option.some.injEq] at hf'
      rw [hf', hext.template?_eq]
      exact h.new hmid hid
  · refine ⟨extends_of_change (change_of_apply happly), fun {id e} he hid => ?_⟩
    cases gain_of_apply hop happly with
    | @declared name kind _ hkind _ =>
      have ⟨_, hnew⟩ := get?_push_new he hid
      rw [hnew, Entry.kind_bare]
      cases kind with
      | array => cases hkind
      | _ => rfl
    | changed => exact absurd hid (get?_ne_none_of_modifyOwner he)

/-- A later registry in which all that is new echoes its template. -/
structure Offspring (base r : Registry) : Prop where
  regular : Regular r
  grown : base.Extends r
  echoes : ∀ {id}, base.get? id = none → r.Echoes id

theorem Offspring.refl (hr : Regular r) : r.Offspring r := by
  refine ⟨hr, .refl r, fun {id} hid => echoes_of_template? fun e he => ?_⟩
  rw [hid] at he
  cases he

theorem Offspring.change (h : base.Offspring r) (hchange : Change r s)
    (hmembers : ∀ id, base.get? id = none → KeepsMembers r s id) : base.Offspring s := by
  have hext := extends_of_change hchange
  refine ⟨h.regular.change hchange, h.grown.trans hext, fun {id} hid => ?_⟩
  cases hget : r.get? id with
  | none => exact echoes_of_change hchange hget
  | some e =>
    exact (h.echoes hid).mono hext (Option.isSome_of_eq_some hget) (hmembers id hid)

theorem Offspring.instantiate (h : base.Offspring r) {array element : TypeId}
    (hmake : r.instantiate array element = .ok (t, s)) : base.Offspring s := by
  refine h.change (change_instantiate hmake) fun id _ => keepsMembers_of_get? fun e he => ?_
  have ⟨_, hmade⟩ := instantiate_eq_ok h.regular hmake
  rcases hmade with ⟨_, hs⟩ | ⟨source, _, _, _, _, hs⟩
  · rw [hs]
    exact he
  · rw [hs]
    exact owner?_withInstance (o := .type id) he

/-- Who was there before can be given members. -/
theorem Offspring.modifyOwner (h : base.Offspring r) {owner : Owner} {f : Entry → Entry}
    [Entry.KeepsName f] (howner : (base.owner? owner).isSome = true)
    (hchange : Change r (r.modifyOwner owner f)) :
    base.Offspring (r.modifyOwner owner f) := by
  refine h.change hchange fun id hid => keepsMembers_of_get? fun e he => ?_
  have hother : Owner.type id ≠ owner := by
    intro hsame
    rw [← hsame, owner?_type, hid] at howner
    cases howner
  rw [← owner?_type, owner?_modifyOwner, if_neg hother]
  exact he

section

open Collect

theorem composable_offspring (base : Registry) :
    Composable fun r s => base.Offspring r → base.Offspring s :=
  ⟨fun _ h => h, fun h h' hr => h' (h hr)⟩

/-- Members are added to types whose names were there before, so not to what is made for them. -/
theorem keeps_offspring {d : Declaration}
    (hd : ∀ name ∈ d.typeName?, (base.lookup? name).isSome = true) :
    Keeps (fun r s => base.Offspring r → base.Offspring s) (collectDeclaration d) := by
  intro c hc
  have hcomposable := composable_offspring base
  have hresolve := hcomposable.keeps_resolveType fun hmake hr => Offspring.instantiate hr hmake
  have howner {owner : Owner} (h : d.AddsTo c.registry owner) :
      (base.owner? owner).isSome = true := by
    cases owner with
    | main => rfl
    | type id =>
      have ⟨name, hname, hid⟩ := h
      have ⟨first, hfirst⟩ := Option.isSome_iff_exists.mp (hd name hname)
      have hkept := hc.grown.lookup? hfirst
      rw [hid, Option.some.injEq] at hkept
      have ⟨e, he, _⟩ := get?_of_lookup? hfirst
      rw [hkept]
      exact Option.isSome_of_eq_some he
  refine hcomposable.of_collectDeclaration d (fun owner hadds => ?_) (fun owner hadds m _ => ?_) hc
  · refine hcomposable.keeps_mixIn fun hmix hr => ?_
    have ⟨_, _, _, _, _, _, _, hs⟩ := Registry.mixIn_eq_ok hmix
    rw [hs]
    exact hr.modifyOwner (howner hadds) (hs ▸ change_mixIn hmix)
  · refine hcomposable.keeps_defineMethod hresolve (fun hdefine hr => ?_) m
    have ⟨_, _, _, hs⟩ := Registry.defineMethod_eq_ok hdefine
    rw [hs]
    exact hr.modifyOwner (howner hadds) (hs ▸ change_defineMethod hdefine)

theorem Declared.isSome_lookup? {p : Program} {count : Nat} (h : Declared r p.headers s count)
    {d : Located Declaration} (hd : d ∈ p) :
    ∀ name ∈ d.value.typeName?, (s.lookup? name).isSome = true := by
  intro name hname
  have hheader : d.value.header?.map TypeHeader.name = d.value.typeName? := by
    cases d.value <;> rfl
  rw [← hheader] at hname
  have ⟨head, hhead, hheadName⟩ := Option.map_eq_some_iff.mp hname
  have ⟨id, _, hid, _⟩ := h.fits head (List.mem_filterMap.mpr ⟨d, hd, hhead⟩)
  rw [← hheadName]
  exact Option.isSome_of_eq_some hid

/-- What a program makes echoes its template when the program is done or refused. -/
theorem echoes_of_collect (hr : Regular r) (p : Program) (hid : r.get? id = none) :
    (r.collect p).2.registry.Echoes id := by
  have hdeclare := declaresOn_untemplated.keeps_declareTypes p (fun _ _ _ _ => trivial) ⟨r, 0⟩
  have hregular := steadfast_regular.on.keeps_declareTypes p (fun _ _ _ _ => trivial) ⟨r, 0⟩ hr
  show Echoes (outcome (declareTypes p >>= fun _ => p.forM _) ⟨r, 0⟩).2.registry id
  rw [outcome_bind]
  cases htypes : outcome (declareTypes p) ⟨r, 0⟩ with
  | mk result mid =>
    rw [htypes] at hdeclare hregular
    cases result with
    | error e => exact echoes_of_template? fun e he => hdeclare.new he hid
    | ok =>
      have ⟨count, hdeclared, _⟩ := declared_types hr htypes
      have hend := (composable_offspring mid.registry).keeps_forM
        (fun d hd => keeps_offspring (hdeclared.isSome_lookup? hd)) mid (.refl hregular)
      cases hmid : mid.registry.get? id with
      | none => exact hend.echoes hmid
      | some f =>
        -- What the first pass made has no template, and never gets one.
        refine echoes_of_template? fun e he => ?_
        have ⟨e', he', hext⟩ := hend.grown.get? hmid
        rw [he, Option.some.injEq] at he'
        rw [he', hext.template?_eq]
        exact hdeclare.new hmid hid

end

/-! ## Runs -/

theorem echoes_initial (target : Target) (id : TypeId) : (initial target).Echoes id := by
  intro e t he ht
  have ⟨b, _, hb⟩ := eq_entry_of_get?_initial he
  rw [hb] at ht ⊢
  -- `ARGV` is the one builtin type with a template.
  cases b with
  | argv =>
    have htemplate : Builtin.array.typeId = t := Option.some.inj ht
    rw [← htemplate]
    exact ⟨rfl, _, get?_initial target .array, List.prefix_rfl⟩
  | _ => cases ht

theorem Echoes.step (h : r.Echoes id) (hr : Regular r) (hstep : Step r s)
    (hmembers : KeepsMembers r s id) : s.Echoes id := by
  cases hid : r.get? id with
  | some e =>
    have hext := hstep.of_steadfast steadfast_extends
    exact h.mono hext (Option.isSome_of_eq_some hid) hmembers
  | none =>
    cases hstep with
    | program p => exact echoes_of_collect hr p hid
    | operation op =>
      unfold perform
      split
      · rename_i happly
        exact echoes_of_change (change_of_apply happly) hid
      · exact h

theorem LeftAlone.echoes (h : LeftAlone id r) : Regular r ∧ r.Echoes id := by
  induction h with
  | @initial target r htarget =>
    rw [← (ofTarget_eq_ok_iff.mp htarget).2]
    exact ⟨regular_initial target, echoes_initial target id⟩
  | step _ hstep hmembers ih =>
    have ⟨hr, hechoes⟩ := ih
    exact ⟨hstep.of_steadfast steadfast_regular hr, hechoes.step hr hstep hmembers⟩

/-! ## Answers -/

/-- A lookup can start from another class that answers alike and has the same superclass. -/
theorem lookupFrom_congr {name : String} {unvisited : List TypeId} {c c' : TypeId}
    (hclass : r.lookupOn name unvisited c = r.lookupOn name unvisited c')
    (hsuper : r.superclass? c' = r.superclass? c) (steps : Nat) :
    r.lookupFrom name unvisited c steps = r.lookupFrom name unvisited c' steps := by
  unfold lookupFrom
  rw [hclass, hsuper]

section

variable (hr : WellFormed r) (h : r.Echoes id) (ht : r.template? id = some t)

include hr ht

/-- A template is none of a template, and it has the superclasses of what is made from it. -/
theorem WellFormed.template_eq : r.template? t = none ∧ r.superclass? t = r.superclass? id := by
  have ⟨e, he, htemplate⟩ := Option.bind_eq_some_iff.mp ht
  have ⟨superclass, element, hkind⟩ := TypeKind.eq_array_of_template? htemplate
  have ⟨f, element', hf, hfkind⟩ := (hr.sound_get? he).template hkind
  rw [Registry.template?, superclass?, superclass?, hf, he, Option.bind_some, Option.bind_some,
    Option.bind_some, hfkind, hkind]
  exact ⟨rfl, rfl⟩

theorem WellFormed.ancestors_template : r.ancestors id = r.ancestors t := by
  have hsuper := (hr.template_eq ht).2
  rw [ancestors, ancestors, superclassChain, superclassChain, hsuper]

include h

theorem Echoes.ownMethod?_eq (name : String) : r.ownMethod? name id = r.ownMethod? name t := by
  have ⟨e, he, htemplate⟩ := Option.bind_eq_some_iff.mp ht
  have hnone : r.declared? name id = none := by
    rw [declared?, he, Option.bind_some, Entry.method?, (h e t he htemplate).1]
    rfl
  rw [ownMethod?, ownMethod?, hnone, ht, (hr.template_eq ht).1, Option.none_or, Option.bind_some,
    Option.bind_none, Option.or_none]

theorem Echoes.walk_mixins : r.walk [] (r.mixins id) = r.walk [] (r.mixins t) := by
  have ⟨e, he, htemplate⟩ := Option.bind_eq_some_iff.mp ht
  have ⟨_, f, hf, hprefix⟩ := h e t he htemplate
  have hid : r.mixins id = e.includes ++ f.includes := by
    rw [mixins, ht, includesOf, he]
    show e.includes ++ r.includesOf t = e.includes ++ f.includes
    rw [includesOf, hf]
    rfl
  have hsource : r.mixins t = f.includes := by
    rw [mixins, (hr.template_eq ht).1, includesOf, hf]
    exact List.append_nil f.includes
  rw [hid, hsource, walk_prefix_append r hprefix]

theorem Echoes.lookupOn_eq (name : String) :
    r.lookupOn name r.ids id = r.lookupOn name r.ids t := by
  have hwalk := h.walk_mixins hr ht
  have hsearch := @searchModules_eq_walk _ r hr.includesRegistered (r.declared? name) [] _
    (hr.mixins_registered id)
  have hsearch' := @searchModules_eq_walk _ r hr.includesRegistered (r.declared? name) [] _
    (hr.mixins_registered t)
  rw [unentered_nil] at hsearch hsearch'
  rw [lookupOn, lookupOn, h.ownMethod?_eq hr ht, hsearch, hsearch', hwalk]

theorem Echoes.reachModule_eq (m : TypeId) :
    r.reachModule m r.ids (r.mixins id) = r.reachModule m r.ids (r.mixins t) := by
  rw [← unentered_nil, reachModule_eq_walk hr.includesRegistered List.not_mem_nil
      (hr.mixins_registered id), reachModule_eq_walk hr.includesRegistered List.not_mem_nil
      (hr.mixins_registered t), h.walk_mixins hr ht]

end

/-- A specialization that was never given members of its own finds under each name the method that
    its template finds, of the same owner, and it includes the modules that its template includes.
    It does not matter when it was made, or what the template, modules and classes were given before
    or after. -/
theorem specialization_answers (h : LeftAlone id r) (ht : r.template? id = some t) :
    (∀ name, r.lookupMethod? id name = r.lookupMethod? t name) ∧
    ∀ m, r.includesModule id m = r.includesModule t m := by
  have ⟨hregular, hechoes⟩ := h.echoes
  have hr := hregular.toWellFormed
  refine ⟨fun name => ?_, fun m => ?_⟩
  · exact lookupFrom_congr (hechoes.lookupOn_eq hr ht name) (hr.template_eq ht).2 _
  · rw [includesModule, includesModule, reachFromAny, reachFromAny,
      hechoes.reachModule_eq hr ht m, hr.ancestors_template ht]

/-- A module with a method, which is mixed into the builtin array, and a method of that array. -/
def arrayExtension : Program :=
  let name (text : String) : Ident := ⟨text, .point 0⟩
  let at0 {α : Type} (a : α) : Located α := ⟨a, .point 0⟩
  [at0 (.moduleBlock (name "Tools") [at0 (.method ⟨name "sort", [], none⟩)]),
    at0 (.classBlock (name "Array") none
      [at0 (.inclusion (name "Tools")), at0 (.method ⟨name "first", [], none⟩)])]

/-- An array of integers that was made before the builtin array was given anything, and was made one
    of floats afterwards, still has the one module that it was made with, and sees all the same. -/
theorem specialization_answers_arrayExtension :
    let made := (initial .host64).perform (.arrayOf Builtin.int.typeId)
    let extended := (made.collect arrayExtension).2.registry
    let r := extended.perform (.rebindElement ⟨14⟩ Builtin.float.typeId)
    LeftAlone ⟨14⟩ r ∧ r.template? ⟨14⟩ = some Builtin.array.typeId ∧
      r.includesOf ⟨14⟩ = [Builtin.enumerable.typeId] ∧ r.includesModule ⟨14⟩ ⟨15⟩ = true ∧
      r.lookupMethod? ⟨14⟩ "first" = some ⟨.type Builtin.array.typeId, ⟨"first", [], none⟩⟩ := by
  intro made extended r
  have hstart : LeftAlone ⟨14⟩ (initial .host64) :=
    .initial (ofTarget_eq_ok_iff.mpr ⟨by decide, rfl⟩)
  have hmade : LeftAlone ⟨14⟩ made :=
    .step hstart (.operation _) (by unfold KeepsMembers; decide +kernel)
  have hextended : LeftAlone ⟨14⟩ extended :=
    .step hmade (.program arrayExtension) (by unfold KeepsMembers; decide +kernel)
  have halone : LeftAlone ⟨14⟩ r :=
    .step hextended (.operation _) (by unfold KeepsMembers; decide +kernel)
  have htemplate : r.template? ⟨14⟩ = some Builtin.array.typeId := by decide +kernel
  obtain ⟨hmethods, hmodules⟩ := specialization_answers halone htemplate
  refine ⟨halone, htemplate, by decide +kernel, ?_, ?_⟩
  · have hr := halone.echoes.1.toWellFormed
    have hmixed : r.Includes Builtin.array.typeId ⟨15⟩ := by unfold Includes; decide +kernel
    rw [hmodules, hr.includesModule_iff]
    exact ⟨Builtin.array.typeId, ⟨Builtin.array.typeId, .refl, .inl rfl⟩, .single hmixed⟩
  · have hown : r.ownMethod? "first" Builtin.array.typeId =
        some ⟨.type Builtin.array.typeId, ⟨"first", [], none⟩⟩ := by decide +kernel
    rw [hmethods, lookupMethod?, lookupFrom, lookupOn, hown]

end DeclLang.Registry
