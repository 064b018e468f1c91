import DeclLang.Proofs.Collection.Nominal

/-!
# Lockstep: the same members in a registry that has more types

One registry is ahead of another when it looks the same but for some more types with plain names
(`Ahead`). Members that are collected into the one that is behind are not refused by the other
either, and it stays ahead by just those types (`follows_declarations`). Instances are made in both
for the same expressions, and no other step depends on a type that is not named.
-/

namespace DeclLang

/-- The view of an instance that is made while the builtin array has a given view. -/
def NominalEntry.specialized (array : NominalEntry) (element : String) : NominalEntry :=
  ⟨.array array.kind.superclass? element (some "Array"), array.includes, []⟩

namespace Registry

theorem nominal_specialized {name : String} {element template : TypeId} {source : Entry}
    {f : TypeId → String} (h : f template = "Array") :
    (specialized name element template source).nominal f =
      (source.nominal f).specialized (f element) := by
  rw [NominalEntry.specialized, Entry.kind_nominal, TypeKind.superclass?_nominal, ← h]
  rfl

variable {r s v w v' w' : Registry} {more : String → Option NominalEntry}

/-- Registry `w` looks like `v`, but for some more types. -/
structure Ahead (more : String → Option NominalEntry) (v w : Registry) : Prop where
  left : Settled v
  right : Settled w
  plain : ∀ {n}, (more n).isSome = true → IsPlain n
  view : ∀ label, w.nominal.at label = (v.nominal.at label).or (label.bind more)

theorem Ahead.at (h : Ahead more v w) {label : Option String} {x : NominalEntry}
    (hx : v.nominal.at label = some x) : w.nominal.at label = some x := by
  rw [h.view, hx, Option.some_or]

/-- Owners with one label look the same. -/
theorem Ahead.same (h : Ahead more v w) {o o' : Owner} {e f : Entry} (he : v.owner? o = some e)
    (hf : w.owner? o' = some f) (hlabel : o.label e = o'.label f) :
    f.nominal w.nameOf = e.nominal v.nameOf := by
  have hv := h.at (h.left.toWellFormed.at_eq_some.mpr ⟨o, e, he, rfl, rfl⟩)
  have hw := h.right.toWellFormed.at_eq_some.mpr ⟨o', f, hf, rfl, rfl⟩
  rw [← hlabel, hv, Option.some.injEq] at hw
  exact hw.symm

/-- What a name stands for in the one, it stands for in the other. -/
theorem Ahead.lookup? (h : Ahead more v w) {n : String} {a : TypeId} {e : Entry}
    (ha : v.lookup? n = some a) (he : v.get? a = some e) :
    ∃ b f, w.lookup? n = some b ∧ w.get? b = some f ∧ f.nominal w.nameOf = e.nominal v.nameOf := by
  have hx : w.nominal.at (some n) = some (e.nominal v.nameOf) := h.at (types_of_lookup? ha he)
  obtain ⟨f, hf, hview⟩ := Option.map_eq_some_iff.mp hx
  obtain ⟨b, hb, hf⟩ := Option.bind_eq_some_iff.mp hf
  exact ⟨b, f, hb, hf, hview⟩

theorem isArray_of_nominal {f g : TypeId → String} {e e' : Entry}
    (h : e'.nominal f = e.nominal g) (he : e.kind.isArray = true) : e'.kind.isArray = true := by
  have hkind : e'.kind.nominal f = e.kind.nominal g := congrArg NominalEntry.kind h
  cases hek : e.kind <;> cases hek' : e'.kind <;> simp_all [TypeKind.nominal, TypeKind.isArray]

theorem isModule_of_nominal {f g : TypeId → String} {e e' : Entry}
    (h : e'.nominal f = e.nominal g) (he : e.kind.isModule = true) : e'.kind.isModule = true := by
  have hkind : e'.kind.nominal f = e.kind.nominal g := congrArg NominalEntry.kind h
  cases hek : e.kind <;> cases hek' : e'.kind <;> simp_all [TypeKind.nominal, TypeKind.isModule]

theorem Ahead.resolvable (h : Ahead more v w) {t : TypeExpr} (ht : t.Resolvable v) :
    t.Resolvable w := by
  induction t with
  | named name =>
    obtain ⟨a, ha⟩ := Option.isSome_iff_exists.mp ht
    obtain ⟨e, he, -⟩ := get?_of_lookup? ha
    obtain ⟨b, f, hb, -⟩ := h.lookup? ha he
    exact Option.isSome_of_eq_some hb
  | generic base arg span ih =>
    obtain ⟨⟨a, e, ha, he, harray⟩, harg⟩ := ht
    obtain ⟨b, f, hb, hf, hview⟩ := h.lookup? ha he
    exact ⟨⟨b, f, hb, hf, isArray_of_nominal hview harray⟩, ih harg⟩

/-! ## Changed owners -/

section

variable {o o' : Owner} {g g' : Entry → Entry} [Entry.KeepsName g] [Entry.KeepsName g']
  {e f : Entry}

theorem nameOf_modifyOwner (id : TypeId) :
    (r.modifyOwner o g).nameOf id = r.nameOf id := by
  rw [nameOf, nameOf, ← owner?_type, owner?_modifyOwner]
  split
  · rw [owner?_type]
    cases r.get? id with
    | none => rfl
    | some e => exact Entry.KeepsName.name_eq e
  · rfl

/-- Only the view of the owner is another one. -/
theorem at_modifyOwner (hr : WellFormed r) (hr' : WellFormed (r.modifyOwner o g))
    (he : r.owner? o = some e) (label : Option String) :
    (r.modifyOwner o g).nominal.at label =
      if label = o.label e then some ((g e).nominal r.nameOf) else r.nominal.at label := by
  have hnames : (r.modifyOwner o g).nameOf = r.nameOf := funext nameOf_modifyOwner
  have hlabel {o' : Owner} {e' : Entry} : o'.label (g e') = o'.label e' := by
    cases o' with
    | main => rfl
    | type id => exact congrArg some (Entry.KeepsName.name_eq e')
  split
  · rename_i hown
    refine hr'.at_eq_some.mpr ⟨o, g e, ?_, hlabel.trans hown.symm, by rw [hnames]⟩
    rw [owner?_modifyOwner, if_pos rfl, he, Option.map_some]
  · rename_i hother
    ext x
    rw [hr'.at_eq_some, hr.at_eq_some, hnames]
    -- An owner with another label is another owner.
    constructor
    · rintro ⟨o', e', he', rfl, hx⟩
      have hne : o' ≠ o := by
        rintro rfl
        rw [owner?_modifyOwner, if_pos rfl, he, Option.map_some, Option.some.injEq] at he'
        rw [← he', hlabel] at hother
        exact hother rfl
      rw [owner?_modifyOwner, if_neg hne] at he'
      exact ⟨o', e', he', rfl, hx⟩
    · rintro ⟨o', e', he', rfl, hx⟩
      have hne : o' ≠ o := by
        rintro rfl
        rw [he, Option.some.injEq] at he'
        rw [he'] at hother
        exact hother rfl
      exact ⟨o', e', by rw [owner?_modifyOwner, if_neg hne, he'], rfl, hx⟩

/-- Owners with one label may be changed in the same way. -/
theorem Ahead.modifyOwner (h : Ahead more v w) (hv : Settled (v.modifyOwner o g))
    (hw : Settled (w.modifyOwner o' g')) (he : v.owner? o = some e) (hf : w.owner? o' = some f)
    (hlabel : o.label e = o'.label f) (hview : (g' f).nominal w.nameOf = (g e).nominal v.nameOf) :
    Ahead more (v.modifyOwner o g) (w.modifyOwner o' g') where
  left := hv
  right := hw
  plain := h.plain
  view label := by
    rw [at_modifyOwner h.left.toWellFormed hv.toWellFormed he,
      at_modifyOwner h.right.toWellFormed hw.toWellFormed hf, ← hlabel, hview]
    split
    · rw [Option.some_or]
    · exact h.view label

end

/-! ## New instances -/

theorem Settled.at_of_owner (hr : Settled r) (hs : WellFormed s) (hrs : r.Retains s)
    (howner : ∀ {o e}, r.owner? o = some e → s.owner? o = some e) {label : Option String}
    {x : NominalEntry} (hx : r.nominal.at label = some x) : s.nominal.at label = some x := by
  obtain ⟨o, e, he, hlabel, rfl⟩ := hr.toWellFormed.at_eq_some.mp hx
  exact hs.at_eq_some.mpr ⟨o, e, howner he, hlabel, hr.toClosed.nominal_eq hrs he⟩

section

variable {gs : List TypeExpr}

/-- What is resolved has a type with its name. -/
theorem Instantiated.isSome_at (h : Instantiated gs r s) (hs : Settled s) {t : TypeExpr}
    (ht : t ∈ gs) : (s.nominal.at (some t.resolvedName)).isSome = true := by
  obtain ⟨id, hid⟩ := h.resolved t ht
  obtain ⟨e, he⟩ := Option.isSome_iff_exists.mp (hs.toRegular.isSome_get?_of_typeOf? hid)
  have hname := hs.toConsed.nameOf_of_typeOf? hid
  rw [nameOf_of_get? he] at hname
  refine Option.isSome_of_eq_some (hs.toWellFormed.at_eq_some.mpr ⟨.type id, e, he, ?_, rfl⟩)
  exact congrArg some hname

/-- What is new is an instance that was asked for, made from the builtin array as it was. -/
theorem Instantiated.at_new (h : Instantiated gs r s) (hr : Settled r) (hs : Settled s)
    {label : Option String} {x : NominalEntry} (hx : s.nominal.at label = some x)
    (hfree : r.nominal.at label = none) :
    ∃ array element, r.nominal.at (some "Array") = some array ∧
      label = some (instanceOf element) ∧ x = array.specialized element ∧
      ∃ t ∈ gs, label = some t.resolvedName := by
  obtain ⟨o, e, he, rfl, rfl⟩ := hs.toWellFormed.at_eq_some.mp hx
  have hnew : r.owner? o = none := by
    rw [Option.eq_none_iff_forall_ne_some]
    intro e' he'
    obtain rfl := Option.some.inj (he.symm.trans (h.owner he'))
    have hold := hr.toWellFormed.at_eq_some.mpr ⟨o, e, he', rfl, rfl⟩
    rw [hfree] at hold
    cases hold
  cases o with
  | main => cases hnew
  | type id =>
    have hget : s.get? id = some e := he
    obtain ⟨⟨t, ht, hid⟩, element, source, hsource, hfresh⟩ := h.new he hnew
    have harrayName : source.name = "Array" := by
      obtain ⟨array, harray, hname, -⟩ := hr.toConsed.start.builtin .array
      obtain rfl : source = array := Option.some.inj (hsource.symm.trans harray)
      exact hname
    have hsourceView := hr.toClosed.nominal_eq h.retains (o := .type Builtin.array.typeId) hsource
    refine ⟨source.nominal r.nameOf, s.nameOf element, ?_, ?_, ?_, t, ht, ?_⟩
    · exact hr.toWellFormed.at_eq_some.mpr ⟨.type Builtin.array.typeId, source, hsource,
        congrArg some harrayName, rfl⟩
    · rw [Owner.label, hfresh.entry, ← hs.toConsed.instanceName]
      rfl
    · rw [← hsourceView, hfresh.entry]
      have htemplate : s.nameOf Builtin.array.typeId = "Array" := by
        obtain ⟨f, hf, hname, -⟩ := h.retains.get? hsource
        rw [nameOf_of_get? hf, hname, harrayName]
      exact nominal_specialized htemplate
    · rw [← hs.toConsed.nameOf_of_typeOf? hid, nameOf_of_get? hget]
      rfl

/-- Both registries get the instances that are asked for. -/
theorem Ahead.instantiated (h : Ahead more v w) (hv : Instantiated gs v v')
    (hw : Instantiated gs w w') (hv' : Settled v') (hw' : Settled w') : Ahead more v' w' where
  left := hv'
  right := hw'
  plain := h.plain
  view label := by
    cases hold : v.nominal.at label with
    | some x =>
      have hx := h.left.at_of_owner hv'.toWellFormed hv.retains hv.owner hold
      have hx' := h.right.at_of_owner hw'.toWellFormed hw.retains hw.owner (h.at hold)
      rw [hx, hx', Option.some_or]
    | none =>
      have hview := h.view label
      rw [hold, Option.none_or] at hview
      cases hnew : v'.nominal.at label with
      | none =>
        -- Nothing was asked for under this label, so the other registry has what it had.
        rw [Option.none_or, ← hview]
        cases hwold : w.nominal.at label with
        | some x => exact h.right.at_of_owner hw'.toWellFormed hw.retains hw.owner hwold
        | none =>
          rw [Option.eq_none_iff_forall_ne_some]
          intro x hx
          obtain ⟨-, -, -, -, -, t, ht, rfl⟩ := hw.at_new h.right hw' hx hwold
          have hsome := hv.isSome_at hv' ht
          rw [hnew] at hsome
          cases hsome
      | some x =>
        obtain ⟨array, element, harray, hlabel, rfl, t, ht, hname⟩ :=
          hv.at_new h.left hv' hnew hold
        rw [Option.some_or]
        -- The name of an instance is not plain, so it was free in both registries.
        have hfree : w.nominal.at label = none := by
          rw [hview, hlabel, Option.bind_some]
          cases hmore : more (instanceOf element) with
          | none => rfl
          | some y =>
            exact absurd (h.plain (Option.isSome_of_eq_some hmore)) (not_isPlain_instanceOf _)
        have hsome := hw.isSome_at hw' ht
        rw [← hname] at hsome
        obtain ⟨x', hx'⟩ := Option.isSome_iff_exists.mp hsome
        obtain ⟨array', element', harray', hlabel', rfl, -⟩ := hw.at_new h.right hw' hx' hfree
        obtain rfl := Option.some.inj ((h.at harray).symm.trans harray')
        rw [hlabel, Option.some.injEq] at hlabel'
        rw [hx', instanceOf_injective hlabel']

end

end Registry

/-! ## Steps -/

/-- The owner of the members under a label, in two registries. -/
def Registry.SameOwner (v w : Registry) (o o' : Owner) : Prop :=
  ∃ e f, v.owner? o = some e ∧ w.owner? o' = some f ∧ o.label e = o'.label f

theorem Registry.SameOwner.mono {v w v' w' : Registry} {o o' : Owner} (h : v.SameOwner w o o')
    (hv : v.Retains v') (hw : w.Retains w') : v'.SameOwner w' o o' := by
  obtain ⟨e, f, he, hf, hlabel⟩ := h
  obtain ⟨e', he', hename, -⟩ := hv.owner he
  obtain ⟨f', hf', hfname, -⟩ := hw.owner hf
  have hlabels {o : Owner} {e e' : Entry} (hname : e'.name = e.name) : o.label e' = o.label e := by
    cases o with
    | main => rfl
    | type id => exact congrArg some hname
  exact ⟨e', f', he', hf', by rw [hlabels hename, hlabels hfname, hlabel]⟩

namespace Collect

open Registry

variable {α β : Type} {more : String → Option NominalEntry} {c d c' d' : Collection}

/-- What a step does in a registry, another step does in every registry that is ahead of it. -/
def Follows (more : String → Option NominalEntry) (m m' : Collect α) : Prop :=
  ∀ c d, Ahead more c.registry d.registry → ∀ a c', outcome m c = (.ok a, c') →
    ∃ b d', outcome m' d = (.ok b, d') ∧ Ahead more c'.registry d'.registry

theorem settled_of_keeps {m : Collect α} {a : α} (hm : Keeps (Carries Settled Retains) m)
    (hc : Settled c.registry) (h : outcome m c = (.ok a, c')) :
    Settled c'.registry ∧ c.registry.Retains c'.registry := by
  have hkept := hm c hc
  rw [h] at hkept
  exact hkept

/-! ### Types -/

theorem resolvable_of_resolveType {t : TypeExpr} {id : TypeId} (hc : Settled c.registry)
    (h : outcome (resolveType t) c = (.ok id, c')) : t.Resolvable c.registry := by
  induction t generalizing id c' with
  | named name => exact Option.isSome_of_eq_some (resolve_eq_ok.mp h).1
  | generic base arg span ih =>
    obtain ⟨array, start, hbase, hrest⟩ := outcome_bind_eq_ok.mp h
    obtain ⟨element, mid, harg, hmake⟩ := outcome_bind_eq_ok.mp hrest
    obtain ⟨harray, rfl⟩ := resolve_eq_ok.mp hbase
    obtain ⟨hmake, -⟩ := apply_eq_ok.mp hmake
    obtain ⟨hmid, hretains⟩ := settled_of_keeps (steadfastOn_settled.keeps_resolveType arg) hc harg
    -- The base was an array when the element was resolved, so it was one before.
    obtain ⟨htemplate, -⟩ := instantiate_eq_ok hmid.toRegular hmake
    obtain ⟨f, hf, hfarray, -⟩ := templateOf_eq_ok.mp htemplate
    obtain ⟨e, he, -⟩ := get?_of_lookup? harray
    obtain ⟨f', hf', -, hkind⟩ := hretains.get? he
    obtain rfl := Option.some.inj (hf.symm.trans hf')
    exact ⟨⟨array, e, harray, he, hkind ▸ hfarray⟩, ih harg⟩

theorem follows_resolveType (t : TypeExpr) : Follows more (resolveType t) (resolveType t) := by
  intro c d h id c' hc
  have hresolvable := h.resolvable (resolvable_of_resolveType h.left hc)
  obtain ⟨id', d', hd⟩ := h.right.toConsed.exists_resolveType hresolvable
  have hkeeps := steadfastOn_settled.keeps_resolveType t
  refine ⟨id', d', hd, h.instantiated (resolveType_eq_ok h.left.toRegular hc).1
    (resolveType_eq_ok h.right.toRegular hd).1 ?_ ?_⟩
  · exact (settled_of_keeps hkeeps h.left hc).1
  · exact (settled_of_keeps hkeeps h.right hd).1

theorem follows_resolveParameter (p : Parameter) :
    Follows more (resolveParameter p) (resolveParameter p) := by
  intro c d h q c' hc
  obtain ⟨id, mid, htype, hpure⟩ := outcome_bind_eq_ok.mp hc
  obtain ⟨id', mid', htype', hmid⟩ := follows_resolveType p.type c d h id mid htype
  obtain ⟨-, rfl⟩ := outcome_pure_eq_ok.mp hpure
  exact ⟨_, mid', outcome_bind_eq_ok.mpr ⟨id', mid', htype', rfl⟩, hmid⟩

theorem follows_mapM {f : α → Collect β} (hf : ∀ a, Follows more (f a) (f a)) (l : List α) :
    Follows more (l.mapM f) (l.mapM f) := by
  induction l with
  | nil =>
    intro c d h bs c' hc
    obtain ⟨-, rfl⟩ := outcome_pure_eq_ok.mp hc
    exact ⟨[], d, rfl, h⟩
  | cons a l ih =>
    intro c d h bs c' hc
    rw [List.mapM_cons] at hc ⊢
    obtain ⟨b, mid, ha, hrest⟩ := outcome_bind_eq_ok.mp hc
    obtain ⟨bs', last, hl, hpure⟩ := outcome_bind_eq_ok.mp hrest
    obtain ⟨-, rfl⟩ := outcome_pure_eq_ok.mp hpure
    obtain ⟨b', mid', ha', hmid⟩ := hf a c d h b mid ha
    obtain ⟨bs'', last', hl', hlast⟩ := ih mid mid' hmid bs' last hl
    refine ⟨b' :: bs'', last', outcome_bind_eq_ok.mpr ⟨b', mid', ha', ?_⟩, hlast⟩
    exact outcome_bind_eq_ok.mpr ⟨bs'', last', hl', rfl⟩

theorem follows_optionMapM {f : α → Collect β} (hf : ∀ a, Follows more (f a) (f a))
    (o : Option α) : Follows more (o.mapM f) (o.mapM f) := by
  cases o with
  | none =>
    intro c d h b c' hc
    obtain ⟨-, rfl⟩ := outcome_pure_eq_ok.mp hc
    exact ⟨none, d, rfl, h⟩
  | some a =>
    intro c d h b c' hc
    rw [Option.mapM_some, map_eq_pure_bind] at hc ⊢
    obtain ⟨b, mid, ha, hpure⟩ := outcome_bind_eq_ok.mp hc
    obtain ⟨-, rfl⟩ := outcome_pure_eq_ok.mp hpure
    obtain ⟨b', mid', ha', hmid⟩ := hf a c d h b mid ha
    exact ⟨_, mid', outcome_bind_eq_ok.mpr ⟨b', mid', ha', rfl⟩, hmid⟩

/-! ### Members -/

section

variable {o o' : Owner}

theorem defineMethod_of_free {r : Registry} {e : Entry} {signature : Signature}
    (he : r.owner? o = some e) (hfree : e.method? signature.name = none) :
    r.defineMethod o signature = .ok (r.modifyOwner o (·.define signature)) := by
  refine bind_eq_ok.mpr ⟨e, requireOwner_eq_ok.mpr he, ?_⟩
  rw [hfree]
  rfl

theorem follows_defineMethod {m : MethodDecl} (h : Ahead more c.registry d.registry)
    (ho : c.registry.SameOwner d.registry o o') (hc : outcome (defineMethod o m) c = (.ok (), c')) :
    ∃ d', outcome (defineMethod o' m) d = (.ok (), d') ∧ Ahead more c'.registry d'.registry := by
  obtain ⟨ps, mid, hps, hrest⟩ := outcome_bind_eq_ok.mp hc
  obtain ⟨rs, last, hrs, hupdate⟩ := outcome_bind_eq_ok.mp hrest
  obtain ⟨ps', mid', hps', hmid⟩ := follows_mapM follows_resolveParameter _ c d h ps mid hps
  obtain ⟨rs', last', hrs', hlast⟩ :=
    follows_optionMapM follows_resolveType _ mid mid' hmid rs last hrs
  obtain ⟨hinst, -, hsig, -⟩ := resolveSignature_eq_ok h.left.toRegular hps hrs
  obtain ⟨hinst', -, hsig', -⟩ := resolveSignature_eq_ok h.right.toRegular hps' hrs'
  obtain ⟨hdefine, -⟩ := update_eq_ok.mp hupdate
  obtain ⟨e, he, hfree, hs⟩ := Registry.defineMethod_eq_ok hdefine
  obtain ⟨e', f, he', hf, hlabel⟩ := ho.mono hinst.retains hinst'.retains
  obtain rfl := Option.some.inj (he.symm.trans he')
  -- The owners look the same, so the name is free in both; so do the signatures.
  have hview := hlast.same he hf hlabel
  have hfree' : f.method? m.name.value = none := by
    rw [Entry.method?_eq_none_iff, hview, ← Entry.method?_eq_none_iff]
    exact hfree
  have hsame := hlast.right.toConsed.nominal_of_signature? hsig'
  rw [← hlast.left.toConsed.nominal_of_signature? hsig] at hsame
  have hd : outcome (defineMethod o' m) d = (.ok (),
      ⟨last'.registry.modifyOwner o' (·.define ⟨m.name.value, ps', rs'⟩), last'.declared⟩) := by
    refine outcome_bind_eq_ok.mpr ⟨ps', mid', hps', outcome_bind_eq_ok.mpr ⟨rs', last', hrs', ?_⟩⟩
    exact update_eq_ok.mpr ⟨defineMethod_of_free hf hfree', rfl⟩
  have hc' := (settled_of_keeps (steadfastOn_settled.keeps_defineMethod o m) h.left hc).1
  have hd' := (settled_of_keeps (steadfastOn_settled.keeps_defineMethod o' m) h.right hd).1
  rw [hs] at hc' ⊢
  refine ⟨_, hd, ?_⟩
  dsimp only at hd' ⊢
  refine hlast.modifyOwner hc' hd' he hf hlabel ?_
  rw [Entry.nominal_define, Entry.nominal_define, hview, hsame]

theorem mixIn_of_free {r : Registry} {e f : Entry} {module : TypeId} (he : r.owner? o = some e)
    (hf : r.get? module = some f) (hmodule : f.kind.isModule = true) (hself : o ≠ .type module)
    (hfree : module ∉ e.includes) :
    r.mixIn o module = .ok (r.modifyOwner o (·.mixIn module)) := by
  refine bind_eq_ok.mpr ⟨f, require_eq_ok.mpr hf, bind_eq_ok.mpr ⟨e, requireOwner_eq_ok.mpr he, ?_⟩⟩
  simp [hmodule, hself, hfree, pure, Except.pure]

theorem follows_mixIn {module : Ident} (h : Ahead more c.registry d.registry)
    (ho : c.registry.SameOwner d.registry o o') (hc : outcome (mixIn o module) c = (.ok (), c')) :
    ∃ d', outcome (mixIn o' module) d = (.ok (), d') ∧ Ahead more c'.registry d'.registry := by
  obtain ⟨id, start, hname, hupdate⟩ := outcome_bind_eq_ok.mp hc
  obtain ⟨hid, rfl⟩ := resolve_eq_ok.mp hname
  obtain ⟨hmix, -⟩ := update_eq_ok.mp hupdate
  obtain ⟨e, i, he, hi, hmodule, hself, hfree, hs⟩ := Registry.mixIn_eq_ok hmix
  obtain ⟨e', f, he', hf, hlabel⟩ := ho
  obtain rfl := Option.some.inj (he.symm.trans he')
  obtain ⟨id', i', hid', hi', hiview⟩ := h.lookup? hid hi
  have hview := h.same he hf hlabel
  have hmodule' : i'.kind.isModule = true := isModule_of_nominal hiview hmodule
  -- A module is told from the owner, and from those that are mixed in, by its name.
  have hiname : i.name = module.value := name_of_lookup? hid hi
  have hself' : o' ≠ .type id' := by
    rintro rfl
    have hfname : f.name = module.value := name_of_lookup? hid' hf
    have hlabels : o.label e = (Owner.type id).label i :=
      hlabel.trans (congrArg some (hfname.trans hiname.symm))
    exact hself (h.left.toWellFormed.owner_of_label he hi hlabels)
  have hfree' : id' ∉ f.includes := by
    intro hmem
    have hincludes : f.includes.map d.registry.nameOf = e.includes.map c.registry.nameOf :=
      congrArg NominalEntry.includes hview
    have hname : module.value ∈ e.includes.map c.registry.nameOf := by
      rw [← hincludes, ← nameOf_of_lookup? hid']
      exact List.mem_map_of_mem hmem
    obtain ⟨j, hj, hjname⟩ := List.mem_map.mp hname
    have hregistered := h.left.registered he j
      (List.mem_append_right _ (List.mem_append_left _ hj))
    obtain rfl := nameOf_inj h.left.toWellFormed hregistered (Option.isSome_of_eq_some hi)
      (hjname.trans (nameOf_of_lookup? hid).symm)
    exact hfree hj
  have hd : outcome (mixIn o' module) d =
      (.ok (), ⟨d.registry.modifyOwner o' (·.mixIn id'), d.declared⟩) := by
    refine outcome_bind_eq_ok.mpr ⟨id', d, resolve_eq_ok.mpr ⟨hid', rfl⟩, ?_⟩
    exact update_eq_ok.mpr ⟨mixIn_of_free hf hi' hmodule' hself' hfree', rfl⟩
  have hc' := (settled_of_keeps (steadfastOn_settled.keeps_mixIn o module) h.left hc).1
  have hd' := (settled_of_keeps (steadfastOn_settled.keeps_mixIn o' module) h.right hd).1
  rw [hs] at hc' ⊢
  refine ⟨_, hd, ?_⟩
  dsimp only at hd' ⊢
  refine h.modifyOwner hc' hd' he hf hlabel ?_
  rw [Entry.nominal_mixIn, Entry.nominal_mixIn, hview, nameOf_of_lookup? hid,
    nameOf_of_lookup? hid']

theorem follows_collectMember {m : Member} (h : Ahead more c.registry d.registry)
    (ho : c.registry.SameOwner d.registry o o')
    (hc : outcome (collectMember o m) c = (.ok (), c')) :
    ∃ d', outcome (collectMember o' m) d = (.ok (), d') ∧
      Ahead more c'.registry d'.registry := by
  cases m with
  | method decl => exact follows_defineMethod h ho hc
  | inclusion module => exact follows_mixIn h ho hc

/-- The members of a block belong to one owner in each registry. -/
theorem follows_forM {f f' : α → Collect PUnit} {l : List α}
    (hkeeps : ∀ a, Keeps (Carries Settled Retains) (f a))
    (hkeeps' : ∀ a, Keeps (Carries Settled Retains) (f' a))
    (hf : ∀ {c d c' a}, Ahead more c.registry d.registry → c.registry.SameOwner d.registry o o' →
      outcome (f a) c = (.ok (), c') →
      ∃ d', outcome (f' a) d = (.ok (), d') ∧ Ahead more c'.registry d'.registry)
    (h : Ahead more c.registry d.registry) (ho : c.registry.SameOwner d.registry o o')
    (hc : outcome (l.forM f) c = (.ok (), c')) :
    ∃ d', outcome (l.forM f') d = (.ok (), d') ∧ Ahead more c'.registry d'.registry := by
  induction l generalizing c d with
  | nil =>
    obtain rfl := outcome_forM_nil.mp hc
    exact ⟨d, outcome_forM_nil.mpr rfl, h⟩
  | cons a l ih =>
    obtain ⟨mid, ha, hl⟩ := outcome_forM_cons.mp hc
    obtain ⟨mid', ha', hmid⟩ := hf h ho ha
    have hretains := (settled_of_keeps (hkeeps a) h.left ha).2
    have hretains' := (settled_of_keeps (hkeeps' a) h.right ha').2
    obtain ⟨d', hl', hlast⟩ := ih hmid (ho.mono hretains hretains') hl
    exact ⟨d', outcome_forM_cons.mpr ⟨mid', ha', hl'⟩, hlast⟩

end

/-! ### Programs -/

theorem follows_block {f : Owner → α → Collect PUnit} {l : List α} {name : Ident}
    (hkeeps : ∀ o a, Keeps (Carries Settled Retains) (f o a))
    (hf : ∀ {c d c' o o' a}, Ahead more c.registry d.registry →
      c.registry.SameOwner d.registry o o' → outcome (f o a) c = (.ok (), c') →
      ∃ d', outcome (f o' a) d = (.ok (), d') ∧ Ahead more c'.registry d'.registry)
    (h : Ahead more c.registry d.registry)
    (hc : outcome (resolve name >>= fun id => l.forM (f (.type id))) c = (.ok (), c')) :
    ∃ d', outcome (resolve name >>= fun id => l.forM (f (.type id))) d = (.ok (), d') ∧
      Ahead more c'.registry d'.registry := by
  obtain ⟨id, start, hname, hmembers⟩ := outcome_bind_eq_ok.mp hc
  obtain ⟨hid, rfl⟩ := resolve_eq_ok.mp hname
  obtain ⟨e, he, hename⟩ := get?_of_lookup? hid
  obtain ⟨id', e', hid', he', -⟩ := h.lookup? hid he
  have ho : c.registry.SameOwner d.registry (.type id) (.type id') := by
    exact ⟨e, e', he, he', congrArg some (hename.trans (name_of_lookup? hid' he').symm)⟩
  obtain ⟨d', hd, hlast⟩ := follows_forM (hkeeps _) (hkeeps _) hf h ho hmembers
  exact ⟨d', outcome_bind_eq_ok.mpr ⟨id', d, resolve_eq_ok.mpr ⟨hid', rfl⟩, hd⟩, hlast⟩

theorem follows_collectDeclaration (decl : Declaration) :
    Follows more (collectDeclaration decl) (collectDeclaration decl) := by
  intro c d h u c' hc
  have hmain : c.registry.SameOwner d.registry .main .main :=
    ⟨c.registry.main, d.registry.main, rfl, rfl, rfl⟩
  have hmembers {name : Ident} {members : List (Located Member)}
      (hc : outcome (collectMembers name members) c = (.ok (), c')) :
      ∃ d', outcome (collectMembers name members) d = (.ok (), d') ∧
        Ahead more c'.registry d'.registry :=
    follows_block (f := fun o (m : Located Member) => collectMember o m.value)
      (fun o m => steadfastOn_settled.keeps_collectMember o m.value) follows_collectMember h hc
  have hunit {m : Collect Unit} (hd : ∃ d', outcome m d = (.ok (), d') ∧
      Ahead more c'.registry d'.registry) :
      ∃ b d', outcome m d = (.ok b, d') ∧ Ahead more c'.registry d'.registry :=
    ⟨(), hd⟩
  cases decl with
  | classBlock name superclass members => exact hunit (hmembers hc)
  | moduleBlock name members => exact hunit (hmembers hc)
  | libBlock name libname functions =>
    exact hunit (follows_block (f := fun o (m : Located MethodDecl) => defineMethod o m.value)
      (fun o m => steadfastOn_settled.keeps_defineMethod o m.value) follows_defineMethod h hc)
  | primitive name superclass repr size =>
    obtain ⟨-, rfl⟩ := outcome_pure_eq_ok.mp hc
    exact ⟨(), d, rfl, h⟩
  | method decl => exact hunit (follows_defineMethod h hmain hc)
  | inclusion module => exact hunit (follows_mixIn h hmain hc)

/-- Members that are accepted are accepted wherever there are only more types. -/
theorem follows_declarations (p : Program) :
    Follows more (p.forM fun d => collectDeclaration d.value)
      (p.forM fun d => collectDeclaration d.value) := by
  induction p with
  | nil =>
    intro c d h u c' hc
    obtain rfl := outcome_forM_nil.mp hc
    exact ⟨(), d, outcome_forM_nil.mpr rfl, h⟩
  | cons decl decls ih =>
    intro c d h u c' hc
    obtain ⟨mid, hdecl, hdecls⟩ := outcome_forM_cons.mp hc
    obtain ⟨⟨⟩, mid', hdecl', hmid⟩ := follows_collectDeclaration decl.value c d h () mid hdecl
    obtain ⟨⟨⟩, d', hdecls', hlast⟩ := ih mid mid' hmid () c' hdecls
    exact ⟨(), d', outcome_forM_cons.mpr ⟨mid', hdecl', hdecls'⟩, hlast⟩

end Collect

end DeclLang
