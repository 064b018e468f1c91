import DeclLang.Proofs.Collection.Resolution
import DeclLang.Proofs.Registry.Closed
import Mathlib.Data.List.Forall2

/-!
# Instances: what resolving the types of a member adds

Resolving leaves every owner as it is and adds the instances that are asked for and not there yet,
each with what the builtin array has at that moment (`Instantiated`). After it, all that was
resolved can be read off the registry: types by `typeOf?` and signatures by `signature?`.
-/

namespace DeclLang

namespace MethodDecl

/-- The applications of generic types in a signature. -/
def instances (m : MethodDecl) : List TypeExpr :=
  m.parameters.flatMap (·.type.instances) ++ m.returns.toList.flatMap (·.instances)

end MethodDecl

namespace Registry

def parameter? (r : Registry) (p : Parameter) : Option SignatureParameter :=
  (r.typeOf? p.type).map (SignatureParameter.mk p.name)

/-- The signature that a declaration stands for, if all types in it stand for something. -/
def signature? (r : Registry) (m : MethodDecl) : Option Signature := do
  let parameters ← m.parameters.mapM r.parameter?
  let returns ← m.returns.mapM r.typeOf?
  return ⟨m.name.value, parameters, returns⟩

section

variable {α β : Type} {f g : α → Option β} {l : List α} {bs : List β}

/-- What is found for a list is found for its items, one by one. -/
theorem mapM_eq_some_iff : l.mapM f = some bs ↔ List.Forall₂ (fun a b => f a = some b) l bs := by
  induction l generalizing bs with
  | nil => simp [eq_comm]
  | cons a l ih =>
    simp only [List.mapM_cons, Option.bind_eq_bind, Option.bind_eq_some_iff, Option.pure_def,
      Option.some.injEq, List.forall₂_cons_left_iff, ih]
    constructor
    · rintro ⟨b, hb, bs', hbs', rfl⟩
      exact ⟨b, bs', hb, hbs', rfl⟩
    · rintro ⟨b, bs', hb, hbs', rfl⟩
      exact ⟨b, hb, bs', hbs', rfl⟩

theorem optionMapM_eq_some_iff {t : Option α} {o : Option β} :
    t.mapM f = some o ↔ Option.Rel (fun a b => f a = some b) t o := by
  cases t with
  | none =>
    constructor
    · rintro ⟨⟩
      exact .none
    · rintro ⟨⟩
      rfl
  | some a =>
    rw [Option.mapM_some, Option.map_eq_map, Option.map_eq_some_iff]
    constructor
    · rintro ⟨b, hb, rfl⟩
      exact .some hb
    · rintro (hb | _)
      exact ⟨_, hb, rfl⟩

/-- What is found for each item of a list is found for all of them later on. -/
theorem mapM_mono (hfg : ∀ {a b}, f a = some b → g a = some b) (h : l.mapM f = some bs) :
    l.mapM g = some bs :=
  mapM_eq_some_iff.mpr ((mapM_eq_some_iff.mp h).imp fun _ _ => hfg)

/-- What is found for a list was found for its items. -/
theorem mem_of_mapM (h : l.mapM f = some bs) : ∀ b ∈ bs, ∃ a ∈ l, f a = some b := by
  rw [mapM_eq_some_iff] at h
  induction h with
  | nil => exact List.forall_mem_nil _
  | @cons a b l bs hb _ ih =>
    refine List.forall_mem_cons.mpr ⟨⟨a, List.mem_cons_self, hb⟩, fun b' hb' => ?_⟩
    obtain ⟨a', ha', h'⟩ := ih b' hb'
    exact ⟨a', List.mem_cons_of_mem a ha', h'⟩

/-- What is found for a list has something for each of its items. -/
theorem exists_mem_of_mapM (h : l.mapM f = some bs) : ∀ a ∈ l, ∃ b ∈ bs, f a = some b := by
  rw [mapM_eq_some_iff] at h
  induction h with
  | nil => exact List.forall_mem_nil _
  | @cons a b l bs hb _ ih =>
    refine List.forall_mem_cons.mpr ⟨⟨b, List.mem_cons_self, hb⟩, fun a' ha' => ?_⟩
    obtain ⟨b', hb', h'⟩ := ih a' ha'
    exact ⟨b', List.mem_cons_of_mem b hb', h'⟩

end

theorem Retains.parameter? {r s : Registry} (h : r.Retains s) {p : Parameter}
    {q : SignatureParameter} (hp : r.parameter? p = some q) : s.parameter? p = some q := by
  rcases Option.map_eq_some_iff.mp hp with ⟨id, hid, rfl⟩
  rw [Registry.parameter?, h.typeOf? hid, Option.map_some]

theorem signature?_eq_some {r : Registry} {m : MethodDecl} {signature : Signature} :
    r.signature? m = some signature ↔
      ∃ parameters returns, m.parameters.mapM r.parameter? = some parameters ∧
        m.returns.mapM r.typeOf? = some returns ∧
        signature = ⟨m.name.value, parameters, returns⟩ := by
  simp only [signature?, Option.bind_eq_bind, Option.bind_eq_some_iff, Option.pure_def,
    Option.some.injEq]
  constructor
  · rintro ⟨ps, hps, rs, hrs, rfl⟩
    exact ⟨ps, rs, hps, hrs, rfl⟩
  · rintro ⟨ps, rs, hps, hrs, rfl⟩
    exact ⟨ps, hps, rs, hrs, rfl⟩

/-- The types in a signature that a declaration stands for are registered. -/
theorem Regular.isSome_get?_of_signature? {r : Registry} (hr : Regular r) {m : MethodDecl}
    {signature : Signature} (h : r.signature? m = some signature) :
    ∀ id ∈ signature.mentions, (r.get? id).isSome = true := by
  obtain ⟨parameters, returns, hparameters, hreturns, rfl⟩ := signature?_eq_some.mp h
  intro id hid
  obtain hid | hid := List.mem_append.mp hid
  · obtain ⟨q, hq, rfl⟩ := List.mem_map.mp hid
    obtain ⟨p, -, hp⟩ := mem_of_mapM hparameters q hq
    obtain ⟨type, htype, rfl⟩ := Option.map_eq_some_iff.mp hp
    exact hr.isSome_get?_of_typeOf? htype
  · rw [optionMapM_eq_some_iff] at hreturns
    generalize m.returns = t at hreturns
    cases hreturns with
    | none => cases hid
    | @some type id' htype =>
      obtain rfl : id = id' := by simpa using hid
      exact hr.isSome_get?_of_typeOf? htype

/-- A declaration stands for the same signature later on. -/
theorem Retains.signature? {r s : Registry} (h : r.Retains s) {m : MethodDecl}
    {signature : Signature} (hm : r.signature? m = some signature) :
    s.signature? m = some signature := by
  rw [signature?_eq_some] at hm ⊢
  rcases hm with ⟨ps, rs, hps, hrs, rfl⟩
  refine ⟨ps, rs, mapM_mono h.parameter? hps, ?_, rfl⟩
  rw [optionMapM_eq_some_iff] at hrs ⊢
  generalize m.returns = t at hrs ⊢
  cases hrs with
  | none => exact .none
  | some hid => exact .some (h.typeOf? hid)

/-- Entry `e` of `s` is an array instance that `r` does not have; `source` is the builtin array as
    it was when the instance was made. -/
structure FreshInstance (r s : Registry) (id : TypeId) (e : Entry) (element : TypeId)
    (source : Entry) : Prop where
  entry : e = specialized (s.instanceName Builtin.array.typeId element) element
    Builtin.array.typeId source
  registered : (s.get? element).isSome = true
  unmade : r.cached? Builtin.array.typeId element = none
  made : s.cached? Builtin.array.typeId element = some id

/-- The records of instances that `s` has and `r` does not have are those of new arrays. -/
def RecordsNew (r s : Registry) : Prop :=
  ∃ made, s.instances = r.instances ++ made ∧ ∀ i ∈ made,
    i.template = Builtin.array.typeId ∧ r.get? i.array = none ∧
      ∃ e superclass, s.get? i.array = some e ∧
        e.kind = .array superclass i.element (some Builtin.array.typeId)

/-- `s` is `r` with the instances that `gs` ask for. -/
structure Instantiated (gs : List TypeExpr) (r s : Registry) : Prop where
  target : s.target = r.target
  symbols : s.symbols = r.symbols
  poisoned : s.poisoned = r.poisoned
  owner : ∀ {o e}, r.owner? o = some e → s.owner? o = some e
  lookup? : ∀ {name id}, r.lookup? name = some id → s.lookup? name = some id
  resolved : ∀ g ∈ gs, ∃ id, s.typeOf? g = some id
  new : ∀ {id e}, s.get? id = some e → r.get? id = none →
    (∃ g ∈ gs, s.typeOf? g = some id) ∧ ∃ element source,
      r.get? Builtin.array.typeId = some source ∧ FreshInstance r s id e element source
  records : r.RecordsNew s

theorem Instantiated.retains {gs : List TypeExpr} {r s : Registry} (h : Instantiated gs r s) :
    r.Retains s where
  target := h.target
  symbols := h.symbols
  poisoned := h.poisoned
  owner he := ⟨_, h.owner he, rfl, rfl⟩
  instances := by
    rcases h.records with ⟨made, hmade, -⟩
    exact ⟨made, hmade.symm⟩
  lookup? := h.lookup?

theorem RecordsNew.refl (r : Registry) : r.RecordsNew r :=
  ⟨[], by simp, by simp⟩

theorem Instantiated.refl (r : Registry) : Instantiated [] r r where
  target := rfl
  symbols := rfl
  poisoned := rfl
  owner he := he
  lookup? hid := hid
  resolved := by simp
  new he hid := by
    rw [hid] at he
    cases he
  records := .refl r

/-! ## One after the other -/

theorem get?_eq_none_of_retains {r s : Registry} (h : r.Retains s) {id : TypeId}
    (hid : s.get? id = none) : r.get? id = none := by
  cases hr : r.get? id with
  | none => rfl
  | some e =>
    rcases h.get? hr with ⟨f, hf, -⟩
    rw [hid] at hf
    cases hf

theorem RecordsNew.trans {r s t : Registry} (h : r.RecordsNew s) (h' : s.RecordsNew t)
    (hrs : r.Retains s) (hst : s.Retains t) : r.RecordsNew t := by
  rcases h with ⟨made, hmade, hold⟩
  rcases h' with ⟨made', hmade', hnew⟩
  refine ⟨made ++ made', by rw [hmade', hmade, List.append_assoc], fun i hi => ?_⟩
  rcases List.mem_append.mp hi with hi | hi
  · rcases hold i hi with ⟨htemplate, hfree, e, superclass, he, hkind⟩
    rcases hst.get? he with ⟨f, hf, -, hfkind⟩
    exact ⟨htemplate, hfree, f, superclass, hf, hfkind.trans hkind⟩
  · rcases hnew i hi with ⟨htemplate, hfree, hentry⟩
    exact ⟨htemplate, get?_eq_none_of_retains hrs hfree, hentry⟩

/-- A new instance stays what it is. -/
theorem FreshInstance.mono {r s t : Registry} {id element : TypeId} {e source : Entry}
    (h : FreshInstance r s id e element source) (hs : Regular s) (hst : s.Retains t) :
    FreshInstance r t id e element source where
  entry := by
    rw [h.entry, instanceName, instanceName, hst.nameOf hs.array, hst.nameOf h.registered]
  registered := hst.isSome_get? h.registered
  unmade := h.unmade
  made := hst.cached? h.made

/-- What is new now was new before. -/
theorem FreshInstance.earlier {r s t : Registry} {id element : TypeId} {e source : Entry}
    (h : FreshInstance s t id e element source) (hrs : r.Retains s) :
    FreshInstance r t id e element source where
  entry := h.entry
  registered := h.registered
  unmade := by
    cases hcached : r.cached? Builtin.array.typeId element with
    | none => rfl
    | some id' =>
      have hs := hrs.cached? hcached
      rw [h.unmade] at hs
      cases hs
  made := h.made

theorem Instantiated.append {gs gs' : List TypeExpr} {r s t : Registry} (hr : Regular r)
    (hs : Regular s) (h : Instantiated gs r s) (h' : Instantiated gs' s t) :
    Instantiated (gs ++ gs') r t where
  target := h'.target.trans h.target
  symbols := h'.symbols.trans h.symbols
  poisoned := h'.poisoned.trans h.poisoned
  owner he := h'.owner (h.owner he)
  lookup? hid := h'.lookup? (h.lookup? hid)
  resolved g hg := by
    rcases List.mem_append.mp hg with hg | hg
    · rcases h.resolved g hg with ⟨id, hid⟩
      exact ⟨id, h'.retains.typeOf? hid⟩
    · exact h'.resolved g hg
  new {id e} he hid := by
    -- The entry is new in the first step or in the second one.
    cases hmid : s.get? id with
    | some e' =>
      have hsame := h'.owner (o := .type id) hmid
      rw [owner?_type, he, Option.some.injEq] at hsame
      subst hsame
      rcases h.new hmid hid with ⟨⟨g, hg, hgid⟩, element, source, hsource, hfresh⟩
      exact ⟨⟨g, List.mem_append_left _ hg, h'.retains.typeOf? hgid⟩, element, source, hsource,
        hfresh.mono hs h'.retains⟩
    | none =>
      rcases h'.new he hmid with ⟨⟨g, hg, hgid⟩, element, source, hsource, hfresh⟩
      refine ⟨⟨g, List.mem_append_right _ hg, hgid⟩, element, source, ?_,
        hfresh.earlier h.retains⟩
      -- The builtin array was there from the start, and making instances does not touch it.
      rcases Option.isSome_iff_exists.mp hr.array with ⟨array, harray⟩
      have hsame := h.owner (o := .type Builtin.array.typeId) harray
      rw [owner?_type, hsource] at hsame
      rw [harray, hsame]
  records := h.records.trans h'.records h.retains h'.retains

/-! ## One instance -/

/-- The registry with one more instance of the builtin array, which has what `source` has. -/
def withInstance (r : Registry) (element : TypeId) (source : Entry) : Registry :=
  (r.push (specialized (r.instanceName Builtin.array.typeId element) element Builtin.array.typeId
    source)).2.cache ⟨Builtin.array.typeId, element, ⟨r.size⟩⟩

/-- A specialization is added under its name, which must be free, and may become the instance for
    its element. -/
theorem Regular.specialize_eq_ok {r s : Registry} (hr : Regular r) {array element id : TypeId}
    {name : Option String} (h : r.specialize array element name = .ok (id, s)) :
    ∃ source, r.get? Builtin.array.typeId = some source ∧
      r.lookup? (name.getD (r.instanceName Builtin.array.typeId element)) = none ∧
      id = ⟨r.size⟩ ∧
      s = (r.push (specialized (name.getD (r.instanceName Builtin.array.typeId element)) element
        Builtin.array.typeId source)).2.cache ⟨Builtin.array.typeId, element, ⟨r.size⟩⟩ := by
  obtain ⟨template, base, source, htemplate, hbase, hsource, hfree, hid, hs⟩ :=
    Registry.specialize_eq_ok h
  obtain rfl := hr.templateOf htemplate
  obtain rfl := hr.templateOf hbase
  exact ⟨source, hsource, hfree, hid, hs⟩

/-- Asking for an instance gives the one that is there, or makes it. -/
theorem instantiate_eq_ok {r s : Registry} (hr : Regular r) {array element id : TypeId}
    (h : r.instantiate array element = .ok (id, s)) :
    r.templateOf array = .ok Builtin.array.typeId ∧
      ((r.cached? Builtin.array.typeId element = some id ∧ s = r) ∨
        ∃ source, r.get? Builtin.array.typeId = some source ∧
          r.cached? Builtin.array.typeId element = none ∧
          r.lookup? (r.instanceName Builtin.array.typeId element) = none ∧ id = ⟨r.size⟩ ∧
          s = r.withInstance element source) := by
  obtain ⟨template, htemplate, h₁⟩ := bind_eq_ok.mp h
  obtain rfl := hr.templateOf htemplate
  refine ⟨htemplate, ?_⟩
  split at h₁
  · rename_i hcached
    rw [pure_eq_ok, Prod.mk.injEq] at h₁
    obtain ⟨rfl, rfl⟩ := h₁
    exact .inl ⟨hcached, rfl⟩
  · rename_i hcached
    obtain ⟨source, hsource, hname, hid, hs⟩ := hr.specialize_eq_ok h₁
    exact .inr ⟨source, hsource, hcached, hname, hid, hs⟩

section

variable {r : Registry} {array element : TypeId}

theorem instantiate_of_cached {id : TypeId}
    (htemplate : r.templateOf array = .ok Builtin.array.typeId)
    (hcached : r.cached? Builtin.array.typeId element = some id) :
    r.instantiate array element = .ok (id, r) := by
  refine bind_eq_ok.mpr ⟨_, htemplate, ?_⟩
  rw [hcached]
  rfl

-- The template of the builtin array is looked up once more, and is the builtin array.
theorem WellFormed.templateOf_self (hr : WellFormed r) {template : TypeId} {source : Entry}
    (htemplate : r.templateOf array = .ok template) (hsource : r.get? template = some source) :
    r.templateOf template = .ok template := by
  obtain ⟨superclass, previous, hkind⟩ := hr.kind_of_templateOf htemplate hsource
  exact templateOf_eq_ok.mpr ⟨source, hsource, by rw [hkind]; rfl, by rw [hkind]; rfl⟩

theorem WellFormed.cloneArray?_self (hr : WellFormed r) {template : TypeId} {source : Entry}
    (htemplate : r.templateOf array = .ok template) (hsource : r.get? template = some source)
    (element : TypeId) (name : String) :
    r.cloneArray? template element name = some (specialized name element template source) := by
  obtain ⟨superclass, previous, hkind⟩ := hr.kind_of_templateOf htemplate hsource
  simp [cloneArray?, hsource, hkind]

theorem instantiate_of_free (hr : WellFormed r) {source : Entry}
    (htemplate : r.templateOf array = .ok Builtin.array.typeId)
    (hsource : r.get? Builtin.array.typeId = some source)
    (hcached : r.cached? Builtin.array.typeId element = none)
    (hfree : r.lookup? (r.instanceName Builtin.array.typeId element) = none) :
    r.instantiate array element = .ok (⟨r.size⟩, r.withInstance element source) := by
  refine bind_eq_ok.mpr ⟨_, htemplate, ?_⟩
  rw [hcached]
  have hself := hr.templateOf_self htemplate hsource
  refine bind_eq_ok.mpr ⟨_, hself, ?_⟩
  rw [Option.getD_none]
  dsimp only
  rw [hr.cloneArray?_self htemplate hsource]
  exact bind_eq_ok.mpr ⟨_, register_eq_ok_iff.mpr ⟨hfree, rfl⟩, rfl⟩

end

section

variable {r : Registry} {element : TypeId} {source : Entry}

theorem owner?_withInstance {o : Owner} {e : Entry} (he : r.owner? o = some e) :
    (r.withInstance element source).owner? o = some e := by
  rw [withInstance, owner?_cache, owner?_push_of_some he]

theorem get?_withInstance_self :
    (r.withInstance element source).get? ⟨r.size⟩ =
      some (specialized (r.instanceName Builtin.array.typeId element) element
        Builtin.array.typeId source) := by
  rw [withInstance, ← owner?_type, owner?_cache, owner?_type, get?_push_self]

theorem get?_withInstance_new {id : TypeId} {e : Entry}
    (he : (r.withInstance element source).get? id = some e) (hid : r.get? id = none) :
    id = ⟨r.size⟩ ∧ e = specialized (r.instanceName Builtin.array.typeId element) element
      Builtin.array.typeId source := by
  rw [withInstance, ← owner?_type, owner?_cache, owner?_type] at he
  exact get?_push_new he hid

theorem instances_withInstance (hfree : r.cached? Builtin.array.typeId element = none)
    (source : Entry) :
    (r.withInstance element source).instances =
      r.instances ++ [⟨Builtin.array.typeId, element, ⟨r.size⟩⟩] := by
  unfold withInstance cache
  split
  · rename_i id hid
    exact absurd (hfree.symm.trans hid) (Option.some_ne_none id).symm
  · rfl

theorem lookup?_withInstance_of_some
    (hname : r.lookup? (r.instanceName Builtin.array.typeId element) = none) {name : String}
    {id : TypeId} (hid : r.lookup? name = some id) :
    (r.withInstance element source).lookup? name = some id := by
  rw [withInstance, lookup?_cache]
  exact lookup?_push_of_some hname hid

theorem retains_withInstance (hfree : r.cached? Builtin.array.typeId element = none)
    (hname : r.lookup? (r.instanceName Builtin.array.typeId element) = none)
    (source : Entry) : r.Retains (r.withInstance element source) where
  target := target_cache _ _
  symbols := by
    unfold withInstance cache
    split <;> rfl
  poisoned := by
    unfold withInstance cache
    split <;> rfl
  owner he := ⟨_, owner?_withInstance he, rfl, rfl⟩
  instances := ⟨_, (instances_withInstance hfree source).symm⟩
  lookup? := lookup?_withInstance_of_some hname

theorem cached?_withInstance (hfree : r.cached? Builtin.array.typeId element = none)
    (source : Entry) :
    (r.withInstance element source).cached? Builtin.array.typeId element = some ⟨r.size⟩ := by
  let e := specialized (r.instanceName Builtin.array.typeId element) element
    Builtin.array.typeId source
  -- Adding the entry does not touch the records, so the pair is still free.
  have hcache := cached?_cache_self (r.push e).2 ⟨Builtin.array.typeId, element, ⟨r.size⟩⟩
  have hnone : (r.push e).2.cached? Builtin.array.typeId element = none := hfree
  rw [hnone] at hcache
  exact hcache

/-- The only type that is new with an instance is the instance. -/
theorem instantiated_withInstance (hr : Regular r)
    (hsource : r.get? Builtin.array.typeId = some source)
    (helement : (r.get? element).isSome = true)
    (hfree : r.cached? Builtin.array.typeId element = none)
    (hunused : r.lookup? (r.instanceName Builtin.array.typeId element) = none) {t : TypeExpr}
    (ht : (r.withInstance element source).typeOf? t = some ⟨r.size⟩) :
    Instantiated [t] r (r.withInstance element source) := by
  have hretains := retains_withInstance hfree hunused source
  have hname : (r.withInstance element source).instanceName Builtin.array.typeId element =
      r.instanceName Builtin.array.typeId element := by
    rw [instanceName, instanceName, hretains.nameOf hr.array, hretains.nameOf helement]
  refine ⟨hretains.target, hretains.symbols, hretains.poisoned, owner?_withInstance,
    hretains.lookup?, ?_, ?_, ?_⟩
  · intro g hg
    rw [List.mem_singleton.mp hg]
    exact ⟨_, ht⟩
  · intro id e he hid
    rcases get?_withInstance_new he hid with ⟨rfl, rfl⟩
    refine ⟨⟨t, List.mem_singleton_self t, ht⟩, element, source, hsource, ?_⟩
    exact ⟨by rw [hname], hretains.isSome_get? helement, hfree, cached?_withInstance hfree source⟩
  · refine ⟨_, instances_withInstance hfree source, fun i hi => ?_⟩
    rcases List.mem_singleton.mp hi with rfl
    exact ⟨rfl, get?_eq_none_iff.mpr (Nat.le_refl _), _, _, get?_withInstance_self, rfl⟩

end

/-- An instance that was given is in the cache, and arrays still have the template that they had. -/
theorem Regular.cached?_of_instantiate {r s : Registry} (hr : Regular r)
    {array element id : TypeId} (h : r.instantiate array element = .ok (id, s)) :
    s.templateOf array = .ok Builtin.array.typeId ∧
      s.cached? Builtin.array.typeId element = some id := by
  obtain ⟨htemplate, hmade⟩ := instantiate_eq_ok hr h
  rcases hmade with ⟨hcached, rfl⟩ | ⟨source, -, hfree, hname, rfl, rfl⟩
  · exact ⟨htemplate, hcached⟩
  · exact ⟨(retains_withInstance hfree hname source).templateOf htemplate,
      cached?_withInstance hfree source⟩

/-- Whatever an instance is asked for by, the registry gets nothing but that instance. -/
theorem instantiated_of_instantiate {r s : Registry} (hr : Regular r) {array element id : TypeId}
    (h : r.instantiate array element = .ok (id, s)) (helement : (r.get? element).isSome = true) :
    r.Retains s ∧ s.cached? Builtin.array.typeId element = some id ∧
      ∀ t, s.typeOf? t = some id → Instantiated [t] r s := by
  rcases instantiate_eq_ok hr h with
    ⟨-, ⟨hcached, rfl⟩ | ⟨source, hsource, hfree, hname, rfl, rfl⟩⟩
  · -- The instance was made before, so only what is asked for differs from nothing at all.
    refine ⟨.refl s, hcached, fun t ht => ?_⟩
    have hrefl := Instantiated.refl s
    exact { hrefl with
      resolved := by simpa using ⟨id, ht⟩
      new := fun he hid => by rw [hid] at he; cases he }
  · refine ⟨retains_withInstance hfree hname source, cached?_withInstance hfree source,
      fun t ht => ?_⟩
    exact instantiated_withInstance hr hsource helement hfree hname ht

end Registry

/-! ## Types and signatures -/

namespace Collect

open Registry

variable {c c' : Collection}

/-- A step leaves a regular registry behind. -/
theorem regular_of_keeps {α : Type} {m : Collect α} {a : α}
    (hm : Keeps (fun r s => Regular r → Regular s) m) (hr : Regular c.registry)
    (h : outcome m c = (.ok a, c')) : Regular c'.registry := by
  have hkeeps := hm c
  rw [h] at hkeeps
  exact hkeeps hr

theorem apply_eq_ok {α : Type} {blame : DeclarationError → Span} {a : α}
    {operation : Registry → Except DeclarationError (α × Registry)} :
    outcome (apply blame operation) c = (.ok a, c') ↔
      operation c.registry = .ok (a, c'.registry) ∧ c'.declared = c.declared := by
  rw [outcome_apply]
  cases operation c.registry with
  | error e => simp
  | ok x =>
    rcases x with ⟨a', r⟩
    rcases c' with ⟨s, n⟩
    simp only [Prod.mk.injEq, Except.ok.injEq, Collection.mk.injEq]
    constructor
    · rintro ⟨rfl, rfl, rfl⟩
      exact ⟨⟨rfl, rfl⟩, rfl⟩
    · rintro ⟨⟨rfl, rfl⟩, rfl⟩
      exact ⟨rfl, rfl, rfl⟩

theorem update_eq_ok {span : Span} {operation : Registry → Except DeclarationError Registry} :
    outcome (update span operation) c = (.ok (), c') ↔
      operation c.registry = .ok c'.registry ∧ c'.declared = c.declared := by
  rw [update, apply_eq_ok]
  cases operation c.registry <;> simp [Except.map]

/-- Resolving an expression makes the instances that it asks for, and what it is resolved to is what
    it stands for from then on. -/
theorem resolveType_eq_ok {t : TypeExpr} {id : TypeId} (hr : Regular c.registry)
    (h : outcome (resolveType t) c = (.ok id, c')) :
    Instantiated t.instances c.registry c'.registry ∧ c'.registry.typeOf? t = some id ∧
      c'.declared = c.declared := by
  -- On the expression: the element is resolved first, and the instance of it is made last.
  induction t generalizing id c' with
  | named name =>
    rcases resolve_eq_ok.mp h with ⟨hid, rfl⟩
    exact ⟨.refl _, hid, rfl⟩
  | generic base arg span ih =>
    rcases outcome_bind_eq_ok.mp h with ⟨array, mid, hbase, h₁⟩
    rcases outcome_bind_eq_ok.mp h₁ with ⟨element, mid', harg, h₂⟩
    rcases resolve_eq_ok.mp hbase with ⟨harray, rfl⟩
    rcases ih harg with ⟨hinstances, helement, hdeclared⟩
    rcases apply_eq_ok.mp h₂ with ⟨hmake, hdeclared'⟩
    have hmid := regular_of_keeps (steadfast_regular.on.keeps_resolveType arg) hr harg
    rcases instantiate_eq_ok hmid hmake with ⟨htemplate, -⟩
    rcases instantiated_of_instantiate hmid hmake (hmid.isSome_get?_of_typeOf? helement) with
      ⟨hretains, hcached, hinstance⟩
    -- The base was looked up before the element was resolved, and stands for the same type now.
    have htype : c'.registry.typeOf? (.generic base arg span) = some id :=
      typeOf?_generic_eq_some.mpr ⟨array, element, _,
        hretains.lookup? (hinstances.retains.lookup? harray), hretains.typeOf? helement,
        hretains.templateOf htemplate, hcached⟩
    exact ⟨hinstances.append hr hmid (hinstance _ htype), htype, hdeclared'.trans hdeclared⟩

/-- In a registry that has all its instances, an expression is resolved to what it stands for and
    nothing is added. -/
theorem resolveType_eq_ok_iff {r : Registry} (hr : Regular r) {t : TypeExpr} {id : TypeId}
    {n : Nat} : outcome (resolveType t) ⟨r, n⟩ = (.ok id, ⟨r, n⟩) ↔ r.typeOf? t = some id := by
  constructor
  · intro h
    exact (resolveType_eq_ok hr h).2.1
  · intro h
    induction t generalizing id with
    | named name => exact resolve_eq_ok.mpr ⟨h, rfl⟩
    | generic base arg span ih =>
      rcases typeOf?_generic_eq_some.mp h with
        ⟨array, element, template, harray, helement, htemplate, hcached⟩
      refine outcome_bind_eq_ok.mpr ⟨array, _, resolve_eq_ok.mpr ⟨harray, rfl⟩, ?_⟩
      refine outcome_bind_eq_ok.mpr ⟨element, _, ih helement, ?_⟩
      refine apply_eq_ok.mpr ⟨?_, rfl⟩
      refine bind_eq_ok.mpr ⟨template, htemplate, ?_⟩
      dsimp only
      rw [hcached]
      rfl

theorem resolveParameter_eq_ok {p : Parameter} {q : SignatureParameter} (hr : Regular c.registry)
    (h : outcome (resolveParameter p) c = (.ok q, c')) :
    Instantiated p.type.instances c.registry c'.registry ∧ c'.registry.parameter? p = some q ∧
      c'.declared = c.declared := by
  rcases outcome_bind_eq_ok.mp h with ⟨id, mid, htype, h₁⟩
  rcases outcome_pure_eq_ok.mp h₁ with ⟨rfl, rfl⟩
  rcases resolveType_eq_ok hr htype with ⟨hinstances, hid, hdeclared⟩
  exact ⟨hinstances, by rw [parameter?, hid, Option.map_some], hdeclared⟩

theorem resolveParameters_eq_ok {ps : List Parameter} {qs : List SignatureParameter}
    (hr : Regular c.registry) (h : outcome (ps.mapM resolveParameter) c = (.ok qs, c')) :
    Instantiated (ps.flatMap (·.type.instances)) c.registry c'.registry ∧
      ps.mapM c'.registry.parameter? = some qs ∧ c'.declared = c.declared := by
  -- On the parameters: what the first one is resolved to is kept while the others are resolved.
  induction ps generalizing c qs with
  | nil =>
    rcases outcome_pure_eq_ok.mp h with ⟨rfl, rfl⟩
    exact ⟨.refl _, rfl, rfl⟩
  | cons p ps ih =>
    rw [List.mapM_cons] at h
    rcases outcome_bind_eq_ok.mp h with ⟨q, mid, hp, h₁⟩
    rcases outcome_bind_eq_ok.mp h₁ with ⟨qs', mid', hps, h₂⟩
    rcases outcome_pure_eq_ok.mp h₂ with ⟨rfl, rfl⟩
    have hmid := regular_of_keeps (steadfast_regular.on.keeps_resolveParameter p) hr hp
    rcases resolveParameter_eq_ok hr hp with ⟨hinstances, hq, hdeclared⟩
    rcases ih hmid hps with ⟨hinstances', hqs, hdeclared'⟩
    refine ⟨hinstances.append hr hmid hinstances', ?_, hdeclared'.trans hdeclared⟩
    rw [List.mapM_cons, hinstances'.retains.parameter? hq, hqs]
    rfl

theorem resolveReturns_eq_ok {t : Option TypeExpr} {id : Option TypeId} (hr : Regular c.registry)
    (h : outcome (t.mapM resolveType) c = (.ok id, c')) :
    Instantiated (t.toList.flatMap (·.instances)) c.registry c'.registry ∧
      t.mapM c'.registry.typeOf? = some id ∧ c'.declared = c.declared := by
  cases t with
  | none =>
    rcases outcome_pure_eq_ok.mp h with ⟨rfl, rfl⟩
    exact ⟨.refl _, rfl, rfl⟩
  | some t =>
    rw [Option.mapM_some, map_eq_pure_bind] at h
    rcases outcome_bind_eq_ok.mp h with ⟨id', mid, ht, h₁⟩
    rcases outcome_pure_eq_ok.mp h₁ with ⟨rfl, rfl⟩
    rcases resolveType_eq_ok hr ht with ⟨hinstances, hid, hdeclared⟩
    refine ⟨?_, ?_, hdeclared⟩
    · rw [Option.toList_some, List.flatMap_singleton]
      exact hinstances
    · rw [Option.mapM_some, hid]
      rfl

/-- The types of a method are resolved one after the other, and stand for a signature then. -/
theorem resolveSignature_eq_ok {m : MethodDecl} {parameters : List SignatureParameter}
    {returns : Option TypeId} {mid last : Collection} (hr : Regular c.registry)
    (hparameters : outcome (m.parameters.mapM resolveParameter) c = (.ok parameters, mid))
    (hreturns : outcome (m.returns.mapM resolveType) mid = (.ok returns, last)) :
    Instantiated m.instances c.registry last.registry ∧ Regular last.registry ∧
      last.registry.signature? m = some ⟨m.name.value, parameters, returns⟩ ∧
      last.declared = c.declared := by
  have hmid := regular_of_keeps
    (steadfast_regular.keeps_mapM steadfast_regular.on.keeps_resolveParameter) hr hparameters
  have hlast := regular_of_keeps
    (steadfast_regular.keeps_optionMapM steadfast_regular.on.keeps_resolveType) hmid hreturns
  rcases resolveParameters_eq_ok hr hparameters with ⟨hinstances, hps, hdeclared⟩
  rcases resolveReturns_eq_ok hmid hreturns with ⟨hinstances', hrs, hdeclared'⟩
  have hps' := mapM_mono hinstances'.retains.parameter? hps
  exact ⟨hinstances.append hr hmid hinstances', hlast,
    signature?_eq_some.mpr ⟨parameters, returns, hps', hrs, rfl⟩, hdeclared'.trans hdeclared⟩

/-- A method is added to its owner once all its types are there. -/
theorem defineMethod_eq_ok {owner : Owner} {m : MethodDecl} (hr : Regular c.registry)
    (h : outcome (defineMethod owner m) c = (.ok (), c')) :
    ∃ s signature e, Instantiated m.instances c.registry s ∧ Regular s ∧
      s.signature? m = some signature ∧ s.owner? owner = some e ∧
      c' = ⟨s.modifyOwner owner (·.define signature), c.declared⟩ := by
  rcases outcome_bind_eq_ok.mp h with ⟨parameters, mid, hparameters, h₁⟩
  rcases outcome_bind_eq_ok.mp h₁ with ⟨returns, mid', hreturns, h₂⟩
  rcases resolveSignature_eq_ok hr hparameters hreturns with
    ⟨hinstances, hmid', hsignature, hdeclared⟩
  rcases update_eq_ok.mp h₂ with ⟨hdefine, hdeclared'⟩
  rcases Registry.defineMethod_eq_ok hdefine with ⟨e, he, -, hs⟩
  refine ⟨mid'.registry, ⟨m.name.value, parameters, returns⟩, e, hinstances, hmid', hsignature,
    he, ?_⟩
  rw [← hs, ← hdeclared, ← hdeclared']

theorem mixIn_eq_ok {owner : Owner} {module : Ident}
    (h : outcome (mixIn owner module) c = (.ok (), c')) :
    ∃ id e, c.registry.lookup? module.value = some id ∧ c.registry.owner? owner = some e ∧
      c' = ⟨c.registry.modifyOwner owner (·.mixIn id), c.declared⟩ := by
  rcases outcome_bind_eq_ok.mp h with ⟨id, mid, hresolve, h₁⟩
  rcases resolve_eq_ok.mp hresolve with ⟨hid, rfl⟩
  rcases update_eq_ok.mp h₁ with ⟨hmix, hdeclared⟩
  rcases Registry.mixIn_eq_ok hmix with ⟨e, -, he, -, -, -, -, hs⟩
  exact ⟨id, e, hid, he, by rw [← hs, ← hdeclared]⟩

/-! ## Invariants of collecting -/

/-- A registry with a property becomes another one with it, to which it is related. -/
def Carries (I : Registry → Prop) (R : Registry → Registry → Prop) (r s : Registry) : Prop :=
  I r → I s ∧ R r s

theorem composable_carries {I : Registry → Prop} {R : Registry → Registry → Prop}
    (hR : Composable R) : Composable (Carries I R) where
  refl r h := ⟨h, hR.refl r⟩
  trans h h' hr := by
    obtain ⟨hs, hrs⟩ := h hr
    obtain ⟨ht, hst⟩ := h' hs
    exact ⟨ht, hR.trans hrs hst⟩

section

variable {I : Registry → Prop} {R : Registry → Registry → Prop} (hR : Composable R)
  (hregular : ∀ {r}, I r → Regular r)
  (hinstantiate : ∀ {r s array element id}, I r → (r.get? element).isSome = true →
    r.instantiate array element = .ok (id, s) → I s ∧ R r s)

include hR hregular hinstantiate

/-- Collecting makes an instance only for an element that it has resolved before. -/
theorem carries_instantiate {arg : TypeExpr} {element : TypeId} {mid : Collection}
    (hc : I c.registry) (harg : outcome (resolveType arg) c = (.ok element, mid))
    (template : TypeId) (blame : DeclarationError → Span) :
    Carries I R mid.registry
      (outcome (apply blame (·.instantiate template element)) mid).2.registry := by
  intro hmid
  obtain ⟨-, htype, -⟩ := resolveType_eq_ok (hregular hc) harg
  have helement := (hregular hmid).isSome_get?_of_typeOf? htype
  rw [outcome_apply]
  cases hmake : mid.registry.instantiate template element with
  | error e => exact ⟨hmid, hR.refl _⟩
  | ok x => exact hinstantiate hmid helement hmake

theorem carries_resolveType (t : TypeExpr) : Keeps (Carries I R) (resolveType t) := by
  have hcarries := composable_carries (I := I) hR
  induction t with
  | named name => exact hcarries.keeps_resolve name
  | generic base arg span ih =>
    refine hcarries.keeps_bind (hcarries.keeps_resolve _) fun template => ?_
    intro c hc
    refine hcarries.of_bind (ih c) (fun element mid harg => ?_) hc
    exact carries_instantiate hR hregular hinstantiate hc harg template _

/-- A method is added once its types are resolved, as the signature that it then stands for. -/
theorem carries_defineMethod {owner : Owner} {m : MethodDecl}
    (hdefine : ∀ {r s signature}, I r → r.signature? m = some signature →
      r.defineMethod owner signature = .ok s → I s ∧ R r s) :
    Keeps (Carries I R) (defineMethod owner m) := by
  have hcarries := composable_carries (I := I) hR
  have hresolve := carries_resolveType hR hregular hinstantiate
  have hps := hcarries.keeps_mapM (l := m.parameters) (hcarries.keeps_resolveParameter hresolve)
  have hrs := hcarries.keeps_optionMapM (o := m.returns) hresolve
  intro c hc
  refine hcarries.of_bind (hps c) (fun parameters mid hparameters => ?_) hc
  refine hcarries.of_bind (hrs mid) fun returns mid' hreturns => ?_
  intro hmid'
  obtain ⟨-, -, hsignature, -⟩ := resolveSignature_eq_ok (hregular hc) hparameters hreturns
  rw [update, outcome_apply]
  cases hadd : mid'.registry.defineMethod owner ⟨m.name.value, parameters, returns⟩ with
  | error e => exact ⟨hmid', hR.refl _⟩
  | ok s => exact hdefine hmid' hsignature hadd

/-- So for what collecting carries on, it is enough to look at instances for registered elements and
    at methods whose types are registered. -/
theorem steadfastOn_carries {N : String → Prop}
    (hoperation : ∀ {r s} (op : Operation), op.Collects N → op.apply r = .ok s → I r →
      I s ∧ R r s)
    (hdefine : ∀ {r s owner signature}, I r →
      (∀ id ∈ signature.mentions, (r.get? id).isSome = true) →
      r.defineMethod owner signature = .ok s → I s ∧ R r s) : SteadfastOn N (Carries I R) := by
  refine ⟨⟨composable_carries hR, hoperation⟩, carries_resolveType hR hregular hinstantiate,
    fun owner m => carries_defineMethod hR hregular hinstantiate fun hr hsignature hadd => ?_⟩
  exact hdefine hr ((hregular hr).isSome_get?_of_signature? hsignature) hadd

end

end Collect

end DeclLang
