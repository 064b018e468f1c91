import DeclLang.Proofs.Collection.Members
import DeclLang.Proofs.Registry.Cache
import DeclLang.Proofs.Syntax.Names

/-!
# Consing: one array for each element

In a registry that only programs with plain names were collected into, every specialized array is
the one that the cache has for its element, and it is named after that (`Consed`). This is kept by
everything that collecting does, whether it succeeds or not (`steadfastOn_consed`). So whenever an
array is asked for, it is in the cache or its name is free, and every type that can be resolved at
all is (`Consed.exists_resolveType`).
-/

namespace DeclLang

/-! ## Names of instances -/

/-- The name of the array of a type with a given name. -/
def instanceOf (name : String) : String :=
  "Array[" ++ name ++ "]"

theorem instanceOf_injective {m n : String} (h : instanceOf m = instanceOf n) : m = n := by
  have hchars := congrArg String.toList h
  simp only [instanceOf, String.toList_append, List.append_cancel_right_eq,
    List.append_cancel_left_eq] at hchars
  exact String.toList_inj.mp hchars

theorem not_isPlain_instanceOf (name : String) : ¬ IsPlain (instanceOf name) := by
  intro h
  apply h
  simp [instanceOf]

/-- A declared type is one of the types that a declaration names. -/
theorem typeName?_mem_typeNames {d : Declaration} {n : String} (h : n ∈ d.typeName?) :
    n ∈ d.typeNames := by
  cases d with
  | method => cases h
  | inclusion => cases h
  | _ =>
    obtain rfl := Option.some.inj h
    exact List.mem_cons_self

/-- Only arrays have templates. -/
theorem TypeKind.eq_array_of_template? {kind : TypeKind} {template : TypeId}
    (h : kind.template? = some template) :
    ∃ superclass element, kind = .array superclass element (some template) := by
  cases kind with
  | array superclass element t =>
    obtain rfl : t = some template := h
    exact ⟨superclass, element, rfl⟩
  | _ => cases h

namespace Registry

variable {r s : Registry}

/-! ## The invariant -/

/-- A registry in which every specialized array is the instance for its element. -/
structure Consed (r : Registry) : Prop extends Regular r, CacheSound r where
  /-- The builtin types are what they were. -/
  start : (initial r.target).Retains r
  /-- Types other than instances have plain names. -/
  plain : ∀ {id e}, r.get? id = some e → e.kind.template? = none → IsPlain e.name
  /-- An instance comes after its element, is found by it, and is named after it; `ARGV` alone has
      a name of its own. -/
  made : ∀ {id e superclass element template}, r.get? id = some e →
    e.kind = .array superclass element (some template) →
    element.index < id.index ∧ r.cached? Builtin.array.typeId element = some id ∧
      (id = Builtin.argv.typeId ∨ e.name = instanceOf (r.nameOf element))

theorem Retains.builtin {target : Target} (h : (initial target).Retains r) (b : Builtin) :
    ∃ e, r.get? b.typeId = some e ∧ e.name = b.name ∧ e.kind = b.typeKind target :=
  h.get? (get?_initial target b)

theorem Consed.instanceName (h : Consed r) (element : TypeId) :
    r.instanceName Builtin.array.typeId element = instanceOf (r.nameOf element) := by
  obtain ⟨e, he, hname, -⟩ := h.start.builtin .array
  have harray : r.nameOf Builtin.array.typeId = "Array" := by
    rw [nameOf, he]
    exact hname
  rw [Registry.instanceName, harray]
  rfl

theorem isPlain_of_get?_initial {target : Target} {id : TypeId} {e : Entry}
    (h : (initial target).get? id = some e) : IsPlain e.name := by
  obtain ⟨b, -, rfl⟩ := eq_entry_of_get?_initial h
  show IsPlain b.name
  cases b <;> decide

theorem consed_initial (target : Target) : Consed (initial target) where
  toRegular := regular_initial target
  toCacheSound := cacheSound_initial target
  start := .refl _
  plain h _ := isPlain_of_get?_initial h
  made h hkind := by
    obtain ⟨b, rfl, rfl⟩ := eq_entry_of_get?_initial h
    rw [Builtin.kind_entry] at hkind
    cases b <;> cases hkind
    exact ⟨by decide, rfl, .inl rfl⟩

/-- Only what is new has to be looked at. -/
theorem Consed.of_retains (h : Consed r) (hrs : r.Retains s) (hs : Regular s)
    (hcache : s.CacheSound)
    (hnew : ∀ {id e}, s.get? id = some e → r.get? id = none →
      (e.kind.template? = none → IsPlain e.name) ∧
      ∀ {superclass element template}, e.kind = .array superclass element (some template) →
        element.index < id.index ∧ s.cached? Builtin.array.typeId element = some id ∧
          (id = Builtin.argv.typeId ∨ e.name = instanceOf (s.nameOf element))) : Consed s where
  toRegular := hs
  toCacheSound := hcache
  start := by
    rw [hrs.target]
    exact h.start.trans hrs
  plain {id e} he hkind := by
    cases hold : r.get? id with
    | none => exact (hnew he hold).1 hkind
    | some e' =>
      obtain ⟨f, hf, hfname, hfkind⟩ := hrs.get? hold
      obtain rfl : e = f := Option.some.inj (he.symm.trans hf)
      rw [hfname]
      exact h.plain hold (hfkind ▸ hkind)
  made {id e superclass element template} he hkind := by
    cases hold : r.get? id with
    | none => exact (hnew he hold).2 hkind
    | some e' =>
      obtain ⟨f, hf, hfname, hfkind⟩ := hrs.get? hold
      obtain rfl : e = f := Option.some.inj (he.symm.trans hf)
      obtain ⟨hlt, hcached, hname⟩ := h.made hold (hfkind ▸ hkind)
      -- The element comes before the array, so it was registered and keeps its name.
      have hid := index_lt_of_get? hold
      have helement : (r.get? element).isSome = true := isSome_get?_iff.mpr (by omega)
      rw [hfname, hrs.nameOf helement]
      exact ⟨hlt, hrs.cached? hcached, hname⟩

/-! ## What collecting adds -/

/-- What an operation of collecting does: it adds a type without members, which is no array, or it
    changes the members of an owner. -/
inductive Gain (N : String → Prop) (r : Registry) : Registry → Prop where
  | declared {name : String} {kind : TypeKind} :
      N name → kind.isArray = false → r.lookup? name = none →
      Gain N r (r.push (.bare name kind)).2
  | changed {owner : Owner} {g : Entry → Entry} [Entry.KeepsName g] :
      (∀ e : Entry, (g e).kind = e.kind) → Gain N r (r.modifyOwner owner g)

theorem push_of_register {name : String} {kind : TypeKind} {id : TypeId}
    (h : r.register (.bare name kind) = .ok (id, s)) :
    r.lookup? name = none ∧ s = (r.push (.bare name kind)).2 :=
  (register_eq_ok_iff.mp h).imp_right fun hpush => (congrArg Prod.snd hpush).symm

/-- Other than for methods, collecting declares types or mixes modules in. -/
theorem collects_cases {N : String → Prop} {op : Operation} (hop : op.Collects N)
    (h : op.apply r = .ok s) :
    (∃ name kind, N name ∧ kind.isArray = false ∧ r.lookup? name = none ∧
      s = (r.push (.bare name kind)).2) ∨
      ∃ owner module, s = r.modifyOwner owner (·.mixIn module) := by
  cases op with
  | declareObject name superclass =>
    obtain ⟨id, h⟩ := map_snd_eq_ok.mp h
    obtain ⟨-, -, h⟩ := bind_eq_ok.mp h
    exact .inl ⟨name, _, hop, rfl, push_of_register h⟩
  | declareModule name =>
    obtain ⟨id, h⟩ := map_snd_eq_ok.mp h
    exact .inl ⟨name, _, hop, rfl, push_of_register h⟩
  | declarePrimitive name superclass repr byteSize =>
    obtain ⟨id, h⟩ := map_snd_eq_ok.mp h
    obtain ⟨-, -, h⟩ := bind_eq_ok.mp h
    obtain ⟨-, -, h⟩ := bind_eq_ok.mp h
    exact .inl ⟨name, _, hop, rfl, push_of_register h⟩
  | declareLib name libname =>
    obtain ⟨id, h⟩ := map_snd_eq_ok.mp h
    exact .inl ⟨name, _, hop, rfl, push_of_register h⟩
  | mixIn owner module =>
    obtain ⟨-, -, -, -, -, -, -, hs⟩ := mixIn_eq_ok h
    exact .inr ⟨owner, module, hs⟩
  | defineMethod | specialize | instantiate | arrayOf | rebindElement => exact hop.elim

theorem gain_of_apply {N : String → Prop} {op : Operation} (hop : op.Collects N)
    (h : op.apply r = .ok s) : Gain N r s := by
  obtain ⟨name, kind, hN, hkind, hfree, rfl⟩ | ⟨owner, module, rfl⟩ := collects_cases hop h
  · exact .declared hN hkind hfree
  · exact .changed fun _ => rfl

theorem gain_of_define {N : String → Prop} {owner : Owner} {signature : Signature}
    (h : r.defineMethod owner signature = .ok s) : Gain N r s := by
  obtain ⟨-, -, -, rfl⟩ := defineMethod_eq_ok h
  exact .changed fun _ => rfl

theorem Gain.retains {N : String → Prop} (h : Gain N r s) : r.Retains s := by
  cases h with
  | declared _ _ hfree => exact retains_push hfree
  | changed hg => exact retains_modifyOwner hg

theorem Consed.gain (h : Consed r) (hs : Regular s) (hcache : s.CacheSound)
    (hgain : Gain IsPlain r s) : Consed s := by
  refine h.of_retains hgain.retains hs hcache fun {id e} he hid => ?_
  cases hgain with
  | declared hname hkind hfree =>
    obtain ⟨-, rfl⟩ := get?_push_new he hid
    refine ⟨fun _ => hname, fun hkind' => ?_⟩
    rw [Entry.kind_bare] at hkind'
    rw [hkind'] at hkind
    cases hkind
  -- No entry is new when only members are.
  | changed hg => exact absurd hid (get?_ne_none_of_modifyOwner he)

/-- The instance for a registered element is named after it, and found by it from then on. -/
theorem Consed.withInstance (h : Consed r) {element : TypeId} {source : Entry}
    (hfree : r.cached? Builtin.array.typeId element = none)
    (hname : r.lookup? (r.instanceName Builtin.array.typeId element) = none)
    (helement : (r.get? element).isSome = true) (hs : Regular (r.withInstance element source))
    (hcache : (r.withInstance element source).CacheSound) :
    Consed (r.withInstance element source) := by
  have hretains := retains_withInstance hfree hname source
  refine h.of_retains hretains hs hcache fun {id e} he hid => ?_
  obtain ⟨rfl, rfl⟩ := get?_withInstance_new he hid
  refine ⟨fun hkind => (nomatch hkind), fun {superclass element' template} hkind => ?_⟩
  obtain ⟨-, rfl, -⟩ := TypeKind.array.inj hkind
  refine ⟨isSome_get?_iff.mp helement, cached?_withInstance hfree source, .inr ?_⟩
  rw [hretains.nameOf helement]
  exact h.instanceName element

theorem Consed.instantiate (h : Consed r) {array element id : TypeId}
    (helement : (r.get? element).isSome = true)
    (hmake : r.instantiate array element = .ok (id, s)) :
    Consed s ∧ r.Retains s := by
  have happly : (Operation.instantiate array element).apply r = .ok s :=
    map_snd_eq_ok.mpr ⟨id, hmake⟩
  have hs := steadfast_regular.operation _ happly h.toRegular
  have hcache := h.toCacheSound.change h.toRegular (change_of_apply happly)
  obtain ⟨-, ⟨-, rfl⟩ | ⟨source, -, hfree, hname, -, rfl⟩⟩ := instantiate_eq_ok h.toRegular hmake
  · exact ⟨h, .refl s⟩
  · exact ⟨h.withInstance hfree hname helement hs hcache, retains_withInstance hfree hname source⟩

/-- A part of a run: a registry that is consed at its start is so at its end, and is kept. -/
abbrev ConsedStep : Registry → Registry → Prop :=
  Collect.Carries Consed Retains

theorem consedStep_of_gain (hgain : Gain IsPlain r s) (op : Operation) (h : op.apply r = .ok s) :
    ConsedStep r s := by
  intro hr
  exact ⟨hr.gain (steadfast_regular.operation op h hr.toRegular)
    (hr.toCacheSound.change hr.toRegular (change_of_apply h)) hgain, hgain.retains⟩

theorem consedStep_of_define {owner : Owner} {signature : Signature}
    (h : r.defineMethod owner signature = .ok s) : ConsedStep r s :=
  consedStep_of_gain (gain_of_define h) (.defineMethod owner signature) h

/-- Everything that collecting does with plain names is such a part. -/
theorem steadfastOn_consed : Collect.SteadfastOn IsPlain ConsedStep :=
  Collect.steadfastOn_carries ⟨.refl, .trans⟩ Consed.toRegular
    (fun hr helement hmake => hr.instantiate helement hmake)
    (fun op hop h => consedStep_of_gain (gain_of_apply hop h) op h)
    fun hr _ h => consedStep_of_define h hr

/-! ## Asking for an instance -/

theorem Consed.name_argv (h : Consed r) {e : Entry} (he : r.get? Builtin.argv.typeId = some e) :
    IsPlain e.name := by
  obtain ⟨f, hf, hname, -⟩ := h.start.builtin .argv
  obtain rfl : e = f := Option.some.inj (he.symm.trans hf)
  rw [hname]
  decide

theorem nameOf_inj {r : Registry} (hr : WellFormed r) {a b : TypeId}
    (ha : (r.get? a).isSome = true) (hb : (r.get? b).isSome = true)
    (h : r.nameOf a = r.nameOf b) : a = b := by
  obtain ⟨e, he⟩ := Option.isSome_iff_exists.mp ha
  obtain ⟨f, hf⟩ := Option.isSome_iff_exists.mp hb
  rw [nameOf, nameOf, he, hf] at h
  exact hr.names he hf h

/-- A name that is not plain is that of the instance for an element. -/
theorem Consed.instance_of_name (h : Consed r) {id : TypeId} {e : Entry} (he : r.get? id = some e)
    (hname : ¬ IsPlain e.name) :
    ∃ superclass element template, e.kind = .array superclass element (some template) ∧
      e.name = instanceOf (r.nameOf element) := by
  cases htemplate : e.kind.template? with
  | none => exact absurd (h.plain he htemplate) hname
  | some template =>
    obtain ⟨superclass, element, hkind⟩ := TypeKind.eq_array_of_template? htemplate
    refine ⟨superclass, element, template, hkind, ?_⟩
    obtain ⟨-, -, rfl | hinstance⟩ := h.made he hkind
    · exact absurd (h.name_argv he) hname
    · exact hinstance

/-- The name of an instance is free until the instance is made. -/
theorem Consed.lookup?_instanceOf (h : Consed r) {element : TypeId}
    (helement : (r.get? element).isSome = true)
    (hfree : r.cached? Builtin.array.typeId element = none) :
    r.lookup? (instanceOf (r.nameOf element)) = none := by
  cases hlookup : r.lookup? (instanceOf (r.nameOf element)) with
  | none => rfl
  | some id =>
    obtain ⟨e, he, hname⟩ := get?_of_lookup? hlookup
    have hnot : ¬ IsPlain e.name := by
      rw [hname]
      exact not_isPlain_instanceOf _
    obtain ⟨superclass, element', template, hkind, hname'⟩ := h.instance_of_name he hnot
    obtain ⟨hlt, hcached, -⟩ := h.made he hkind
    have hid := index_lt_of_get? he
    have helement' : (r.get? element').isSome = true := isSome_get?_iff.mpr (by omega)
    have hsame := instanceOf_injective (hname'.symm.trans hname)
    rw [nameOf_inj h.toWellFormed helement' helement hsame, hfree] at hcached
    cases hcached

/-- Every array can be asked for its instance for a registered element. -/
theorem Consed.exists_instantiate (h : Consed r) {array element : TypeId} {e : Entry}
    (he : r.get? array = some e) (harray : e.kind.isArray = true)
    (helement : (r.get? element).isSome = true) :
    ∃ id s, r.instantiate array element = .ok (id, s) := by
  have htemplate : r.templateOf array = .ok Builtin.array.typeId :=
    templateOf_eq_ok.mpr ⟨e, he, harray, h.template he harray⟩
  cases hcached : r.cached? Builtin.array.typeId element with
  | some id => exact ⟨id, r, instantiate_of_cached htemplate hcached⟩
  | none =>
    obtain ⟨source, hsource, -⟩ := h.start.builtin .array
    have hname := h.lookup?_instanceOf helement hcached
    rw [← h.instanceName] at hname
    exact ⟨_, _, instantiate_of_free h.toWellFormed htemplate hsource hcached hname⟩

end Registry

/-! ## Resolving a type -/

/-- Whether all names in a type are registered and those of generic types stand for arrays. -/
def TypeExpr.Resolvable (r : Registry) : TypeExpr → Prop
  | .named name => (r.lookup? name.value).isSome = true
  | .generic base arg _ =>
    (∃ id e, r.lookup? base = some id ∧ r.get? id = some e ∧ e.kind.isArray = true) ∧
      arg.Resolvable r

open Collect in
/-- Nothing else can keep a type from being resolved. -/
theorem Registry.Consed.exists_resolveType {c : Collection} (h : Consed c.registry) {t : TypeExpr}
    (ht : t.Resolvable c.registry) : ∃ id c', outcome (resolveType t) c = (.ok id, c') := by
  -- On the expression: what was there before the argument is resolved is there after it.
  induction t with
  | named name =>
    obtain ⟨id, hid⟩ := Option.isSome_iff_exists.mp ht
    exact ⟨id, c, resolve_eq_ok.mpr ⟨hid, rfl⟩⟩
  | generic base arg span ih =>
    obtain ⟨⟨array, e, hbase, he, harray⟩, harg⟩ := ht
    obtain ⟨element, mid, hresolved⟩ := ih harg
    have hkept := steadfastOn_consed.keeps_resolveType arg c h
    rw [hresolved] at hkept
    obtain ⟨hmid, hretains⟩ := hkept
    obtain ⟨f, hf, -, hkind⟩ := hretains.get? he
    obtain ⟨-, htype, -⟩ := Collect.resolveType_eq_ok h.toRegular hresolved
    have helement := hmid.isSome_get?_of_typeOf? htype
    obtain ⟨id, s, hmake⟩ := hmid.exists_instantiate hf (hkind ▸ harray) helement
    refine ⟨id, ⟨s, mid.declared⟩, outcome_bind_eq_ok.mpr ⟨array, c, ?_, ?_⟩⟩
    · exact resolve_eq_ok.mpr ⟨hbase, rfl⟩
    · exact outcome_bind_eq_ok.mpr ⟨element, mid, hresolved, apply_eq_ok.mpr ⟨hmake, rfl⟩⟩

end DeclLang
