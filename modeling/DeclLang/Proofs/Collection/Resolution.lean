import DeclLang.Proofs.Collection.Outline
import DeclLang.Proofs.Registry.Invariant

/-!
# Resolution: what a type expression stands for, now and later

An expression stands for the same type for as long as names, kinds and instances are kept
(`Retains.typeOf?`), so what it is resolved to in the middle of a program can be read off the
registry that the program ends with. Resolving adds nothing but the instances that are asked for
(`Instantiated`).
-/

namespace DeclLang

/-- The applications of generic types in an expression, innermost first. -/
def TypeExpr.instances : TypeExpr → List TypeExpr
  | .named _ => []
  | .generic base arg span => arg.instances ++ [.generic base arg span]

namespace Registry

/-! ## Regular registries -/

/-- A well-formed registry whose arrays all come from the builtin one and whose instances are all
    registered. -/
structure Regular (r : Registry) : Prop extends WellFormed r where
  array : (r.get? Builtin.array.typeId).isSome = true
  template : ∀ {id e}, r.get? id = some e → e.kind.isArray = true →
    e.kind.template?.getD id = Builtin.array.typeId
  cached : ∀ i ∈ r.instances, (r.get? i.array).isSome = true

theorem regular_initial (target : Target) : Regular (initial target) where
  toWellFormed := wellFormed_initial target
  array := Option.isSome_of_eq_some (get?_initial target .array)
  template h harray := by
    rcases eq_entry_of_get?_initial h with ⟨b, rfl, rfl⟩
    rw [Builtin.kind_entry] at harray
    cases b <;> simp [Builtin.typeKind, Builtin.typeKind.leaf, TypeKind.isArray] at harray
    · rfl
    · rfl
  cached i hi := by
    rcases List.mem_singleton.mp hi with rfl
    exact Option.isSome_of_eq_some (get?_initial target .argv)

/-- The template behind an array. -/
theorem templateOf_eq_ok {r : Registry} {id template : TypeId} :
    r.templateOf id = .ok template ↔
      ∃ e, r.get? id = some e ∧ e.kind.isArray = true ∧ e.kind.template?.getD id = template := by
  unfold templateOf
  rw [bind_eq_ok]
  constructor
  · rintro ⟨e, he, h⟩
    refine ⟨e, require_eq_ok.mp he, ?_⟩
    cases hkind : e.kind with
    | array superclass element t =>
      rw [hkind] at h
      exact ⟨rfl, pure_eq_ok.mp h⟩
    | _ => simp [hkind] at h
  · rintro ⟨e, he, harray, h⟩
    refine ⟨e, require_eq_ok.mpr he, ?_⟩
    cases hkind : e.kind with
    | array superclass element t =>
      rw [hkind] at h
      exact congrArg Except.ok h
    | _ => simp [hkind, TypeKind.isArray] at harray

theorem Regular.templateOf {r : Registry} (hr : Regular r) {id template : TypeId}
    (h : r.templateOf id = .ok template) : template = Builtin.array.typeId := by
  rcases templateOf_eq_ok.mp h with ⟨e, he, harray, rfl⟩
  exact hr.template he harray

-- A record for a pair that has one already is dropped.
theorem mem_instances_cache {r : Registry} {i j : ArrayInstance}
    (h : j ∈ (r.cache i).instances) : j ∈ r.instances ∨ j = i := by
  unfold cache at h
  split at h
  · exact .inl h
  · simpa using h

/-- Only what is new has to be looked at. -/
theorem Regular.of_extends {r s : Registry} (hr : Regular r) (hs : WellFormed s)
    (hext : r.Extends s)
    (hnew : ∀ {id e}, s.get? id = some e → r.get? id = none → e.kind.isArray = true →
      e.kind.template?.getD id = Builtin.array.typeId)
    (hcached : ∀ i ∈ s.instances, i ∈ r.instances ∨ (s.get? i.array).isSome = true) :
    Regular s where
  toWellFormed := hs
  array := by
    rcases Option.isSome_iff_exists.mp hr.array with ⟨e, he⟩
    rcases hext.get? he with ⟨f, hf, -⟩
    exact Option.isSome_of_eq_some hf
  template {id e} he harray := by
    cases hold : r.get? id with
    | none => exact hnew he hold harray
    | some e' =>
      rcases hext.get? hold with ⟨f, hf, hext'⟩
      rcases hext'.kind with ⟨element, hkind⟩
      rw [he, Option.some.injEq] at hf
      subst hf
      rw [hkind, TypeKind.isArray_withElement] at harray
      rw [hkind, TypeKind.template?_withElement]
      exact hr.template hold harray
  cached i hi := by
    rcases hcached i hi with hold | hnew
    · rcases Option.isSome_iff_exists.mp (hr.cached i hold) with ⟨e, he⟩
      rcases hext.get? he with ⟨f, hf, -⟩
      exact Option.isSome_of_eq_some hf
    · exact hnew

@[simp] theorem get?_push_self (r : Registry) (e : Entry) :
    (r.push e).2.get? ⟨r.size⟩ = some e := by
  rw [get?_push]
  exact if_pos rfl

theorem get?_push_new {r : Registry} {e f : Entry} {id : TypeId}
    (h : (r.push e).2.get? id = some f) (hid : r.get? id = none) : id = ⟨r.size⟩ ∧ f = e := by
  rw [get?_push] at h
  split at h
  · rename_i hid'
    rw [Option.some.injEq] at h
    exact ⟨hid', h.symm⟩
  · rw [hid] at h
    cases h

/-- What is new after a change was declared without members, or made from a template. -/
theorem new_of_change {r s : Registry} (h : Change r s) {id : TypeId} {e : Entry}
    (he : s.get? id = some e) (hid : r.get? id = none) :
    (∃ name kind, r.Declarable kind ∧ e = .bare name kind) ∨
      ∃ name array element base source, r.templateOf array = .ok base ∧
        r.get? base = some source ∧ e = specialized name element base source := by
  cases h with
  | none =>
    rw [hid] at he
    cases he
  | declared _ hkind =>
    have ⟨_, hnew⟩ := get?_push_new he hid
    exact .inl ⟨_, _, hkind, hnew⟩
  | specialized _ hbase hsource =>
    rw [← owner?_type, owner?_cache, owner?_type] at he
    have ⟨_, hnew⟩ := get?_push_new he hid
    exact .inr ⟨_, _, _, _, _, hbase, hsource, hnew⟩
  | mixedIn | defined => exact absurd hid (get?_ne_none_of_modifyOwner he)
  | rebound =>
    rw [← owner?_type, owner?_rebound, owner?_type] at he
    exact absurd hid (get?_ne_none_of_modifyOwner he)

theorem Regular.change {r s : Registry} (hr : Regular r) (h : Change r s) : Regular s := by
  have hs := hr.toWellFormed.change h
  have hext := extends_of_change h
  refine hr.of_extends hs hext ?_ ?_
  -- First the arrays that are new, then the records.
  · intro id e he hid harray
    rcases new_of_change h he hid with
      ⟨_, kind, hkind, rfl⟩ | ⟨_, _, _, _, _, hbase, -, rfl⟩
    · rw [Entry.kind_bare] at harray
      cases kind with
      | array => exact hkind.elim
      | _ => simp [TypeKind.isArray] at harray
    · exact hr.templateOf hbase
  · intro i hi
    cases h with
    | none => exact .inl hi
    | declared => exact .inl hi
    | specialized =>
      rcases mem_instances_cache hi with hi | rfl
      · exact .inl hi
      · refine .inr ?_
        rw [← owner?_type, owner?_cache, owner?_type, get?_push_self]
        rfl
    | @mixedIn owner => cases owner <;> exact .inl hi
    | @defined owner => cases owner <;> exact .inl hi
    | @rebound array element previous superclass template e he =>
      cases template with
      | none => exact .inl hi
      | some template =>
        rcases mem_instances_cache hi with hi | rfl
        · split at hi
          · exact .inl (List.mem_filter.mp hi).1
          · exact .inl hi
        · rcases hext.get? he with ⟨f, hf, -⟩
          exact .inr (Option.isSome_of_eq_some hf)

theorem steadfast_regular : Collect.Steadfast fun r s => Regular r → Regular s :=
  ⟨⟨fun _ h => h, fun h h' hr => h' (h hr)⟩, fun _ h hr => hr.change (change_of_apply h)⟩

theorem Reachable.regular {r : Registry} (h : Reachable r) : Regular r :=
  h.of_steadfast regular_initial steadfast_regular

/-! ## What is kept -/

/-- What a program keeps of the registry that it is collected into. -/
structure Retains (r s : Registry) : Prop where
  target : s.target = r.target
  symbols : s.symbols = r.symbols
  poisoned : s.poisoned = r.poisoned
  owner : ∀ {o e}, r.owner? o = some e →
    ∃ f, s.owner? o = some f ∧ f.name = e.name ∧ f.kind = e.kind
  instances : r.instances <+: s.instances
  lookup? : ∀ {name id}, r.lookup? name = some id → s.lookup? name = some id

theorem Retains.refl (r : Registry) : r.Retains r :=
  ⟨rfl, rfl, rfl, fun {_ e} h => ⟨e, h, rfl, rfl⟩, List.prefix_rfl, fun h => h⟩

theorem Retains.trans {r s t : Registry} (h : r.Retains s) (h' : s.Retains t) : r.Retains t where
  target := h'.target.trans h.target
  symbols := h'.symbols.trans h.symbols
  poisoned := h'.poisoned.trans h.poisoned
  owner he := by
    rcases h.owner he with ⟨f, hf, hname, hkind⟩
    rcases h'.owner hf with ⟨g, hg, hname', hkind'⟩
    exact ⟨g, hg, hname'.trans hname, hkind'.trans hkind⟩
  instances := h.instances.trans h'.instances
  lookup? hid := h'.lookup? (h.lookup? hid)

theorem retains_push {r : Registry} {e : Entry} (hfree : r.lookup? e.name = none) :
    r.Retains (r.push e).2 :=
  ⟨rfl, rfl, rfl, fun ho => ⟨_, owner?_push_of_some ho e, rfl, rfl⟩, List.prefix_rfl,
    lookup?_push_of_some hfree⟩

theorem Retains.get? {r s : Registry} (h : r.Retains s) {id : TypeId} {e : Entry}
    (he : r.get? id = some e) : ∃ f, s.get? id = some f ∧ f.name = e.name ∧ f.kind = e.kind :=
  h.owner (o := .type id) he

theorem Retains.isSome_get? {r s : Registry} (h : r.Retains s) {id : TypeId}
    (hid : (r.get? id).isSome = true) : (s.get? id).isSome = true := by
  rcases Option.isSome_iff_exists.mp hid with ⟨e, he⟩
  rcases h.get? he with ⟨f, hf, -⟩
  exact Option.isSome_of_eq_some hf

theorem Retains.nameOf {r s : Registry} (h : r.Retains s) {id : TypeId}
    (hid : (r.get? id).isSome = true) : s.nameOf id = r.nameOf id := by
  rcases Option.isSome_iff_exists.mp hid with ⟨e, he⟩
  rcases h.get? he with ⟨f, hf, hname, -⟩
  rw [Registry.nameOf, Registry.nameOf, he, hf]
  exact hname

/-- An entry with the name of an earlier one is that earlier one. -/
theorem Retains.isSome_get?_of_name {r s : Registry} (h : r.Retains s) (hs : WellFormed s)
    {id : TypeId} {e : Entry} (he : s.get? id = some e)
    (hname : (r.lookup? e.name).isSome = true) : (r.get? id).isSome = true := by
  rcases Option.isSome_iff_exists.mp hname with ⟨id', hid'⟩
  have hsame := h.lookup? hid'
  rw [hs.lookup?_eq_some_iff.mpr ⟨e, he, rfl⟩, Option.some.injEq] at hsame
  rcases get?_of_lookup? hid' with ⟨f, hf, -⟩
  rw [hsame]
  exact Option.isSome_of_eq_some hf

theorem Retains.cached? {r s : Registry} (h : r.Retains s) {template element id : TypeId}
    (hid : r.cached? template element = some id) : s.cached? template element = some id := by
  rcases h.instances with ⟨made, hmade⟩
  rw [Registry.cached?, Option.map_eq_some_iff] at hid ⊢
  rcases hid with ⟨i, hi, rfl⟩
  exact ⟨i, by rw [← hmade, List.find?_append, hi, Option.some_or], rfl⟩

theorem Retains.templateOf {r s : Registry} (h : r.Retains s) {id template : TypeId}
    (hid : r.templateOf id = .ok template) : s.templateOf id = .ok template := by
  rw [templateOf_eq_ok] at hid ⊢
  rcases hid with ⟨e, he, harray, htemplate⟩
  rcases h.get? he with ⟨f, hf, -, hkind⟩
  exact ⟨f, hf, by rw [hkind, harray], by rw [hkind, htemplate]⟩

/-! ## What an expression stands for -/

/-- The type that an expression stands for, if all instances that it asks for are there. -/
def typeOf? (r : Registry) : TypeExpr → Option TypeId
  | .named name => r.lookup? name.value
  | .generic base arg _ => do
    let id ← r.lookup? base
    let element ← r.typeOf? arg
    r.cached? (← (r.templateOf id).toOption) element

theorem typeOf?_generic_eq_some {r : Registry} {base : String} {arg : TypeExpr} {span : Span}
    {id : TypeId} :
    r.typeOf? (.generic base arg span) = some id ↔
      ∃ array element template, r.lookup? base = some array ∧ r.typeOf? arg = some element ∧
        r.templateOf array = .ok template ∧ r.cached? template element = some id := by
  have htoOption {x : Except DeclarationError TypeId} {template : TypeId} :
      x.toOption = some template ↔ x = .ok template := by
    cases x <;> simp [Except.toOption]
  simp only [typeOf?, Option.bind_eq_bind, Option.bind_eq_some_iff, htoOption]
  constructor
  · rintro ⟨array, harray, element, helement, template, htemplate, h⟩
    exact ⟨array, element, template, harray, helement, htemplate, h⟩
  · rintro ⟨array, element, template, harray, helement, htemplate, h⟩
    exact ⟨array, harray, element, helement, template, htemplate, h⟩

/-- An expression stands for the same type later on. -/
theorem Retains.typeOf? {r s : Registry} (h : r.Retains s) {t : TypeExpr} {id : TypeId}
    (ht : r.typeOf? t = some id) : s.typeOf? t = some id := by
  -- On the expression: at each level the base, the element and their instance are kept.
  induction t generalizing id with
  | named name => exact h.lookup? ht
  | generic base arg span ih =>
    rw [typeOf?_generic_eq_some] at ht ⊢
    rcases ht with ⟨array, element, template, harray, helement, htemplate, hcached⟩
    exact ⟨array, element, template, h.lookup? harray, ih helement, h.templateOf htemplate,
      h.cached? hcached⟩

theorem Regular.isSome_get?_of_cached? {r : Registry} (hr : Regular r)
    {template element id : TypeId} (h : r.cached? template element = some id) :
    (r.get? id).isSome = true := by
  rcases Option.map_eq_some_iff.mp h with ⟨i, hi, rfl⟩
  exact hr.cached i (List.mem_of_find?_eq_some hi)

/-- What an expression stands for is registered. -/
theorem Regular.isSome_get?_of_typeOf? {r : Registry} (hr : Regular r) {t : TypeExpr} {id : TypeId}
    (h : r.typeOf? t = some id) : (r.get? id).isSome = true := by
  cases t with
  | named name =>
    rcases get?_of_lookup? h with ⟨e, he, -⟩
    exact Option.isSome_of_eq_some he
  | generic base arg span =>
    rcases typeOf?_generic_eq_some.mp h with ⟨array, element, template, -, -, -, hcached⟩
    exact hr.isSome_get?_of_cached? hcached

end Registry

end DeclLang
