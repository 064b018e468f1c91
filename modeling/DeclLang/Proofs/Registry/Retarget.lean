import DeclLang.Proofs.Registry.Change

/-!
# Retargeting: a registry as it would be for another target

Of all that a registry holds, the target shows in the sizes of the builtin types `String` and
`Pointer` only, as long as no other type is a pointer (`Registry.retarget`). Operations do the same
to a retargeted registry as to the registry itself: they look at names, kinds and members, and at a
size only when a primitive is declared, where the target matters to pointers alone.
-/

namespace DeclLang

/-! ## Entries -/

/-- A kind with the size that pointers have on a target. -/
def TypeKind.retarget (t : Target) : TypeKind → TypeKind
  | .primitive superclass .ptr _ => .primitive superclass .ptr t.pointerSize
  | kind => kind

theorem TypeKind.retarget_primitive {t : Target} {superclass : TypeId} {repr : Representation}
    {byteSize : Nat} (h : repr ≠ .ptr) :
    (TypeKind.primitive superclass repr byteSize).retarget t =
      .primitive superclass repr byteSize := by
  cases repr <;> first | rfl | exact absurd rfl h

namespace Entry

variable {t : Target}

/-- An entry on another target. The builtin pointers are the ones that have another size there. -/
def retarget (t : Target) (e : Entry) : Entry :=
  if e.name = Builtin.string.name ∨ e.name = Builtin.pointer.name then
    { e with kind := e.kind.retarget t }
  else e

theorem retarget_of_kind {e : Entry} (h : e.kind.retarget t = e.kind) : e.retarget t = e := by
  unfold retarget
  rw [h, ite_self]

@[simp] theorem name_retarget (e : Entry) : (e.retarget t).name = e.name := by
  unfold retarget
  split <;> rfl

@[simp] theorem includes_retarget (e : Entry) : (e.retarget t).includes = e.includes := by
  unfold retarget
  split <;> rfl

@[simp] theorem methods_retarget (e : Entry) : (e.retarget t).methods = e.methods := by
  unfold retarget
  split <;> rfl

@[simp] theorem method?_retarget (e : Entry) (name : String) :
    (e.retarget t).method? name = e.method? name := by
  rw [method?, methods_retarget, method?]

/-- If the kind is another one, it is that of a pointer, and only its size is another one. -/
theorem kind_retarget (t : Target) (e : Entry) :
    (e.retarget t).kind = e.kind ∨ ∃ superclass byteSize byteSize',
      e.kind = .primitive superclass .ptr byteSize ∧
        (e.retarget t).kind = .primitive superclass .ptr byteSize' := by
  unfold retarget
  split
  · show e.kind.retarget t = e.kind ∨ ∃ _ _ _, e.kind = _ ∧ e.kind.retarget t = _
    cases e.kind with
    | primitive superclass repr byteSize =>
      by_cases hrepr : repr = .ptr
      · subst hrepr
        exact .inr ⟨superclass, byteSize, _, rfl, rfl⟩
      · exact .inl (TypeKind.retarget_primitive hrepr)
    | _ => exact .inl rfl
  · exact .inl rfl

/-- What does not depend on a size is the same on every target. -/
theorem eq_of_kind_retarget {α : Type} {f : TypeKind → α}
    (hf : ∀ superclass byteSize byteSize', f (.primitive superclass .ptr byteSize') =
      f (.primitive superclass .ptr byteSize)) (e : Entry) :
    f (e.retarget t).kind = f e.kind := by
  rcases e.kind_retarget t with h | ⟨superclass, byteSize, byteSize', h, h'⟩
  · rw [h]
  · rw [h, h', hf]

@[simp] theorem label_retarget (e : Entry) : (e.retarget t).kind.label = e.kind.label :=
  eq_of_kind_retarget (fun _ _ _ => rfl) e

@[simp] theorem superclass?_retarget (e : Entry) :
    (e.retarget t).kind.superclass? = e.kind.superclass? :=
  eq_of_kind_retarget (fun _ _ _ => rfl) e

@[simp] theorem isClassLike_retarget (e : Entry) :
    (e.retarget t).kind.isClassLike = e.kind.isClassLike :=
  eq_of_kind_retarget (fun _ _ _ => rfl) e

@[simp] theorem isModule_retarget (e : Entry) :
    (e.retarget t).kind.isModule = e.kind.isModule :=
  eq_of_kind_retarget (fun _ _ _ => rfl) e

theorem mixIn_retarget (e : Entry) (module : TypeId) :
    (e.retarget t).mixIn module = (e.mixIn module).retarget t := by
  unfold retarget mixIn
  split <;> rfl

theorem define_retarget (e : Entry) (s : Signature) :
    (e.retarget t).define s = (e.define s).retarget t := by
  unfold retarget define
  split <;> rfl

end Entry

namespace Registry

/-! ## Registries -/

/-- The registry on another target. -/
def retarget (t : Target) (r : Registry) : Registry :=
  { r with
    entries := r.entries.map (·.retarget t)
    target := t
    named := fun h => by
      obtain ⟨e, he, hname⟩ := r.named h
      rw [Array.getElem?_map, he]
      exact ⟨_, rfl, e.name_retarget.trans hname⟩
    listed := fun h => by
      obtain ⟨e, he, rfl⟩ := Array.mem_map.mp h
      rw [e.name_retarget]
      exact r.listed he }

variable {t : Target}

theorem get?_retarget (r : Registry) (id : TypeId) :
    (r.retarget t).get? id = (r.get? id).map (·.retarget t) :=
  Array.getElem?_map

@[simp] theorem size_retarget (r : Registry) : (r.retarget t).size = r.size :=
  Array.size_map

theorem lookup?_retarget (r : Registry) (name : String) :
    (r.retarget t).lookup? name = r.lookup? name := rfl

theorem nameOf_retarget (r : Registry) : (r.retarget t).nameOf = r.nameOf := by
  funext id
  rw [nameOf, get?_retarget, nameOf]
  cases r.get? id with
  | none => rfl
  | some e => exact e.name_retarget

theorem push_retarget (r : Registry) {e : Entry} (h : e.retarget t = e) :
    (r.retarget t).push e = Prod.map id (·.retarget t) (r.push e) := by
  refine Prod.ext ?_ (Registry.ext ?_ ?_ rfl rfl rfl rfl rfl)
  · exact congrArg TypeId.mk r.size_retarget
  · show (r.entries.map (·.retarget t)).push e = (r.entries.push e).map (·.retarget t)
    rw [Array.map_push, h]
  · show (e.name, (⟨(r.retarget t).size⟩ : TypeId)) :: r.nameTable =
      (e.name, ⟨r.size⟩) :: r.nameTable
    rw [size_retarget]

theorem modifyOwner_retarget (r : Registry) (owner : Owner) {f : Entry → Entry}
    [Entry.KeepsName f] (hf : ∀ e : Entry, f (e.retarget t) = (f e).retarget t) :
    (r.retarget t).modifyOwner owner f = (r.modifyOwner owner f).retarget t := by
  cases owner with
  | main => rfl
  | type id =>
    refine Registry.ext (Array.ext_getElem? fun i => ?_) rfl rfl rfl rfl rfl rfl
    simp only [modifyOwner, retarget, Array.getElem?_modify, Array.getElem?_map]
    split
    · cases r.entries[i]? with
      | none => rfl
      | some e => exact congrArg some (hf e)
    · rfl

theorem cache_retarget (r : Registry) (i : ArrayInstance) :
    (r.retarget t).cache i = (r.cache i).retarget t := by
  have hcached : (r.retarget t).cached? i.template i.element = r.cached? i.template i.element := rfl
  unfold cache
  rw [hcached]
  split <;> rfl

/-- The builtin types are laid out for the target, and nothing else of them depends on it. -/
theorem initial_retarget (t u : Target) : (initial t).retarget u = initial u := by
  refine Registry.ext ?_ rfl rfl rfl rfl rfl rfl
  show (Builtin.all.map (Builtin.entry t)).toArray.map (·.retarget u) =
    (Builtin.all.map (Builtin.entry u)).toArray
  rw [List.map_toArray, List.map_map]
  refine congrArg List.toArray (List.map_congr_left fun b _ => ?_)
  cases b <;> rfl

/-! ## Operations -/

/-- Two parts that do the same in turn do the same together. -/
theorem bind_eq_map {ε α α' β β' : Type} {x : Except ε α} {x' : Except ε α'} {f : α → Except ε β}
    {f' : α' → Except ε β'} {g : α → α'} {h : β → β'} (hx : x' = x.map g)
    (hf : ∀ a, f' (g a) = (f a).map h) : x' >>= f' = (x >>= f).map h := by
  subst hx
  cases x with
  | error e => rfl
  | ok a => exact hf a

theorem require_retarget (r : Registry) (id : TypeId) :
    (r.retarget t).require id = (r.require id).map (·.retarget t) := by
  rw [require, get?_retarget, require]
  cases r.get? id <;> rfl

/-- The owner of a member, who may be the main module, on another target. -/
theorem requireOwner_retarget (r : Registry) (owner : Owner) :
    (r.retarget t).requireOwner owner =
      (r.requireOwner owner).map fun e => if owner = .main then e else e.retarget t := by
  cases owner with
  | main => rfl
  | type id => exact require_retarget r id

theorem requireClass_retarget (r : Registry) (superclass : TypeId) :
    (r.retarget t).requireClass superclass = (r.requireClass superclass).map id := by
  refine bind_eq_map (require_retarget r superclass) fun e => ?_
  rw [Entry.isClassLike_retarget, Entry.name_retarget]
  split <;> rfl

theorem register_retarget (r : Registry) {e : Entry} (h : e.retarget t = e) :
    (r.retarget t).register e = (r.register e).map (Prod.map id (·.retarget t)) := by
  rw [register, lookup?_retarget, register]
  cases r.lookup? e.name with
  | none => exact congrArg Except.ok (push_retarget r h)
  | some id =>
    refine bind_eq_map (require_retarget r id) fun existing => ?_
    rw [Entry.label_retarget]
    rfl

theorem declareObject_retarget (r : Registry) (name : String) (superclass : TypeId) :
    (r.retarget t).declareObject name superclass =
      (r.declareObject name superclass).map (Prod.map id (·.retarget t)) :=
  bind_eq_map (requireClass_retarget r superclass) fun _ =>
    register_retarget r (Entry.retarget_of_kind rfl)

theorem declareModule_retarget (r : Registry) (name : String) :
    (r.retarget t).declareModule name =
      (r.declareModule name).map (Prod.map id (·.retarget t)) :=
  register_retarget r (Entry.retarget_of_kind rfl)

theorem declareLib_retarget (r : Registry) (name : String) (libname : Option String) :
    (r.retarget t).declareLib name libname =
      (r.declareLib name libname).map (Prod.map id (·.retarget t)) :=
  register_retarget r (Entry.retarget_of_kind rfl)

/-- The one operation that looks at the target does not see it unless it declares a pointer. -/
theorem declarePrimitive_retarget (r : Registry) (name : String) (superclass : TypeId)
    {repr : Representation} (h : repr ≠ .ptr) (byteSize : Nat) :
    (r.retarget t).declarePrimitive name superclass repr byteSize =
      (r.declarePrimitive name superclass repr byteSize).map (Prod.map id (·.retarget t)) := by
  refine bind_eq_map (requireClass_retarget r superclass) fun _ => ?_
  refine bind_eq_map (g := id) ?_ fun _ =>
    register_retarget r (Entry.retarget_of_kind (TypeKind.retarget_primitive h))
  have hlayout : checkLayout (r.retarget t).target name repr byteSize =
      checkLayout r.target name repr byteSize := by
    rw [checkLayout, checkLayout, Representation.storageSize_eq_of_ne_ptr h _ r.target]
  rw [hlayout]
  cases checkLayout r.target name repr byteSize <;> rfl

theorem mixIn_retarget (r : Registry) (owner : Owner) (module : TypeId) :
    (r.retarget t).mixIn owner module = (r.mixIn owner module).map (·.retarget t) := by
  refine bind_eq_map (require_retarget r module) fun m => ?_
  refine bind_eq_map (requireOwner_retarget r owner) fun o => ?_
  have hincludes : (if owner = .main then o else o.retarget t).includes = o.includes := by
    split <;> simp
  have hname : (if owner = .main then o else o.retarget t).name = o.name := by
    split <;> simp
  rw [Entry.isModule_retarget, Entry.name_retarget, hincludes, hname,
    modifyOwner_retarget r owner fun e => e.mixIn_retarget module]
  split
  · rfl
  · split
    · rfl
    · split <;> rfl

theorem defineMethod_retarget (r : Registry) (owner : Owner) (s : Signature) :
    (r.retarget t).defineMethod owner s = (r.defineMethod owner s).map (·.retarget t) := by
  refine bind_eq_map (requireOwner_retarget r owner) fun o => ?_
  have hmethod : (if owner = .main then o else o.retarget t).method? s.name = o.method? s.name := by
    split <;> simp
  have hname : (if owner = .main then o else o.retarget t).name = o.name := by
    split <;> simp
  rw [hmethod, hname, modifyOwner_retarget r owner fun e => e.define_retarget s]
  cases o.method? s.name <;> rfl

theorem templateOf_retarget (r : Registry) (array : TypeId) :
    (r.retarget t).templateOf array = (r.templateOf array).map id := by
  refine bind_eq_map (require_retarget r array) fun e => ?_
  rw [Entry.name_retarget]
  rcases e.kind_retarget t with h | ⟨superclass, byteSize, byteSize', h, h'⟩
  · rw [h]
    cases e.kind <;> rfl
  · rw [h, h']
    rfl

theorem cloneArray?_retarget (r : Registry) (array element : TypeId) (name : String) :
    (r.retarget t).cloneArray? array element name = r.cloneArray? array element name := by
  unfold cloneArray?
  rw [get?_retarget]
  cases r.get? array with
  | none => rfl
  | some e =>
    simp only [Option.map_some, Option.bind_eq_bind, Option.bind_some]
    rcases e.kind_retarget t with h | ⟨superclass, byteSize, byteSize', h, h'⟩
    · rw [h]
      cases e.kind with
      | array superclass previous template =>
        dsimp only
        rw [get?_retarget]
        cases r.get? (template.getD array) with
        | none => rfl
        | some source =>
          -- A specialization takes nothing from its source that depends on the target.
          have hspecialized : specialized name element (template.getD array) (source.retarget t) =
              specialized name element (template.getD array) source := by
            rw [specialized, Entry.superclass?_retarget, Entry.includes_retarget, specialized]
          simp only [Option.map_some, Option.bind_some, hspecialized]
          rcases source.kind_retarget t with h | ⟨superclass, byteSize, byteSize', h, h'⟩
          · rw [h]
          · rw [h, h']
      | _ => rfl
    · rw [h, h']

theorem specialize_retarget (r : Registry) (array element : TypeId) (name : Option String) :
    (r.retarget t).specialize array element name =
      (r.specialize array element name).map (Prod.map id (·.retarget t)) := by
  refine bind_eq_map (templateOf_retarget r array) fun template => ?_
  have hname : (r.retarget t).instanceName template element = r.instanceName template element := by
    rw [instanceName, nameOf_retarget, instanceName]
  dsimp only [id]
  rw [hname, cloneArray?_retarget, nameOf_retarget]
  cases hclone : r.cloneArray? template element (name.getD (r.instanceName template element)) with
  | none => rfl
  | some clone =>
    obtain ⟨base, source, -, -, rfl⟩ := cloneArray?_eq_some hclone
    refine bind_eq_map (register_retarget r (Entry.retarget_of_kind rfl)) fun new => ?_
    rw [Prod.map, cache_retarget]
    rfl

theorem instantiate_retarget (r : Registry) (array element : TypeId) :
    (r.retarget t).instantiate array element =
      (r.instantiate array element).map (Prod.map id (·.retarget t)) := by
  refine bind_eq_map (templateOf_retarget r array) fun template => ?_
  have hcached : (r.retarget t).cached? (id template) element = r.cached? template element := rfl
  rw [hcached]
  cases r.cached? template element with
  | some array => rfl
  | none => exact specialize_retarget r template element none

end Registry

end DeclLang
