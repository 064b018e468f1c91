import DeclLang.Proofs.Registry.Extension
import DeclLang.Registry.Verification

/-!
# Well-formed registries: what holds after any run

Names are unique, superclasses come before the types that inherit from them, primitives have the
size of their representation, and only modules are mixed in. Every change keeps this
(`WellFormed.change`), so it holds of every reachable registry, and with it the whole verification
comes down to the elements of the arrays (`verify_eq`).
-/

namespace DeclLang.Registry

/-- What holds of every entry and of the main module. -/
structure Sound (r : Registry) (o : Owner) (e : Entry) : Prop where
  /-- Only the root has no superclass. -/
  superclass : ∀ {id}, o = .type id → id ≠ Builtin.object.typeId → e.kind.isClassLike = true →
    ∃ sup f, e.kind.superclass? = some sup ∧ r.get? sup = some f ∧ f.kind.isClassLike = true ∧
      sup.index < id.index
  layout : ∀ {superclass repr byteSize}, e.kind = .primitive superclass repr byteSize →
    byteSize = repr.storageSize r.target
  /-- A template is an array that has none, and it shares its superclass. -/
  template : ∀ {superclass element t}, e.kind = .array superclass element (some t) →
    ∃ f element', r.get? t = some f ∧ f.kind = .array superclass element' none
  includes : ∀ m ∈ e.includes, o ≠ .type m ∧ ∃ f, r.get? m = some f ∧ f.kind.isModule = true
  includes_nodup : e.includes.Nodup

structure WellFormed (r : Registry) : Prop where
  root : ∃ e, r.get? Builtin.object.typeId = some e ∧ e.name = Builtin.object.name ∧
    e.kind = .object none
  names : ∀ {id id' e e'}, r.get? id = some e → r.get? id' = some e' → e.name = e'.name → id = id'
  sound : ∀ {o e}, r.owner? o = some e → r.Sound o e

theorem WellFormed.sound_get? {r : Registry} (hr : WellFormed r) {id : TypeId} {e : Entry}
    (he : r.get? id = some e) : r.Sound (.type id) e :=
  hr.sound (o := .type id) he

/-- A superclass takes part in inheritance, and it was registered before. -/
theorem WellFormed.superclass {r : Registry} (hr : WellFormed r) {id sup : TypeId} {e : Entry}
    (he : r.get? id = some e) (hsup : e.kind.superclass? = some sup) :
    ∃ f, r.get? sup = some f ∧ f.kind.isClassLike = true ∧ sup.index < id.index := by
  have hclass : e.kind.isClassLike = true := by
    cases hkind : e.kind <;> simp_all [TypeKind.superclass?, TypeKind.isClassLike]
  have hid : id ≠ Builtin.object.typeId := by
    rintro rfl
    obtain ⟨root, hroot, -, hkind⟩ := hr.root
    rw [he, Option.some.injEq] at hroot
    rw [hroot, hkind] at hsup
    cases hsup
  obtain ⟨sup', f, hsup', hf, hfclass, hlt⟩ := (hr.sound_get? he).superclass rfl hid hclass
  obtain rfl := Option.some.inj (hsup.symm.trans hsup')
  exact ⟨f, hf, hfclass, hlt⟩

/-- A name stands for the entry that has it, so no two entries share one. -/
theorem WellFormed.lookup?_eq_some_iff {r : Registry} (hr : WellFormed r) {name : String}
    {id : TypeId} : r.lookup? name = some id ↔ ∃ e, r.get? id = some e ∧ e.name = name := by
  constructor
  · exact get?_of_lookup?
  · rintro ⟨e, he, rfl⟩
    cases hother : r.lookup? e.name with
    | none => exact absurd rfl (lookup?_eq_none_iff.mp hother e (Array.mem_of_getElem? he))
    | some other =>
      obtain ⟨f, hf, hname⟩ := get?_of_lookup? hother
      rw [hr.names hf he hname]

/-- A name keeps an entry out by what stands for it. -/
theorem register_of_taken {r : Registry} (hr : WellFormed r) {id : TypeId} {old e : Entry}
    (hold : r.get? id = some old) (hname : old.name = e.name) :
    r.register e = .error (.alreadyDefined e.name old.kind.label) :=
  register_of_lookup?_eq_some (hr.lookup?_eq_some_iff.mpr ⟨old, hold, hname⟩) hold

/-! ## Growth -/

-- Soundness looks at other entries for their kind only, and of that only an element changes.
theorem Sound.mono {r s : Registry} (h : r.Extends s) {o : Owner} {e : Entry} (he : r.Sound o e) :
    s.Sound o e where
  superclass ho hid hclass := by
    rcases he.superclass ho hid hclass with ⟨sup, f, hsup, hf, hfclass, hlt⟩
    rcases h.get? hf with ⟨g, hg, hfg⟩
    rcases hfg.kind with ⟨element, hkind⟩
    exact ⟨sup, g, hsup, hg, by rw [hkind, TypeKind.isClassLike_withElement, hfclass], hlt⟩
  layout hkind := by
    rw [h.target]
    exact he.layout hkind
  template hkind := by
    rcases he.template hkind with ⟨f, element', hf, hfkind⟩
    rcases h.get? hf with ⟨g, hg, hfg⟩
    rcases hfg.kind with ⟨element, hgkind⟩
    exact ⟨g, element, hg, by rw [hgkind, hfkind, TypeKind.withElement]⟩
  includes m hm := by
    rcases he.includes m hm with ⟨hself, f, hf, hmodule⟩
    rcases h.get? hf with ⟨g, hg, hfg⟩
    rcases hfg.kind with ⟨element, hkind⟩
    exact ⟨hself, g, hg, by rw [hkind, TypeKind.isModule_withElement, hmodule]⟩
  includes_nodup := he.includes_nodup

theorem WellFormed.root_of_extends {r s : Registry} (hr : WellFormed r) (h : r.Extends s) :
    ∃ e, s.get? Builtin.object.typeId = some e ∧ e.name = Builtin.object.name ∧
      e.kind = .object none := by
  rcases hr.root with ⟨e, he, hname, hkind⟩
  rcases h.get? he with ⟨f, hf, hef⟩
  rcases hef.kind with ⟨element, hfkind⟩
  rw [hkind] at hfkind
  exact ⟨f, hf, hef.name.trans hname, hfkind⟩

/-- The instance cache is no part of what makes a registry well formed. -/
theorem WellFormed.congr {r s : Registry} (hr : WellFormed r) (htarget : s.target = r.target)
    (howner : ∀ o, s.owner? o = r.owner? o) (hnames : ∀ name, s.lookup? name = r.lookup? name) :
    WellFormed s := by
  have hext : r.Extends s := (Extends.refl r).congr htarget howner hnames
  have hget (id : TypeId) : s.get? id = r.get? id := howner (.type id)
  refine ⟨hr.root_of_extends hext, fun {id id' e e'} he he' => ?_, fun {o e} he => ?_⟩
  · rw [hget] at he he'
    exact hr.names he he'
  · rw [howner] at he
    exact (hr.sound he).mono hext

/-- An entry may be added when its name is free and it is sound. -/
theorem WellFormed.push {r : Registry} (hr : WellFormed r) {e : Entry}
    (hfree : r.lookup? e.name = none) (he : r.Sound (.type ⟨r.size⟩) e) :
    WellFormed (r.push e).2 := by
  have hext := extends_push hfree
  have hnew {id : TypeId} {f : Entry} (hf : r.get? id = some f) : f.name ≠ e.name :=
    lookup?_eq_none_iff.mp hfree f (Array.mem_of_getElem? hf)
  refine ⟨hr.root_of_extends hext, fun {id id' f f'} hf hf' hname => ?_, fun {o f} hf => ?_⟩
  -- Of two entries with one name, either both are the new one or both are old.
  · rw [get?_push] at hf hf'
    split at hf
    · rename_i hid
      split at hf'
      · rename_i hid'
        rw [hid, hid']
      · rw [Option.some.injEq] at hf
        rw [← hf] at hname
        exact absurd hname.symm (hnew hf')
    · split at hf'
      · rw [Option.some.injEq] at hf'
        rw [← hf'] at hname
        exact absurd hname (hnew hf)
      · exact hr.names hf hf' hname
  · rw [owner?_push] at hf
    split at hf
    · rename_i ho
      rw [Option.some.injEq] at hf
      rw [← hf, ho]
      exact he.mono hext
    · exact (hr.sound hf).mono hext

/-- An entry may be changed when it is extended and stays sound. -/
theorem WellFormed.modifyOwner {r : Registry} (hr : WellFormed r) {owner : Owner}
    {f : Entry → Entry} [Entry.KeepsName f] {e : Entry} (he : r.owner? owner = some e)
    (hext : e.Extends (f e)) (hsound : r.Sound owner (f e)) :
    WellFormed (r.modifyOwner owner f) := by
  have hext' := extends_modifyOwner he hext
  -- Every entry was there before under the same name.
  have hold {id : TypeId} {g : Entry} (hg : (r.modifyOwner owner f).get? id = some g) :
      ∃ g', r.get? id = some g' ∧ g.name = g'.name := by
    rw [← owner?_type, owner?_modifyOwner] at hg
    split at hg
    · rename_i hid
      rw [hid, he, Option.map_some, Option.some.injEq] at hg
      refine ⟨e, by rw [← owner?_type, hid, he], ?_⟩
      rw [← hg, hext.name]
    · exact ⟨g, hg, rfl⟩
  refine ⟨hr.root_of_extends hext', fun {id id' g g'} hg hg' hname => ?_, fun {o g} hg => ?_⟩
  · rcases hold hg with ⟨a, ha, hga⟩
    rcases hold hg' with ⟨b, hb, hgb⟩
    exact hr.names ha hb (by rw [← hga, ← hgb, hname])
  · rw [owner?_modifyOwner] at hg
    split at hg
    · rename_i ho
      rw [ho, he, Option.map_some, Option.some.injEq] at hg
      rw [← hg, ho]
      exact hsound.mono hext'
    · exact (hr.sound hg).mono hext'

/-! ## Changes -/

/-- A new type has no members yet, so only its kind has to be right. -/
theorem sound_bare {r : Registry} {name : String} {kind : TypeKind} (h : r.Declarable kind) :
    r.Sound (.type ⟨r.size⟩) (.bare name kind) := by
  refine ⟨fun ho _ hclass => ?_, fun hkind => ?_, fun hkind => ?_, ?_, List.nodup_nil⟩
  · rw [Owner.type.injEq] at ho
    rw [← ho]
    rw [Entry.kind_bare] at hclass
    cases kind with
    | object superclass =>
      rcases h with ⟨sup, f, rfl, hf, hfclass⟩
      exact ⟨sup, f, rfl, hf, hfclass, index_lt_of_get? hf⟩
    | primitive sup repr byteSize =>
      rcases h with ⟨⟨f, hf, hfclass⟩, -⟩
      exact ⟨sup, f, rfl, hf, hfclass, index_lt_of_get? hf⟩
    | array => exact h.elim
    | module => simp [TypeKind.isClassLike] at hclass
    | lib => simp [TypeKind.isClassLike] at hclass
  · rw [Entry.kind_bare] at hkind
    rw [hkind] at h
    exact h.2
  · rw [Entry.kind_bare] at hkind
    rw [hkind] at h
    exact h.elim
  · intro m hm
    simp at hm

/-- What is behind an array is an array without a template. -/
theorem WellFormed.kind_of_templateOf {r : Registry} (hr : WellFormed r) {array template : TypeId}
    {source : Entry} (h : r.templateOf array = .ok template)
    (hsource : r.get? template = some source) :
    ∃ superclass element, source.kind = .array superclass element none := by
  rcases bind_eq_ok.mp h with ⟨e, he, h⟩
  rw [require_eq_ok] at he
  split at h
  · rename_i superclass element t hkind
    rw [pure_eq_ok] at h
    cases t with
    | none =>
      rw [Option.getD_none] at h
      rw [← h, he, Option.some.injEq] at hsource
      exact ⟨superclass, element, by rw [← hsource, hkind]⟩
    | some t =>
      rw [Option.getD_some] at h
      rcases (hr.sound_get? he).template hkind with ⟨f, element', hf, hfkind⟩
      rw [h, hsource, Option.some.injEq] at hf
      exact ⟨superclass, element', by rw [hf, hfkind]⟩
  · exact absurd h throw_ne_ok

/-- A specialization has what its template has, but for the methods. -/
theorem WellFormed.sound_specialized {r : Registry} (hr : WellFormed r) {template : TypeId}
    {source : Entry} (hsource : r.get? template = some source)
    (hkind : ∃ superclass element, source.kind = .array superclass element none)
    (name : String) (element : TypeId) :
    r.Sound (.type ⟨r.size⟩) (specialized name element template source) := by
  rcases hkind with ⟨superclass, previous, hkind⟩
  have hsound := hr.sound_get? hsource
  refine ⟨fun ho _ _ => ?_, fun h => ?_, fun h => ?_, fun m hm => ?_, hsound.includes_nodup⟩
  · rw [Owner.type.injEq] at ho
    -- The root is no array, so the template has a superclass to share.
    have hroot : template ≠ Builtin.object.typeId := by
      rintro rfl
      rcases hr.root with ⟨e, he, -, hobject⟩
      rw [hsource, Option.some.injEq] at he
      rw [← he, hkind] at hobject
      cases hobject
    have hclass : source.kind.isClassLike = true := by rw [hkind]; rfl
    rcases hsound.superclass rfl hroot hclass with ⟨sup, f, hsup, hf, hfclass, -⟩
    refine ⟨sup, f, hsup, hf, hfclass, ?_⟩
    rw [← ho]
    exact index_lt_of_get? hf
  · simp [specialized] at h
  · simp only [specialized, TypeKind.array.injEq, Option.some.injEq] at h
    rcases h with ⟨hsuper, -, rfl⟩
    rw [hkind] at hsuper
    exact ⟨source, previous, hsource, by rw [hkind, ← hsuper]; rfl⟩
  · rcases hsound.includes m hm with ⟨-, f, hf, hmodule⟩
    refine ⟨?_, f, hf, hmodule⟩
    -- Modules of the template were registered before the specialization.
    intro h
    have hsize : r.size = m.index := congrArg TypeId.index (Owner.type.inj h)
    have hlt := index_lt_of_get? hf
    omega

theorem Sound.mixIn {r : Registry} {owner : Owner} {module : TypeId} {o m : Entry}
    (h : r.Sound owner o) (hm : r.get? module = some m) (hmodule : m.kind.isModule = true)
    (hself : owner ≠ .type module) (hfresh : module ∉ o.includes) :
    r.Sound owner (o.mixIn module) where
  superclass := h.superclass
  layout := h.layout
  template := h.template
  includes n hn := by
    rcases List.mem_append.mp hn with hn | hn
    · exact h.includes n hn
    · rw [List.mem_singleton] at hn
      rw [hn]
      exact ⟨hself, m, hm, hmodule⟩
  includes_nodup := by
    show (o.includes ++ [module]).Nodup
    rw [List.nodup_append]
    refine ⟨h.includes_nodup, by simp, fun a ha b hb hab => ?_⟩
    rw [List.mem_singleton] at hb
    rw [hab, hb] at ha
    exact hfresh ha

theorem Sound.define {r : Registry} {owner : Owner} {o : Entry} (h : r.Sound owner o)
    (s : Signature) : r.Sound owner (o.define s) :=
  ⟨h.superclass, h.layout, h.template, h.includes, h.includes_nodup⟩

-- No part of soundness looks at an element, so any id will do.
theorem Sound.rebind {r : Registry} {owner : Owner} {e : Entry} {previous element : TypeId}
    {superclass template : Option TypeId} (h : r.Sound owner e)
    (hkind : e.kind = .array superclass previous template) :
    r.Sound owner { e with kind := .array superclass element template } where
  superclass ho hid _ := by
    have hclass : e.kind.isClassLike = true := by rw [hkind]; rfl
    rcases h.superclass ho hid hclass with ⟨sup, f, hsup, hf⟩
    rw [hkind] at hsup
    exact ⟨sup, f, hsup, hf⟩
  layout h' := by simp at h'
  template h' := by
    simp only [TypeKind.array.injEq] at h'
    rcases h' with ⟨rfl, -, rfl⟩
    exact h.template hkind
  includes := h.includes
  includes_nodup := h.includes_nodup

/-- Every change keeps a registry well formed. -/
theorem WellFormed.change {r s : Registry} (hr : WellFormed r) (h : Change r s) :
    WellFormed s := by
  -- Adding needs a free name and a sound entry, changing only that the entry stays sound.
  cases h with
  | none => exact hr
  | declared hfree hkind => exact hr.push hfree (sound_bare hkind)
  | @specialized name array element template base source _ hbase hsource hfree =>
    have hkind := hr.kind_of_templateOf hbase hsource
    have hpush := hr.push (e := specialized name element base source) hfree
      (hr.sound_specialized hsource hkind name element)
    exact hpush.congr (target_cache _ _) (owner?_cache _ _) (lookup?_cache _ _)
  | mixedIn ho hm hmodule hself hfresh =>
    exact hr.modifyOwner ho (Entry.extends_mixIn _ _) ((hr.sound ho).mixIn hm hmodule hself hfresh)
  | defined ho => exact hr.modifyOwner ho (Entry.extends_define _ _) ((hr.sound ho).define _)
  | @rebound array element _ _ _ e he hkind =>
    have ho : r.owner? (.type array) = some e := he
    refine (hr.modifyOwner ho (Entry.extends_rebind element hkind)
      ((hr.sound ho).rebind hkind)).congr ?_ (owner?_rebound r _ _ _ _ _) fun name => ?_
    · rw [target_rebound, target_modifyOwner]
    · rw [lookup?_rebound, lookup?_modifyOwner]

end DeclLang.Registry
