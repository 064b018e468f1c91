import DeclLang.Proofs.Registry.Invariant

/-!
# Closed registries: whatever is mentioned is registered

An entry mentions types in its kind, as the modules mixed into it and in its methods. In a closed
registry all of these are registered. A registry stays closed when it is changed as long as what
is new mentions registered types only.
-/

namespace DeclLang

/-! ## What is mentioned -/

def TypeKind.mentions : TypeKind → List TypeId
  | .object superclass => superclass.toList
  | .module | .lib _ => []
  | .primitive superclass _ _ => [superclass]
  | .array superclass element template => superclass.toList ++ element :: template.toList

theorem TypeKind.mem_mentions_of_superclass? {kind : TypeKind} {superclass : TypeId}
    (h : kind.superclass? = some superclass) : superclass ∈ kind.mentions := by
  cases kind <;> simp_all [superclass?, mentions]

def Signature.mentions (s : Signature) : List TypeId :=
  s.parameters.map (·.type) ++ s.returns.toList

namespace Entry

def mentions (e : Entry) : List TypeId :=
  e.kind.mentions ++ (e.includes ++ e.methods.flatMap (·.mentions))

@[simp] theorem mentions_bare (name : String) (kind : TypeKind) :
    (bare name kind).mentions = kind.mentions := by
  simp [mentions, bare]

theorem mem_mentions_mixIn {e : Entry} {module id : TypeId} :
    id ∈ (e.mixIn module).mentions ↔ id ∈ e.mentions ∨ id = module := by
  simp only [mentions, mixIn, List.mem_append, List.mem_singleton]
  grind

theorem mem_mentions_define {e : Entry} {s : Signature} {id : TypeId} :
    id ∈ (e.define s).mentions ↔ id ∈ e.mentions ∨ id ∈ s.mentions := by
  have hmethods : id ∈ (s.insertInto e.methods).flatMap (·.mentions) ↔
      id ∈ e.methods.flatMap (·.mentions) ∨ id ∈ s.mentions := by
    simp only [List.mem_flatMap, (s.perm_insertInto e.methods).mem_iff, List.mem_cons]
    grind
  simp only [mentions, define, List.mem_append, hmethods]
  grind

theorem mem_mentions_of_method {e : Entry} {s : Signature} {id : TypeId} (hs : s ∈ e.methods)
    (hid : id ∈ s.mentions) : id ∈ e.mentions :=
  List.mem_append_right _ (List.mem_append_right _ (List.mem_flatMap.mpr ⟨s, hs, hid⟩))

end Entry

namespace Builtin

/-- Targets differ in the sizes of types only. -/
theorem mentions_entry (target target' : Target) (b : Builtin) :
    (b.entry target).mentions = (b.entry target').mentions := by
  cases b <;> rfl

theorem index_lt_of_mem_mentions (b : Builtin) :
    ∀ id ∈ (b.entry .host64).mentions, id.index < Builtin.all.length := by
  cases b <;> decide +kernel

end Builtin

/-! ## Closed registries -/

namespace Registry

structure Closed (r : Registry) : Prop where
  registered : ∀ {o e}, r.owner? o = some e → ∀ id ∈ e.mentions, (r.get? id).isSome = true

variable {r s : Registry}

/-- The builtin types mention each other only. -/
theorem closed_initial (target : Target) : Closed (initial target) := by
  refine ⟨fun {o e} he id hid => ?_⟩
  cases o with
  | main =>
    obtain rfl := Option.some.inj he
    exact absurd hid List.not_mem_nil
  | type place =>
    obtain ⟨b, -, rfl⟩ := eq_entry_of_get?_initial he
    rw [b.mentions_entry target .host64] at hid
    exact isSome_get?_iff.mpr (b.index_lt_of_mem_mentions id hid)

theorem Closed.get? (h : r.Closed) {place id : TypeId} {e : Entry} (he : r.get? place = some e)
    (hid : id ∈ e.mentions) : (r.get? id).isSome = true :=
  h.registered (o := .type place) he id hid

/-- Only what is new in an entry has to be looked at. -/
theorem Closed.of_extends (h : r.Closed) (hrs : r.Extends s)
    (hnew : ∀ {o f}, s.owner? o = some f → ∀ id ∈ f.mentions,
      (∃ e, r.owner? o = some e ∧ id ∈ e.mentions) ∨ (r.get? id).isSome = true) : s.Closed where
  registered {o f} hf id hid := by
    have hold : (r.get? id).isSome = true := by
      obtain ⟨e, he, hmem⟩ | hid := hnew hf id hid
      · exact h.registered he id hmem
      · exact hid
    obtain ⟨e, he⟩ := Option.isSome_iff_exists.mp hold
    obtain ⟨g, hg, -⟩ := hrs.get? he
    exact Option.isSome_of_eq_some hg

/-- The cache is no part of what is mentioned. -/
theorem Closed.congr (h : r.Closed) (howner : ∀ o, s.owner? o = r.owner? o) : s.Closed where
  registered {o e} he id hid := by
    rw [howner] at he
    have hget := howner (.type id)
    rw [owner?_type, owner?_type] at hget
    rw [hget]
    exact h.registered he id hid

theorem Closed.push (h : r.Closed) {e : Entry} (hfree : r.lookup? e.name = none)
    (he : ∀ id ∈ e.mentions, (r.get? id).isSome = true) : (r.push e).2.Closed := by
  refine h.of_extends (extends_push hfree) fun {o f} hf id hid => ?_
  rw [owner?_push] at hf
  split at hf
  · obtain rfl := Option.some.inj hf
    exact .inr (he id hid)
  · exact .inl ⟨f, hf, hid⟩

theorem Closed.modifyOwner (h : r.Closed) {owner : Owner} {g : Entry → Entry}
    [Entry.KeepsName g] {e : Entry} (he : r.owner? owner = some e) (hext : e.Extends (g e))
    (hg : ∀ id ∈ (g e).mentions, id ∈ e.mentions ∨ (r.get? id).isSome = true) :
    (r.modifyOwner owner g).Closed := by
  refine h.of_extends (extends_modifyOwner he hext) fun {o f} hf id hid => ?_
  rw [owner?_modifyOwner] at hf
  split at hf
  · rename_i ho
    rw [ho, he, Option.map_some, Option.some.injEq] at hf
    rw [← hf] at hid
    rw [ho]
    exact (hg id hid).imp (fun hmem => ⟨e, he, hmem⟩) fun hid => hid
  · exact .inl ⟨f, hf, hid⟩

/-! ## Operations -/

theorem Closed.register (h : r.Closed) {name : String} {kind : TypeKind} {id : TypeId}
    (hregister : r.register (.bare name kind) = .ok (id, s))
    (hkind : ∀ i ∈ kind.mentions, (r.get? i).isSome = true) : s.Closed := by
  obtain ⟨hfree, hpush⟩ := register_eq_ok_iff.mp hregister
  have hs : (r.push (.bare name kind)).2 = s := congrArg Prod.snd hpush
  rw [← hs]
  exact h.push hfree (by rwa [Entry.mentions_bare])

theorem Closed.define (h : r.Closed) {owner : Owner} {signature : Signature}
    (hids : ∀ id ∈ signature.mentions, (r.get? id).isSome = true)
    (hdefine : r.defineMethod owner signature = .ok s) : s.Closed := by
  obtain ⟨e, he, -, rfl⟩ := defineMethod_eq_ok hdefine
  refine h.modifyOwner (g := (·.define signature)) he (e.extends_define signature) fun id hid => ?_
  exact (Entry.mem_mentions_define.mp hid).imp_right (hids id)

/-- What is declared inherits from a registered class, and what is mixed in is registered. -/
theorem Closed.collects (h : r.Closed) {N : String → Prop} {op : Operation} (hop : op.Collects N)
    (happly : op.apply r = .ok s) : s.Closed := by
  have hclass {superclass : TypeId} {u : Unit} (hu : r.requireClass superclass = .ok u) :
      ∀ id ∈ [superclass], (r.get? id).isSome = true := by
    obtain ⟨e, he, -⟩ := requireClass_eq_ok.mp hu
    exact List.forall_mem_singleton.mpr (Option.isSome_of_eq_some he)
  cases op with
  | declareObject name superclass =>
    obtain ⟨id, hdeclare⟩ := map_snd_eq_ok.mp happly
    obtain ⟨u, hu, hregister⟩ := bind_eq_ok.mp hdeclare
    exact h.register hregister (hclass hu)
  | declareModule name =>
    obtain ⟨id, hregister⟩ := map_snd_eq_ok.mp happly
    exact h.register hregister (List.forall_mem_nil _)
  | declarePrimitive name superclass repr byteSize =>
    obtain ⟨id, hdeclare⟩ := map_snd_eq_ok.mp happly
    obtain ⟨u, hu, hlayout⟩ := bind_eq_ok.mp hdeclare
    obtain ⟨-, -, hregister⟩ := bind_eq_ok.mp hlayout
    exact h.register hregister (hclass hu)
  | declareLib name libname =>
    obtain ⟨id, hregister⟩ := map_snd_eq_ok.mp happly
    exact h.register hregister (List.forall_mem_nil _)
  | mixIn owner module =>
    obtain ⟨e, m, he, hm, -, -, -, rfl⟩ := mixIn_eq_ok happly
    refine h.modifyOwner (g := (·.mixIn module)) he (e.extends_mixIn module) fun id hid => ?_
    refine (Entry.mem_mentions_mixIn.mp hid).imp_right fun hid => ?_
    rw [hid]
    exact Option.isSome_of_eq_some hm
  | defineMethod | specialize | instantiate | arrayOf | rebindElement => exact hop.elim

/-- A specialization mentions what its template does, and its element. -/
theorem Closed.specialized (h : r.Closed) {name : String} {element template : TypeId}
    {source : Entry} (hsource : r.get? template = some source)
    (helement : (r.get? element).isSome = true) :
    ∀ id ∈ (specialized name element template source).mentions, (r.get? id).isSome = true := by
  have hold : ∀ id ∈ source.mentions, (r.get? id).isSome = true :=
    h.registered (o := .type template) hsource
  have hsuper : ∀ id ∈ source.kind.superclass?.toList, id ∈ source.mentions := fun id hid =>
    List.mem_append_left _ (TypeKind.mem_mentions_of_superclass? (Option.mem_toList.mp hid))
  intro id hid
  simp only [Entry.mentions, Registry.specialized, TypeKind.mentions, List.mem_append,
    List.mem_cons, Option.toList_some, List.not_mem_nil, or_false] at hid
  obtain (hid | rfl | rfl) | hid | hid := hid
  · exact hold id (hsuper id hid)
  · exact helement
  · exact Option.isSome_of_eq_some hsource
  · exact hold id (List.mem_append_right _ (List.mem_append_left _ hid))
  · cases hid

end Registry

end DeclLang
