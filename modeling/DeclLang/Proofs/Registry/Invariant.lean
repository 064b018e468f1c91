import DeclLang.Proofs.Registry.WellFormed

/-!
# Invariants of a run: the state of every reachable registry

The builtin types are well formed, so every reachable registry is. What is left for the verification
to find is an array whose element is not registered: `verify_eq` gives its verdict in that form, and
`registry_invariant` puts the whole together for every run.
-/

namespace DeclLang

/-! ## The builtin types -/

namespace Builtin

theorem eq_index_of_all_getElem? {i : Nat} {b : Builtin} (h : all[i]? = some b) : i = b.index := by
  have hlt : i < all.length := (List.getElem?_eq_some_iff.mp h).1
  exact (List.getElem?_inj hlt (by decide)).mp (h.trans (all_getElem?_index b).symm)

theorem name_injective {b c : Builtin} (h : b.name = c.name) : b = c := by
  have hb := ofName?_name b
  rw [h, ofName?_name c, Option.some.injEq] at hb
  exact hb.symm

/-- A builtin other than the root inherits from one that is registered before it. -/
theorem superclass?_typeKind (target : Target) {b : Builtin} (hb : b ≠ object)
    (hclass : (b.typeKind target).isClassLike = true) :
    ∃ c : Builtin, (b.typeKind target).superclass? = some c.typeId ∧
      (c.typeKind target).isClassLike = true ∧ c.index < b.index := by
  cases b with
  | object => exact absurd rfl hb
  | enumerable => simp [typeKind, TypeKind.isClassLike] at hclass
  | value | array | argv => exact ⟨object, rfl, rfl, by decide⟩
  | numeric | bool | char | string | symbol | pointer => exact ⟨value, rfl, rfl, by decide⟩
  | int | long | float => exact ⟨numeric, rfl, rfl, by decide⟩

end Builtin

namespace Registry

/-- Every entry of the initial registry is a builtin in its place. -/
theorem eq_entry_of_get?_initial {target : Target} {id : TypeId} {e : Entry}
    (h : (initial target).get? id = some e) :
    ∃ b : Builtin, id = b.typeId ∧ e = b.entry target := by
  rw [get?, initial, List.getElem?_toArray, List.getElem?_map] at h
  rcases Option.map_eq_some_iff.mp h with ⟨b, hb, rfl⟩
  refine ⟨b, ?_, rfl⟩
  rw [Builtin.typeId, ← Builtin.eq_index_of_all_getElem? hb]

theorem sound_builtin (target : Target) (b : Builtin) :
    (initial target).Sound (.type b.typeId) (b.entry target) where
  superclass ho hid hclass := by
    rw [Owner.type.injEq] at ho
    have hb : b ≠ .object := by
      rintro rfl
      exact hid ho.symm
    rcases Builtin.superclass?_typeKind target hb hclass with ⟨c, hsup, hcclass, hlt⟩
    rw [← ho]
    exact ⟨c.typeId, c.entry target, hsup, get?_initial target c, hcclass, hlt⟩
  layout h := by
    rw [Builtin.kind_entry] at h
    cases b <;> cases h <;> rfl
  template h := by
    rw [Builtin.kind_entry] at h
    cases b <;> cases h
    exact ⟨_, _, get?_initial target .array, rfl⟩
  includes m hm := by
    rw [Builtin.includes_entry] at hm
    -- The one module that builtins mix in is `Enumerable`.
    have hm' : m = Builtin.enumerable.typeId ∧ b ≠ .enumerable := by
      cases b <;> simp_all [Builtin.includes]
    rcases hm' with ⟨rfl, hb⟩
    refine ⟨fun h => hb ?_, _, get?_initial target .enumerable, rfl⟩
    rw [Owner.type.injEq] at h
    cases b <;> first | rfl | cases h
  includes_nodup := by
    rw [Builtin.includes_entry]
    cases b <;> decide

theorem wellFormed_initial (target : Target) : WellFormed (initial target) where
  root := ⟨_, get?_initial target .object, rfl, rfl⟩
  names h h' hname := by
    rcases eq_entry_of_get?_initial h with ⟨b, rfl, rfl⟩
    rcases eq_entry_of_get?_initial h' with ⟨c, rfl, rfl⟩
    rw [Builtin.name_injective hname]
  sound {o e} he := by
    cases o with
    | main =>
      rw [owner?, Option.some.injEq] at he
      rw [← he]
      exact ⟨by simp, by simp [initial], by simp [initial], by simp [initial], List.nodup_nil⟩
    | type id =>
      rcases eq_entry_of_get?_initial he with ⟨b, rfl, rfl⟩
      exact sound_builtin target b

/-! ## Runs -/

/-- Being well formed goes from one registry to the next, whatever the operation. -/
theorem steadfast_wellFormed : Collect.Steadfast fun r s => WellFormed r → WellFormed s :=
  ⟨⟨fun _ h => h, fun h h' hr => h' (h hr)⟩, fun _ h hr => hr.change (change_of_apply h)⟩

theorem Reachable.wellFormed {r : Registry} (h : Reachable r) : WellFormed r :=
  h.of_steadfast wellFormed_initial steadfast_wellFormed

/-! ## Verification -/

/-- The element of an array, if it is not registered. -/
def danglingElement? (r : Registry) (e : Entry) : Option TypeId :=
  match e.kind with
  | .array _ element _ => if element.index < r.size then none else some element
  | _ => none

/-- The name of an array and its element, if that is not registered. -/
def danglingArrayAt? (r : Registry) (e : Entry) : Option (String × TypeId) :=
  (r.danglingElement? e).map fun element => (e.name, element)

/-- The first array whose element is not registered. -/
def danglingArray? (r : Registry) : Option (String × TypeId) :=
  r.entries.toList.findSome? r.danglingArrayAt?

theorem verifyStep_root {r : Registry} (hr : WellFormed r) (name : String) (start : TypeId) :
    r.verifyStep name start Builtin.object.typeId = .ok none := by
  rcases hr.root with ⟨e, he, -, hkind⟩
  simp [verifyStep, superclass?, he, hkind, TypeKind.superclass?]

/-- Above a type other than the root there is one that was registered before it. -/
theorem verifyStep_of_ne {r : Registry} (hr : WellFormed r) (name : String) (start : TypeId)
    {current : TypeId} {e : Entry} (he : r.get? current = some e)
    (hclass : e.kind.isClassLike = true) (hne : current ≠ Builtin.object.typeId) :
    ∃ sup f, r.verifyStep name start current = .ok (some sup) ∧ r.get? sup = some f ∧
      f.kind.isClassLike = true ∧ sup.index < current.index := by
  rcases (hr.sound_get? he).superclass rfl hne hclass with ⟨sup, f, hsup, hf, hfclass, hlt⟩
  exact ⟨sup, f, by simp [verifyStep, superclass?, he, hsup, hf, hfclass], hf, hfclass, hlt⟩

/-- Every chain of superclasses ends at the root before the steps run out. -/
theorem verifyChain_eq_ok {r : Registry} (hr : WellFormed r) (name : String) (start : TypeId)
    {steps : Nat} {current : TypeId} {e : Entry} (he : r.get? current = some e)
    (hclass : e.kind.isClassLike = true) (hsteps : current.index ≤ steps) :
    r.verifyChain name start current steps = .ok () := by
  -- On the steps that are left, which are at least the index of the current type: a superclass has
  -- a smaller index, so the root is reached in time.
  induction steps generalizing current e with
  | zero =>
    have hroot : current = Builtin.object.typeId :=
      congrArg TypeId.mk (Nat.le_zero.mp hsteps)
    rw [verifyChain, hroot, verifyStep_root hr]
  | succ steps ih =>
    rw [verifyChain]
    by_cases hroot : current = Builtin.object.typeId
    · rw [hroot, verifyStep_root hr]
    · rcases verifyStep_of_ne hr name start he hclass hroot with ⟨sup, f, hstep, hf, hfclass, hlt⟩
      rw [hstep]
      exact ih hf hfclass (by omega)

theorem verifyPayload_eq {r : Registry} {o : Owner} {e : Entry} (he : r.Sound o e) :
    r.verifyPayload e =
      match r.danglingElement? e with
      | none => .ok ()
      | some element => .error (.missingDependency e.name element) := by
  unfold verifyPayload danglingElement?
  cases hkind : e.kind with
  | primitive superclass repr byteSize =>
    exact checkLayout_eq_ok.mpr (he.layout hkind)
  | array superclass element template =>
    dsimp only
    split <;> rfl
  | object => rfl
  | module => rfl
  | lib => rfl

/-- An entry of a well-formed registry can only fail by its element. -/
theorem verifyEntry_eq {r : Registry} (hr : WellFormed r) {id : TypeId} {e : Entry}
    (he : r.get? id = some e) :
    r.verifyEntry id e =
      match r.danglingElement? e with
      | none => .ok ()
      | some element => .error (.missingDependency e.name element) := by
  have hlt := index_lt_of_get? he
  rw [verifyEntry, verifyPayload_eq (hr.sound_get? he)]
  cases r.danglingElement? e with
  | some element => rfl
  | none =>
    -- The chain is given as many steps as there are entries.
    show (if e.kind.isClassLike then r.verifyChain e.name id id r.size else pure ()) = _
    split
    · rename_i hclass
      exact verifyChain_eq_ok hr e.name id he hclass (by omega)
    · rfl

theorem ids_map_get? (r : Registry) : r.ids.map r.get? = r.entries.toList.map some := by
  apply List.ext_getElem
  · simp [ids, size]
  · intro i h h'
    simp [ids, get?] at h h' ⊢

/-- The entries at some places are verified in turn, up to the first dangling element. -/
theorem verifyEach_eq {r : Registry} (hr : WellFormed r) (ids : List TypeId) :
    (ids.forM fun id =>
        match r.get? id with
        | some e => r.verifyEntry id e
        | none => .ok ()) =
      match (ids.map r.get?).findSome? fun e => e.bind r.danglingArrayAt? with
      | none => .ok ()
      | some (name, element) => .error (.missingDependency name element) := by
  -- On the places, for any list of them: the verdict is that of the first entry that fails.
  induction ids with
  | nil => rfl
  | cons id ids ih =>
    rw [List.forM_eq_forM, List.forM_cons, ← List.forM_eq_forM, ih, List.map_cons,
      List.findSome?_cons]
    cases he : r.get? id with
    | none => rfl
    | some e =>
      dsimp only [Option.bind_some]
      rw [verifyEntry_eq hr he, danglingArrayAt?]
      cases r.danglingElement? e <;> rfl

/-- The verdict on a well-formed registry: sound, or an array whose element is not registered. -/
theorem verify_eq {r : Registry} (hr : WellFormed r) :
    r.verify =
      match r.danglingArray? with
      | none => .ok ()
      | some (name, element) => .error (.missingDependency name element) := by
  have harrays : ((r.ids.map r.get?).findSome? fun e => e.bind r.danglingArrayAt?) =
      r.danglingArray? := by
    rw [ids_map_get?, List.findSome?_map]
    rfl
  refine (verifyEach_eq hr r.ids).trans ?_
  rw [harrays]

/-! ## Every run -/

/-- What holds of the registry after any run: names are unique, a class-like type other than the
    root inherits from one registered before it, primitives have the size of their representation,
    only other modules are mixed in, each once; and all that a verification can find is an array
    whose element is not registered. -/
theorem registry_invariant {r : Registry} (h : Reachable r) :
    (∀ name id, r.lookup? name = some id ↔ ∃ e, r.get? id = some e ∧ e.name = name) ∧
    (∃ e, r.get? ⟨0⟩ = some e ∧ e.name = "Object" ∧ e.kind = .object none) ∧
    (∀ id e, r.get? id = some e → e.kind.isClassLike = true → id ≠ ⟨0⟩ →
      ∃ sup f, e.kind.superclass? = some sup ∧ r.get? sup = some f ∧
        f.kind.isClassLike = true ∧ sup.index < id.index) ∧
    (∀ id e superclass repr byteSize, r.get? id = some e →
      e.kind = .primitive superclass repr byteSize → byteSize = repr.storageSize r.target) ∧
    (∀ o e, r.owner? o = some e → e.includes.Nodup ∧
      ∀ m ∈ e.includes, o ≠ .type m ∧ ∃ f, r.get? m = some f ∧ f.kind.isModule = true) ∧
    r.verify =
      match r.danglingArray? with
      | none => .ok ()
      | some (name, element) => .error (.missingDependency name element) := by
  have hr := h.wellFormed
  refine ⟨fun _ _ => hr.lookup?_eq_some_iff, hr.root, fun id e he hclass hid => ?_,
    fun id e superclass repr byteSize he hkind => ?_, fun o e he => ?_, verify_eq hr⟩
  · exact (hr.sound_get? he).superclass rfl hid hclass
  · exact (hr.sound_get? he).layout hkind
  · exact ⟨(hr.sound he).includes_nodup, (hr.sound he).includes⟩

/-- An array that was named may have an element that is not registered. -/
theorem registry_invariant_forged_element :
    let r := (initial .host64).perform (.specialize Builtin.array.typeId ⟨99⟩ (some "Forged"))
    Reachable r ∧ r.lookup? "Forged" = some ⟨14⟩ ∧
      r.verify = .error (.missingDependency "Forged" (.type ⟨99⟩)) := by
  intro r
  have hinitial : Reachable (initial .host64) := .initial (ofTarget_eq_ok_iff.mpr ⟨by decide, rfl⟩)
  have harray : Builtin.array.typeId.index < (initial .host64).size := by decide
  have hreach : Reachable r := .operation _ hinitial harray
  rcases registry_invariant hreach with ⟨hlookup, -, -, -, -, hverify⟩
  refine ⟨hreach, (hlookup _ _).mpr ⟨_, rfl, by decide⟩, ?_⟩
  rw [hverify, show r.danglingArray? = some ("Forged", ⟨99⟩) by decide]

end Registry

end DeclLang
