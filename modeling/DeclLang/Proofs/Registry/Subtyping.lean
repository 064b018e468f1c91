import DeclLang.Proofs.Registry.Stability

/-!
# Subtyping: an order that branches downwards only

Above a type there is one chain of superclasses, each registered before the next lower one. So the
ancestors of a type are this chain up to its end, which is `Object` for all that takes part in
inheritance, and any two types above one are above each other one way or the other
(`subtyping_forest`). What is registered keeps its superclass, and so its place in the order.
-/

namespace DeclLang.Registry

/-- Subtyping as a partial order in which the supertypes of a type form a chain. -/
structure SubtypeForest (r : Registry) : Prop where
  refl : ∀ id, r.isSubtype id id = true
  trans : ∀ {a b c}, r.isSubtype a b = true → r.isSubtype b c = true → r.isSubtype a c = true
  antisymm : ∀ {a b}, r.isSubtype a b = true → r.isSubtype b a = true → a = b
  root : ∀ {id e}, r.get? id = some e → e.kind.isClassLike = true →
    r.isSubtype id Builtin.object.typeId = true
  comparable : ∀ {id a b}, r.isSubtype id a = true → r.isSubtype id b = true →
    r.isSubtype a b = true ∨ r.isSubtype b a = true
  /-- The ancestors are all superclasses, up to one that has none. -/
  chain : ∀ id, Ancestry r id (r.ancestors id)
  decreasing : ∀ id, (id :: r.ancestors id).Pairwise fun a b => b.index < a.index
  /-- No chain comes near the number of steps after which a search for ancestors stops. -/
  length_lt : ∀ {id}, id.index < r.size → (r.ancestors id).length < r.size
  last : ∀ {id e}, r.get? id = some e → e.kind.isClassLike = true → id ≠ Builtin.object.typeId →
    (r.ancestors id).getLast? = some Builtin.object.typeId

variable {r s : Registry} {id : TypeId} {above : List TypeId}

/-! ## The chain above a type -/

/-- With fuel for more steps than there are superclasses, a search finds all of them. -/
theorem Ancestry.superclassChain_eq (h : Ancestry r id above) {fuel : Nat}
    (hfuel : above.length < fuel) : r.superclassChain id fuel = above := by
  induction h generalizing fuel with
  | @root id hnone =>
    cases fuel with
    | zero => omega
    | succ fuel => rw [superclassChain, hnone]
  | @step id next above hnext _ ih =>
    rw [List.length_cons] at hfuel
    cases fuel with
    | zero => omega
    | succ fuel =>
      have hrest := ih (Nat.lt_of_succ_lt_succ hfuel)
      rw [superclassChain, hnext]
      show next :: r.superclassChain next fuel = next :: above
      rw [hrest]

/-- Each superclass comes before the types below it. -/
theorem Ancestry.pairwise (h : Ancestry r id above) (hr : WellFormed r) :
    (id :: above).Pairwise fun a b => b.index < a.index := by
  induction h with
  | root => exact List.pairwise_singleton _ _
  | @step id next above hnext _ ih =>
    have hlt := hr.index_superclass?_lt hnext
    have hbelow : ∀ b ∈ next :: above, b.index < id.index := by
      intro b hb
      rcases List.mem_cons.mp hb with rfl | hb
      · exact hlt
      · have hnext := (List.pairwise_cons.mp ih).1 b hb
        omega
    exact List.pairwise_cons.mpr ⟨hbelow, ih⟩

/-- The chain of a type that takes part in inheritance ends at the root. -/
theorem Ancestry.getLast?_eq (h : Ancestry r id above) (hr : WellFormed r) {e : Entry}
    (he : r.get? id = some e) (hclass : e.kind.isClassLike = true) :
    (id :: above).getLast? = some Builtin.object.typeId := by
  induction h generalizing e with
  | @root id hnone =>
    by_cases hid : id = Builtin.object.typeId
    · rw [hid]
      rfl
    -- Every other type has a superclass.
    · obtain ⟨sup, -, hsup, -⟩ := (hr.sound_get? he).superclass rfl hid hclass
      rw [superclass?, he, Option.bind_some, hsup] at hnone
      cases hnone
  | @step id next above hnext _ ih =>
    rw [superclass?, he, Option.bind_some] at hnext
    obtain ⟨f, hf, hfclass, -⟩ := hr.superclass he hnext
    rw [List.getLast?_cons_cons]
    exact ih hf hfclass

/-! ## The order -/

theorem isSubtype_iff_mem {sub sup : TypeId} :
    r.isSubtype sub sup = true ↔ sup ∈ sub :: r.ancestors sub := by
  rw [isSubtype, Bool.or_eq_true, beq_iff_eq, List.contains_iff_mem, List.mem_cons, eq_comm]

/-- A subtype inherits from its supertype in any number of steps. -/
theorem WellFormed.isSubtype_iff (hr : WellFormed r) {sub sup : TypeId} :
    r.isSubtype sub sup = true ↔ Relation.ReflTransGen r.Inherits sub sup := by
  rw [isSubtype_iff_mem, (hr.ancestry_ancestors sub).mem_iff]

theorem WellFormed.index_le_of_inherits (hr : WellFormed r) {sub sup : TypeId}
    (h : Relation.ReflTransGen r.Inherits sub sup) : sub = sup ∨ sup.index < sub.index := by
  induction h with
  | refl => exact .inl rfl
  | tail _ hstep ih =>
    have hlt := hr.index_superclass?_lt hstep
    rcases ih with rfl | ih
    · exact .inr hlt
    · exact .inr (Nat.lt_trans hlt ih)

/-- A type inherits directly from one type at most, so paths up from it do not part. -/
theorem inherits_rightUnique : Relator.RightUnique r.Inherits := by
  intro id a b ha hb
  exact Option.some.inj (ha.symm.trans hb)

theorem WellFormed.subtypeForest (hr : WellFormed r) : SubtypeForest r where
  refl id := hr.isSubtype_iff.mpr .refl
  trans hab hbc := hr.isSubtype_iff.mpr ((hr.isSubtype_iff.mp hab).trans (hr.isSubtype_iff.mp hbc))
  antisymm {a b} hab hba := by
    rcases hr.index_le_of_inherits (hr.isSubtype_iff.mp hab) with h | hlt
    · exact h
    · rcases hr.index_le_of_inherits (hr.isSubtype_iff.mp hba) with h | hlt'
      · exact h.symm
      · omega
  root {id e} he hclass := by
    have hlast := (hr.ancestry_ancestors id).getLast?_eq hr he hclass
    exact isSubtype_iff_mem.mpr (List.mem_of_getLast? hlast)
  comparable ha hb := by
    have htotal := Relation.ReflTransGen.total_of_right_unique inherits_rightUnique
      (hr.isSubtype_iff.mp ha) (hr.isSubtype_iff.mp hb)
    rw [hr.isSubtype_iff, hr.isSubtype_iff]
    exact htotal
  chain id := hr.ancestry_ancestors id
  decreasing id := (hr.ancestry_ancestors id).pairwise hr
  length_lt {id} hid := Nat.lt_of_le_of_lt ((hr.ancestry_ancestors id).length_le hr) hid
  last {id e} he hclass hid := by
    have hlast := (hr.ancestry_ancestors id).getLast?_eq hr he hclass
    cases habove : r.ancestors id with
    | nil =>
      rw [habove] at hlast
      exact absurd (Option.some.inj hlast) hid
    | cons next above =>
      rw [habove, List.getLast?_cons_cons] at hlast
      exact hlast

/-! ## Later registries -/

/-- Entries that are extended keep their superclasses, so a chain stays as it is. -/
theorem Ancestry.of_extends (h : Ancestry r id above) (hr : WellFormed r)
    (hextends : ∀ {id e}, r.get? id = some e → ∃ f, s.get? id = some f ∧ e.Extends f)
    (hid : id.index < r.size) : Ancestry s id above := by
  have hkeeps {id : TypeId} (hid : id.index < r.size) : s.superclass? id = r.superclass? id := by
    obtain ⟨e, he⟩ := Option.isSome_iff_exists.mp (isSome_get?_iff.mpr hid)
    obtain ⟨f, hf, hef⟩ := hextends he
    obtain ⟨element, hkind⟩ := hef.kind
    rw [superclass?, superclass?, he, hf, Option.bind_some, Option.bind_some, hkind,
      TypeKind.superclass?_withElement]
  induction h with
  | root hnone => exact .root ((hkeeps hid).trans hnone)
  | step hnext _ ih =>
    have hlt := hr.index_superclass?_lt hnext
    exact .step ((hkeeps hid).trans hnext) (ih (by omega))

/-- A registered type has the same ancestors ever after. -/
theorem WellFormed.ancestors_of_extends (hr : WellFormed r)
    (hextends : ∀ {id e}, r.get? id = some e → ∃ f, s.get? id = some f ∧ e.Extends f)
    (hid : id.index < r.size) : s.ancestors id = r.ancestors id := by
  have hancestry := hr.ancestry_ancestors id
  have hlength := hancestry.length_le hr
  obtain ⟨e, he⟩ := Option.isSome_iff_exists.mp (isSome_get?_iff.mpr hid)
  obtain ⟨f, hf, -⟩ := hextends he
  have hlt := index_lt_of_get? hf
  exact (hancestry.of_extends hr hextends hid).superclassChain_eq (by omega)

/-- After any run subtyping is a partial order in which the types above one form a chain, which the
    search for ancestors finds in full and which ends at `Object`. Whatever comes later, operations,
    programs or loads, changes nothing in it between the types that are there. -/
theorem subtyping_forest (h : Reachable r) :
    SubtypeForest r ∧
    (∀ s, Later r s → ∀ id sup, id.index < r.size → s.isSubtype id sup = r.isSubtype id sup) ∧
    ∀ fs places options id sup, id.index < r.size →
      (r.load fs places options).2.isSubtype id sup = r.isSubtype id sup := by
  have hr := h.wellFormed
  refine ⟨hr.subtypeForest, fun s hlater id sup hid => ?_,
    fun fs places options id sup hid => ?_⟩
  · have hextends := hlater.of_steadfast steadfast_extends
    have hancestors := hr.ancestors_of_extends (fun he => hextends.get? he) hid
    rw [isSubtype, isSubtype, hancestors]
  · have hpersists := persists_load r fs places options
    have hextends {id : TypeId} {e : Entry} (he : r.get? id = some e) :
        ∃ f, (r.load fs places options).2.get? id = some f ∧ e.Extends f := by
      obtain ⟨f, hf, hef⟩ := hpersists.owner (o := .type id) he
      exact ⟨f, hf, hef.toExtends⟩
    have hancestors := hr.ancestors_of_extends hextends hid
    rw [isSubtype, isSubtype, hancestors]

/-- A class below a primitive is a subtype of all that is above the primitive, also after a program
    with classes of its own. -/
theorem subtyping_forest_celsius :
    let r := (initial .host64).perform (.declareObject "Celsius" Builtin.float.typeId)
    let s := (r.collect mutualIncludes).2.registry
    Reachable r ∧ r.ancestors ⟨14⟩ = [Builtin.float, .numeric, .value, .object].map (·.typeId) ∧
      s.isSubtype ⟨14⟩ Builtin.numeric.typeId = true ∧
      s.isSubtype Builtin.numeric.typeId ⟨14⟩ = false := by
  intro r s
  have hinitial : Reachable (initial .host64) :=
    .initial (ofTarget_eq_ok_iff.mpr ⟨by decide, rfl⟩)
  have hfloat : Builtin.float.typeId.index < (initial .host64).size := by decide
  have hreach : Reachable r := .operation _ hinitial hfloat
  have hlater : Later r s := .single (.program mutualIncludes)
  obtain ⟨hforest, hstays, -⟩ := subtyping_forest hreach
  have hancestors : r.ancestors ⟨14⟩ = [Builtin.float, .numeric, .value, .object].map (·.typeId) :=
    by decide +kernel
  have hbelow : r.isSubtype ⟨14⟩ Builtin.float.typeId = true := by decide +kernel
  have hnumeric : r.isSubtype Builtin.float.typeId Builtin.numeric.typeId = true := by
    decide +kernel
  have hbelow := hforest.trans hbelow hnumeric
  refine ⟨hreach, hancestors, ?_, ?_⟩
  · rw [hstays s hlater ⟨14⟩ _ (by decide +kernel)]
    exact hbelow
  -- Otherwise the two would be one type.
  · rw [hstays s hlater _ ⟨14⟩ (by decide +kernel)]
    refine Bool.eq_false_iff.mpr fun habove => ?_
    exact absurd (hforest.antisymm hbelow habove) (by decide)

end DeclLang.Registry
