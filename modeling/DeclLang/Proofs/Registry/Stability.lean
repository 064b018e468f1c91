import DeclLang.Proofs.Registry.Persistence
import DeclLang.Proofs.Registry.Visibility

/-!
# Stability: what is found on a type is found again later

Later includes change the order of a search, and which modules it has entered before it comes to a
declaration; what it can reach only grows, so a name that means something never comes to mean
nothing. A new method changes no order: it is what its own name may come to mean, and it changes
no other name (`lookup_stable`).
-/

namespace DeclLang

@[simp] theorem TypeKind.superclass?_withElement (kind : TypeKind) (element : TypeId) :
    (kind.withElement element).superclass? = kind.superclass? := by
  cases kind <;> rfl

namespace Entry

theorem find?_insertInto_self {sig : Signature} {table : List Signature}
    (hfree : table.find? (·.name == sig.name) = none) :
    (sig.insertInto table).find? (·.name == sig.name) = some sig := by
  induction table with
  | nil => simp [Signature.insertInto]
  | cons t table ih =>
    rw [List.find?_eq_none] at hfree
    have hskip : (t.name == sig.name) = false := by simpa using hfree t List.mem_cons_self
    have hrest : table.find? (·.name == sig.name) = none :=
      List.find?_eq_none.mpr fun u hu => hfree u (List.mem_cons_of_mem _ hu)
    unfold Signature.insertInto
    split
    · rw [List.find?_cons, beq_self_eq_true]
    · rw [List.find?_cons, hskip, ih hrest]

/-- A method that is added under a free name is what that name means from then on. -/
theorem method?_define {e : Entry} {sig : Signature} (hfree : e.method? sig.name = none)
    (name : String) :
    (e.define sig).method? name = if sig.name = name then some sig else e.method? name := by
  split
  · rename_i hname
    rw [← hname]
    exact find?_insertInto_self hfree
  · rename_i hname
    exact find?_insertInto hname e.methods

end Entry

namespace Registry

variable {r s : Registry}

/-! ## What comes later -/

/-- One operation or one program, refused or not. -/
inductive Step (r : Registry) : Registry → Prop where
  | operation (op : Operation) : Step r (r.perform op)
  | program (p : Program) : Step r (r.collect p).2.registry

/-- Any number of steps. -/
def Later (r s : Registry) : Prop :=
  Relation.ReflTransGen Step r s

theorem Step.of_steadfast {R : Registry → Registry → Prop} (hR : Collect.Steadfast R)
    (h : Step r s) : R r s := by
  cases h with
  | operation op =>
    unfold perform
    split
    · rename_i t ht
      exact hR.operation op ht
    · exact hR.refl r
  | program p => exact hR.on.keeps_program p (fun _ _ _ _ => trivial) ⟨r, 0⟩

/-- What every operation keeps holds between a registry and any later one. -/
theorem Later.of_steadfast {R : Registry → Registry → Prop} (hR : Collect.Steadfast R)
    (h : Later r s) : R r s := by
  induction h with
  | refl => exact hR.refl r
  | tail _ hstep ih => exact hR.trans ih (hstep.of_steadfast hR)

/-! ## Paths stay -/

theorem Extends.inherits (h : r.Extends s) {id sup : TypeId} (hsup : r.Inherits id sup) :
    s.Inherits id sup := by
  obtain ⟨e, he, hkind⟩ := Option.bind_eq_some_iff.mp hsup
  obtain ⟨f, hf, hef⟩ := h.get? he
  obtain ⟨element, hfkind⟩ := hef.kind
  exact Option.bind_eq_some_iff.mpr
    ⟨f, hf, by rw [hfkind, TypeKind.superclass?_withElement, hkind]⟩

theorem Extends.template? (h : r.Extends s) {id t : TypeId} (ht : r.template? id = some t) :
    s.template? id = some t := by
  obtain ⟨e, he, hkind⟩ := Option.bind_eq_some_iff.mp ht
  obtain ⟨f, hf, hef⟩ := h.get? he
  obtain ⟨element, hfkind⟩ := hef.kind
  exact Option.bind_eq_some_iff.mpr ⟨f, hf, by rw [hfkind, TypeKind.template?_withElement, hkind]⟩

theorem includes_iff {id m : TypeId} :
    r.Includes id m ↔ ∃ e, r.get? id = some e ∧ m ∈ e.includes := by
  unfold Includes includesOf
  cases r.get? id <;> simp

theorem Extends.includes (h : r.Extends s) {id m : TypeId} (hm : r.Includes id m) :
    s.Includes id m := by
  obtain ⟨e, he, hmem⟩ := includes_iff.mp hm
  obtain ⟨f, hf, hef⟩ := h.get? he
  exact includes_iff.mpr ⟨f, hf, hef.includes.subset hmem⟩

theorem Extends.declares (h : r.Extends s) {id : TypeId} {name : String}
    (hname : r.Declares id name) : s.Declares id name := by
  obtain ⟨e, he, sig, hsig, hsname⟩ := hname
  obtain ⟨f, hf, hef⟩ := h.get? he
  exact ⟨f, hf, sig, hef.methods.subset hsig, hsname⟩

theorem Extends.behind (h : r.Extends s) {id b : TypeId} (hb : r.Behind id b) : s.Behind id b := by
  obtain ⟨c, hpath, hc⟩ := hb
  refine ⟨c, Relation.ReflTransGen.mono (fun _ _ => h.inherits) _ _ hpath, ?_⟩
  rcases hc with rfl | ht
  · exact .inl rfl
  · exact .inr (h.template? ht)

theorem Extends.includesModule (h : r.Extends s) (hr : WellFormed r) (hs : WellFormed s)
    {id m : TypeId} (hm : r.includesModule id m = true) : s.includesModule id m = true := by
  obtain ⟨b, hb, hpath⟩ := hr.includesModule_iff.mp hm
  exact hs.includesModule_iff.mpr
    ⟨b, h.behind hb, Relation.TransGen.mono (fun _ _ => h.includes) _ _ hpath⟩

/-- A method that is found on a type is still found when the registry has grown, though another one
    may then come before it. -/
theorem Extends.lookupMethod?_isSome (h : r.Extends s) (hr : WellFormed r) (hs : WellFormed s)
    {id : TypeId} {name : String} (hfound : (r.lookupMethod? id name).isSome = true) :
    (s.lookupMethod? id name).isSome = true := by
  rw [hr.lookupMethod?_eq, List.findSome?_isSome_iff] at hfound
  rw [hs.lookupMethod?_eq, List.findSome?_isSome_iff]
  obtain ⟨b, hb, hname⟩ := hfound
  have hlisted : b ∈ s.linearization id := by
    rcases hr.mem_linearization_iff.mp hb with hb | hb
    · exact hs.mem_linearization_iff.mpr (.inl (h.behind hb))
    · exact hs.mem_linearization_iff.mpr (.inr (h.includesModule hr hs hb))
  exact ⟨b, hlisted, declared?_isSome_iff.mpr (h.declares (declared?_isSome_iff.mp hname))⟩

/-! ## Top level -/

theorem WellFormed.lookupGlobal?_eq (hr : WellFormed r) (name : String) :
    r.lookupGlobal? name = r.globalLinearization.findSome? (r.declaredBy? name) := by
  have hstack : ∀ m ∈ r.main.includes, m.index < r.size := by
    intro m hm
    obtain ⟨-, f, hf, -⟩ := (@WellFormed.sound r hr .main r.main rfl).includes m hm
    exact index_lt_of_get? hf
  have hsearch := @searchModules_eq_walk _ r hr.includesRegistered (r.declared? name) [] _ hstack
  have hcomp : r.declaredBy? name ∘ Owner.type = r.declared? name := rfl
  rw [unentered_nil] at hsearch
  rw [lookupGlobal?, hsearch, globalLinearization, List.findSome?_cons, List.findSome?_map, hcomp,
    declaredBy?, owner?, Option.bind_some]
  cases r.main.method? name with
  | some sig => rfl
  | none => cases (r.walk [] r.main.includes).findSome? (r.declared? name) <;> rfl

/-- Main and the modules that includes lead to from there are where a global name is looked for. -/
theorem type_mem_globalLinearization_iff {m : TypeId} :
    .type m ∈ r.globalLinearization ↔
      ∃ a ∈ r.main.includes, Relation.ReflTransGen r.Includes a m := by
  rw [← mem_walk_iff]
  simp [globalLinearization]

theorem Extends.declaredBy?_isSome (h : r.Extends s) {name : String} {owner : Owner}
    (hname : (r.declaredBy? name owner).isSome = true) :
    (s.declaredBy? name owner).isSome = true := by
  rw [declaredBy?, Option.isSome_map] at hname ⊢
  obtain ⟨sig, hsig⟩ := Option.isSome_iff_exists.mp hname
  obtain ⟨e, he, hmethod⟩ := Option.bind_eq_some_iff.mp hsig
  obtain ⟨f, hf, hef⟩ := h.owner he
  have hsname : (sig.name == name) = true := by simpa using List.find?_some hmethod
  rw [hf, Option.bind_some, Entry.method?, List.find?_isSome]
  exact ⟨sig, hef.methods.subset (List.mem_of_find?_eq_some hmethod), hsname⟩

theorem Extends.lookupGlobal?_isSome (h : r.Extends s) (hr : WellFormed r) (hs : WellFormed s)
    {name : String} (hfound : (r.lookupGlobal? name).isSome = true) :
    (s.lookupGlobal? name).isSome = true := by
  rw [hr.lookupGlobal?_eq, List.findSome?_isSome_iff] at hfound
  rw [hs.lookupGlobal?_eq, List.findSome?_isSome_iff]
  obtain ⟨o, ho, hname⟩ := hfound
  refine ⟨o, ?_, h.declaredBy?_isSome hname⟩
  cases o with
  | main => exact List.mem_cons_self
  | type m =>
    obtain ⟨a, ha, hpath⟩ := type_mem_globalLinearization_iff.mp ho
    obtain ⟨f, hf, hmain⟩ := h.owner (o := .main) rfl
    cases hf
    exact type_mem_globalLinearization_iff.mpr
      ⟨a, hmain.includes.subset ha, Relation.ReflTransGen.mono (fun _ _ => h.includes) _ _ hpath⟩

/-! ## The same order -/

/-- Two registries in which names are looked for in the same places, in the same order. -/
structure SameOrder (r s : Registry) : Prop where
  size : s.size = r.size
  superclass? : ∀ id, s.superclass? id = r.superclass? id
  template? : ∀ id, s.template? id = r.template? id
  includesOf : ∀ id, s.includesOf id = r.includesOf id
  main : s.main.includes = r.main.includes

namespace SameOrder

theorem superclassChain (h : SameOrder r s) (id : TypeId) (fuel : Nat) :
    s.superclassChain id fuel = r.superclassChain id fuel := by
  induction fuel generalizing id with
  | zero => rfl
  | succ fuel ih =>
    rw [Registry.superclassChain, Registry.superclassChain, h.superclass?]
    cases r.superclass? id with
    | none => rfl
    | some next => exact congrArg (next :: ·) (ih next)

theorem ancestors (h : SameOrder r s) (id : TypeId) : s.ancestors id = r.ancestors id := by
  rw [Registry.ancestors, Registry.ancestors, h.size, h.superclassChain]

theorem walk (h : SameOrder r s) (entered ms : List TypeId) :
    s.walk entered ms = r.walk entered ms := by
  fun_induction Registry.walk r entered ms with
  | case1 => rw [walk_nil]
  | case2 entered m ms hm ih => rw [walk_of_mem hm, ih]
  | case3 entered m ms hm inner ihInner ih =>
    rw [walk_of_not_mem hm, h.includesOf, ihInner, ih]

theorem mixins (h : SameOrder r s) (id : TypeId) : s.mixins id = r.mixins id := by
  have hfun : s.includesOf = r.includesOf := funext h.includesOf
  rw [Registry.mixins, Registry.mixins, hfun, h.template?]

theorem linearizeFrom (h : SameOrder r s) (listed classes : List TypeId) :
    s.linearizeFrom listed classes = r.linearizeFrom listed classes := by
  induction classes generalizing listed with
  | nil => rfl
  | cons c classes ih =>
    simp only [Registry.linearizeFrom, h.template?, h.walk, h.mixins, ih]

theorem linearization (h : SameOrder r s) (id : TypeId) :
    s.linearization id = r.linearization id := by
  rw [Registry.linearization, Registry.linearization, h.ancestors, h.linearizeFrom]

theorem globalLinearization (h : SameOrder r s) :
    s.globalLinearization = r.globalLinearization := by
  rw [Registry.globalLinearization, Registry.globalLinearization, h.main, h.walk]

/-- Changing an entry in what is not looked at for the order. -/
theorem modifyOwner (r : Registry) (owner : Owner) {f : Entry → Entry} [Entry.KeepsName f]
    (hkind : ∀ e, (f e).kind = e.kind) (hincludes : ∀ e, (f e).includes = e.includes) :
    SameOrder r (r.modifyOwner owner f) := by
  have hget (id : TypeId) : (r.modifyOwner owner f).get? id =
      if .type id = owner then (r.get? id).map f else r.get? id :=
    owner?_modifyOwner r owner f (.type id)
  refine ⟨size_modifyOwner r owner f, fun id => ?_, fun id => ?_, fun id => ?_, ?_⟩
  · rw [Registry.superclass?, Registry.superclass?, hget]
    split
    · cases r.get? id <;> simp [hkind]
    · rfl
  · rw [Registry.template?, Registry.template?, hget]
    split
    · cases r.get? id <;> simp [hkind]
    · rfl
  · rw [Registry.includesOf, Registry.includesOf, hget]
    split
    · cases r.get? id <;> simp [hincludes]
    · rfl
  · cases owner with
    | main => exact hincludes r.main
    | type id => rfl

end SameOrder

/-! ## A new method -/

theorem declaredBy?_define {owner : Owner} {sig : Signature} {e : Entry}
    (ho : r.owner? owner = some e) (hfree : e.method? sig.name = none) (name : String) (o : Owner) :
    (r.modifyOwner owner (·.define sig)).declaredBy? name o =
      if o = owner ∧ sig.name = name then some ⟨owner, sig⟩ else r.declaredBy? name o := by
  rw [declaredBy?, declaredBy?, owner?_modifyOwner]
  by_cases h : o = owner
  · subst h
    rw [if_pos rfl, ho, Option.map_some, Option.bind_some, Option.bind_some,
      Entry.method?_define hfree]
    by_cases hname : sig.name = name <;> simp [hname]
  · rw [if_neg h, if_neg fun hand => h hand.1]

/-- Changing one answer changes what is found first to the new answer or not at all. -/
theorem findSome?_of_eq_or {α β : Type} {f g : α → Option β} {b : β}
    (h : ∀ a, g a = f a ∨ g a = some b) (l : List α) :
    l.findSome? g = l.findSome? f ∨ l.findSome? g = some b := by
  induction l with
  | nil => exact .inl rfl
  | cons a l ih =>
    rw [List.findSome?_cons, List.findSome?_cons]
    rcases h a with ha | ha
    · rw [ha]
      cases f a with
      | none => exact ih
      | some c => exact .inl rfl
    · rw [ha]
      exact .inr rfl

/-- A search through owners after a method was added: another name is found where it was, and the
    name of the method is found where it was or on its owner. -/
theorem findSome?_define {owner : Owner} {sig : Signature} {e : Entry}
    (ho : r.owner? owner = some e) (hfree : e.method? sig.name = none) (owners : List Owner)
    (name : String) :
    let s := r.modifyOwner owner (·.define sig)
    (name ≠ sig.name →
      owners.findSome? (s.declaredBy? name) = owners.findSome? (r.declaredBy? name)) ∧
    (owners.findSome? (s.declaredBy? sig.name) = owners.findSome? (r.declaredBy? sig.name) ∨
      owners.findSome? (s.declaredBy? sig.name) = some ⟨owner, sig⟩) := by
  intro s
  constructor
  · intro hname
    have hsame : s.declaredBy? name = r.declaredBy? name := by
      funext o
      rw [declaredBy?_define ho hfree, if_neg fun h => hname h.2.symm]
    rw [hsame]
  · refine findSome?_of_eq_or (fun o => ?_) owners
    rw [declaredBy?_define ho hfree]
    split
    · exact .inr rfl
    · exact .inl rfl

theorem WellFormed.lookupMethod?_eq_declaredBy? (hr : WellFormed r) (id : TypeId) (name : String) :
    r.lookupMethod? id name =
      ((r.linearization id).map Owner.type).findSome? (r.declaredBy? name) := by
  rw [hr.lookupMethod?_eq, List.findSome?_map]
  rfl

/-- After any run, what is found on a type or at top level is still found after whatever comes
    later, though it may be found somewhere else. Adding a method changes what its own name means
    to the new method or not at all, and it changes no other name. -/
theorem lookup_stable {r : Registry} (h : Reachable r) :
    (∀ s, Later r s → ∀ name,
      (∀ id, (r.lookupMethod? id name).isSome = true → (s.lookupMethod? id name).isSome = true) ∧
      ((r.lookupGlobal? name).isSome = true → (s.lookupGlobal? name).isSome = true)) ∧
    ∀ owner sig s, r.defineMethod owner sig = .ok s →
      (∀ name, name ≠ sig.name →
        (∀ id, s.lookupMethod? id name = r.lookupMethod? id name) ∧
        s.lookupGlobal? name = r.lookupGlobal? name) ∧
      (∀ id, s.lookupMethod? id sig.name = r.lookupMethod? id sig.name ∨
        s.lookupMethod? id sig.name = some ⟨owner, sig⟩) ∧
      (s.lookupGlobal? sig.name = r.lookupGlobal? sig.name ∨
        s.lookupGlobal? sig.name = some ⟨owner, sig⟩) := by
  have hr := h.wellFormed
  refine ⟨fun s hlater name => ?_, fun owner sig s hdefine => ?_⟩
  · have hextends := hlater.of_steadfast steadfast_extends
    have hs := hlater.of_steadfast steadfast_wellFormed hr
    exact ⟨fun id => hextends.lookupMethod?_isSome hr hs, hextends.lookupGlobal?_isSome hr hs⟩
  · have hs := hr.change (change_defineMethod hdefine)
    obtain ⟨e, ho, hfree, rfl⟩ := defineMethod_eq_ok hdefine
    have horder : SameOrder r (r.modifyOwner owner (·.define sig)) :=
      .modifyOwner r owner (fun _ => rfl) (fun _ => rfl)
    -- Both lookups go through owners in an order that the new method has no part in.
    simp only [hs.lookupMethod?_eq_declaredBy?, hr.lookupMethod?_eq_declaredBy?,
      hs.lookupGlobal?_eq, hr.lookupGlobal?_eq, horder.linearization, horder.globalLinearization]
    have hsearch := findSome?_define ho hfree
    refine ⟨fun name hname => ⟨fun id => ?_, ?_⟩, fun id => ?_, ?_⟩
    · exact (hsearch _ name).1 hname
    · exact (hsearch _ name).1 hname
    · exact (hsearch _ sig.name).2
    · exact (hsearch _ sig.name).2

/-- Addition of integers is still found when `ARGV` holds integers and modules that include each
    other have been declared, and another method of integers does not change what it is. -/
theorem lookup_stable_addition :
    let r := initial .host64
    let s := ((r.perform (.rebindElement Builtin.argv.typeId Builtin.int.typeId)).collect
      mutualIncludes).2.registry
    Reachable r ∧ (s.lookupMethod? Builtin.int.typeId "+").isSome = true ∧
      ∃ t, r.defineMethod (.type Builtin.int.typeId) ⟨"abs", [], none⟩ = .ok t ∧
        t.lookupMethod? Builtin.int.typeId "+" = r.lookupMethod? Builtin.int.typeId "+" := by
  intro r s
  have hreach : Reachable r := .initial (ofTarget_eq_ok_iff.mpr ⟨by decide, rfl⟩)
  have hlater : Later r s :=
    .tail (.single (.operation (.rebindElement Builtin.argv.typeId Builtin.int.typeId)))
      (.program mutualIncludes)
  have hfound : (r.lookupMethod? Builtin.int.typeId "+").isSome = true := by decide +kernel
  have hdefine : r.defineMethod (.type Builtin.int.typeId) ⟨"abs", [], none⟩ =
      .ok (r.modifyOwner (.type Builtin.int.typeId) (·.define ⟨"abs", [], none⟩)) := rfl
  obtain ⟨hstays, hdefines⟩ := lookup_stable hreach
  refine ⟨hreach, (hstays s hlater "+").1 _ hfound, _, hdefine, ?_⟩
  exact ((hdefines _ _ _ hdefine).1 "+" (by decide)).1 _

end Registry

end DeclLang
