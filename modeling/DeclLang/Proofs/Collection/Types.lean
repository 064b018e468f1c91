import DeclLang.Proofs.Collection.Instances

/-!
# Types: what the first pass over a program adds

A header either re-opens the type of its name or adds a type that has no members yet
(`HeaderStep`). In whatever order the classes could be declared, every header fits the type of its
name afterwards, and every new type is one that a header declares (`Declared`).
-/

namespace DeclLang

namespace TypeHeader

/-- Classes and modules can be re-opened; libraries and primitives cannot. -/
def isOpen : TypeHeader → Bool
  | .ofClass _ | .ofModule _ => true
  | .ofLib .. | .ofPrimitive .. => false

/-- The kind of the type that a header declares, its names read in `r`. -/
def kind? (r : Registry) : TypeHeader → Option TypeKind
  | .ofClass ⟨_, none⟩ => some (.object (some Builtin.object.typeId))
  | .ofClass ⟨_, some superclass⟩ =>
    (r.lookup? superclass.value).map fun id => .object (some id)
  | .ofModule _ => some .module
  | .ofLib _ libname => some (.lib (libname.map (·.value)))
  | .ofPrimitive _ superclass repr size =>
    (r.lookup? superclass.value).bind fun id =>
      (Representation.ofSpelling? repr.value).map fun tag => .primitive id tag size.value

/-- Whether a type of the given kind can be what a header declares or re-opens: a class may re-open
    everything that takes part in inheritance, if it states no other superclass. -/
def Fits (r : Registry) (kind : TypeKind) : TypeHeader → Prop
  | .ofClass c => kind.isClassLike = true ∧ ∀ superclass ∈ c.superclass,
    ∃ id, r.lookup? superclass.value = some id ∧ kind.superclass? = some id
  | h => h.kind? r = some kind

variable {r s : Registry} {h : TypeHeader} {kind : TypeKind}

-- What a header declares also fits it.
theorem fits_of_kind? (hkind : h.kind? r = some kind) : h.Fits r kind := by
  cases h with
  | ofClass c =>
    rcases c with ⟨name, superclass⟩
    cases superclass with
    | none =>
      rcases Option.some.inj hkind with rfl
      exact ⟨rfl, by simp⟩
    | some superclass =>
      rcases Option.map_eq_some_iff.mp hkind with ⟨id, hid, rfl⟩
      refine ⟨rfl, ?_⟩
      rintro _ ⟨⟩
      exact ⟨id, hid, rfl⟩
  | ofModule name => exact hkind
  | ofLib name libname => exact hkind
  | ofPrimitive name superclass repr size => exact hkind

theorem kind?_mono (hrs : r.Retains s) (hkind : h.kind? r = some kind) :
    h.kind? s = some kind := by
  cases h with
  | ofClass c =>
    rcases c with ⟨name, superclass⟩
    cases superclass with
    | none => exact hkind
    | some superclass =>
      rcases Option.map_eq_some_iff.mp hkind with ⟨id, hid, rfl⟩
      rw [kind?, hrs.lookup? hid]
      rfl
  | ofModule name => exact hkind
  | ofLib name libname => exact hkind
  | ofPrimitive name superclass repr size =>
    rcases Option.bind_eq_some_iff.mp hkind with ⟨id, hid, hrepr⟩
    rw [kind?, hrs.lookup? hid]
    exact hrepr

theorem Fits.mono (hrs : r.Retains s) (hfits : h.Fits r kind) : h.Fits s kind := by
  cases h with
  | ofClass c =>
    refine ⟨hfits.1, fun superclass hsuper => ?_⟩
    rcases hfits.2 superclass hsuper with ⟨id, hid, hkind⟩
    exact ⟨id, hrs.lookup? hid, hkind⟩
  | ofModule name => exact hfits
  | ofLib name libname => exact hfits
  | ofPrimitive name superclass repr size => exact kind?_mono hrs hfits

/-- Arrays are not declared. -/
theorem isArray_of_kind? (hkind : h.kind? r = some kind) : kind.isArray = false := by
  cases h with
  | ofClass c =>
    rcases c with ⟨name, superclass⟩
    cases superclass with
    | none =>
      rcases Option.some.inj hkind with rfl
      rfl
    | some superclass =>
      rcases Option.map_eq_some_iff.mp hkind with ⟨id, -, rfl⟩
      rfl
  | ofModule name =>
    rcases Option.some.inj hkind with rfl
    rfl
  | ofLib name libname =>
    rcases Option.some.inj hkind with rfl
    rfl
  | ofPrimitive name superclass repr size =>
    rcases Option.bind_eq_some_iff.mp hkind with ⟨id, -, hrepr⟩
    rcases Option.map_eq_some_iff.mp hrepr with ⟨tag, -, rfl⟩
    rfl

end TypeHeader

/-! ## One header -/

/-- What a header that is not refused does. -/
inductive HeaderStep (h : TypeHeader) (c : Collection) : Collection → Prop where
  | reopened {id : TypeId} {e : Entry} :
      h.isOpen = true → c.registry.lookup? h.name = some id → c.registry.get? id = some e →
      h.Fits c.registry e.kind → HeaderStep h c c
  | declared {kind : TypeKind} :
      c.registry.lookup? h.name = none → h.kind? c.registry = some kind →
      HeaderStep h c ⟨(c.registry.push (.bare h.name kind)).2, c.declared + 1⟩

namespace Collect

open Registry

variable {c c' : Collection}

theorem existing?_eq_ok {name : String} {found : Option Entry} :
    outcome (existing? name) c = (.ok found, c') ↔
      (c.registry.lookup? name).bind c.registry.get? = found ∧ c = c' := by
  rw [existing?, outcome_bind, outcome_registry]
  exact outcome_pure_eq_ok

theorem declare_eq_ok {blame : DeclarationError → Span}
    {operation : Registry → Except DeclarationError (TypeId × Registry)}
    (h : outcome (declare blame operation) c = (.ok (), c')) :
    ∃ id s, operation c.registry = .ok (id, s) ∧ c' = ⟨s, c.declared + 1⟩ := by
  rcases outcome_bind_eq_ok.mp h with ⟨id, mid, happly, h₁⟩
  rcases apply_eq_ok.mp happly with ⟨hoperation, hdeclared⟩
  simp only [outcome_modify, Prod.mk.injEq, true_and] at h₁
  exact ⟨id, mid.registry, hoperation, by rw [← h₁, hdeclared]⟩

/-- A type is declared under a name that is free. -/
theorem headerStep_of_register {h : TypeHeader} {kind : TypeKind} {id : TypeId} {s : Registry}
    (hkind : h.kind? c.registry = some kind)
    (hregister : c.registry.register (.bare h.name kind) = .ok (id, s)) :
    HeaderStep h c ⟨s, c.declared + 1⟩ := by
  rcases register_eq_ok_iff.mp hregister with ⟨hfree, hpush⟩
  have hs : (c.registry.push (.bare h.name kind)).2 = s := congrArg Prod.snd hpush
  rw [← hs]
  exact .declared hfree hkind

/-- The superclass that a class states, if it states one. -/
theorem stated_eq_ok {superclass : Option Ident} {stated : Option TypeId}
    (h : outcome (superclass.mapM resolve) c = (.ok stated, c')) :
    c = c' ∧ (superclass.map fun name => c.registry.lookup? name.value) = stated.map some := by
  cases superclass with
  | none =>
    rcases outcome_pure_eq_ok.mp h with ⟨rfl, rfl⟩
    exact ⟨rfl, rfl⟩
  | some name =>
    rw [Option.mapM_some, map_eq_pure_bind] at h
    rcases outcome_bind_eq_ok.mp h with ⟨id, mid, hresolve, h₁⟩
    rcases resolve_eq_ok.mp hresolve with ⟨hid, rfl⟩
    rcases outcome_pure_eq_ok.mp h₁ with ⟨rfl, rfl⟩
    exact ⟨rfl, by rw [Option.map_some, hid, Option.map_some]⟩

theorem headerStep_declareClass {head : ClassHeader}
    (h : outcome (declareClass head) c = (.ok (), c')) : HeaderStep (.ofClass head) c c' := by
  rcases head with ⟨name, superclass⟩
  rcases outcome_bind_eq_ok.mp h with ⟨stated, mid, hstated, h₁⟩
  rcases stated_eq_ok hstated with ⟨rfl, hsuper⟩
  rcases outcome_bind_eq_ok.mp h₁ with ⟨found, mid', hexisting, h₂⟩
  rcases existing?_eq_ok.mp hexisting with ⟨hfound, rfl⟩
  dsimp only at hsuper
  cases found with
  | none =>
    rcases declare_eq_ok h₂ with ⟨id, s, hdeclare, rfl⟩
    rcases bind_eq_ok.mp hdeclare with ⟨-, -, hregister⟩
    refine headerStep_of_register (h := .ofClass ⟨name, superclass⟩) ?_ hregister
    -- A class that states no superclass inherits from the root.
    cases superclass with
    | none =>
      obtain rfl : stated = none := by simpa using hsuper.symm
      rfl
    | some superclass =>
      rcases Option.map_eq_some_iff.mp hsuper.symm with ⟨sup, rfl, hsup⟩
      have hlookup : c.registry.lookup? superclass.value = some sup := hsup.symm
      rw [TypeHeader.kind?, hlookup]
      rfl
  | some e =>
    -- The class is re-opened: its entry must be class-like and agree with what is stated.
    rcases Option.bind_eq_some_iff.mp hfound with ⟨id, hid, he⟩
    simp only [reopenClass] at h₂
    split at h₂
    · simp [refuseExisting] at h₂
    · rename_i hclass
      split at h₂
      · rename_i hagrees
        rcases outcome_pure_eq_ok.mp h₂ with ⟨-, rfl⟩
        refine .reopened rfl hid he ⟨by simpa using hclass, fun superclass hstates => ?_⟩
        obtain rfl : _ = some superclass := hstates
        rcases Option.map_eq_some_iff.mp hsuper.symm with ⟨sup, rfl, hsup⟩
        exact ⟨sup, hsup.symm, by simpa using hagrees⟩
      · rcases outcome_bind_eq_ok.mp h₂ with ⟨r, mid'', -, h₃⟩
        simp at h₃

theorem headerStep_declareModule {name : Ident}
    (h : outcome (declareModule name) c = (.ok (), c')) : HeaderStep (.ofModule name) c c' := by
  rcases outcome_bind_eq_ok.mp h with ⟨found, mid, hexisting, h₁⟩
  rcases existing?_eq_ok.mp hexisting with ⟨hfound, rfl⟩
  cases found with
  | none =>
    rcases declare_eq_ok h₁ with ⟨id, s, hregister, rfl⟩
    exact headerStep_of_register (h := .ofModule name) rfl hregister
  | some e =>
    rcases Option.bind_eq_some_iff.mp hfound with ⟨id, hid, he⟩
    dsimp only at h₁
    split at h₁
    · rename_i hmodule
      rcases outcome_pure_eq_ok.mp h₁ with ⟨-, rfl⟩
      refine .reopened rfl hid he ?_
      show some TypeKind.module = some e.kind
      cases hkind : e.kind with
      | module => rfl
      | _ => simp [hkind, TypeKind.isModule] at hmodule
    · simp [refuseExisting] at h₁

theorem headerStep_declarePrimitive {name superclass repr : Ident} {size : Located Nat}
    (h : outcome (declarePrimitive name superclass repr size) c = (.ok (), c')) :
    HeaderStep (.ofPrimitive name superclass repr size) c c' := by
  rcases outcome_bind_eq_ok.mp h with ⟨found, mid, hexisting, h₁⟩
  rcases existing?_eq_ok.mp hexisting with ⟨hfound, rfl⟩
  cases found with
  | some e => simp [refuseExisting] at h₁
  | none =>
    rcases outcome_bind_eq_ok.mp h₁ with ⟨sup, mid', hresolve, h₂⟩
    rcases resolve_eq_ok.mp hresolve with ⟨hsup, rfl⟩
    dsimp only at h₂
    split at h₂
    · rename_i tag htag
      rcases declare_eq_ok h₂ with ⟨id, s, hdeclare, rfl⟩
      rcases bind_eq_ok.mp hdeclare with ⟨-, -, hlayout⟩
      rcases bind_eq_ok.mp hlayout with ⟨-, -, hregister⟩
      refine headerStep_of_register (h := .ofPrimitive name superclass repr size) ?_ hregister
      rw [TypeHeader.kind?, hsup, htag]
      rfl
    · simp at h₂

theorem headerStep_of_eq_ok {h : TypeHeader} (hrun : outcome (declareHeader h) c = (.ok (), c')) :
    HeaderStep h c c' := by
  cases h with
  | ofClass head => exact headerStep_declareClass hrun
  | ofModule name => exact headerStep_declareModule hrun
  | ofLib name libname =>
    rcases declare_eq_ok hrun with ⟨id, s, hregister, rfl⟩
    exact headerStep_of_register (h := .ofLib name libname) rfl hregister
  | ofPrimitive name superclass repr size => exact headerStep_declarePrimitive hrun

end Collect

/-! ## All headers -/

/-- The names that cannot be re-opened, one for each library and primitive. -/
def closedNames (hs : List TypeHeader) : List String :=
  (hs.filter fun h => !h.isOpen).map (·.name)

namespace Registry

/-- What a registry has become when `count` types of those that the headers name were declared. -/
structure Declared (r : Registry) (hs : List TypeHeader) (s : Registry) (count : Nat) : Prop where
  regular : Regular s
  retains : r.Retains s
  owner : ∀ {o e}, r.owner? o = some e → s.owner? o = some e
  instances : s.instances = r.instances
  size : s.size = r.size + count
  /-- A new type has no members, and one of the headers declares it. -/
  new : ∀ {id e}, s.get? id = some e → r.get? id = none →
    e = .bare e.name e.kind ∧ ∃ h ∈ hs, h.name = e.name ∧ h.kind? s = some e.kind
  fits : ∀ h ∈ hs, ∃ id e, s.lookup? h.name = some id ∧ s.get? id = some e ∧ h.Fits s e.kind
  closed_nodup : (closedNames hs).Nodup
  closed_free : ∀ n ∈ closedNames hs, r.lookup? n = none

theorem Declared.nil {r : Registry} (hr : Regular r) : Declared r [] r 0 where
  regular := hr
  retains := .refl r
  owner he := he
  instances := rfl
  size := rfl
  new he hid := by
    rw [hid] at he
    cases he
  fits := by simp
  closed_nodup := List.nodup_nil
  closed_free := by simp [closedNames]

/-- The order of the headers does not matter. -/
theorem Declared.perm {r s : Registry} {hs hs' : List TypeHeader} {count : Nat}
    (h : Declared r hs s count) (hperm : hs.Perm hs') : Declared r hs' s count := by
  have hclosed : (closedNames hs).Perm (closedNames hs') := (hperm.filter _).map _
  refine ⟨h.regular, h.retains, h.owner, h.instances, h.size, fun he hid => ?_, fun t ht => ?_, ?_,
    fun n hn => ?_⟩
  · rcases h.new he hid with ⟨hbare, t, ht, hname, hkind⟩
    exact ⟨hbare, t, hperm.mem_iff.mp ht, hname, hkind⟩
  · exact h.fits t (hperm.mem_iff.mpr ht)
  · exact hclosed.nodup_iff.mp h.closed_nodup
  · exact h.closed_free n (hclosed.mem_iff.mpr hn)

theorem Declared.get? {r s : Registry} {hs : List TypeHeader} {count : Nat}
    (h : Declared r hs s count) {id : TypeId} {e : Entry} (he : r.get? id = some e) :
    s.get? id = some e :=
  h.owner (o := .type id) he

/-- What has a name that was free before was not there before. -/
theorem Declared.get?_eq_none {r s : Registry} {hs : List TypeHeader} {count : Nat}
    (h : Declared r hs s count) {n : String} (hfree : r.lookup? n = none) {id : TypeId}
    (hid : s.lookup? n = some id) : r.get? id = none := by
  obtain ⟨e, he, hname⟩ := get?_of_lookup? hid
  cases hold : r.get? id with
  | none => rfl
  | some e' =>
    obtain rfl := Option.some.inj ((h.get? hold).symm.trans he)
    exact absurd hname (lookup?_eq_none_iff.mp hfree e' (Array.mem_of_getElem? hold))

theorem closedNames_concat (hs : List TypeHeader) (h : TypeHeader) :
    closedNames (hs ++ [h]) =
      if h.isOpen = true then closedNames hs else closedNames hs ++ [h.name] := by
  unfold closedNames
  by_cases hopen : h.isOpen = true <;> simp [hopen]

theorem mem_closedNames {hs : List TypeHeader} {n : String} :
    n ∈ closedNames hs ↔ ∃ h ∈ hs, h.isOpen = false ∧ h.name = n := by
  simp [closedNames, and_assoc]

theorem lookup?_eq_none_of_retains {r s : Registry} (h : r.Retains s) {name : String}
    (hs : s.lookup? name = none) : r.lookup? name = none := by
  cases hr : r.lookup? name with
  | none => rfl
  | some id =>
    rw [h.lookup? hr] at hs
    cases hs

section

variable {r s : Registry} {hs : List TypeHeader} {count : Nat} {head : TypeHeader}

/-- A header that re-opens a type adds nothing. -/
theorem Declared.reopen (h : Declared r hs s count) (hopen : head.isOpen = true) {id : TypeId}
    {e : Entry} (hid : s.lookup? head.name = some id) (he : s.get? id = some e)
    (hfits : head.Fits s e.kind) : Declared r (hs ++ [head]) s count where
  regular := h.regular
  retains := h.retains
  owner := h.owner
  instances := h.instances
  size := h.size
  new he hid := by
    rcases h.new he hid with ⟨hbare, t, ht, hname, hkind⟩
    exact ⟨hbare, t, List.mem_append_left _ ht, hname, hkind⟩
  fits t ht := by
    rcases List.mem_append.mp ht with ht | ht
    · exact h.fits t ht
    · rw [List.mem_singleton.mp ht]
      exact ⟨id, e, hid, he, hfits⟩
  closed_nodup := by
    rw [closedNames_concat, if_pos hopen]
    exact h.closed_nodup
  closed_free := by
    rw [closedNames_concat, if_pos hopen]
    exact h.closed_free

/-- A header that declares a type adds that type, whose name was free. -/
theorem Declared.declare (h : Declared r hs s count) {kind : TypeKind}
    (hfree : s.lookup? head.name = none) (hkind : head.kind? s = some kind)
    (hs' : Regular (s.push (.bare head.name kind)).2) :
    Declared r (hs ++ [head]) (s.push (.bare head.name kind)).2 (count + 1) where
  regular := hs'
  retains := h.retains.trans (retains_push hfree)
  owner he := owner?_push_of_some (h.owner he) _
  instances := h.instances
  size := by
    rw [size_push, h.size]
    omega
  new {id e} he hid := by
    cases hold : s.get? id with
    | some e' =>
      have hsame := owner?_push_of_some (o := .type id) hold (.bare head.name kind)
      rw [owner?_type, he, Option.some.injEq] at hsame
      subst hsame
      rcases h.new hold hid with ⟨hbare, t, ht, hname, htkind⟩
      exact ⟨hbare, t, List.mem_append_left _ ht, hname,
        TypeHeader.kind?_mono (retains_push hfree) htkind⟩
    | none =>
      rcases get?_push_new he hold with ⟨-, rfl⟩
      exact ⟨rfl, head, List.mem_append_right _ (List.mem_singleton_self head), rfl,
        TypeHeader.kind?_mono (retains_push hfree) hkind⟩
  fits t ht := by
    have hretains : s.Retains (s.push (.bare head.name kind)).2 := retains_push hfree
    rcases List.mem_append.mp ht with ht | ht
    · rcases h.fits t ht with ⟨id, e, hid, he, hfits⟩
      exact ⟨id, e, hretains.lookup? hid, owner?_push_of_some (o := .type id) he _,
        hfits.mono hretains⟩
    · rcases List.mem_singleton.mp ht with rfl
      refine ⟨⟨s.size⟩, .bare t.name kind, ?_, get?_push_self s _,
        (TypeHeader.fits_of_kind? hkind).mono hretains⟩
      exact hs'.lookup?_eq_some_iff.mpr ⟨_, get?_push_self s _, rfl⟩
  closed_nodup := by
    rw [closedNames_concat]
    split
    · exact h.closed_nodup
    · rw [List.nodup_append]
      refine ⟨h.closed_nodup, by simp, fun n hn n' hn' heq => ?_⟩
      -- A name that was given before is not free.
      rcases mem_closedNames.mp hn with ⟨t, ht, -, hname⟩
      rcases h.fits t ht with ⟨id, e, hid, -⟩
      rw [hname, heq, List.mem_singleton.mp hn', hfree] at hid
      cases hid
  closed_free n hn := by
    rw [closedNames_concat] at hn
    split at hn
    · exact h.closed_free n hn
    · rcases List.mem_append.mp hn with hn | hn
      · exact h.closed_free n hn
      · rw [List.mem_singleton.mp hn]
        exact lookup?_eq_none_of_retains h.retains hfree

end

end Registry

namespace Collect

open Registry

variable {c c' : Collection}

theorem SteadfastOn.keeps_declareHeader {N : String → Prop} {R : Registry → Registry → Prop}
    (hR : SteadfastOn N R) (h : TypeHeader) (hN : N h.name) : Keeps R (declareHeader h) := by
  cases h with
  | ofClass head => exact hR.keeps_declareClass head hN
  | ofModule name => exact hR.keeps_declareModule name hN
  | ofLib name libname => exact hR.keeps_declareLib name libname hN
  | ofPrimitive name superclass repr size => exact hR.keeps_declarePrimitive _ _ _ _ hN

/-- Types that are declared one after the other; the count says how many are new. -/
theorem declared_headers {hs : List TypeHeader} (hr : Regular c.registry)
    (h : outcome (hs.forM declareHeader) c = (.ok (), c')) :
    ∃ count, Declared c.registry hs c'.registry count ∧ c'.declared = c.declared + count := by
  -- The invariant of the first pass, for the headers that were done so far.
  refine forM_induction (motive := fun done mid => ∃ count,
    Declared c.registry done mid.registry count ∧ mid.declared = c.declared + count)
    ⟨0, .nil hr, rfl⟩ ?_ h
  rintro before head mid mid' - ⟨count, hmid, hcount⟩ hstep
  have hmid' :=
    regular_of_keeps (steadfast_regular.on.keeps_declareHeader head trivial) hmid.regular hstep
  cases headerStep_of_eq_ok hstep with
  | reopened hopen hid he hfits => exact ⟨count, hmid.reopen hopen hid he hfits, hcount⟩
  | declared hfree hkind =>
    refine ⟨count + 1, hmid.declare hfree hkind hmid', ?_⟩
    show mid.declared + 1 = c.declared + (count + 1)
    omega

theorem declared_types {p : Program} (hr : Regular c.registry)
    (h : outcome (declareTypes p) c = (.ok (), c')) :
    ∃ count, Declared c.registry p.headers c'.registry count ∧
      c'.declared = c.declared + count := by
  rcases declareTypes_eq_ok h with ⟨hs, hperm, hrun⟩
  rcases declared_headers hr hrun with ⟨count, hdeclared, hcount⟩
  exact ⟨count, hdeclared.perm hperm, hcount⟩

end Collect

end DeclLang
