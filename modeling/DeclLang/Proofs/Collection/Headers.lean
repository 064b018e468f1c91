import DeclLang.Proofs.Collection.Nominal
import DeclLang.Proofs.Collection.Types

/-!
# Headers: when a type can be declared

A header says what kind its type is of, or what a type of another declaration has to be like
(`TypeHeader.Suits`). If all types that are there are as they are in some later registry, which the
header suits, then the header is not refused, unless it is too early for its superclass
(`declareHeader_succeeds`).
-/

namespace DeclLang

/-! ## Headers by name -/

namespace TypeHeader

/-- The kind of a type that is declared by a header, if it states a known representation. -/
def nominalKind : TypeHeader → Option NominalKind
  | .ofClass c => some (.object (some (c.superclass.elim "Object" (·.value))))
  | .ofModule _ => some .module
  | .ofLib _ libname => some (.lib (libname.map (·.value)))
  | .ofPrimitive _ superclass repr size =>
    (Representation.ofSpelling? repr.value).map fun tag =>
      .primitive superclass.value tag size.value

/-- Whether a type can be what a header declares or re-opens. -/
def Suits (kind : NominalKind) : TypeHeader → Prop
  | .ofClass c => kind.isClassLike = true ∧
    ∀ superclass ∈ c.superclass, kind.superclass? = some superclass.value
  | h => h.nominalKind = some kind

/-- The superclass that has to be there before a header. -/
def superclass? : TypeHeader → Option String
  | .ofClass c => c.superclass.map (·.value)
  | .ofPrimitive _ superclass _ _ => some superclass.value
  | .ofModule _ | .ofLib .. => none

theorem suits_nominalKind {h : TypeHeader} {kind : NominalKind}
    (hkind : h.nominalKind = some kind) : h.Suits kind := by
  cases h with
  | ofClass c =>
    obtain rfl := Option.some.inj hkind
    refine ⟨rfl, ?_⟩
    intro superclass hsuper
    rw [show c.superclass = some superclass from hsuper]
    rfl
  | ofModule name => exact hkind
  | ofLib name libname => exact hkind
  | ofPrimitive name superclass repr size => exact hkind

end TypeHeader

namespace Registry

variable {r s : Registry}

/-- The kind of the type with a name, by names. -/
def kindOf? (r : Registry) (n : String) : Option NominalKind :=
  (r.nominal.types n).map (·.kind)

theorem isSome_kindOf?_iff {n : String} :
    (r.kindOf? n).isSome = true ↔ (r.lookup? n).isSome = true := by
  rw [kindOf?, Option.isSome_map, isSome_types_iff]

theorem kindOf?_eq_none_iff {n : String} : r.kindOf? n = none ↔ r.lookup? n = none := by
  rw [← Option.not_isSome_iff_eq_none, ← Option.not_isSome_iff_eq_none, isSome_kindOf?_iff]

theorem kindOf?_of_lookup? {n : String} {id : TypeId} {e : Entry} (hid : r.lookup? n = some id)
    (he : r.get? id = some e) : r.kindOf? n = some (e.kind.nominal r.nameOf) := by
  rw [kindOf?, types_of_lookup? hid he]
  rfl

theorem kindOf?_eq_some {n : String} {kind : NominalKind} (h : r.kindOf? n = some kind) :
    ∃ id e, r.lookup? n = some id ∧ r.get? id = some e ∧ e.kind.nominal r.nameOf = kind := by
  obtain ⟨x, hx, rfl⟩ := Option.map_eq_some_iff.mp h
  obtain ⟨e, he, rfl⟩ := Option.map_eq_some_iff.mp hx
  obtain ⟨id, hid, he⟩ := Option.bind_eq_some_iff.mp he
  exact ⟨id, e, hid, he, rfl⟩

/-- Types keep their kinds. -/
theorem Settled.kindOf?_retained (hr : Settled r) (hrs : r.Retains s) {n : String}
    {kind : NominalKind} (h : r.kindOf? n = some kind) : s.kindOf? n = some kind := by
  obtain ⟨id, e, hid, he, rfl⟩ := kindOf?_eq_some h
  obtain ⟨f, hf, -, hkind⟩ := hrs.get? he
  rw [kindOf?_of_lookup? (hrs.lookup? hid) hf, hkind]
  refine congrArg some (TypeKind.nominal_congr fun i hi => hrs.nameOf ?_)
  exact hr.toClosed.get? he (List.mem_append_left _ hi)

theorem Consed.nameOf_object (h : Consed r) : r.nameOf Builtin.object.typeId = "Object" := by
  obtain ⟨e, he, hname, -⟩ := h.start.builtin .object
  rw [nameOf_of_get? he, hname]
  rfl

theorem Consed.kindOf?_object (h : Consed r) : r.kindOf? "Object" = some (.object none) := by
  obtain ⟨e, he, hname, hkind⟩ := h.start.builtin .object
  have hid : r.lookup? "Object" = some Builtin.object.typeId :=
    h.lookup?_eq_some_iff.mpr ⟨e, he, hname⟩
  rw [kindOf?_of_lookup? hid he, hkind]
  rfl

/-- The kind that a header declares has the names that it states. -/
theorem Consed.nominal_of_kind? (hr : Consed r) {h : TypeHeader} {kind : TypeKind}
    (hkind : h.kind? r = some kind) :
    h.nominalKind = some (kind.nominal r.nameOf) := by
  cases h with
  | ofClass c =>
    obtain ⟨name, superclass⟩ := c
    cases superclass with
    | none =>
      obtain rfl := Option.some.inj hkind
      simp [TypeHeader.nominalKind, TypeKind.nominal, hr.nameOf_object]
    | some superclass =>
      obtain ⟨id, hid, rfl⟩ := Option.map_eq_some_iff.mp hkind
      simp [TypeHeader.nominalKind, TypeKind.nominal, nameOf_of_lookup? hid]
  | ofModule name =>
    obtain rfl := Option.some.inj hkind
    rfl
  | ofLib name libname =>
    obtain rfl := Option.some.inj hkind
    rfl
  | ofPrimitive name superclass repr size =>
    obtain ⟨id, hid, hrepr⟩ := Option.bind_eq_some_iff.mp hkind
    obtain ⟨tag, htag, rfl⟩ := Option.map_eq_some_iff.mp hrepr
    simp [TypeHeader.nominalKind, TypeKind.nominal, htag, nameOf_of_lookup? hid]

theorem Consed.suits_of_fits (hr : Consed r) {h : TypeHeader} {kind : TypeKind}
    (hfits : h.Fits r kind) : h.Suits (kind.nominal r.nameOf) := by
  cases h with
  | ofClass c =>
    refine ⟨by rw [TypeKind.isClassLike_nominal]; exact hfits.1, fun superclass hsuper => ?_⟩
    obtain ⟨id, hid, hkind⟩ := hfits.2 superclass hsuper
    rw [TypeKind.superclass?_nominal, hkind, Option.map_some, nameOf_of_lookup? hid]
  | ofModule name => exact hr.nominal_of_kind? (h := .ofModule name) hfits
  | ofLib name libname => exact hr.nominal_of_kind? (h := .ofLib name libname) hfits
  | ofPrimitive name superclass repr size =>
    exact hr.nominal_of_kind? (h := .ofPrimitive name superclass repr size) hfits

/-- The superclass of a type is there, takes part in inheritance and was declared before it. -/
theorem Settled.superclass (hr : Settled r) {id : TypeId} {e : Entry} {n : String}
    (he : r.get? id = some e) (hn : (e.kind.nominal r.nameOf).superclass? = some n) :
    ∃ sup f, r.lookup? n = some sup ∧ r.get? sup = some f ∧ f.kind.isClassLike = true ∧
      sup.index < id.index := by
  rw [TypeKind.superclass?_nominal] at hn
  obtain ⟨sup, hsup, hname⟩ := Option.map_eq_some_iff.mp hn
  obtain ⟨f, hf, hfclass, hlt⟩ := hr.toWellFormed.superclass he hsup
  refine ⟨sup, f, ?_, hf, hfclass, hlt⟩
  rw [← hname]
  exact hr.toWellFormed.lookup?_eq_some_iff.mpr ⟨f, hf, (nameOf_of_get? hf).symm⟩

/-- Whatever is there in the one is of the same kind in the other. -/
def Below (w t : Registry) : Prop :=
  ∀ n kind, w.kindOf? n = some kind → t.kindOf? n = some kind

variable {w t : Registry}

theorem Below.lookup? (h : Below w t) {n : String} (hn : (w.lookup? n).isSome = true) :
    (t.lookup? n).isSome = true := by
  rw [← isSome_kindOf?_iff] at hn ⊢
  obtain ⟨kind, hkind⟩ := Option.isSome_iff_exists.mp hn
  exact Option.isSome_of_eq_some (h n kind hkind)

theorem Below.kindOf?_eq_none (h : Below w t) {n : String} (hn : t.kindOf? n = none) :
    w.kindOf? n = none := by
  rw [Option.eq_none_iff_forall_ne_some]
  intro kind hkind
  rw [h n kind hkind] at hn
  cases hn

/-- An entry is of the kind that its name has in the other registry. -/
theorem Below.kind_eq (h : Below w t) {n : String} {kind : NominalKind} {id : TypeId} {e : Entry}
    (hid : w.lookup? n = some id) (he : w.get? id = some e) (hkind : t.kindOf? n = some kind) :
    e.kind.nominal w.nameOf = kind := by
  have hsame := h n _ (kindOf?_of_lookup? hid he)
  rw [hkind, Option.some.injEq] at hsame
  exact hsame.symm

/-- The superclass of a type can be inherited from as soon as it is there. -/
theorem Below.requireClass (h : Below w t) (ht : Settled t) {n superclass : String}
    {kind : NominalKind} {sup : TypeId} (hkind : t.kindOf? n = some kind)
    (hsuper : kind.superclass? = some superclass) (hsup : w.lookup? superclass = some sup) :
    w.requireClass sup = .ok () := by
  obtain ⟨id, e, -, he, rfl⟩ := kindOf?_eq_some hkind
  obtain ⟨sup', f, hsup', hf, hclass, -⟩ := ht.superclass he hsuper
  obtain ⟨g, hg, -⟩ := get?_of_lookup? hsup
  have hsame := h.kind_eq hsup hg (kindOf?_of_lookup? hsup' hf)
  refine requireClass_eq_ok.mpr ⟨g, hg, ?_⟩
  rw [← TypeKind.isClassLike_nominal (f := w.nameOf), hsame, TypeKind.isClassLike_nominal]
  exact hclass

end Registry

/-! ## A header is not refused -/

namespace Collect

open Registry

variable {c : Collection} {t : Registry} {kind : NominalKind}

theorem declare_of_ok {blame : DeclarationError → Span} {id : TypeId} {s : Registry}
    {operation : Registry → Except DeclarationError (TypeId × Registry)}
    (h : operation c.registry = .ok (id, s)) :
    outcome (declare blame operation) c = (.ok (), ⟨s, c.declared + 1⟩) :=
  outcome_bind_eq_ok.mpr ⟨id, ⟨s, c.declared⟩, apply_eq_ok.mpr ⟨h, rfl⟩, rfl⟩

theorem register_of_free {r : Registry} {e : Entry} (h : r.lookup? e.name = none) :
    r.register e = .ok (r.push e) :=
  register_eq_ok_iff.mpr ⟨h, rfl⟩

/-- The superclass that a class states is found once the class is ready. -/
theorem exists_stated {name : Ident} {superclass : Option Ident}
    (hready : ClassHeader.isReady ⟨name, superclass⟩ c.registry = true) :
    ∃ stated : Option TypeId, outcome (superclass.mapM resolve) c = (.ok stated, c) ∧
      superclass.map (fun n => c.registry.lookup? n.value) = stated.map some := by
  cases superclass with
  | none => exact ⟨none, rfl, rfl⟩
  | some superclass =>
    obtain ⟨sup, hsup⟩ := Option.isSome_iff_exists.mp hready
    refine ⟨some sup, ?_, by rw [Option.map_some, Option.map_some, hsup]⟩
    rw [Option.mapM_some, map_eq_pure_bind]
    exact outcome_bind_eq_ok.mpr ⟨sup, c, resolve_eq_ok.mpr ⟨hsup, rfl⟩, rfl⟩

/-- A class under a free name is declared if it can inherit from what it states. -/
theorem declareClass_of_free {head : ClassHeader} (hr : WellFormed c.registry)
    (hfree : c.registry.lookup? head.name.value = none) (hready : head.isReady c.registry = true)
    (hclass : ∀ superclass ∈ head.superclass, ∀ sup,
      c.registry.lookup? superclass.value = some sup → c.registry.requireClass sup = .ok ()) :
    ∃ c', outcome (declareClass head) c = (.ok (), c') := by
  obtain ⟨name, superclass⟩ := head
  obtain ⟨stated, hstated, hnames⟩ := exists_stated hready
  dsimp only at hfree hclass
  have hexisting : outcome (existing? name.value) c = (.ok none, c) :=
    existing?_eq_ok.mpr ⟨by rw [hfree, Option.bind_none], rfl⟩
  have hsuper : c.registry.requireClass (stated.getD Builtin.object.typeId) = .ok () := by
    cases superclass with
    | none =>
      obtain rfl : stated = none := by simpa using hnames.symm
      obtain ⟨root, hroot, -, hobject⟩ := hr.root
      exact requireClass_eq_ok.mpr ⟨root, hroot, by rw [hobject]; rfl⟩
    | some superclass =>
      obtain ⟨sup, rfl, hsup⟩ := Option.map_eq_some_iff.mp hnames.symm
      exact hclass superclass rfl sup hsup.symm
  have hdeclare : c.registry.declareObject name.value (stated.getD Builtin.object.typeId) = .ok
      (c.registry.push (.bare name.value (.object (some (stated.getD Builtin.object.typeId))))) :=
    bind_eq_ok.mpr ⟨(), hsuper, register_of_free hfree⟩
  exact ⟨_, outcome_bind_eq_ok.mpr ⟨stated, c, hstated,
    outcome_bind_eq_ok.mpr ⟨none, c, hexisting, declare_of_ok hdeclare⟩⟩⟩

/-- So is a primitive with a known representation, if it has the size of that. -/
theorem declarePrimitive_of_free {name superclass repr : Ident} {size : Located Nat}
    {tag : Representation} {sup : TypeId} (hfree : c.registry.lookup? name.value = none)
    (hsup : c.registry.lookup? superclass.value = some sup)
    (hclass : c.registry.requireClass sup = .ok ())
    (htag : Representation.ofSpelling? repr.value = some tag)
    (hsize : size.value = tag.storageSize c.registry.target) :
    ∃ c', outcome (declarePrimitive name superclass repr size) c = (.ok (), c') := by
  have hexisting : outcome (existing? name.value) c = (.ok none, c) :=
    existing?_eq_ok.mpr ⟨by rw [hfree, Option.bind_none], rfl⟩
  let added := c.registry.push (.bare name.value (.primitive sup tag size.value))
  have hdeclare : c.registry.declarePrimitive name.value sup tag size.value = .ok added := by
    refine bind_eq_ok.mpr ⟨(), hclass, bind_eq_ok.mpr ⟨(), ?_, register_of_free hfree⟩⟩
    rw [checkLayout_eq_ok.mpr hsize]
    rfl
  refine ⟨⟨added.2, c.declared + 1⟩, outcome_bind_eq_ok.mpr ⟨none, c, hexisting,
    outcome_bind_eq_ok.mpr ⟨sup, c, resolve_eq_ok.mpr ⟨hsup, rfl⟩, ?_⟩⟩⟩
  dsimp only
  rw [htag]
  exact declare_of_ok hdeclare

theorem declareModule_of_free {name : Ident} (hfree : c.registry.lookup? name.value = none) :
    ∃ c', outcome (declareModule name) c = (.ok (), c') := by
  have hexisting : outcome (existing? name.value) c = (.ok none, c) :=
    existing?_eq_ok.mpr ⟨by rw [hfree, Option.bind_none], rfl⟩
  exact ⟨_, outcome_bind_eq_ok.mpr ⟨none, c, hexisting, declare_of_ok (register_of_free hfree)⟩⟩

section

variable (ht : Settled t) (hbelow : Below c.registry t)

include ht hbelow

theorem declarePrimitive_succeeds {name superclass repr : Ident} {size : Located Nat}
    (htarget : t.target = c.registry.target) (hkind : t.kindOf? name.value = some kind)
    (hsuits : (TypeHeader.ofPrimitive name superclass repr size).Suits kind)
    (hready : (c.registry.lookup? superclass.value).isSome = true)
    (hfree : c.registry.lookup? name.value = none) :
    ∃ c', outcome (declarePrimitive name superclass repr size) c = (.ok (), c') := by
  obtain ⟨tag, htag, rfl⟩ := Option.map_eq_some_iff.mp hsuits
  obtain ⟨sup, hsup⟩ := Option.isSome_iff_exists.mp hready
  have hclass := hbelow.requireClass ht hkind rfl hsup
  -- The size was checked when the later registry got the type.
  have hsize : size.value = tag.storageSize c.registry.target := by
    obtain ⟨id, e, -, he, hprimitive⟩ := kindOf?_eq_some hkind
    cases hek : e.kind with
    | primitive sup' repr' byteSize =>
      rw [hek] at hprimitive
      obtain ⟨-, rfl, rfl⟩ := NominalKind.primitive.inj hprimitive
      rw [← htarget]
      exact (ht.sound_get? he).layout hek
    | _ =>
      rw [hek] at hprimitive
      cases hprimitive
  exact declarePrimitive_of_free hfree hsup hclass htag hsize

variable (hw : Settled c.registry)

include hw

theorem declareClass_succeeds {head : ClassHeader} (hkind : t.kindOf? head.name.value = some kind)
    (hsuits : (TypeHeader.ofClass head).Suits kind) (hready : head.isReady c.registry = true) :
    ∃ c', outcome (declareClass head) c = (.ok (), c') := by
  obtain ⟨name, superclass⟩ := head
  obtain ⟨hclass, hagrees⟩ := hsuits
  dsimp only at hkind hagrees
  obtain ⟨stated, hstated, hnames⟩ := exists_stated hready
  cases hid : c.registry.lookup? name.value with
  | some id =>
    obtain ⟨e, he, -⟩ := get?_of_lookup? hid
    have hexisting : outcome (existing? name.value) c = (.ok (some e), c) :=
      existing?_eq_ok.mpr ⟨by rw [hid, Option.bind_some, he], rfl⟩
    refine ⟨c, outcome_bind_eq_ok.mpr ⟨stated, c, hstated,
      outcome_bind_eq_ok.mpr ⟨some e, c, hexisting, ?_⟩⟩⟩
    have hsame := hbelow.kind_eq hid he hkind
    have hopen : e.kind.isClassLike = true := by
      rw [← TypeKind.isClassLike_nominal (f := c.registry.nameOf), hsame]
      exact hclass
    have hsuper : stated = none ∨ e.kind.superclass? = stated := by
      cases superclass with
      | none =>
        obtain rfl : stated = none := by simpa using hnames.symm
        exact .inl rfl
      | some superclass =>
        obtain ⟨sup, rfl, hsup⟩ := Option.map_eq_some_iff.mp hnames.symm
        have hactual := hagrees superclass rfl
        rw [← hsame, TypeKind.superclass?_nominal] at hactual
        obtain ⟨actual, hactual, hname⟩ := Option.map_eq_some_iff.mp hactual
        have hregistered := hw.toClosed.get? he
          (List.mem_append_left _ (TypeKind.mem_mentions_of_superclass? hactual))
        obtain ⟨f, hf, -⟩ := get?_of_lookup? hsup.symm
        rw [hactual, nameOf_inj hw.toWellFormed hregistered (Option.isSome_of_eq_some hf)
          (hname.trans (nameOf_of_lookup? hsup.symm).symm)]
        exact .inr rfl
    simp [reopenClass, hopen, hsuper]
  | none =>
    refine declareClass_of_free hw.toWellFormed hid hready fun superclass hstates sup hsup => ?_
    exact hbelow.requireClass ht hkind (hagrees superclass hstates) hsup

/-- A header that suits a later registry is not refused once its superclass is there, if it does
    not have to be the first for its name or is. -/
theorem declareHeader_succeeds {h : TypeHeader} (htarget : t.target = c.registry.target)
    (hkind : t.kindOf? h.name = some kind) (hsuits : h.Suits kind)
    (hready : ∀ n ∈ h.superclass?, (c.registry.lookup? n).isSome = true)
    (hfree : h.isOpen = false → c.registry.lookup? h.name = none) :
    ∃ c', outcome (declareHeader h) c = (.ok (), c') := by
  cases h with
  | ofClass head =>
    refine declareClass_succeeds ht hbelow hw hkind hsuits ?_
    unfold ClassHeader.isReady
    cases hsuper : head.superclass with
    | none => rfl
    | some superclass => exact hready _ (by rw [TypeHeader.superclass?, hsuper]; rfl)
  | ofModule name =>
    obtain rfl := Option.some.inj hsuits
    cases hid : c.registry.lookup? name.value with
    | some id =>
      obtain ⟨e, he, -⟩ := get?_of_lookup? hid
      have hmodule := TypeKind.nominal_eq_module (hbelow.kind_eq hid he hkind)
      refine ⟨c, outcome_bind_eq_ok.mpr ⟨some e, c, existing?_eq_ok.mpr ⟨?_, rfl⟩, ?_⟩⟩
      · rw [hid, Option.bind_some, he]
      · simp [hmodule, TypeKind.isModule]
    | none => exact declareModule_of_free hid
  | ofLib name libname => exact ⟨_, declare_of_ok (register_of_free (hfree rfl))⟩
  | ofPrimitive name superclass repr size =>
    exact declarePrimitive_succeeds ht hbelow htarget hkind hsuits (hready _ rfl) (hfree rfl)

end

end Collect

end DeclLang
