import DeclLang.Proofs.Collection.Consing

/-!
# Nominal views: a registry with names in place of ids

Where a type is registered depends on the order in which types are declared and instances made. Its
nominal view does not: it has the names of the types that an entry mentions (`Registry.nominal`). In
a consed registry an expression is resolved to a type whose name depends on the expression only
(`Consed.nameOf_of_typeOf?`).
-/

namespace DeclLang

/-! ## Views -/

/-- What a type is, with the names of the types that this mentions. -/
inductive NominalKind where
  | object (superclass : Option String)
  | module
  | primitive (superclass : String) (repr : Representation) (byteSize : Nat)
  | array (superclass : Option String) (element : String) (template : Option String)
  | lib (libname : Option String)
deriving DecidableEq, Repr

structure NominalSignature where
  name : String
  parameters : List (String × String)
  returns : Option String
deriving DecidableEq, Repr

structure NominalEntry where
  kind : NominalKind
  includes : List String
  methods : List NominalSignature
deriving DecidableEq, Repr

/-- A registry by names: its main module, and the type of each name. -/
@[ext]
structure Nominal where
  main : NominalEntry
  types : String → Option NominalEntry

def TypeKind.nominal (name : TypeId → String) : TypeKind → NominalKind
  | .object superclass => .object (superclass.map name)
  | .module => .module
  | .primitive superclass repr byteSize => .primitive (name superclass) repr byteSize
  | .array superclass element template =>
    .array (superclass.map name) (name element) (template.map name)
  | .lib libname => .lib libname

def Signature.nominal (name : TypeId → String) (s : Signature) : NominalSignature :=
  ⟨s.name, s.parameters.map fun p => (p.name, name p.type), s.returns.map name⟩

def Entry.nominal (name : TypeId → String) (e : Entry) : NominalEntry :=
  ⟨e.kind.nominal name, e.includes.map name, e.methods.map (·.nominal name)⟩

def Registry.nominal (r : Registry) : Nominal :=
  ⟨r.main.nominal r.nameOf, fun n => ((r.lookup? n).bind r.get?).map (·.nominal r.nameOf)⟩

namespace NominalKind

def superclass? : NominalKind → Option String
  | .object superclass => superclass
  | .primitive superclass _ _ => some superclass
  | .array superclass _ _ => superclass
  | .module | .lib _ => none

def isClassLike : NominalKind → Bool
  | .object _ | .primitive .. | .array .. => true
  | .module | .lib _ => false

end NominalKind

/-- Adds a signature to a table that is sorted by name. -/
def NominalSignature.insertInto (s : NominalSignature) :
    List NominalSignature → List NominalSignature
  | [] => [s]
  | t :: table => if s.name < t.name then s :: t :: table else t :: s.insertInto table

/-! ### Parts of a view -/

section

variable {f g : TypeId → String}

@[simp] theorem TypeKind.superclass?_nominal (kind : TypeKind) :
    (kind.nominal f).superclass? = kind.superclass?.map f := by
  cases kind <;> rfl

@[simp] theorem TypeKind.isClassLike_nominal (kind : TypeKind) :
    (kind.nominal f).isClassLike = kind.isClassLike := by
  cases kind <;> rfl

theorem TypeKind.nominal_eq_module {kind : TypeKind} (h : kind.nominal f = .module) :
    kind = .module := by
  cases kind with
  | module => rfl
  | _ => cases h

@[simp] theorem Entry.kind_nominal (e : Entry) : (e.nominal f).kind = e.kind.nominal f := rfl

/-- A view depends on the names of what is mentioned only. -/
theorem TypeKind.nominal_congr {kind : TypeKind} (h : ∀ id ∈ kind.mentions, f id = g id) :
    kind.nominal f = kind.nominal g := by
  have hoption {o : Option TypeId} (ho : ∀ id ∈ o.toList, f id = g id) : o.map f = o.map g := by
    cases o with
    | none => rfl
    | some id => rw [Option.map_some, Option.map_some, ho id List.mem_cons_self]
  cases kind with
  | object superclass => rw [nominal, nominal, hoption h]
  | module => rfl
  | primitive superclass repr byteSize => rw [nominal, nominal, h superclass List.mem_cons_self]
  | array superclass element template =>
    simp only [mentions, List.mem_append, List.mem_cons] at h
    rw [nominal, nominal, hoption fun id hid => h id (.inl hid), h element (.inr (.inl rfl)),
      hoption fun id hid => h id (.inr (.inr hid))]
  | lib libname => rfl

theorem Signature.nominal_congr {s : Signature} (h : ∀ id ∈ s.mentions, f id = g id) :
    s.nominal f = s.nominal g := by
  have hparameters : s.parameters.map (fun p => (p.name, f p.type)) =
      s.parameters.map fun p => (p.name, g p.type) := by
    refine List.map_congr_left fun p hp => ?_
    rw [h p.type (List.mem_append_left _ (List.mem_map_of_mem hp))]
  have hreturns : s.returns.map f = s.returns.map g := by
    cases hs : s.returns with
    | none => rfl
    | some id =>
      rw [Option.map_some, Option.map_some]
      rw [h id (List.mem_append_right _ (by rw [hs]; exact List.mem_cons_self))]
  rw [nominal, nominal, hparameters, hreturns]

theorem Entry.nominal_congr {e : Entry} (h : ∀ id ∈ e.mentions, f id = g id) :
    e.nominal f = e.nominal g := by
  have hkind : e.kind.nominal f = e.kind.nominal g :=
    TypeKind.nominal_congr fun id hid => h id (List.mem_append_left _ hid)
  have hincludes : e.includes.map f = e.includes.map g :=
    List.map_congr_left fun id hid =>
      h id (List.mem_append_right _ (List.mem_append_left _ hid))
  have hmethods : e.methods.map (·.nominal f) = e.methods.map (·.nominal g) := by
    refine List.map_congr_left fun s hs => Signature.nominal_congr fun id hid => ?_
    have hmem : id ∈ e.methods.flatMap (·.mentions) := List.mem_flatMap.mpr ⟨s, hs, hid⟩
    exact h id (List.mem_append_right _ (List.mem_append_right _ hmem))
  rw [nominal, nominal, hkind, hincludes, hmethods]

theorem Signature.map_insertInto (s : Signature) (table : List Signature) :
    (s.insertInto table).map (·.nominal f) =
      (s.nominal f).insertInto (table.map (·.nominal f)) := by
  induction table with
  | nil => rfl
  | cons t table ih =>
    have hname : (s.nominal f).name < (t.nominal f).name ↔ s.name < t.name := Iff.rfl
    simp only [insertInto, List.map_cons, NominalSignature.insertInto, hname]
    split
    · rfl
    · rw [List.map_cons, ih]

theorem Entry.nominal_define (e : Entry) (s : Signature) :
    (e.define s).nominal f =
      { e.nominal f with methods := (s.nominal f).insertInto (e.nominal f).methods } := by
  simp only [nominal, define, s.map_insertInto]

theorem Entry.nominal_mixIn (e : Entry) (module : TypeId) :
    (e.mixIn module).nominal f =
      { e.nominal f with includes := (e.nominal f).includes ++ [f module] } := by
  simp only [nominal, mixIn, List.map_append, List.map_singleton]

/-- Whether a method is there can be told from the view. -/
theorem Entry.method?_eq_none_iff {e : Entry} {n : String} :
    e.method? n = none ↔ n ∉ (e.nominal f).methods.map (·.name) := by
  rw [method?, List.find?_eq_none]
  simp [nominal, Signature.nominal]

end

/-! ## Views of a registry -/

/-- The view of the main module or of the type with a name. -/
def Nominal.at (N : Nominal) : Option String → Option NominalEntry
  | none => some N.main
  | some n => N.types n

namespace Registry

variable {r s : Registry}

theorem nameOf_of_get? {id : TypeId} {e : Entry} (he : r.get? id = some e) :
    r.nameOf id = e.name := by
  rw [nameOf, he]
  rfl

theorem nameOf_of_lookup? {n : String} {id : TypeId} (h : r.lookup? n = some id) :
    r.nameOf id = n := by
  obtain ⟨e, he, hname⟩ := get?_of_lookup? h
  rw [nameOf_of_get? he, hname]

/-- What is viewed under a label is the entry of the owner with this label. -/
theorem WellFormed.at_eq_some (hr : WellFormed r) {label : Option String} {x : NominalEntry} :
    r.nominal.at label = some x ↔
      ∃ o e, r.owner? o = some e ∧ o.label e = label ∧ e.nominal r.nameOf = x := by
  constructor
  · intro h
    cases label with
    | none => exact ⟨.main, r.main, rfl, rfl, Option.some.inj h⟩
    | some n =>
      obtain ⟨e, he, hx⟩ := Option.map_eq_some_iff.mp h
      obtain ⟨id, hid, he⟩ := Option.bind_eq_some_iff.mp he
      exact ⟨.type id, e, he, congrArg some (name_of_lookup? hid he), hx⟩
  · rintro ⟨o, e, he, rfl, rfl⟩
    cases o with
    | main =>
      obtain rfl := Option.some.inj he
      rfl
    | type id =>
      have hid : r.lookup? e.name = some id := hr.lookup?_eq_some_iff.mpr ⟨e, he, rfl⟩
      have hget : r.get? id = some e := he
      simp [Nominal.at, Registry.nominal, Owner.label, hid, hget]

theorem isSome_types_iff {n : String} :
    (r.nominal.types n).isSome = true ↔ (r.lookup? n).isSome = true := by
  cases hid : r.lookup? n with
  | none => simp [nominal, hid]
  | some id =>
    obtain ⟨e, he, -⟩ := get?_of_lookup? hid
    simp [nominal, hid, he]

theorem types_of_lookup? {n : String} {id : TypeId} {e : Entry} (hid : r.lookup? n = some id)
    (he : r.get? id = some e) : r.nominal.types n = some (e.nominal r.nameOf) := by
  simp [nominal, hid, he]

/-- What a closed registry has looks the same later on. -/
theorem Closed.nominal_eq (hr : r.Closed) (hrs : r.Retains s) {o : Owner} {e : Entry}
    (he : r.owner? o = some e) : e.nominal s.nameOf = e.nominal r.nameOf :=
  Entry.nominal_congr fun id hid => hrs.nameOf (hr.registered he id hid)

/-! ## Settled registries -/

/-- A closed registry in which every specialized array is the instance for its element. -/
structure Settled (r : Registry) : Prop extends Consed r, Closed r

theorem settled_initial (target : Target) : Settled (initial target) :=
  ⟨consed_initial target, closed_initial target⟩

theorem Closed.instantiate (h : r.Closed) (hr : Regular r) {array element id : TypeId}
    (helement : (r.get? element).isSome = true)
    (hmake : r.instantiate array element = .ok (id, s)) : s.Closed := by
  obtain ⟨-, ⟨-, rfl⟩ | ⟨source, hsource, -, hfree, -, rfl⟩⟩ := instantiate_eq_ok hr hmake
  · exact h
  · exact (h.push hfree (h.specialized hsource helement)).congr (owner?_cache _ _)

theorem Settled.instantiate (h : Settled r) {array element id : TypeId}
    (helement : (r.get? element).isSome = true)
    (hmake : r.instantiate array element = .ok (id, s)) : Settled s ∧ r.Retains s := by
  obtain ⟨hs, hrs⟩ := h.toConsed.instantiate helement hmake
  exact ⟨⟨hs, h.toClosed.instantiate h.toRegular helement hmake⟩, hrs⟩

theorem Settled.collects (h : Settled r) {op : Operation} (hop : op.Collects IsPlain)
    (happly : op.apply r = .ok s) : Settled s ∧ r.Retains s := by
  obtain ⟨hs, hrs⟩ := consedStep_of_gain (gain_of_apply hop happly) op happly h.toConsed
  exact ⟨⟨hs, h.toClosed.collects hop happly⟩, hrs⟩

theorem Settled.define (h : Settled r) {owner : Owner} {signature : Signature}
    (hids : ∀ id ∈ signature.mentions, (r.get? id).isSome = true)
    (hdefine : r.defineMethod owner signature = .ok s) : Settled s ∧ r.Retains s := by
  obtain ⟨hs, hrs⟩ := consedStep_of_define hdefine h.toConsed
  exact ⟨⟨hs, h.toClosed.define hids hdefine⟩, hrs⟩

/-- Everything that collecting does with plain names keeps a registry settled. -/
theorem steadfastOn_settled :
    Collect.SteadfastOn IsPlain (Collect.Carries Settled Retains) :=
  Collect.steadfastOn_carries ⟨.refl, .trans⟩ (fun h => h.toRegular)
    (fun hr helement hmake => hr.instantiate helement hmake)
    (fun _ hop happly hr => hr.collects hop happly)
    fun hr hids hdefine => hr.define hids hdefine

/-! ## Names of types -/

end Registry

/-- The name of the type that an expression is resolved to. -/
def TypeExpr.resolvedName : TypeExpr → String
  | .named name => name.value
  | .generic _ arg _ =>
    if arg.resolvedName = "String" then "ARGV" else instanceOf arg.resolvedName

/-- The signature that a declaration stands for, by names. -/
def MethodDecl.nominal (m : MethodDecl) : NominalSignature :=
  ⟨m.name.value, m.parameters.map fun p => (p.name, p.type.resolvedName),
    m.returns.map (·.resolvedName)⟩

namespace Registry

variable {r : Registry}

/-- The instance for an element is named after it; that for strings is `ARGV`. -/
theorem Consed.nameOf_of_cached? (h : Consed r) {element id : TypeId}
    (hcached : r.cached? Builtin.array.typeId element = some id) :
    r.nameOf id =
      if r.nameOf element = "String" then "ARGV" else instanceOf (r.nameOf element) := by
  obtain ⟨argv, hargv, hargvName, hargvKind⟩ := h.start.builtin .argv
  obtain ⟨string, hstring, hstringName, -⟩ := h.start.builtin .string
  have hstringOf : r.nameOf Builtin.string.typeId = "String" := by
    rw [nameOf_of_get? hstring, hstringName]
    rfl
  obtain ⟨e, superclass, he, hkind⟩ := h.toCacheSound.kind_of_cached? hcached
  obtain ⟨hlt, -, hid | hname⟩ := h.made he hkind
  · subst hid
    obtain rfl : e = argv := Option.some.inj (he.symm.trans hargv)
    obtain ⟨-, rfl, -⟩ := TypeKind.array.inj (hkind.symm.trans hargvKind)
    rw [if_pos hstringOf, nameOf_of_get? he, hargvName]
    rfl
  · rw [if_neg, nameOf_of_get? he, hname]
    intro hstr
    -- The instance for strings has been there from the start.
    have hplace := index_lt_of_get? he
    have helement : (r.get? element).isSome = true := isSome_get?_iff.mpr (by omega)
    obtain rfl := nameOf_inj h.toWellFormed helement (Option.isSome_of_eq_some hstring)
      (hstr.trans hstringOf.symm)
    have hfirst : (initial r.target).cached? Builtin.array.typeId Builtin.string.typeId =
        some Builtin.argv.typeId := rfl
    obtain rfl : id = Builtin.argv.typeId :=
      Option.some.inj (hcached.symm.trans (h.start.cached? hfirst))
    have hplain := h.name_argv he
    rw [hname] at hplain
    exact not_isPlain_instanceOf _ hplain

theorem Consed.nameOf_of_typeOf? (h : Consed r) {t : TypeExpr} {id : TypeId}
    (ht : r.typeOf? t = some id) : r.nameOf id = t.resolvedName := by
  induction t generalizing id with
  | named name => exact nameOf_of_lookup? ht
  | generic base arg span ih =>
    obtain ⟨array, element, template, -, harg, htemplate, hcached⟩ := typeOf?_generic_eq_some.mp ht
    obtain rfl := h.toRegular.templateOf htemplate
    rw [h.nameOf_of_cached? hcached, ih harg, TypeExpr.resolvedName]

/-- What is found for the items of a list is viewed in one way. -/
theorem map_eq_of_mapM {α β γ : Type} {f : α → Option β} {view : β → γ} {form : α → γ}
    (hf : ∀ {a b}, f a = some b → view b = form a) {l : List α} {bs : List β}
    (h : l.mapM f = some bs) : bs.map view = l.map form := by
  rw [mapM_eq_some_iff] at h
  induction h with
  | nil => rfl
  | cons hb _ ih => rw [List.map_cons, List.map_cons, hf hb, ih]

/-- A declaration stands for the same signature by names wherever it stands for one. -/
theorem Consed.nominal_of_signature? (h : Consed r) {m : MethodDecl} {signature : Signature}
    (hm : r.signature? m = some signature) : signature.nominal r.nameOf = m.nominal := by
  obtain ⟨parameters, returns, hparameters, hreturns, rfl⟩ := signature?_eq_some.mp hm
  have hps : parameters.map (fun q => (q.name, r.nameOf q.type)) =
      m.parameters.map fun p => (p.name, p.type.resolvedName) := by
    refine map_eq_of_mapM (fun {p q} hq => ?_) hparameters
    obtain ⟨id, hid, rfl⟩ := Option.map_eq_some_iff.mp hq
    rw [h.nameOf_of_typeOf? hid]
  have hrs : returns.map r.nameOf = m.returns.map (·.resolvedName) := by
    rw [optionMapM_eq_some_iff] at hreturns
    generalize m.returns = t at hreturns ⊢
    cases hreturns with
    | none => rfl
    | some hid => rw [Option.map_some, Option.map_some, h.nameOf_of_typeOf? hid]
  rw [Signature.nominal, MethodDecl.nominal, hps, hrs]

end Registry

end DeclLang
