import DeclLang.Proofs.Collection.Members
import DeclLang.Proofs.Collection.Types
import DeclLang.Syntax.Program
import Mathlib.Data.List.Dedup
import Mathlib.Data.List.Nodup

/-!
# Effect: what an accepted program does to a registry

`Effect` says of every part of a registry what it is after a program: what is kept, which types are
new and of which kind, which members each owner has gained, and which array instances were made.
`collect_effect` puts it together from the two passes.
-/

namespace DeclLang

/-- The names of the blocks that re-open a type if there is one. -/
def openNames (hs : List TypeHeader) : List String :=
  (hs.filter (·.isOpen)).map (·.name)

theorem mem_openNames {hs : List TypeHeader} {n : String} :
    n ∈ openNames hs ↔ ∃ h ∈ hs, h.isOpen = true ∧ h.name = n := by
  simp [openNames, and_assoc]

namespace Registry

def isAddedType (r s : Registry) (id : TypeId) : Bool :=
  decide (r.size ≤ id.index) && (s.get? id).any (!·.kind.isArray)

/-- The types of `s` that `r` does not have, but for array instances. -/
def addedTypes (r s : Registry) : List TypeId :=
  s.ids.filter (r.isAddedType s)

/-- The classes and modules of a program that `r` does not have, each name once. -/
def unknownNames (r : Registry) (p : Program) : List String :=
  ((openNames p.headers).filter fun n => (r.lookup? n).isNone).dedup

/-- What a registry `r` has become when `p` was collected into it. -/
structure Effect (r : Registry) (p : Program) (c : Collection) : Prop where
  target : c.registry.target = r.target
  symbols : c.registry.symbols = r.symbols
  poisoned : c.registry.poisoned = r.poisoned
  kept : ∀ {o e}, r.owner? o = some e →
    ∃ f, c.registry.owner? o = some f ∧ f.name = e.name ∧ f.kind = e.kind
  /-- There is one new type for each library and primitive, and one for each name of a class or
      module that was not there. A class that re-opens a primitive of the same program shares its
      type and is not counted again. -/
  added : ((r.addedTypes c.registry).map c.registry.nameOf).Perm
    ((r.unknownNames p).filter (· ∉ closedNames p.headers) ++ closedNames p.headers)
  added_nodup : ((r.addedTypes c.registry).map c.registry.nameOf).Nodup
  closed_free : ∀ n ∈ closedNames p.headers, r.lookup? n = none
  /-- A new type is of the kind that a header declares for its name. -/
  added_kind : ∀ id ∈ r.addedTypes c.registry, ∃ h ∈ p.headers, h.name = c.registry.nameOf id ∧
    (c.registry.get? id).map (·.kind) = h.kind? c.registry
  fits : ∀ h ∈ p.headers, ∃ id e, c.registry.lookup? h.name = some id ∧
    c.registry.get? id = some e ∧ h.Fits c.registry e.kind
  declared : c.declared = (r.addedTypes c.registry).length
  /-- An owner has its old methods and one for each that is written under its name, in a table
      that is sorted by name. -/
  methods : ∀ {o f}, c.registry.owner? o = some f →
    ∃ signatures, ((membersUnder (o.label f) p.members).filterMap Member.method?).mapM
        c.registry.signature? = some signatures ∧
      f.methods.Perm ((r.owner? o).elim [] (·.methods) ++ signatures) ∧
      f.methods = signatures.foldl (fun table signature => signature.insertInto table)
        ((r.owner? o).elim [] (·.methods))
  /-- An owner has its old modules and then those that are mixed in under its name; for a new array
      instance this is said by `arrays`. -/
  includes : ∀ {o f}, c.registry.owner? o = some f →
    (r.owner? o).isSome = true ∨ f.kind.isArray = false →
    ∃ modules, ((membersUnder (o.label f) p.members).filterMap Member.inclusion?).mapM
        (fun m => c.registry.lookup? m.value) = some modules ∧
      f.includes = (r.owner? o).elim [] (·.includes) ++ modules
  /-- A new array is an instance that a member asks for, ... -/
  arrays : ∀ {id e}, c.registry.get? id = some e → r.get? id = none → e.kind.isArray = true →
    MadeFor r c.registry p.members id e
  /-- ... every instance that is asked for is there, ... -/
  resolved : Resolved c.registry p.members
  /-- ... and the cache has got nothing else. -/
  records : r.RecordsNew c.registry
  /-- What types stand for is what they are resolved to in the registry as it is now. -/
  resolves : ∀ t id n, c.registry.typeOf? t = some id ↔
    Collect.outcome (Collect.resolveType t) ⟨c.registry, n⟩ = (.ok id, ⟨c.registry, n⟩)

/-! ## The two passes together -/

section

variable {r s₁ s : Registry} {p : Program} {count : Nat}

theorem mem_unknownNames {n : String} :
    n ∈ r.unknownNames p ↔ n ∈ openNames p.headers ∧ r.lookup? n = none := by
  rw [unknownNames, List.mem_dedup, List.mem_filter, Option.isNone_iff_eq_none]

theorem mem_addedTypes {r s : Registry} {id : TypeId} :
    id ∈ r.addedTypes s ↔
      r.get? id = none ∧ ∃ e, s.get? id = some e ∧ e.kind.isArray = false := by
  rw [addedTypes, List.mem_filter, mem_ids, ← isSome_get?_iff, get?_eq_none_iff, isAddedType]
  cases s.get? id with
  | none => simp
  | some e => simp

theorem isArray_of_madeFor {ms : List PlacedMember} {id : TypeId} {e : Entry}
    (h : MadeFor r s ms id e) : e.kind.isArray = true := by
  cases h with
  | intro _ _ _ _ _ hfresh =>
    rw [hfresh.entry]
    rfl

/-- A new entry was declared by a header and has gained its members, or it is an instance that was
    made for a member. -/
theorem Progress.new_cases (h₁ : Declared r p.headers s₁ count) (h₂ : Progress s₁ p.members s)
    {id : TypeId} {e : Entry} (he : s.get? id = some e) (hid : r.get? id = none) :
    (∃ e₁, s₁.get? id = some e₁ ∧ e₁ = .bare e.name e.kind ∧ e.kind.isArray = false ∧
      (∃ h ∈ p.headers, h.name = e.name ∧ h.kind? s = some e.kind) ∧
      e₁.Gains s (membersUnder (some e.name) p.members) e) ∨
    (s₁.get? id = none ∧ MadeFor s₁ s p.members id e) := by
  -- By the pass that added it.
  cases hmid : s₁.get? id with
  | none => exact .inr ⟨rfl, h₂.made he hmid⟩
  | some e₁ =>
    rcases h₂.gains (o := .type id) hmid with ⟨f, hf, hgains⟩
    rw [owner?_type, he, Option.some.injEq] at hf
    subst hf
    rcases h₁.new hmid hid with ⟨hbare, h, hh, hname, hkind⟩
    rw [← hgains.name, ← hgains.kind] at hbare
    rw [← hgains.name] at hname
    rw [← hgains.kind] at hkind
    refine .inl ⟨e₁, rfl, hbare, TypeHeader.isArray_of_kind? hkind,
      ⟨h, hh, hname, TypeHeader.kind?_mono h₂.retains hkind⟩, ?_⟩
    rw [hgains.name]
    exact hgains

theorem Retains.size_le {r s : Registry} (h : r.Retains s) : r.size ≤ s.size := by
  by_cases hlt : s.size < r.size
  · have hsome : (r.get? ⟨s.size⟩).isSome = true := isSome_get?_iff.mpr hlt
    have hself : s.size < s.size := isSome_get?_iff.mp (h.isSome_get? hsome)
    omega
  · omega

/-- The types that are new and no arrays are those of the first pass. -/
theorem addedTypes_eq (h₁ : Declared r p.headers s₁ count) (h₂ : Progress s₁ p.members s) :
    r.addedTypes s = (List.range' r.size count).map TypeId.mk := by
  -- The ids fall into three stretches: the old types, those of the first pass, the instances.
  rcases Nat.exists_eq_add_of_le h₂.retains.size_le with ⟨more, hmore⟩
  have hids : s.ids = ((List.range' 0 r.size ++ List.range' r.size count) ++
      List.range' (r.size + count) more).map TypeId.mk := by
    rw [ids, List.range_eq_range', hmore, h₁.size, ← List.range'_append_1, ← List.range'_append_1,
      Nat.zero_add, Nat.zero_add]
  have hget {i : Nat} (hi : i < s.size) : ∃ e, s.get? ⟨i⟩ = some e :=
    Option.isSome_iff_exists.mp (isSome_get?_iff.mpr hi)
  rw [addedTypes, hids, List.filter_map, List.filter_append, List.filter_append]
  congr 1
  have hold : (List.range' 0 r.size).filter (r.isAddedType s ∘ TypeId.mk) = [] := by
    rw [List.filter_eq_nil_iff]
    intro i hi
    have hlt : ¬ r.size ≤ i := by
      have hrange := List.mem_range'_1.mp hi
      omega
    simp [isAddedType, hlt]
  have hnew : (List.range' r.size count).filter (r.isAddedType s ∘ TypeId.mk) =
      List.range' r.size count := by
    rw [List.filter_eq_self]
    intro i hi
    rcases List.mem_range'_1.mp hi with ⟨hge, hlt⟩
    rcases hget (i := i) (by rw [hmore, h₁.size]; omega) with ⟨e, he⟩
    rcases h₂.new_cases h₁ he (get?_eq_none_iff.mpr hge) with ⟨_, -, -, harray, -⟩ | ⟨hfree, -⟩
    · simp [isAddedType, he, harray, hge]
    · have hge' : s₁.size ≤ i := get?_eq_none_iff.mp hfree
      rw [h₁.size] at hge'
      omega
  have harrays : (List.range' (r.size + count) more).filter (r.isAddedType s ∘ TypeId.mk) = [] := by
    rw [List.filter_eq_nil_iff]
    intro i hi
    rcases List.mem_range'_1.mp hi with ⟨hge, hlt⟩
    rcases hget (i := i) (by rw [hmore, h₁.size]; omega) with ⟨e, he⟩
    have hfree : s₁.get? ⟨i⟩ = none := get?_eq_none_iff.mpr (by rw [h₁.size]; exact hge)
    simp [isAddedType, he, isArray_of_madeFor (h₂.made he hfree)]
  rw [hold, hnew, harrays, List.nil_append, List.append_nil]

/-- No block of the program has the name of an instance that is made for it. -/
theorem membersUnder_of_made (h₁ : Declared r p.headers s₁ count) (h₂ : Progress s₁ p.members s)
    {id : TypeId} {e : Entry} (he : s.get? id = some e) (hfree : s₁.get? id = none) :
    membersUnder (some e.name) p.members = [] := by
  rw [membersUnder, List.map_eq_nil_iff, List.filter_eq_nil_iff]
  intro m hm hlabel
  rcases Option.map_eq_some_iff.mp (of_decide_eq_true hlabel) with ⟨name, hblock, hname⟩
  rcases Program.header_of_block hm hblock with ⟨h, hh, hvalue⟩
  rcases h₁.fits h hh with ⟨id', e', hid', -⟩
  rw [hvalue, hname] at hid'
  have hsome := h₂.retains.isSome_get?_of_name h₂.regular.toWellFormed he
    (Option.isSome_of_eq_some hid')
  rw [hfree] at hsome
  cases hsome

theorem MadeFor.earlier {r s t : Registry} {ms : List PlacedMember} {id : TypeId} {e : Entry}
    (h : MadeFor s t ms id e) (hr : Regular r) (hrs : r.Retains s)
    (howner : ∀ {o e}, r.owner? o = some e → s.owner? o = some e) : MadeFor r t ms id e := by
  cases h with
  | intro hms hm hbefore hsource hmodules hfresh =>
    rcases Option.isSome_iff_exists.mp hr.array with ⟨array, harray⟩
    have hsame := howner (o := .type Builtin.array.typeId) harray
    rw [owner?_type, hsource, Option.some.injEq] at hsame
    subst hsame
    exact .intro hms hm hbefore harray hmodules (hfresh.earlier hrs)

/-- A name is that of a new type exactly when a header declares it. -/
theorem mem_added_of_passes (h₁ : Declared r p.headers s₁ count)
    (h₂ : Progress s₁ p.members s) (n : String) :
    n ∈ (r.addedTypes s).map s.nameOf ↔
      (n ∈ openNames p.headers ∧ r.lookup? n = none) ∨ n ∈ closedNames p.headers := by
  have hretains := h₁.retains.trans h₂.retains
  constructor
  -- A new type has a header; if that one is open, the name was free before.
  · intro hn
    rcases List.mem_map.mp hn with ⟨id, hid, rfl⟩
    rcases mem_addedTypes.mp hid with ⟨hfree, e, he, harray⟩
    have hname : s.nameOf id = e.name := by rw [nameOf, he]; rfl
    rcases h₂.new_cases h₁ he hfree with ⟨_, -, -, -, ⟨h, hh, hhname, -⟩, -⟩ | ⟨-, hmade⟩
    · rw [hname]
      cases hopen : h.isOpen with
      | false => exact .inr (mem_closedNames.mpr ⟨h, hh, hopen, hhname⟩)
      | true =>
        refine .inl ⟨mem_openNames.mpr ⟨h, hh, hopen, hhname⟩, ?_⟩
        rw [← Option.not_isSome_iff_eq_none]
        intro hold
        have hsome := hretains.isSome_get?_of_name h₂.regular.toWellFormed he hold
        rw [hfree] at hsome
        cases hsome
    · rw [isArray_of_madeFor hmade] at harray
      cases harray
  -- A header whose name was free fits a type now, which cannot have been there before.
  · intro hn
    have hheader : r.lookup? n = none ∧ ∃ h ∈ p.headers, h.name = n := by
      rcases hn with ⟨hn, hfree⟩ | hn
      · rcases mem_openNames.mp hn with ⟨h, hh, -, hname⟩
        exact ⟨hfree, h, hh, hname⟩
      · rcases mem_closedNames.mp hn with ⟨h, hh, -, hname⟩
        exact ⟨h₁.closed_free n hn, h, hh, hname⟩
    rcases hheader with ⟨hfree, h, hh, rfl⟩
    rcases h₁.fits h hh with ⟨id, e, hid, he, -⟩
    have hname := name_of_lookup? hid he
    have hnew := h₁.get?_eq_none hfree hid
    rcases h₂.retains.get? he with ⟨f, hf, hfname, hfkind⟩
    rcases h₁.new he hnew with ⟨-, h', -, -, hkind⟩
    refine List.mem_map.mpr ⟨id, mem_addedTypes.mpr ⟨hnew, f, hf, ?_⟩, ?_⟩
    · rw [hfkind, TypeHeader.isArray_of_kind? hkind]
    · rw [nameOf, hf]
      exact hfname.trans hname

/-- No two new types have the same name. -/
theorem added_nodup_of_wellFormed {r s : Registry} (hs : WellFormed s) :
    ((r.addedTypes s).map s.nameOf).Nodup := by
  rw [List.nodup_iff_pairwise_ne, List.pairwise_map]
  refine List.Pairwise.imp_of_mem (fun {a b} ha hb hne h => hne ?_) (s.nodup_ids.filter _)
  rcases mem_addedTypes.mp ha with ⟨-, e, he, -⟩
  rcases mem_addedTypes.mp hb with ⟨-, f, hf, -⟩
  rw [nameOf, nameOf, he, hf] at h
  exact hs.names he hf h

/-- The new types are those of the unknown names and of the closed ones, each counted once. -/
theorem added_perm (h₁ : Declared r p.headers s₁ count) (h₂ : Progress s₁ p.members s) :
    ((r.addedTypes s).map s.nameOf).Perm
      ((r.unknownNames p).filter (· ∉ closedNames p.headers) ++ closedNames p.headers) := by
  have hunknown : ((r.unknownNames p).filter (· ∉ closedNames p.headers)).Nodup :=
    (List.nodup_dedup _).filter _
  have hdisjoint : List.Disjoint ((r.unknownNames p).filter (· ∉ closedNames p.headers))
      (closedNames p.headers) :=
    fun n hn hclosed => of_decide_eq_true (List.mem_filter.mp hn).2 hclosed
  have hnodup := List.Nodup.append hunknown h₁.closed_nodup hdisjoint
  rw [List.perm_ext_iff_of_nodup (added_nodup_of_wellFormed h₂.regular.toWellFormed) hnodup]
  intro n
  rw [mem_added_of_passes h₁ h₂, List.mem_append, List.mem_filter, mem_unknownNames,
    decide_eq_true_eq]
  by_cases hclosed : n ∈ closedNames p.headers <;> simp [hclosed]

/-- Every owner has gained the members under its name: on top of what it had, of nothing if its type
    is new, or of what the builtin array had. -/
theorem gains_of_passes (h₁ : Declared r p.headers s₁ count) (h₂ : Progress s₁ p.members s)
    {o : Owner} {f : Entry} (hf : s.owner? o = some f) :
    (∃ e : Entry, e.methods = (r.owner? o).elim [] (·.methods) ∧
      e.includes = (r.owner? o).elim [] (·.includes) ∧
      e.Gains s (membersUnder (o.label f) p.members) f) ∨
    (r.owner? o = none ∧ f.kind.isArray = true ∧ f.methods = [] ∧
      membersUnder (o.label f) p.members = []) := by
  cases hold : r.owner? o with
  | some e =>
    rcases h₂.gains (h₁.owner hold) with ⟨g, hg, hgains⟩
    rw [hf, Option.some.injEq] at hg
    subst hg
    have hlabel : o.label f = o.label e := by
      cases o with
      | main => rfl
      | type id => exact congrArg some hgains.name
    rw [hlabel]
    exact .inl ⟨e, rfl, rfl, hgains⟩
  | none =>
    cases o with
    | main => cases hold
    | type id =>
      rcases h₂.new_cases h₁ hf hold with ⟨e, -, hbare, -, -, hgains⟩ | ⟨hfree, hmade⟩
      · exact .inl ⟨e, by rw [hbare]; rfl, by rw [hbare]; rfl, hgains⟩
      · refine .inr ⟨rfl, isArray_of_madeFor hmade, ?_, membersUnder_of_made h₁ h₂ hf hfree⟩
        cases hmade with
        | intro _ _ _ _ _ hfresh =>
          rw [hfresh.entry]
          rfl

/-- What the two passes do, put together. -/
theorem effect_of_passes (hr : Regular r) (h₁ : Declared r p.headers s₁ count)
    (h₂ : Progress s₁ p.members s) : Effect r p ⟨s, count⟩ where
  target := h₂.retains.target.trans h₁.retains.target
  symbols := h₂.retains.symbols.trans h₁.retains.symbols
  poisoned := h₂.retains.poisoned.trans h₁.retains.poisoned
  kept := (h₁.retains.trans h₂.retains).owner
  added := added_perm h₁ h₂
  added_nodup := added_nodup_of_wellFormed h₂.regular.toWellFormed
  closed_free := h₁.closed_free
  added_kind id hid := by
    rcases mem_addedTypes.mp hid with ⟨hfree, e, he, harray⟩
    rcases h₂.new_cases h₁ he hfree with ⟨_, -, -, -, ⟨h, hh, hname, hkind⟩, -⟩ | ⟨-, hmade⟩
    · refine ⟨h, hh, ?_, ?_⟩
      · dsimp only
        rw [hname, nameOf, he]
        rfl
      · dsimp only
        rw [he, hkind]
        rfl
    · rw [isArray_of_madeFor hmade] at harray
      cases harray
  fits h hh := by
    rcases h₁.fits h hh with ⟨id, e, hid, he, hfits⟩
    rcases h₂.retains.get? he with ⟨f, hf, -, hkind⟩
    refine ⟨id, f, h₂.retains.lookup? hid, hf, ?_⟩
    rw [hkind]
    exact hfits.mono h₂.retains
  declared := by
    rw [addedTypes_eq h₁ h₂, List.length_map, List.length_range']
  methods {o f} hf := by
    rcases gains_of_passes h₁ h₂ hf with ⟨e, hmethods, -, hgains⟩ | ⟨hnew, -, hmethods, hnone⟩
    · rcases hgains.methods with ⟨signatures, hsignatures, htable⟩
      rw [← hmethods]
      refine ⟨signatures, hsignatures, ?_, htable⟩
      rw [htable]
      exact Signature.perm_foldl_insertInto signatures e.methods
    · rw [hnone, hnew]
      refine ⟨[], rfl, ?_, hmethods⟩
      rw [hmethods]
      exact .refl _
  includes {o f} hf hno := by
    rcases gains_of_passes h₁ h₂ hf with ⟨e, -, hincludes, hgains⟩ | ⟨hnew, harray, -, -⟩
    · rw [← hincludes]
      exact hgains.includes
    · rw [hnew, harray] at hno
      simp at hno
  arrays he hid harray := by
    rcases h₂.new_cases h₁ he hid with ⟨_, -, -, hno, -⟩ | ⟨-, hmade⟩
    · rw [hno] at harray
      cases harray
    · exact hmade.earlier hr h₁.retains h₁.owner
  resolved := h₂.resolved
  records := by
    have hfirst : r.RecordsNew s₁ := ⟨[], by rw [h₁.instances, List.append_nil], by simp⟩
    exact hfirst.trans h₂.records h₁.retains h₂.retains
  resolves t id n := (Collect.resolveType_eq_ok_iff h₂.regular).symm

end

/-- The second pass over a program whose first pass was accepted. After that every block has its
    type, so members never look for one in vain. -/
theorem Declared.progress {r : Registry} {p : Program} {mid c : Collection} {count : Nat}
    (h : Declared r p.headers mid.registry count)
    (hmembers : Collect.outcome (p.forM fun d => Collect.collectDeclaration d.value) mid =
      (.ok (), c)) :
    Progress mid.registry p.members c.registry ∧ c.declared = mid.declared := by
  have hblocks : ∀ m ∈ p.members, ∀ name ∈ m.block,
      (mid.registry.lookup? name.value).isSome = true := by
    intro m hm name hname
    rcases Program.header_of_block hm hname with ⟨head, hhead, hvalue⟩
    rcases h.fits head hhead with ⟨id, e, hid, -⟩
    rw [← hvalue]
    exact Option.isSome_of_eq_some hid
  have hrun := Collect.collectDeclarations_eq_ok hmembers
  exact Collect.progress_members h.regular hblocks hrun

/-- An accepted program has exactly its effect on the registry that it is collected into, whatever
    was done to that before. -/
theorem collect_effect {r : Registry} (hr : Reachable r) {p : Program} {c : Collection}
    (h : r.collect p = (.ok (), c)) : Effect r p c := by
  rcases Collect.outcome_bind_eq_ok.mp h with ⟨u, mid, htypes, hmembers⟩
  rcases Collect.declared_types hr.regular htypes with ⟨count, hdeclared, hcount⟩
  rcases hdeclared.progress hmembers with ⟨hprogress, hsame⟩
  have hc : c = ⟨c.registry, count⟩ := by
    rw [← Nat.zero_add count, ← hcount, ← hsame]
  rw [hc]
  exact effect_of_passes hr.regular hdeclared hprogress

/-- Unknown names and closed ones do not add up to the new types: where a class re-opens a primitive
    of the same program, the two have one type. -/
theorem collect_effect_reopened :
    let r := initial .host64
    let source := "primitive Small < Value : i8 1\nclass Small\nend\n"
    let p : Program := (Program.ofSource source).toOption.getD []
    let c := (r.collect p).2
    (Program.ofSource source).isOk = true ∧ (r.collect p).1.isOk = true ∧
      r.unknownNames p = ["Small"] ∧ closedNames p.headers = ["Small"] ∧
      (r.addedTypes c.registry).map c.registry.nameOf = ["Small"] ∧ c.declared = 1 := by
  decide +kernel

/-- A class that waits for its superclass, a class with two blocks, and an instance within
    another. -/
def shapes : Program :=
  let name (text : String) : Ident := ⟨text, .point 0⟩
  let at0 {α : Type} (a : α) : Located α := ⟨a, .point 0⟩
  let named (text : String) : TypeExpr := .named (name text)
  let array (t : TypeExpr) : TypeExpr := .generic "Array" t (.point 0)
  let points : Parameter := ⟨"points", array (array (named "Float")), .point 0⟩
  [at0 (.classBlock (name "Circle") (some (name "Shape")) [at0 (.inclusion (name "Drawable"))]),
    at0 (.classBlock (name "Shape") none
      [at0 (.method ⟨name "draw", [points], some (named "Bool")⟩)]),
    at0 (.moduleBlock (name "Drawable") [at0 (.method ⟨name "radii", [], array (named "Float")⟩)]),
    at0 (.classBlock (name "Shape") none [at0 (.method ⟨name "area", [], named "Float"⟩)]),
    at0 (.primitive (name "Byte") (name "Value") (name "i8") (at0 1)),
    at0 (.libBlock (name "C") (some (at0 "c")) [at0 ⟨name "abs", [], named "Int"⟩]),
    at0 (.inclusion (name "Drawable"))]

/-- Five types are declared, and two instances are made for three expressions. -/
theorem collect_effect_shapes :
    let r := initial .host64
    Effect r shapes (r.collect shapes).2 ∧ (r.collect shapes).2.declared = 5 ∧
      (r.collect shapes).2.registry.size = r.size + 7 := by
  intro r
  have hinitial : Reachable r := .initial (ofTarget_eq_ok_iff.mpr ⟨by decide, rfl⟩)
  have hok : (r.collect shapes).1.isOk = true := by decide +kernel
  have haccepted : (r.collect shapes).1 = .ok () := by
    cases houtcome : (r.collect shapes).1 with
    | ok u => rfl
    | error e =>
      rw [houtcome] at hok
      cases hok
  exact ⟨collect_effect hinitial (Prod.ext haccepted rfl), by decide +kernel, by decide +kernel⟩

end Registry

end DeclLang
