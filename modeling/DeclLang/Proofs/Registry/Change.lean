import DeclLang.Proofs.Registry.Run

/-!
# Changes: what a single operation can do to a registry

Every operation that is not refused either leaves the registry as it is, or adds one entry at its
end, or changes one entry. `Change` lists these cases with the conditions under which each happens,
and `change_of_apply` says that there are no others.
-/

namespace DeclLang.Registry

/-! ## Parts of an operation -/

theorem require_eq_ok {r : Registry} {id : TypeId} {e : Entry} :
    r.require id = .ok e ↔ r.get? id = some e := by
  unfold require
  split <;> simp_all

theorem requireOwner_eq_ok {r : Registry} {owner : Owner} {e : Entry} :
    r.requireOwner owner = .ok e ↔ r.owner? owner = some e := by
  cases owner with
  | main => simp [requireOwner, owner?]
  | type id => exact require_eq_ok

/-- A chain of operations succeeds when each of them does. -/
theorem bind_eq_ok {ε α β : Type} {x : Except ε α} {f : α → Except ε β} {b : β} :
    (x >>= f) = .ok b ↔ ∃ a, x = .ok a ∧ f a = .ok b := by
  cases x with
  | error e => simp [bind, Except.bind]
  | ok a => simp [bind, Except.bind]

theorem pure_eq_ok {ε α : Type} {a b : α} : (pure a : Except ε α) = .ok b ↔ a = b := by
  simp [pure, Except.pure]

@[simp] theorem throw_ne_ok {ε α : Type} {e : ε} {a : α} : (throw e : Except ε α) ≠ .ok a := by
  simp [throw, throwThe, MonadExceptOf.throw]

theorem ok_of_isOk {ε α : Type} {x : Except ε α} (h : x.isOk = true) (default : α) :
    x = .ok (x.toOption.getD default) := by
  cases x with
  | ok a => rfl
  | error e => cases h

theorem map_snd_eq_ok {ε α β : Type} {x : Except ε (α × β)} {b : β} :
    x.map Prod.snd = .ok b ↔ ∃ a, x = .ok (a, b) := by
  cases x with
  | error e => simp [Except.map]
  | ok y =>
    rcases y with ⟨a, b'⟩
    simp [Except.map]

theorem requireClass_eq_ok {r : Registry} {id : TypeId} {u : Unit} :
    r.requireClass id = .ok u ↔ ∃ e, r.get? id = some e ∧ e.kind.isClassLike = true := by
  unfold requireClass
  rw [bind_eq_ok]
  constructor
  · rintro ⟨e, he, h⟩
    by_cases hc : e.kind.isClassLike = true
    · exact ⟨e, require_eq_ok.mp he, hc⟩
    · simp [hc] at h
  · rintro ⟨e, he, hc⟩
    exact ⟨e, require_eq_ok.mpr he, by simp [hc, pure, Except.pure]⟩

theorem checkLayout_eq_ok {target : Target} {name : String} {repr : Representation}
    {byteSize : Nat} {u : Unit} :
    checkLayout target name repr byteSize = .ok u ↔ byteSize = repr.storageSize target := by
  unfold checkLayout
  by_cases h : byteSize = repr.storageSize target <;> simp [h]

/-! ## Changes -/

/-- The kinds that a type can be declared with. -/
def Declarable (r : Registry) : TypeKind → Prop
  | .object superclass =>
    ∃ id e, superclass = some id ∧ r.get? id = some e ∧ e.kind.isClassLike = true
  | .primitive superclass repr byteSize =>
    (∃ e, r.get? superclass = some e ∧ e.kind.isClassLike = true) ∧
      byteSize = repr.storageSize r.target
  | .module | .lib _ => True
  | .array .. => False

/-- The registry after an array was given another element. -/
def rebound (r : Registry) (array previous element : TypeId) (template : Option TypeId)
    (superclass : Option TypeId) : Registry :=
  let r := r.modifyOwner (.type array) ({ · with kind := .array superclass element template })
  match template with
  | none => r
  | some template =>
    let r := if r.cached? template previous = some array then r.uncache template previous else r
    r.cache ⟨template, element, array⟩

/-- One step of a registry. -/
inductive Change (r : Registry) : Registry → Prop where
  | none : Change r r
  | declared {name : String} {kind : TypeKind} :
      r.lookup? name = .none → r.Declarable kind → Change r (r.push (.bare name kind)).2
  | specialized {name : String} {array element template base : TypeId} {source : Entry} :
      r.templateOf array = .ok template → r.templateOf template = .ok base →
      r.get? base = some source → r.lookup? name = .none →
      Change r ((r.push (specialized name element base source)).2.cache
        ⟨template, element, ⟨r.size⟩⟩)
  | mixedIn {owner : Owner} {module : TypeId} {o m : Entry} :
      r.owner? owner = some o → r.get? module = some m → m.kind.isModule = true →
      owner ≠ .type module → module ∉ o.includes →
      Change r (r.modifyOwner owner (·.mixIn module))
  | defined {owner : Owner} {s : Signature} {o : Entry} :
      r.owner? owner = some o → o.method? s.name = .none →
      Change r (r.modifyOwner owner (·.define s))
  | rebound {array element previous : TypeId} {superclass template : Option TypeId} {e : Entry} :
      r.get? array = some e → e.kind = .array superclass previous template →
      Change r (r.rebound array previous element template superclass)

/-! ## What each operation changes -/

variable {r s : Registry} {id : TypeId}

-- All declarations end in `register`; they differ in what they ask of the kind before it.
theorem change_register {name : String} {kind : TypeKind}
    (h : r.register (.bare name kind) = .ok (id, s)) (hkind : r.Declarable kind) :
    Change r s := by
  rcases register_eq_ok_iff.mp h with ⟨hfree, hpush⟩
  have hs : (r.push (.bare name kind)).2 = s := congrArg Prod.snd hpush
  rw [← hs]
  exact .declared hfree hkind

theorem change_declareObject {name : String} {superclass : TypeId}
    (h : r.declareObject name superclass = .ok (id, s)) : Change r s := by
  rcases bind_eq_ok.mp h with ⟨u, hclass, h⟩
  rcases requireClass_eq_ok.mp hclass with ⟨e, he, hc⟩
  exact change_register h ⟨superclass, e, rfl, he, hc⟩

theorem change_declarePrimitive {name : String} {superclass : TypeId} {repr : Representation}
    {byteSize : Nat} (h : r.declarePrimitive name superclass repr byteSize = .ok (id, s)) :
    Change r s := by
  rcases bind_eq_ok.mp h with ⟨u, hclass, h⟩
  rcases bind_eq_ok.mp h with ⟨u', hlayout, h⟩
  -- The layout error is wrapped, but a wrapped check passes when the check does.
  have hsize : byteSize = repr.storageSize r.target := by
    cases hcheck : checkLayout r.target name repr byteSize with
    | ok v => exact checkLayout_eq_ok.mp hcheck
    | error e =>
      rw [hcheck] at hlayout
      exact nomatch hlayout
  exact change_register h ⟨requireClass_eq_ok.mp hclass, hsize⟩

theorem mixIn_eq_ok {owner : Owner} {module : TypeId} (h : r.mixIn owner module = .ok s) :
    ∃ o m, r.owner? owner = some o ∧ r.get? module = some m ∧ m.kind.isModule = true ∧
      owner ≠ .type module ∧ module ∉ o.includes ∧ s = r.modifyOwner owner (·.mixIn module) := by
  rcases bind_eq_ok.mp h with ⟨m, hm, h⟩
  rcases bind_eq_ok.mp h with ⟨o, ho, h⟩
  refine ⟨o, m, requireOwner_eq_ok.mp ho, require_eq_ok.mp hm, ?_⟩
  split at h
  · exact absurd h throw_ne_ok
  · rename_i hmodule
    split at h
    · exact absurd h throw_ne_ok
    · rename_i hself
      split at h
      · exact absurd h throw_ne_ok
      · rename_i hfresh
        exact ⟨by simpa using hmodule, hself, by simpa using hfresh, (pure_eq_ok.mp h).symm⟩

theorem change_mixIn {owner : Owner} {module : TypeId} (h : r.mixIn owner module = .ok s) :
    Change r s := by
  rcases mixIn_eq_ok h with ⟨o, m, ho, hm, hmodule, hself, hfresh, rfl⟩
  exact .mixedIn ho hm hmodule hself hfresh

theorem defineMethod_eq_ok {owner : Owner} {signature : Signature}
    (h : r.defineMethod owner signature = .ok s) :
    ∃ o, r.owner? owner = some o ∧ o.method? signature.name = .none ∧
      s = r.modifyOwner owner (·.define signature) := by
  rcases bind_eq_ok.mp h with ⟨o, ho, h⟩
  refine ⟨o, requireOwner_eq_ok.mp ho, ?_⟩
  split at h
  · exact absurd h throw_ne_ok
  · rename_i hfree
    exact ⟨hfree, (pure_eq_ok.mp h).symm⟩

theorem change_defineMethod {owner : Owner} {signature : Signature}
    (h : r.defineMethod owner signature = .ok s) : Change r s := by
  rcases defineMethod_eq_ok h with ⟨o, ho, hfree, rfl⟩
  exact .defined ho hfree

/-- What is cloned is the template of what is asked for. -/
theorem cloneArray?_eq_some {element : TypeId} {name : String} {e : Entry}
    (h : r.cloneArray? id element name = some e) :
    ∃ base source, r.templateOf id = .ok base ∧ r.get? base = some source ∧
      e = specialized name element base source := by
  rcases Option.bind_eq_some_iff.mp h with ⟨array, harray, h⟩
  split at h
  · rename_i superclass previous template hkind
    rcases Option.bind_eq_some_iff.mp h with ⟨source, hsource, h⟩
    refine ⟨template.getD id, source, ?_, hsource, ?_⟩
    · rw [templateOf, require_eq_ok.mpr harray]
      dsimp only [bind, Except.bind]
      rw [hkind]
      rfl
    · split at h
      · exact (Option.some.inj h).symm
      · cases h
  · cases h

theorem specialize_eq_ok {array element : TypeId} {name : Option String}
    (h : r.specialize array element name = .ok (id, s)) :
    ∃ template base source, r.templateOf array = .ok template ∧ r.templateOf template = .ok base ∧
      r.get? base = some source ∧
      r.lookup? (name.getD (r.instanceName template element)) = none ∧ id = ⟨r.size⟩ ∧
      s = (r.push (specialized (name.getD (r.instanceName template element)) element base
        source)).2.cache ⟨template, element, ⟨r.size⟩⟩ := by
  rcases bind_eq_ok.mp h with ⟨template, htemplate, h⟩
  dsimp only at h
  split at h
  · exact absurd h throw_ne_ok
  · rename_i clone hclone
    rcases cloneArray?_eq_some hclone with ⟨base, source, hbase, hsource, rfl⟩
    rcases bind_eq_ok.mp h with ⟨⟨new, t⟩, hregister, h⟩
    rcases register_eq_ok_iff.mp hregister with ⟨hfree, hpush⟩
    rw [pure_eq_ok, Prod.mk.injEq] at h
    have hnew : new = ⟨r.size⟩ := (congrArg Prod.fst hpush).symm
    have ht := congrArg Prod.snd hpush
    refine ⟨template, base, source, htemplate, hbase, hsource, hfree, h.1.symm.trans hnew, ?_⟩
    rw [← h.2, hnew]
    exact congrArg (cache · _) ht.symm

theorem change_specialize {array element : TypeId} {name : Option String}
    (h : r.specialize array element name = .ok (id, s)) : Change r s := by
  rcases specialize_eq_ok h with ⟨template, base, source, htemplate, hbase, hsource, hfree, -, rfl⟩
  exact .specialized htemplate hbase hsource hfree

theorem change_instantiate {array element : TypeId}
    (h : r.instantiate array element = .ok (id, s)) : Change r s := by
  rcases bind_eq_ok.mp h with ⟨template, htemplate, h⟩
  -- An instance that is remembered is returned; any other one is a specialization without a name.
  split at h
  · rw [pure_eq_ok, Prod.mk.injEq] at h
    rw [← h.2]
    exact .none
  · exact change_specialize h

theorem rebindElement_eq_ok {array element : TypeId} (h : r.rebindElement array element = .ok s) :
    ∃ e superclass previous template, r.get? array = some e ∧
      e.kind = .array superclass previous template ∧
      s = r.rebound array previous element template superclass := by
  rcases bind_eq_ok.mp h with ⟨e, he, h⟩
  split at h
  · rename_i superclass previous template hkind
    refine ⟨e, superclass, previous, template, require_eq_ok.mp he, hkind, ?_⟩
    -- Only an array with a template is in the cache, so only that one is moved there.
    cases template <;> exact (pure_eq_ok.mp h).symm
  · exact absurd h throw_ne_ok

theorem change_rebindElement {array element : TypeId}
    (h : r.rebindElement array element = .ok s) : Change r s := by
  rcases rebindElement_eq_ok h with ⟨e, superclass, previous, template, he, hkind, rfl⟩
  exact .rebound he hkind

/-- An operation that is not refused makes one of the listed changes. -/
theorem change_of_apply {op : Operation} (h : op.apply r = .ok s) : Change r s := by
  cases op with
  | mixIn owner module => exact change_mixIn h
  | defineMethod owner signature => exact change_defineMethod h
  | rebindElement array element => exact change_rebindElement h
  | declareObject name superclass =>
    rcases map_snd_eq_ok.mp h with ⟨id, h⟩
    exact change_declareObject h
  | declareModule name =>
    rcases map_snd_eq_ok.mp h with ⟨id, h⟩
    exact change_register h trivial
  | declarePrimitive name superclass repr byteSize =>
    rcases map_snd_eq_ok.mp h with ⟨id, h⟩
    exact change_declarePrimitive h
  | declareLib name libname =>
    rcases map_snd_eq_ok.mp h with ⟨id, h⟩
    exact change_register h trivial
  | specialize array element name =>
    rcases map_snd_eq_ok.mp h with ⟨id, h⟩
    exact change_specialize h
  | instantiate array element =>
    rcases map_snd_eq_ok.mp h with ⟨id, h⟩
    exact change_instantiate h
  | arrayOf element =>
    rcases map_snd_eq_ok.mp h with ⟨id, h⟩
    exact change_instantiate h

end DeclLang.Registry
