import DeclLang.Proofs.Collection.Instances
import DeclLang.Proofs.Registry.Cache

/-!
# Sharing: one array for a template and an element

What the cache has for a template and an element is an array of that element, made from that
template, and no array stands for two pairs. So whoever asks for an instance gets an array of what
was asked for, and whoever asks again gets the same one (`instances_shared`). This holds after any
run, in which arrays may have been named, rebound, or given elements that are not registered.
-/

namespace DeclLang.Registry

/-- An entry is an array with this element, made from this template or from none. -/
def IsArray (r : Registry) (id element : TypeId) (template : Option TypeId) : Prop :=
  ∃ e superclass, r.get? id = some e ∧ e.kind = .array superclass element template

variable {r s : Registry} {template template' element element' id array : TypeId}

/-! ## The cache -/

/-- An entry is an array in one way. -/
theorem IsArray.unique {t t' : Option TypeId} (h : r.IsArray id element t)
    (h' : r.IsArray id element' t') : element = element' ∧ t = t' := by
  obtain ⟨e, superclass, he, hkind⟩ := h
  obtain ⟨e', superclass', he', hkind'⟩ := h'
  rw [he, Option.some.injEq] at he'
  rw [← he', hkind, TypeKind.array.injEq] at hkind'
  exact hkind'.2

/-- What an array was made from is an array that was made from none. -/
theorem IsArray.exists_template (hr : WellFormed r) (h : r.IsArray id element (some template)) :
    ∃ previous, r.IsArray template previous none := by
  obtain ⟨e, superclass, he, hkind⟩ := h
  obtain ⟨source, previous, hsource, hskind⟩ := (hr.sound_get? he).template hkind
  exact ⟨previous, source, superclass, hsource, hskind⟩

theorem CacheSound.isArray (h : r.CacheSound) (hcached : r.cached? template element = some id) :
    r.IsArray id element (some template) :=
  h.kind_of_cached? hcached

/-- An array is the instance for one pair only. -/
theorem CacheSound.pair_unique (h : r.CacheSound) (hid : r.cached? template element = some id)
    (hid' : r.cached? template' element' = some id) :
    template = template' ∧ element = element' := by
  obtain ⟨helement, htemplate⟩ := (h.isArray hid).unique (h.isArray hid')
  exact ⟨Option.some.inj htemplate, helement⟩

/-! ## Asking -/

/-- What can be specialized is an array, and behind it is its template or itself. -/
theorem isArray_of_templateOf (h : r.templateOf array = .ok template) :
    ∃ previous own, r.IsArray array previous own ∧ own.getD array = template := by
  obtain ⟨e, he, harray, hbehind⟩ := templateOf_eq_ok.mp h
  cases hkind : e.kind with
  | array superclass previous own =>
    rw [hkind] at hbehind
    exact ⟨previous, own, ⟨e, superclass, he, hkind⟩, hbehind⟩
  | _ => simp [hkind, TypeKind.isArray] at harray

/-- Asking for an instance gives an array of what was asked for, and the same when it is asked for
    again. -/
theorem Regular.isArray_of_instantiate (hr : Regular r) (hcache : r.CacheSound)
    (h : r.instantiate array element = .ok (id, s)) :
    ∃ previous own, r.IsArray array previous own ∧ s.IsArray id element (some (own.getD array)) ∧
      s.instantiate array element = .ok (id, s) := by
  have happly : (Operation.instantiate array element).apply r = .ok s := map_snd_eq_ok.mpr ⟨id, h⟩
  have hs : s.CacheSound := hcache.change hr (change_of_apply happly)
  obtain ⟨htemplate, hcached⟩ := hr.cached?_of_instantiate h
  obtain ⟨previous, own, harray, hbehind⟩ := isArray_of_templateOf (instantiate_eq_ok hr h).1
  refine ⟨previous, own, harray, ?_, instantiate_of_cached htemplate hcached⟩
  rw [hbehind]
  exact hs.isArray hcached

/-- After any run an array that is found in the cache was made from the template that it is found
    under, which was made from none, and has the element that it is found under; and it is found
    under no other pair. Whoever asks for an instance gets an array with the element, made from the
    template of what was asked to be specialized or from that itself. Asking again gives the same
    array and changes nothing. -/
theorem instances_shared (h : Reachable r) :
    (∀ template element id, r.cached? template element = some id →
      r.IsArray id element (some template) ∧ ∃ previous, r.IsArray template previous none) ∧
    (∀ template element template' element' id, r.cached? template element = some id →
      r.cached? template' element' = some id → template = template' ∧ element = element') ∧
    (∀ array element id s, r.instantiate array element = .ok (id, s) →
      ∃ previous own, r.IsArray array previous own ∧
        s.IsArray id element (some (own.getD array)) ∧
        s.instantiate array element = .ok (id, s)) ∧
    ∀ element id s, r.arrayOf element = .ok (id, s) →
      s.IsArray id element (some Builtin.array.typeId) ∧ s.arrayOf element = .ok (id, s) := by
  have hr := h.regular
  have hcache := h.cacheSound
  refine ⟨fun template element id hcached => ?_, fun _ _ _ _ _ => hcache.pair_unique,
    fun array element id s hmake => hr.isArray_of_instantiate hcache hmake,
    fun element id s hmake => ?_⟩
  · have harray := hcache.isArray hcached
    exact ⟨harray, harray.exists_template hr.toWellFormed⟩
  · obtain ⟨previous, own, harray, hmade, hagain⟩ := hr.isArray_of_instantiate hcache hmake
    -- The builtin array is its own template.
    obtain ⟨previous', own', harray', hbehind⟩ :=
      isArray_of_templateOf (instantiate_eq_ok hr hmake).1
    obtain rfl := (harray.unique harray').2
    rw [hbehind] at hmade
    exact ⟨hmade, hagain⟩

/-- `ARGV` was rebound to an element that is not registered, for which there is a named array. So it
    is the instance for nothing, and an array of strings is made when one is asked for. -/
theorem instances_shared_rebound_argv :
    let named := (initial .host64).perform (.specialize Builtin.array.typeId ⟨99⟩ (some "Loose"))
    let r := named.perform (.rebindElement Builtin.argv.typeId ⟨99⟩)
    Reachable r ∧ r.IsArray ⟨14⟩ ⟨99⟩ (some Builtin.array.typeId) ∧
      ∃ s, r.arrayOf Builtin.string.typeId = .ok (⟨15⟩, s) ∧
        s.arrayOf Builtin.string.typeId = .ok (⟨15⟩, s) := by
  intro named r
  have hinitial : Reachable (initial .host64) :=
    .initial (ofTarget_eq_ok_iff.mpr ⟨by decide, rfl⟩)
  have harray : Builtin.array.typeId.index < (initial .host64).size := by decide
  have hnamed : Reachable named := .operation _ hinitial harray
  have hargv : Builtin.argv.typeId.index < named.size := by decide +kernel
  have hreach : Reachable r := .operation _ hnamed hargv
  obtain ⟨hsound, -, -, hasked⟩ := instances_shared hreach
  have hcached : r.cached? Builtin.array.typeId ⟨99⟩ = some ⟨14⟩ := by decide +kernel
  have hmake : (r.arrayOf Builtin.string.typeId).toOption.map Prod.fst = some ⟨15⟩ := by
    decide +kernel
  refine ⟨hreach, (hsound _ _ _ hcached).1, ?_⟩
  cases hmade : r.arrayOf Builtin.string.typeId with
  | error e =>
    rw [hmade] at hmake
    cases hmake
  | ok result =>
    obtain ⟨id, s⟩ := result
    rw [hmade] at hmake
    obtain rfl : id = ⟨15⟩ := Option.some.inj hmake
    exact ⟨s, rfl, (hasked _ _ _ hmade).2⟩

end DeclLang.Registry
