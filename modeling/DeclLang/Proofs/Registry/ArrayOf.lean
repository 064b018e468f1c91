import DeclLang.Proofs.Collection.Consing

/-!
# The array of an element: when it can be asked for

Asking for the array of an element gives the one that the cache has, or makes one under the name of
the element in brackets. In a run whose types are given plain names, that name is taken only by an
array that was made for the element, so asking succeeds as long as the cache does not lose the
array. Rebinding is all that can make it do so: the array keeps its name when it gets another
element, and after that the old element may have neither an array in the cache nor a free name for
one (`arrayOf_taken`).
-/

namespace DeclLang

namespace Operation

/-- The name that an operation gives a type, if it gives one. -/
def name? : Operation → Option String
  | .declareObject name _ | .declareModule name | .declarePrimitive name _ _ _
  | .declareLib name _ => some name
  | .specialize _ _ name => name
  | .mixIn .. | .defineMethod .. | .instantiate .. | .arrayOf _ | .rebindElement .. => none

/-- The element that an operation takes its array away from: that of an array that is rebound to
    another element, if it is the array that the cache has for it. -/
def bereaved (r : Registry) : Operation → List TypeId
  | .rebindElement array element =>
    match (r.get? array).map Entry.kind with
    | some (.array _ previous (some template)) =>
      if r.cached? template previous = some array ∧ previous ≠ element then [previous] else []
    | _ => []
  | _ => []

end Operation

namespace Registry

variable {r s : Registry} {lost lost' : List TypeId}

/-- The registries that the builtin types of a target can become when types are given plain names
    only, and the elements that lost their array on the way. -/
inductive PlainRun : List TypeId → Registry → Prop where
  | initial {target : Target} {r : Registry} : ofTarget target = .ok r → PlainRun [] r
  | operation {lost : List TypeId} {r : Registry} (op : Operation) :
      PlainRun lost r → op.IdsRegistered r → (∀ n ∈ op.name?, IsPlain n) →
      PlainRun (op.bereaved r ++ lost) (r.perform op)
  | program {lost : List TypeId} {r : Registry} (p : Program) :
      PlainRun lost r → p.Plain → PlainRun lost (r.collect p).2.registry

/-! ## The invariant -/

/-- What the names of arrays say about the cache. -/
structure Tracked (lost : List TypeId) (r : Registry) : Prop extends Regular r, CacheSound r where
  start : (initial r.target).Extends r
  /-- A name that is not plain is that of the array that was made for an element. -/
  named : ∀ {id e}, r.get? id = some e → ¬ IsPlain e.name → e.kind.isArray = true ∧
    ∃ element, (r.get? element).isSome = true ∧ e.name = instanceOf (r.nameOf element)
  /-- An element whose name was used has an array, unless that was taken away. -/
  kept : ∀ {id e element}, r.get? id = some e → (r.get? element).isSome = true →
    element ∉ lost → e.name = instanceOf (r.nameOf element) →
    (r.cached? Builtin.array.typeId element).isSome = true

theorem Extends.nameOf (h : r.Extends s) {id : TypeId} (hid : (r.get? id).isSome = true) :
    s.nameOf id = r.nameOf id := by
  obtain ⟨e, he⟩ := Option.isSome_iff_exists.mp hid
  obtain ⟨f, hf, hef⟩ := h.get? he
  rw [Registry.nameOf, Registry.nameOf, he, hf]
  exact hef.name

theorem Extends.isSome_get? (h : r.Extends s) {id : TypeId} (hid : (r.get? id).isSome = true) :
    (s.get? id).isSome = true := by
  obtain ⟨e, he⟩ := Option.isSome_iff_exists.mp hid
  obtain ⟨f, hf, -⟩ := h.get? he
  exact Option.isSome_of_eq_some hf

/-- The builtin array is one, under its name. -/
theorem Tracked.builtin_array (h : Tracked lost r) :
    r.templateOf Builtin.array.typeId = .ok Builtin.array.typeId ∧
      r.nameOf Builtin.array.typeId = "Array" := by
  obtain ⟨e, he, hext⟩ := h.start.get? (get?_initial r.target .array)
  obtain ⟨element, hkind⟩ := hext.kind
  refine ⟨templateOf_eq_ok.mpr ⟨e, he, by rw [hkind]; rfl, by rw [hkind]; rfl⟩, ?_⟩
  rw [nameOf, he]
  exact hext.name

theorem Tracked.instanceName (h : Tracked lost r) (element : TypeId) :
    r.instanceName Builtin.array.typeId element = instanceOf (r.nameOf element) := by
  rw [Registry.instanceName, h.builtin_array.2]
  rfl

theorem tracked_initial (target : Target) : Tracked [] (initial target) where
  toRegular := regular_initial target
  toCacheSound := cacheSound_initial target
  start := .refl _
  named h hname := absurd (isPlain_of_get?_initial h) hname
  kept {id e element} h _ _ hname := by
    have hplain := isPlain_of_get?_initial h
    rw [hname] at hplain
    exact absurd hplain (not_isPlain_instanceOf _)

theorem Tracked.mono (h : Tracked lost r) (hlost : lost ⊆ lost') : Tracked lost' r where
  toRegular := h.toRegular
  toCacheSound := h.toCacheSound
  start := h.start
  named := h.named
  kept he helement hnot := h.kept he helement fun hmem => hnot (hlost hmem)

/-- Only what is new has to be looked at, and what the cache may have lost. -/
theorem Tracked.of_extends (h : Tracked lost r) (hs : Regular s) (hcache : s.CacheSound)
    (hext : r.Extends s)
    (hnew : ∀ {id e}, s.get? id = some e → r.get? id = none → ¬ IsPlain e.name →
      e.kind.isArray = true ∧ ∃ element, (r.get? element).isSome = true ∧
        e.name = instanceOf (r.nameOf element) ∧
        (s.cached? Builtin.array.typeId element).isSome = true)
    (hkept : ∀ {element}, (r.get? element).isSome = true → element ∉ lost' →
      (r.cached? Builtin.array.typeId element).isSome = true →
      (s.cached? Builtin.array.typeId element).isSome = true)
    (hlost : lost ⊆ lost') : Tracked lost' s := by
  -- An array that is named after an element was made for one that was there in `r`.
  have hnamed {id : TypeId} {e : Entry} (he : s.get? id = some e) (hname : ¬ IsPlain e.name) :
      e.kind.isArray = true ∧ ∃ element, (r.get? element).isSome = true ∧
        e.name = instanceOf (r.nameOf element) ∧
          (element ∉ lost' → (s.cached? Builtin.array.typeId element).isSome = true) := by
    cases hold : r.get? id with
    | none =>
      obtain ⟨harray, element, helement, hename, hcached⟩ := hnew he hold hname
      exact ⟨harray, element, helement, hename, fun _ => hcached⟩
    | some e' =>
      obtain ⟨f, hf, hef⟩ := hext.get? hold
      obtain rfl := Option.some.inj (he.symm.trans hf)
      obtain ⟨element', hkind⟩ := hef.kind
      rw [hef.name] at hname
      obtain ⟨harray, element, helement, hename⟩ := h.named hold hname
      refine ⟨?_, element, helement, hef.name.trans hename, fun hnot => ?_⟩
      · rw [hkind, TypeKind.isArray_withElement]
        exact harray
      · exact hkept helement hnot
          (h.kept hold helement (fun hmem => hnot (hlost hmem)) hename)
  refine ⟨hs, hcache, ?_, fun {id e} he hname => ?_,
    fun {id e element} he helement hnot hname => ?_⟩
  · rw [hext.target]
    exact h.start.trans hext
  · obtain ⟨harray, element, helement, hename, -⟩ := hnamed he hname
    refine ⟨harray, element, hext.isSome_get? helement, ?_⟩
    rw [hext.nameOf helement]
    exact hename
  · have hbrackets : ¬ IsPlain e.name := by
      rw [hname]
      exact not_isPlain_instanceOf _
    obtain ⟨-, element', helement', hename, hcached⟩ := hnamed he hbrackets
    have hsame : s.nameOf element' = s.nameOf element := by
      rw [hext.nameOf helement']
      exact instanceOf_injective (hename.symm.trans hname)
    obtain rfl := nameOf_inj hs.toWellFormed (hext.isSome_get? helement') helement hsame
    exact hcached hnot

/-! ## What is kept -/

/-- The cache does not lose a record when it gets another one. -/
theorem isSome_cached?_cache {template element : TypeId}
    (h : (r.cached? template element).isSome = true) (i : ArrayInstance) :
    ((r.cache i).cached? template element).isSome = true := by
  obtain hsame | ⟨-, hadded⟩ := instances_cache r i
  · rw [cached?, hsame]
    exact h
  · rw [cached?, Option.isSome_map] at h ⊢
    rw [hadded, List.find?_append, Option.isSome_or, h, Bool.true_or]

theorem cached?_uncache_of_ne {template element previous : TypeId} (h : element ≠ previous) :
    (r.uncache template previous).cached? template element = r.cached? template element := by
  have hkeep (i : ArrayInstance) :
      (i.template == template && i.element == element) = true →
        (!(i.template == template && i.element == previous)) = true := by
    intro hi
    simp only [Bool.and_eq_true, beq_iff_eq] at hi
    obtain ⟨rfl, rfl⟩ := hi
    simpa using h
  rw [cached?, cached?, uncache, List.find?_filter]
  congr 2
  funext i
  have hi := hkeep i
  grind

theorem Tracked.gain (h : Tracked lost r) (hs : Regular s) (hcache : s.CacheSound)
    (hext : r.Extends s) (hgain : Gain IsPlain r s) : Tracked lost s := by
  refine h.of_extends hs hcache hext (fun {id e} he hid hname => ?_)
    (fun {element} _ _ hcached => ?_) (List.Subset.refl _)
  · cases hgain with
    | declared hplain =>
      obtain ⟨-, rfl⟩ := get?_push_new he hid
      exact absurd hplain hname
    | changed => exact absurd hid (get?_ne_none_of_modifyOwner he)
  · obtain ⟨array, harray⟩ := Option.isSome_iff_exists.mp hcached
    exact Option.isSome_of_eq_some (hgain.retains.cached? harray)

/-- A specialization is given a plain name, or it is named after an element that it becomes the
    array of if there is none. -/
theorem Tracked.specialize (h : Tracked lost r) {name : String} {element : TypeId} {source : Entry}
    (hs : s = (r.push (specialized name element Builtin.array.typeId source)).2.cache
      ⟨Builtin.array.typeId, element, ⟨r.size⟩⟩)
    (hname : IsPlain name ∨ (r.get? element).isSome = true ∧ name = instanceOf (r.nameOf element))
    (hregular : Regular s) (hcache : s.CacheSound) (hext : r.Extends s) : Tracked lost s := by
  subst hs
  refine h.of_extends hregular hcache hext (fun {id e} he hid hbrackets => ?_)
    (fun {element'} _ _ hcached => ?_) (List.Subset.refl _)
  · rw [← owner?_type, owner?_cache, owner?_type] at he
    obtain ⟨-, rfl⟩ := get?_push_new he hid
    obtain hplain | ⟨helement, hinstance⟩ := hname
    · exact absurd hplain hbrackets
    · exact ⟨rfl, element, helement, hinstance, Option.isSome_of_eq_some (cached?_cache_self _ _)⟩
  · let added := (r.push (specialized name element Builtin.array.typeId source)).2
    have hadded : (added.cached? Builtin.array.typeId element').isSome = true := hcached
    exact isSome_cached?_cache hadded _

/-- An array that is rebound keeps its name; the cache loses it if it has it for its old element. -/
theorem Tracked.rebound (h : Tracked lost r) {array element previous : TypeId}
    {superclass template : Option TypeId} {e : Entry} (he : r.get? array = some e)
    (hkind : e.kind = .array superclass previous template)
    (hs : s = r.rebound array previous element template superclass)
    (hregular : Regular s) (hcache : s.CacheSound) (hext : r.Extends s) :
    Tracked ((Operation.rebindElement array element).bereaved r ++ lost) s := by
  refine h.of_extends hregular hcache hext (fun {id f} hf hid _ => ?_)
    (fun {other} _ hnot hcached => ?_) (List.subset_append_right _ _)
  · rw [hs, ← owner?_type, owner?_rebound, owner?_type] at hf
    exact absurd hid (get?_ne_none_of_modifyOwner hf)
  · subst hs
    cases template with
    | none => exact hcached
    | some t =>
      obtain rfl : t = Builtin.array.typeId := by
        have htemplate := h.template he (by rw [hkind]; rfl)
        rwa [hkind] at htemplate
      let changed := r.modifyOwner (.type array)
        ({ · with kind := .array superclass element (some Builtin.array.typeId) })
      have hchanged : (changed.cached? Builtin.array.typeId other).isSome = true := hcached
      show Option.isSome (Registry.cached? (Registry.cache
        (if changed.cached? Builtin.array.typeId previous = some array then
          changed.uncache Builtin.array.typeId previous else changed) _) _ _) = true
      split
      · rename_i hlast
        by_cases hother : other = previous
        · -- The old element has lost its array, unless it is the new one as well.
          by_cases hsame : previous = element
          · rw [hother, hsame]
            exact Option.isSome_of_eq_some (cached?_cache_self _ _)
          · refine absurd (List.mem_append_left _ ?_) hnot
            have hlast : r.cached? Builtin.array.typeId previous = some array := hlast
            simp [Operation.bereaved, he, hkind, hlast, hsame, hother]
        · refine isSome_cached?_cache ?_ _
          rw [cached?_uncache_of_ne hother]
          exact hchanged
      · exact isSome_cached?_cache hchanged _

/-! ## Runs -/

theorem Tracked.instantiate (h : Tracked lost r) {array element id : TypeId}
    (helement : (r.get? element).isSome = true)
    (hmake : r.instantiate array element = .ok (id, s)) : Tracked lost s := by
  have happly : (Operation.instantiate array element).apply r = .ok s :=
    map_snd_eq_ok.mpr ⟨id, hmake⟩
  have hs := steadfast_regular.operation _ happly h.toRegular
  have hcache := h.toCacheSound.change h.toRegular (change_of_apply happly)
  have hext := steadfast_extends.operation _ happly
  obtain ⟨-, ⟨-, rfl⟩ | ⟨source, -, -, -, -, hsame⟩⟩ := instantiate_eq_ok h.toRegular hmake
  · exact h
  · exact h.specialize hsame (.inr ⟨helement, h.instanceName element⟩) hs hcache hext

theorem Tracked.perform (h : Tracked lost r) (op : Operation) (hids : op.IdsRegistered r)
    (hname : ∀ n ∈ op.name?, IsPlain n) : Tracked (op.bereaved r ++ lost) (r.perform op) := by
  unfold Registry.perform
  cases happly : op.apply r with
  | error e => exact h.mono (List.subset_append_right _ _)
  | ok s =>
    have hs := steadfast_regular.operation _ happly h.toRegular
    have hcache := h.toCacheSound.change h.toRegular (change_of_apply happly)
    have hext := steadfast_extends.operation _ happly
    have hgain (hop : op.Collects IsPlain) : Tracked lost s :=
      h.gain hs hcache hext (gain_of_apply hop happly)
    cases op with
    | declareObject | declareModule | declarePrimitive | declareLib =>
      exact hgain (hname _ rfl)
    | mixIn => exact hgain trivial
    | defineMethod => exact h.gain hs hcache hext (gain_of_define happly)
    | specialize array element name =>
      obtain ⟨id, hmake⟩ := map_snd_eq_ok.mp happly
      obtain ⟨source, -, -, -, hsame⟩ := h.toRegular.specialize_eq_ok hmake
      refine h.specialize hsame ?_ hs hcache hext
      cases name with
      | some name => exact .inl (hname name rfl)
      | none => exact .inr ⟨isSome_get?_iff.mpr hids.2, h.instanceName element⟩
    | instantiate array element =>
      obtain ⟨id, hmake⟩ := map_snd_eq_ok.mp happly
      exact h.instantiate (isSome_get?_iff.mpr hids.2) hmake
    | arrayOf element =>
      obtain ⟨id, hmake⟩ := map_snd_eq_ok.mp happly
      exact h.instantiate (isSome_get?_iff.mpr hids) hmake
    | rebindElement array element =>
      obtain ⟨e, superclass, previous, template, he, hkind, hsame⟩ := rebindElement_eq_ok happly
      exact h.rebound he hkind hsame hs hcache hext

theorem Tracked.of_gain (h : Tracked lost r) (hgain : Gain IsPlain r s) (op : Operation)
    (happly : op.apply r = .ok s) : Tracked lost s :=
  h.gain (steadfast_regular.operation op happly h.toRegular)
    (h.toCacheSound.change h.toRegular (change_of_apply happly)) (steadfast_extends.operation op happly) hgain

/-- Collecting makes arrays for registered elements only, and takes none away. -/
theorem steadfastOn_tracked (lost : List TypeId) :
    Collect.SteadfastOn IsPlain (Collect.Carries (Tracked lost) fun _ _ => True) :=
  Collect.steadfastOn_carries ⟨fun _ => trivial, fun _ _ => trivial⟩ Tracked.toRegular
    (fun h helement hmake => ⟨h.instantiate helement hmake, trivial⟩)
    (fun op hop happly h => ⟨h.of_gain (gain_of_apply hop happly) op happly, trivial⟩)
    fun {_ _ owner signature} h _ happly =>
      ⟨h.of_gain (gain_of_define happly) (.defineMethod owner signature) happly, trivial⟩

theorem PlainRun.tracked (h : PlainRun lost r) : Tracked lost r := by
  induction h with
  | @initial target r htarget =>
    rw [← (ofTarget_eq_ok_iff.mp htarget).2]
    exact tracked_initial target
  | operation op _ hids hname ih => exact ih.perform op hids hname
  | @program lost r p _ hp ih =>
    exact ((steadfastOn_tracked lost).keeps_program p
      (fun d hd n hn => hp d hd n (typeName?_mem_typeNames hn)) ⟨r, 0⟩ ih).1

/-! ## Asking -/

theorem instantiate_of_refused (hr : WellFormed r) {array element : TypeId} {source : Entry}
    {e : DeclarationError} (htemplate : r.templateOf array = .ok Builtin.array.typeId)
    (hsource : r.get? Builtin.array.typeId = some source)
    (hcached : r.cached? Builtin.array.typeId element = none)
    (hregister : r.register (specialized (r.instanceName Builtin.array.typeId element) element
      Builtin.array.typeId source) = .error e) : r.instantiate array element = .error e := by
  have hself := hr.templateOf_self htemplate hsource
  have hclone := hr.cloneArray?_self htemplate hsource element
    (r.instanceName Builtin.array.typeId element)
  simp only [instantiate, specialize, htemplate, hself, hcached, Option.getD_none, hclone,
    hregister, bind, Except.bind]

/-- What is given for an element is an array of it, and the same when it is asked for again. -/
theorem Tracked.arrayOf_of_ok (h : Tracked lost r) {element id : TypeId}
    (helement : (r.get? element).isSome = true) (hmake : r.arrayOf element = .ok (id, s)) :
    (∃ e superclass, s.get? id = some e ∧
      e.kind = .array superclass element (some Builtin.array.typeId)) ∧
    s.arrayOf element = .ok (id, s) := by
  have hs := h.instantiate helement hmake
  obtain ⟨htemplate, hcached⟩ := h.toRegular.cached?_of_instantiate hmake
  exact ⟨hs.toCacheSound.kind_of_cached? hcached, instantiate_of_cached htemplate hcached⟩

/-- Whether an element has an array, can get one, or has lost one whose name is still taken. -/
theorem Tracked.arrayOf_cases (h : Tracked lost r) {element : TypeId}
    (helement : (r.get? element).isSome = true) :
    (∃ id, r.cached? Builtin.array.typeId element = some id ∧ r.arrayOf element = .ok (id, r)) ∨
    (r.lookup? (instanceOf (r.nameOf element)) = none ∧ ∃ id s, r.arrayOf element = .ok (id, s)) ∨
    (r.cached? Builtin.array.typeId element = none ∧ element ∈ lost ∧
      (r.lookup? (instanceOf (r.nameOf element))).isSome = true ∧
      r.arrayOf element = .error (.alreadyDefined (instanceOf (r.nameOf element)) "array")) := by
  have htemplate := h.builtin_array.1
  obtain ⟨source, hsource⟩ := Option.isSome_iff_exists.mp h.toRegular.array
  cases hcached : r.cached? Builtin.array.typeId element with
  | some id => exact .inl ⟨id, rfl, instantiate_of_cached htemplate hcached⟩
  | none =>
    refine .inr ?_
    cases hlookup : r.lookup? (instanceOf (r.nameOf element)) with
    | none =>
      rw [← h.instanceName] at hlookup
      exact .inl ⟨rfl, _, _, instantiate_of_free h.toWellFormed htemplate hsource hcached hlookup⟩
    | some id =>
      obtain ⟨old, hold, hname⟩ := get?_of_lookup? hlookup
      have hbrackets : ¬ IsPlain old.name := by
        rw [hname]
        exact not_isPlain_instanceOf _
      have hlost : element ∈ lost := Decidable.byContradiction fun hnot => by
        have hkept := h.kept hold helement hnot hname
        rw [hcached] at hkept
        cases hkept
      have hlabel : old.kind.label = "array" := by
        have harray := (h.named hold hbrackets).1
        cases hkind : old.kind <;> rw [hkind] at harray <;> first | rfl | cases harray
      have hregister := register_of_taken h.toWellFormed hold
        (e := specialized (r.instanceName Builtin.array.typeId element) element
          Builtin.array.typeId source) (by rw [hname, ← h.instanceName]; rfl)
      rw [hlabel] at hregister
      refine .inr ⟨rfl, hlost, rfl, ?_⟩
      rw [← h.instanceName]
      exact instantiate_of_refused h.toWellFormed htemplate hsource hcached hregister

/-- After a run in which types are given plain names, asking for the array of a registered element
    gives an array of it, the same each time, if the cache has one or the name for one is free.
    Otherwise the element has lost its array to a rebinding, and asking for it is refused. -/
theorem arrayOf_answer (h : PlainRun lost r) {element : TypeId}
    (helement : element.index < r.size) :
    (∀ id s, r.arrayOf element = .ok (id, s) →
      (∃ e superclass, s.get? id = some e ∧
        e.kind = .array superclass element (some Builtin.array.typeId)) ∧
      s.arrayOf element = .ok (id, s)) ∧
    (∀ e, r.arrayOf element = .error e →
      element ∈ lost ∧ e = .alreadyDefined (instanceOf (r.nameOf element)) "array") ∧
    ((∃ id s, r.arrayOf element = .ok (id, s)) ↔
      (r.cached? Builtin.array.typeId element).isSome = true ∨
        r.lookup? (instanceOf (r.nameOf element)) = none) := by
  have htracked := h.tracked
  have hregistered := isSome_get?_iff.mpr helement
  refine ⟨fun id s hmake => htracked.arrayOf_of_ok hregistered hmake, ?_⟩
  obtain ⟨id, hcached, hmake⟩ | ⟨hfree, id, s, hmake⟩ | ⟨hcached, hlost, htaken, hrefused⟩ :=
    htracked.arrayOf_cases hregistered
  · refine ⟨fun e herror => ?_, fun _ => .inl ?_, fun _ => ⟨id, r, hmake⟩⟩
    · rw [hmake] at herror
      cases herror
    · rw [hcached]
      rfl
  · refine ⟨fun e herror => ?_, fun _ => .inr hfree, fun _ => ⟨id, s, hmake⟩⟩
    rw [hmake] at herror
    cases herror
  · refine ⟨fun e herror => ?_, ?_, ?_⟩
    · rw [hrefused] at herror
      exact ⟨hlost, (Except.error.inj herror).symm⟩
    · rintro ⟨id, s, hmake⟩
      rw [hrefused] at hmake
      cases hmake
    · rintro (hsome | hfree)
      · rw [hcached] at hsome
        cases hsome
      · rw [hfree] at htaken
        cases htaken

/-- The registry after the array of `Int` was made one of `Float`. -/
def reboundInts : Registry :=
  ((initial .host64).perform (.arrayOf Builtin.int.typeId)).perform
    (.rebindElement ⟨14⟩ Builtin.float.typeId)

theorem plainRun_reboundInts : PlainRun [Builtin.int.typeId] reboundInts := by
  have hinitial : PlainRun [] (initial .host64) :=
    .initial (ofTarget_eq_ok_iff.mpr ⟨by decide, rfl⟩)
  have hint : Builtin.int.typeId.index < (initial .host64).size := by decide
  have hasked := PlainRun.operation (.arrayOf Builtin.int.typeId) hinitial hint nofun
  have harray : 14 < ((initial .host64).perform (.arrayOf Builtin.int.typeId)).size := by decide
  exact PlainRun.operation (.rebindElement ⟨14⟩ Builtin.float.typeId) hasked harray nofun

/-- After that the array of `Float` is there, and that of `Int` can be neither found nor made. -/
theorem arrayOf_answer_rebound :
    (∃ id s, reboundInts.arrayOf Builtin.float.typeId = .ok (id, s)) ∧
      ¬ ∃ id s, reboundInts.arrayOf Builtin.int.typeId = .ok (id, s) := by
  obtain ⟨-, -, hfloat⟩ := arrayOf_answer plainRun_reboundInts
    (show Builtin.float.typeId.index < reboundInts.size by decide)
  obtain ⟨-, -, hint⟩ := arrayOf_answer plainRun_reboundInts
    (show Builtin.int.typeId.index < reboundInts.size by decide)
  exact ⟨hfloat.mpr (by decide), fun hmade => absurd (hint.mp hmade) (by decide +kernel)⟩

/-- The name of the array of `Int` is taken by that of `Float`. -/
theorem arrayOf_taken :
    PlainRun [Builtin.int.typeId] reboundInts ∧ Builtin.int.typeId.index < reboundInts.size ∧
      reboundInts.arrayOf Builtin.int.typeId = .error (.alreadyDefined "Array[Int]" "array") := by
  exact ⟨plainRun_reboundInts, by decide, by rfl⟩

end Registry

end DeclLang
