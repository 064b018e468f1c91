import DeclLang.Proofs.Collection.Resolution

/-!
# The cache: which arrays stand for their elements

What the cache has for a template and an element is an array of just that element, and there is one
record at most for each pair. Both hold after any run, whatever is specialized, rebound or refused
in it (`Reachable.cacheSound`).
-/

namespace DeclLang.Registry

/-- Every record is that of an array with its template and its element, and no pair has two. -/
structure CacheSound (r : Registry) : Prop where
  record : ∀ i ∈ r.instances, ∃ e superclass, r.get? i.array = some e ∧
    e.kind = .array superclass i.element (some i.template)
  key : ∀ i ∈ r.instances, ∀ j ∈ r.instances, i.template = j.template → i.element = j.element →
    i = j

/-! ## Records -/

variable {r s : Registry} {template element array : TypeId}

theorem mem_of_cached? (h : r.cached? template element = some array) :
    ⟨template, element, array⟩ ∈ r.instances := by
  obtain ⟨i, hi, rfl⟩ := Option.map_eq_some_iff.mp h
  have hkey := List.find?_some hi
  simp only [Bool.and_eq_true, beq_iff_eq] at hkey
  obtain ⟨rfl, rfl⟩ := hkey
  exact List.mem_of_find?_eq_some hi

theorem not_mem_of_cached? (h : r.cached? template element = none) {i : ArrayInstance}
    (hi : i ∈ r.instances) : ¬ (i.template = template ∧ i.element = element) := by
  have hnone := List.find?_eq_none.mp (Option.map_eq_none_iff.mp h) i hi
  simpa using hnone

/-- A record is found by its pair. -/
theorem CacheSound.cached? (h : r.CacheSound) {i : ArrayInstance} (hi : i ∈ r.instances) :
    r.cached? i.template i.element = some i.array := by
  cases hfound : r.cached? i.template i.element with
  | none => exact absurd ⟨rfl, rfl⟩ (not_mem_of_cached? hfound hi)
  | some other =>
    have hsame := h.key i hi _ (mem_of_cached? hfound) rfl rfl
    rw [congrArg ArrayInstance.array hsame]

/-- What is found is an array with the template and the element. -/
theorem CacheSound.kind_of_cached? (h : r.CacheSound)
    (hcached : r.cached? template element = some array) :
    ∃ e superclass, r.get? array = some e ∧ e.kind = .array superclass element (some template) :=
  h.record _ (mem_of_cached? hcached)

/-! ## Changes -/

theorem instances_cache (r : Registry) (i : ArrayInstance) :
    (r.cache i).instances = r.instances ∨
      r.cached? i.template i.element = none ∧ (r.cache i).instances = r.instances ++ [i] := by
  unfold cache
  split
  · exact .inl rfl
  · rename_i hnone
    exact .inr ⟨hnone, rfl⟩

/-- A record may be added when it is that of an array. -/
theorem CacheSound.cache (h : r.CacheSound) {i : ArrayInstance} {e : Entry}
    {superclass : Option TypeId} (he : r.get? i.array = some e)
    (hkind : e.kind = .array superclass i.element (some i.template)) : (r.cache i).CacheSound := by
  have hget (id : TypeId) : (r.cache i).get? id = r.get? id := owner?_cache r i (.type id)
  obtain hsame | ⟨hfree, hadded⟩ := instances_cache r i
  · refine ⟨fun j hj => ?_, by rw [hsame]; exact h.key⟩
    rw [hsame] at hj
    rw [hget]
    exact h.record j hj
  · have hcases {j : ArrayInstance} (hj : j ∈ (r.cache i).instances) : j ∈ r.instances ∨ j = i := by
      rw [hadded] at hj
      simpa using hj
    refine ⟨fun j hj => ?_, fun j hj k hk htemplate helement => ?_⟩
    · rw [hget]
      obtain hj | rfl := hcases hj
      · exact h.record j hj
      · exact ⟨e, superclass, he, hkind⟩
    · -- The pair of the new record was free, so no old record has it.
      obtain hold | rfl := hcases hj
      · obtain hold' | rfl := hcases hk
        · exact h.key j hold k hold' htemplate helement
        · exact absurd ⟨htemplate, helement⟩ (not_mem_of_cached? hfree hold)
      · obtain hold' | rfl := hcases hk
        · exact absurd ⟨htemplate.symm, helement.symm⟩ (not_mem_of_cached? hfree hold')
        · rfl

/-- Records may be dropped, and the others stay those of their arrays while the kinds of these do
    not change. -/
theorem CacheSound.of_kinds (h : r.CacheSound) (hinstances : ∀ i ∈ s.instances, i ∈ r.instances)
    (hkinds : ∀ i ∈ s.instances, ∀ e, r.get? i.array = some e →
      ∃ f, s.get? i.array = some f ∧ f.kind = e.kind) : s.CacheSound := by
  refine ⟨fun i hi => ?_, fun i hi j hj => h.key i (hinstances i hi) j (hinstances j hj)⟩
  obtain ⟨e, superclass, he, hkind⟩ := h.record i (hinstances i hi)
  obtain ⟨f, hf, hfkind⟩ := hkinds i hi e he
  exact ⟨f, superclass, hf, hfkind.trans hkind⟩

theorem CacheSound.push (h : r.CacheSound) (e : Entry) : (r.push e).2.CacheSound :=
  h.of_kinds (fun _ hi => hi) fun i _ f hf =>
    ⟨f, owner?_push_of_some (o := .type i.array) hf e, rfl⟩

theorem CacheSound.modifyOwner (h : r.CacheSound) (owner : Owner) {f : Entry → Entry}
    [Entry.KeepsName f] (hf : ∀ e, (f e).kind = e.kind) : (r.modifyOwner owner f).CacheSound := by
  refine h.of_kinds (by cases owner <;> exact fun _ hi => hi) fun i _ e he => ?_
  rw [← owner?_type, owner?_modifyOwner, owner?_type, he]
  split
  · exact ⟨f e, rfl, hf e⟩
  · exact ⟨e, rfl, rfl⟩

/-- Rebinding drops the one record that the array may have before the array gets another one. -/
theorem CacheSound.rebound (h : r.CacheSound) {previous : TypeId} {e : Entry}
    {superclass template : Option TypeId} (he : r.get? array = some e)
    (hkind : e.kind = .array superclass previous template) (element : TypeId) :
    (r.rebound array previous element template superclass).CacheSound := by
  -- A record of the array is for its template and its old element.
  have hrecord {i : ArrayInstance} (hi : i ∈ r.instances) (harray : i.array = array) :
      template = some i.template ∧ previous = i.element := by
    obtain ⟨e', superclass', he', hkind'⟩ := h.record i hi
    rw [harray, he, Option.some.injEq] at he'
    rw [← he', hkind, TypeKind.array.injEq] at hkind'
    exact ⟨hkind'.2.2, hkind'.2.1⟩
  let changed := r.modifyOwner (.type array) ({ · with kind := .array superclass element template })
  have hchanged {t : Registry} (howner : ∀ o, t.owner? o = changed.owner? o) {id : TypeId}
      (hne : id ≠ array) : t.get? id = r.get? id := by
    rw [← owner?_type, howner, owner?_modifyOwner, if_neg (by simpa using hne), owner?_type]
  -- Once no record of the array is left, the others are sound as they were.
  have hothers {t : Registry} (howner : ∀ o, t.owner? o = changed.owner? o)
      (hinstances : ∀ i ∈ t.instances, i ∈ r.instances ∧ i.array ≠ array) : t.CacheSound :=
    h.of_kinds (fun i hi => (hinstances i hi).1) fun i hi f hf =>
      ⟨f, by rw [hchanged howner (hinstances i hi).2, hf], rfl⟩
  cases template with
  | none =>
    refine hothers (fun _ => rfl) fun i hi => ⟨hi, fun harray => ?_⟩
    exact absurd (hrecord hi harray).1 (by simp)
  | some t =>
    have hentry : changed.get? array =
        some { e with kind := .array superclass element (some t) } := by
      rw [← owner?_type, owner?_modifyOwner, if_pos rfl, owner?_type, he]
      rfl
    show CacheSound (Registry.cache (if changed.cached? t previous = some array then _ else _) _)
    split
    · refine (hothers (fun _ => owner?_uncache ..) fun i hi => ?_).cache (i := ⟨t, element, array⟩)
        hentry rfl
      obtain ⟨hi, hkept⟩ := List.mem_filter.mp hi
      refine ⟨hi, fun harray => ?_⟩
      obtain ⟨htemplate, rfl⟩ := hrecord hi harray
      obtain rfl := Option.some.inj htemplate
      simp at hkept
    · rename_i hother
      refine (hothers (fun _ => rfl) fun i hi => ⟨hi, fun harray => hother ?_⟩).cache
        (i := ⟨t, element, array⟩) hentry rfl
      obtain ⟨htemplate, rfl⟩ := hrecord hi harray
      obtain rfl := Option.some.inj htemplate
      rw [← harray]
      exact h.cached? hi

theorem CacheSound.change (h : r.CacheSound) (hr : Regular r) (hchange : Change r s) :
    s.CacheSound := by
  cases hchange with
  | none => exact h
  | declared => exact h.push _
  | specialized htemplate hbase =>
    -- What is recorded is the template, what is cloned is the template of that: both are the array.
    obtain rfl := hr.templateOf htemplate
    obtain rfl := hr.templateOf hbase
    exact (h.push _).cache (get?_push_self r _) rfl
  | mixedIn => exact h.modifyOwner _ fun _ => rfl
  | defined => exact h.modifyOwner _ fun _ => rfl
  | rebound he hkind => exact h.rebound he hkind _

/-! ## Runs -/

theorem cacheSound_initial (target : Target) : (initial target).CacheSound where
  record i hi := by
    rw [List.mem_singleton.mp hi]
    exact ⟨_, _, get?_initial target .argv, rfl⟩
  key i hi j hj _ _ := by
    rw [List.mem_singleton.mp hi, List.mem_singleton.mp hj]

theorem Reachable.cacheSound (h : Reachable r) : r.CacheSound := by
  have hstep : Collect.Steadfast fun r s => Regular r ∧ r.CacheSound → Regular s ∧ s.CacheSound :=
    ⟨⟨fun _ h => h, fun h h' hr => h' (h hr)⟩, fun _ happly ⟨hr, hcache⟩ =>
      ⟨hr.change (change_of_apply happly), hcache.change hr (change_of_apply happly)⟩⟩
  exact (h.of_steadfast (fun target => ⟨regular_initial target, cacheSound_initial target⟩) hstep).2

end DeclLang.Registry
