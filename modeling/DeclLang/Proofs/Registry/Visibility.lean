import DeclLang.Proofs.Registry.Linearization
import Mathlib.Logic.Relation

/-!
# Visibility: the modules and methods that a type can reach

A type sees the modules that a path of includes leads to, from itself, from an ancestor or from a
template of these, and it sees the methods that are declared anywhere on the way
(`visible_iff_reachable`). Both searches pass by what they have entered before, so what has to be
shown is that a module passed by on a cycle hides nothing behind it.
-/

namespace DeclLang.Registry

/-! ## Paths -/

/-- A type inherits directly from another. -/
def Inherits (r : Registry) (id sup : TypeId) : Prop :=
  r.superclass? id = some sup

/-- A module is mixed directly into a type. -/
def Includes (r : Registry) (id m : TypeId) : Prop :=
  m ∈ r.includesOf id

/-- A type, one of its ancestors, or a template of one of these. -/
def Behind (r : Registry) (id b : TypeId) : Prop :=
  ∃ c, Relation.ReflTransGen r.Inherits id c ∧ (c = b ∨ r.template? c = some b)

/-- An entry has a method of this name of its own. -/
def Declares (r : Registry) (id : TypeId) (name : String) : Prop :=
  ∃ e, r.get? id = some e ∧ ∃ s ∈ e.methods, s.name = name

theorem declared?_isSome_iff {r : Registry} {name : String} {id : TypeId} :
    (r.declared? name id).isSome = true ↔ r.Declares id name := by
  unfold declared? Declares
  cases r.get? id with
  | none => simp
  | some e => simp [Entry.method?]

theorem owner_of_declared? {r : Registry} {name : String} {id : TypeId} {found : MethodMatch}
    (h : r.declared? name id = some found) : found.owner = .type id := by
  rcases Option.map_eq_some_iff.mp h with ⟨s, -, rfl⟩
  rfl

/-! ## Ancestors -/

theorem Ancestry.mem_iff {r : Registry} {id c : TypeId} {above : List TypeId}
    (h : Ancestry r id above) :
    c ∈ id :: above ↔ Relation.ReflTransGen r.Inherits id c := by
  induction h with
  | @root id hnone =>
    -- Nothing lies above the root.
    rw [List.mem_singleton, Relation.ReflTransGen.cases_head_iff]
    constructor
    · intro hc
      exact .inl hc.symm
    · intro hc
      rcases hc with rfl | ⟨next, hnext, -⟩
      · rfl
      · rw [Inherits, hnone] at hnext
        cases hnext
  | @step id next above hnext _ ih =>
    rw [List.mem_cons, ih, Relation.ReflTransGen.cases_head_iff (a := id), eq_comm]
    have hstep : Relation.ReflTransGen r.Inherits next c ↔
        ∃ d, r.Inherits id d ∧ Relation.ReflTransGen r.Inherits d c := by
      constructor
      · intro hc
        exact ⟨next, hnext, hc⟩
      · intro ⟨d, hd, hc⟩
        rw [Inherits, hnext, Option.some.injEq] at hd
        rw [hd]
        exact hc
    rw [hstep]

/-- The ancestors are all that there is above a type. -/
theorem WellFormed.behind_iff {r : Registry} (hr : WellFormed r) {id b : TypeId} :
    r.Behind id b ↔ ∃ c ∈ id :: r.ancestors id, c = b ∨ r.template? c = some b := by
  have hancestry := hr.ancestry_ancestors id
  constructor
  · intro ⟨c, hc, hb⟩
    exact ⟨c, hancestry.mem_iff.mpr hc, hb⟩
  · intro ⟨c, hc, hb⟩
    exact ⟨c, hancestry.mem_iff.mp hc, hb⟩

/-! ## Walks -/

/-- A walk enters only what a path leads to. -/
theorem reachable_of_mem_walk {r : Registry} {entered ms : List TypeId} :
    ∀ m ∈ r.walk entered ms, ∃ a ∈ ms, Relation.ReflTransGen r.Includes a m := by
  fun_induction walk r entered ms with
  | case1 => exact List.forall_mem_nil _
  | case2 entered m ms _ ih =>
    intro n hn
    obtain ⟨a, ha, hpath⟩ := ih n hn
    exact ⟨a, List.mem_cons_of_mem _ ha, hpath⟩
  | case3 entered m ms _ inner ihInner ih =>
    intro n hn
    rw [List.cons_append, List.mem_cons, List.mem_append] at hn
    rcases hn with rfl | hn | hn
    · exact ⟨n, List.mem_cons_self, .refl⟩
    · obtain ⟨a, ha, hpath⟩ := ihInner n hn
      exact ⟨m, List.mem_cons_self, .head ha hpath⟩
    · obtain ⟨a, ha, hpath⟩ := ih n hn
      exact ⟨a, List.mem_cons_of_mem _ ha, hpath⟩

/-- A walk from the start enters exactly what paths lead to. -/
theorem mem_walk_iff {r : Registry} {ms : List TypeId} {m : TypeId} :
    m ∈ r.walk [] ms ↔ ∃ a ∈ ms, Relation.ReflTransGen r.Includes a m := by
  constructor
  · exact reachable_of_mem_walk m
  · intro ⟨a, ha, hpath⟩
    -- Along the path: what is entered is closed under includes, so no step of it leads out.
    induction hpath with
    | refl => exact subset_walk r [] ms ha
    | tail _ hstep ih => exact includesOf_subset_walk r [] ms _ ih hstep

theorem mem_mixins_iff {r : Registry} {c m : TypeId} :
    m ∈ r.mixins c ↔ ∃ b, (c = b ∨ r.template? c = some b) ∧ r.Includes b m := by
  unfold mixins Includes
  cases r.template? c with
  | none => simp
  | some t => simp [or_and_right, exists_or]

/-- The classes of a type and the templates of these are where the paths start. -/
theorem exists_mem_mixins_iff {r : Registry} {c m : TypeId} :
    (∃ a ∈ r.mixins c, Relation.ReflTransGen r.Includes a m) ↔
      ∃ b, (c = b ∨ r.template? c = some b) ∧ Relation.TransGen r.Includes b m := by
  simp only [mem_mixins_iff, Relation.TransGen.head'_iff]
  constructor
  · intro ⟨a, ⟨b, hb, ha⟩, hpath⟩
    exact ⟨b, hb, a, ha, hpath⟩
  · intro ⟨b, hb, a, ha, hpath⟩
    exact ⟨a, ⟨b, hb, ha⟩, hpath⟩

/-! ## Modules -/

/-- The search for a module goes the way that a lookup goes: it enters what the walk enters, and
    finds the module if it is there. That the module is compared before it is known whether it was
    entered makes no difference, since the first time that it is met ends the search. -/
theorem reachModule_eq_walk {r : Registry} (hr : r.IncludesRegistered) {target : TypeId}
    {entered stack : List TypeId} (htarget : target ∉ entered)
    (hstack : ∀ m ∈ stack, m.index < r.size) :
    r.reachModule target (r.unentered entered) stack =
      if target ∈ r.walk entered stack then .found ()
      else .exhausted (r.unentered (entered ++ r.walk entered stack)) := by
  generalize hunvisited : r.unentered entered = unvisited
  fun_induction reachModule r target unvisited stack generalizing entered with
  | case1 unvisited => simp [hunvisited]
  | case2 unvisited below =>
    rw [walk_of_not_mem htarget, if_pos (by simp)]
  | case3 unvisited m below hother hm ih =>
    have hnew : m ∉ entered := (mem_unentered.mp (hunvisited ▸ hm)).2
    have hbelow : ∀ n ∈ r.includesOf m ++ below, n.index < r.size := by
      intro n hn
      rcases List.mem_append.mp hn with hn | hn
      · exact hr m n hn
      · exact hstack n (List.mem_cons_of_mem _ hn)
    have htarget' : target ∉ entered ++ [m] := by
      simpa using ⟨htarget, Ne.symm hother⟩
    rw [ih htarget' hbelow (by rw [unentered_concat, hunvisited]), walk_append,
      walk_of_not_mem hnew]
    simp only [List.append_assoc, List.cons_append, List.nil_append, List.mem_cons,
      Ne.symm hother, false_or]
  | case4 unvisited m below hother hm ih =>
    -- A registered module that is left out was entered before.
    have hold : m ∈ entered := by
      have hlt := hstack m List.mem_cons_self
      rw [← hunvisited, mem_unentered] at hm
      exact Decidable.byContradiction fun hnew => hm ⟨hlt, hnew⟩
    rw [walk_of_mem hold]
    exact ih htarget (fun n hn => hstack n (List.mem_cons_of_mem _ hn)) hunvisited

/-- Looking through what classes mix in, one after the other, is one walk over all of it. -/
theorem reachFromAny_iff {r : Registry} (hr : WellFormed r) {target : TypeId}
    {entered : List TypeId} (htarget : target ∉ entered) (classes : List TypeId) :
    r.reachFromAny target (r.unentered entered) classes = true ↔
      target ∈ r.walk entered (classes.flatMap r.mixins) := by
  induction classes generalizing entered with
  | nil => simp [reachFromAny]
  | cons c classes ih =>
    rw [reachFromAny, reachModule_eq_walk hr.includesRegistered htarget (hr.mixins_registered c),
      List.flatMap_cons, walk_append, List.mem_append]
    by_cases hfound : target ∈ r.walk entered (r.mixins c)
    · simp [hfound]
    · have hnew : target ∉ entered ++ r.walk entered (r.mixins c) := by simp [htarget, hfound]
      simp [hfound, ih hnew]

theorem WellFormed.includesModule_iff {r : Registry} (hr : WellFormed r) {id m : TypeId} :
    r.includesModule id m = true ↔ ∃ b, r.Behind id b ∧ Relation.TransGen r.Includes b m := by
  have hfound : r.includesModule id m = true ↔
      m ∈ r.walk [] ((id :: r.ancestors id).flatMap r.mixins) := by
    rw [includesModule, ← unentered_nil]
    exact reachFromAny_iff hr List.not_mem_nil _
  have hclasses : (∃ a ∈ (id :: r.ancestors id).flatMap r.mixins,
        Relation.ReflTransGen r.Includes a m) ↔
      ∃ c ∈ id :: r.ancestors id, ∃ a ∈ r.mixins c, Relation.ReflTransGen r.Includes a m := by
    simp only [List.mem_flatMap]
    constructor
    · intro ⟨a, ⟨c, hc, ha⟩, hpath⟩
      exact ⟨c, hc, a, ha, hpath⟩
    · intro ⟨c, hc, a, ha, hpath⟩
      exact ⟨a, ⟨c, hc, ha⟩, hpath⟩
  rw [hfound, mem_walk_iff, hclasses]
  simp only [exists_mem_mixins_iff, hr.behind_iff]
  constructor
  · intro ⟨c, hc, b, hb, hpath⟩
    exact ⟨b, ⟨c, hc, hb⟩, hpath⟩
  · intro ⟨b, ⟨c, hc, hb⟩, hpath⟩
    exact ⟨c, hc, b, hb, hpath⟩

/-! ## Methods -/

/-- A linearization leaves nothing out: what a class brings is listed with it or was before. -/
theorem mem_linearizeFrom_iff {r : Registry} {listed classes : List TypeId} {b : TypeId} :
    b ∈ listed ∨ b ∈ r.linearizeFrom listed classes ↔
      b ∈ listed ∨ ∃ c ∈ classes,
        (c = b ∨ r.template? c = some b) ∨ b ∈ r.walk [] (r.mixins c) := by
  induction classes generalizing listed with
  | nil => simp [linearizeFrom]
  | cons c classes ih =>
    rw [linearizeFrom]
    generalize hown : c :: (r.template? c).toList = own
    have hmem : b ∈ own ↔ c = b ∨ r.template? c = some b := by
      rw [← hown, List.mem_cons, Option.mem_toList, eq_comm]
    generalize hmodules : (r.walk [] (r.mixins c)).filter (· ∉ listed ++ own) = modules
    have hnew : b ∈ modules ↔ b ∈ r.walk [] (r.mixins c) ∧ b ∉ listed ∧ b ∉ own := by
      rw [← hmodules, List.mem_filter, decide_eq_true_eq, List.mem_append, not_or]
    have hrest := @ih (listed ++ own ++ modules)
    simp only [List.mem_append, List.mem_cons, exists_eq_or_imp] at hrest ⊢
    grind

theorem WellFormed.mem_linearization_iff {r : Registry} (hr : WellFormed r) {id b : TypeId} :
    b ∈ r.linearization id ↔ r.Behind id b ∨ r.includesModule id b = true := by
  have hlisted := @mem_linearizeFrom_iff r [] (id :: r.ancestors id) b
  simp only [List.not_mem_nil, false_or] at hlisted
  rw [linearization, hlisted, hr.includesModule_iff]
  simp only [mem_walk_iff, exists_mem_mixins_iff, hr.behind_iff]
  constructor
  · intro h
    rcases h with ⟨c, hc, hb | ⟨b', hb', hpath⟩⟩
    · exact .inl ⟨c, hc, hb⟩
    · exact .inr ⟨b', ⟨c, hc, hb'⟩, hpath⟩
  · intro h
    rcases h with ⟨c, hc, hb⟩ | ⟨b', ⟨c, hc, hb'⟩, hpath⟩
    · exact ⟨c, hc, .inl hb⟩
    · exact ⟨c, hc, .inr ⟨b', hb', hpath⟩⟩

/-- After any run a type includes exactly the modules that one or more includes lead to from the
    type, an ancestor or a template of these, and it finds exactly the methods that one of these
    types or an included module declares. A method is only ever found on such a type. -/
theorem visible_iff_reachable {r : Registry} (h : Reachable r) (id : TypeId) :
    (∀ m, r.includesModule id m = true ↔
      ∃ b, r.Behind id b ∧ Relation.TransGen r.Includes b m) ∧
    ∀ name,
      ((r.lookupMethod? id name).isSome = true ↔
        (∃ b, r.Behind id b ∧ r.Declares b name) ∨
        ∃ m, r.includesModule id m = true ∧ r.Declares m name) ∧
      ∀ found, r.lookupMethod? id name = some found →
        ∃ owner, found.owner = .type owner ∧ r.Declares owner name ∧
          (¬ r.Behind id owner → r.includesModule id owner = true) := by
  have hr := h.wellFormed
  refine ⟨fun m => hr.includesModule_iff, fun name => ⟨?_, fun found hfound => ?_⟩⟩
  · rw [hr.lookupMethod?_eq, List.findSome?_isSome_iff]
    simp only [declared?_isSome_iff, hr.mem_linearization_iff, or_and_right, exists_or]
  · rw [hr.lookupMethod?_eq] at hfound
    have ⟨owner, hmem, hdeclared⟩ := List.exists_of_findSome?_eq_some hfound
    have hdeclares := declared?_isSome_iff.mp (Option.isSome_of_eq_some hdeclared)
    refine ⟨owner, owner_of_declared? hdeclared, hdeclares, fun hnot => ?_⟩
    exact (hr.mem_linearization_iff.mp hmem).resolve_left hnot

/-- On a cycle of two modules each is reached from the other, and from itself. -/
theorem visible_iff_reachable_mutualIncludes :
    let r := ((initial .host64).collect mutualIncludes).2.registry
    Reachable r ∧ r.includesModule ⟨16⟩ ⟨15⟩ = true ∧ r.includesModule ⟨14⟩ ⟨14⟩ = true ∧
      (r.lookupMethod? ⟨16⟩ "f").isSome = true := by
  intro r
  have hinitial : Reachable (initial .host64) :=
    .initial (ofTarget_eq_ok_iff.mpr ⟨by decide, rfl⟩)
  have hreach : Reachable r := .program mutualIncludes hinitial
  have hC : r.Includes ⟨16⟩ ⟨14⟩ := by unfold Includes; decide +kernel
  have hA : r.Includes ⟨14⟩ ⟨15⟩ := by unfold Includes; decide +kernel
  have hB : r.Includes ⟨15⟩ ⟨14⟩ := by unfold Includes; decide +kernel
  have hself (id : TypeId) : r.Behind id id := ⟨id, .refl, .inl rfl⟩
  have hmodule : r.includesModule ⟨16⟩ ⟨15⟩ = true :=
    ((visible_iff_reachable hreach ⟨16⟩).1 ⟨15⟩).mpr ⟨⟨16⟩, hself _, .tail (.single hC) hA⟩
  have hcycle : r.includesModule ⟨14⟩ ⟨14⟩ = true :=
    ((visible_iff_reachable hreach ⟨14⟩).1 ⟨14⟩).mpr ⟨⟨14⟩, hself _, .tail (.single hA) hB⟩
  have hf : r.Declares ⟨15⟩ "f" := declared?_isSome_iff.mp (by decide +kernel)
  refine ⟨hreach, hmodule, hcycle, ?_⟩
  exact (((visible_iff_reachable hreach ⟨16⟩).2 "f").1).mpr (.inr ⟨⟨15⟩, hmodule, hf⟩)

end DeclLang.Registry
