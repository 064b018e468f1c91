import DeclLang.Registry.Resolution

/-!
# Walks: the modules that are mixed in, depth first

`walk` lists the modules that a depth-first walk enters, without asking what is searched for. A
search through modules stops at the first of them that passes its test (`searchModules_eq_walk`),
and a walk that follows others lists the same modules in the same order, less those that were
entered before (`walk_eq_filter`).
-/

namespace DeclLang.Registry

/-! ## Types not entered yet -/

/-- The registered types that were not entered. -/
def unentered (r : Registry) (entered : List TypeId) : List TypeId :=
  r.ids.filter (· ∉ entered)

theorem mem_unentered {r : Registry} {entered : List TypeId} {id : TypeId} :
    id ∈ r.unentered entered ↔ id.index < r.size ∧ id ∉ entered := by
  rw [unentered, List.mem_filter, mem_ids, decide_eq_true_eq]

@[simp] theorem unentered_nil (r : Registry) : r.unentered [] = r.ids := by
  simp [unentered]

theorem unentered_concat (r : Registry) (entered : List TypeId) (id : TypeId) :
    r.unentered (entered ++ [id]) = (r.unentered entered).erase id := by
  have hnodup : (r.unentered entered).Nodup := r.nodup_ids.sublist List.filter_sublist
  rw [hnodup.erase_eq_filter, unentered, unentered, List.filter_filter]
  congr 1
  funext other
  by_cases h : other = id <;> simp [h]

theorem unentered_length_le (r : Registry) (entered more : List TypeId) :
    (r.unentered (entered ++ more)).length ≤ (r.unentered entered).length := by
  rw [unentered, unentered, ← List.countP_eq_length_filter, ← List.countP_eq_length_filter]
  refine List.countP_mono_left fun id _ hid => ?_
  simp only [decide_eq_true_eq] at hid ⊢
  exact fun hmem => hid (List.mem_append_left _ hmem)

-- What makes walks end: a registered module that is entered is one fewer that is not.
theorem unentered_length_lt {r : Registry} {entered : List TypeId} {id : TypeId}
    (hid : id.index < r.size) (hnew : id ∉ entered) :
    (r.unentered (entered ++ [id])).length < (r.unentered entered).length := by
  have hmem : id ∈ r.unentered entered := mem_unentered.mpr ⟨hid, hnew⟩
  have hpos := List.length_pos_of_mem hmem
  rw [unentered_concat, List.length_erase_of_mem hmem]
  omega

theorem includesOf_eq_nil {r : Registry} {id : TypeId} (h : ¬ id.index < r.size) :
    r.includesOf id = [] := by
  have hnone : r.get? id = none := get?_eq_none_iff.mpr (by omega)
  rw [includesOf, hnone]
  rfl

/-! ## The walk -/

/-- The modules that a depth-first walk over a list enters, in order. A module comes before those
    mixed into it, and one that was entered before is passed by. -/
def walk (r : Registry) (entered : List TypeId) : List TypeId → List TypeId
  | [] => []
  | m :: ms =>
    if m ∈ entered then r.walk entered ms
    else
      let inner := r.walk (entered ++ [m]) (r.includesOf m)
      m :: inner ++ r.walk (entered ++ m :: inner) ms
termination_by ms => ((r.unentered entered).length, ms.length)
decreasing_by
  · exact Prod.Lex.right _ (Nat.lt_succ_self _)
  · rename_i hnew
    by_cases hm : m.index < r.size
    · exact Prod.Lex.left _ _ (unentered_length_lt hm hnew)
    -- A module that is not registered mixes in nothing.
    · rw [includesOf_eq_nil hm]
      exact Prod.Lex.right' _ (unentered_length_le r _ _) (Nat.succ_pos _)
  · exact Prod.Lex.right' _ (unentered_length_le r _ _) (Nat.lt_succ_self _)

@[simp] theorem walk_nil (r : Registry) (entered : List TypeId) : r.walk entered [] = [] := by
  rw [walk]

theorem walk_of_mem {r : Registry} {entered : List TypeId} {m : TypeId} (h : m ∈ entered)
    (ms : List TypeId) : r.walk entered (m :: ms) = r.walk entered ms := by
  rw [walk, if_pos h]

theorem walk_of_not_mem {r : Registry} {entered : List TypeId} {m : TypeId} (h : m ∉ entered)
    (ms : List TypeId) :
    r.walk entered (m :: ms) =
      m :: r.walk (entered ++ [m]) (r.includesOf m) ++
        r.walk (entered ++ m :: r.walk (entered ++ [m]) (r.includesOf m)) ms := by
  rw [walk, if_neg h]

/-- The second part of a list is walked with the first part behind. -/
theorem walk_append (r : Registry) (entered xs ys : List TypeId) :
    r.walk entered (xs ++ ys) =
      r.walk entered xs ++ r.walk (entered ++ r.walk entered xs) ys := by
  fun_induction walk r entered xs with
  | case1 entered => rw [List.nil_append, List.append_nil, List.nil_append]
  | case2 entered m ms h ih => rw [List.cons_append, walk_of_mem h, ih]
  | case3 entered m ms h inner _ ih =>
    rw [List.cons_append, walk_of_not_mem h, ih]
    simp only [List.append_assoc, List.cons_append, inner]

/-! ## Searching -/

/-- Every module that is mixed into a type is registered. -/
def IncludesRegistered (r : Registry) : Prop :=
  ∀ id, ∀ m ∈ r.includesOf id, m.index < r.size

/-- A search through modules finds the first module of the walk that passes its test. -/
theorem searchModules_eq_walk {α : Type} {r : Registry} (hr : r.IncludesRegistered)
    (test : TypeId → Option α) {entered stack : List TypeId}
    (hstack : ∀ m ∈ stack, m.index < r.size) :
    r.searchModules test (r.unentered entered) stack =
      match (r.walk entered stack).findSome? test with
      | some a => .found a
      | none => .exhausted (r.unentered (entered ++ r.walk entered stack)) := by
  -- Along the calls of the search, with what was entered and what is not visited kept in step. The
  -- stack puts the includes of a module before what is below: the walk of both is `walk_append`.
  generalize hunvisited : r.unentered entered = unvisited
  fun_induction searchModules r test unvisited stack generalizing entered with
  | case1 unvisited => simp [hunvisited]
  | case2 unvisited m below hm a ha =>
    have hnew : m ∉ entered := (mem_unentered.mp (hunvisited ▸ hm)).2
    rw [walk_of_not_mem hnew, List.cons_append, List.findSome?_cons, ha]
  | case3 unvisited m below hm ha ih =>
    have hnew : m ∉ entered := (mem_unentered.mp (hunvisited ▸ hm)).2
    have hbelow : ∀ n ∈ r.includesOf m ++ below, n.index < r.size := by
      intro n hn
      rcases List.mem_append.mp hn with hn | hn
      · exact hr m n hn
      · exact hstack n (List.mem_cons_of_mem _ hn)
    rw [ih hbelow (by rw [unentered_concat, hunvisited]), walk_append, walk_of_not_mem hnew]
    simp only [List.append_assoc, List.cons_append, List.nil_append, List.findSome?_cons, ha]
  | case4 unvisited m below hm ih =>
    -- A registered module that is left out was entered before.
    have hold : m ∈ entered := by
      have hlt := hstack m List.mem_cons_self
      rw [← hunvisited, mem_unentered] at hm
      exact Decidable.byContradiction fun hnew => hm ⟨hlt, hnew⟩
    rw [walk_of_mem hold]
    exact ih (fun n hn => hstack n (List.mem_cons_of_mem _ hn)) hunvisited

/-! ## Walks one after the other -/

/-- What is mixed into a member is a member too. -/
def ClosedUnderIncludes (r : Registry) (modules : List TypeId) : Prop :=
  ∀ m ∈ modules, r.includesOf m ⊆ modules

/-- A walk enters all that it was given. -/
theorem subset_walk (r : Registry) (entered ms : List TypeId) :
    ms ⊆ entered ++ r.walk entered ms := by
  fun_induction walk r entered ms with
  | case1 => exact List.nil_subset _
  | case2 entered m ms h ih =>
    exact List.cons_subset.mpr ⟨List.mem_append_left _ h, ih⟩
  | case3 entered m ms h inner =>
    rename_i ih
    refine List.cons_subset.mpr ⟨by simp, fun n hn => ?_⟩
    have hmem := ih hn
    simp only [List.append_assoc, List.cons_append] at hmem ⊢
    exact hmem

/-- A walk passes by what was entered before. -/
theorem walk_eq_nil {r : Registry} {entered ms : List TypeId} (h : ms ⊆ entered) :
    r.walk entered ms = [] := by
  induction ms with
  | nil => exact walk_nil r entered
  | cons m ms ih =>
    have ⟨hm, hms⟩ := List.cons_subset.mp h
    rw [walk_of_mem hm]
    exact ih hms

/-- Walking over the beginning of a list first changes nothing. -/
theorem walk_prefix_append (r : Registry) {first whole : List TypeId} (h : first <+: whole) :
    r.walk [] (first ++ whole) = r.walk [] whole := by
  have ⟨rest, hwhole⟩ := h
  have hagain : r.walk (r.walk [] first) first = [] := walk_eq_nil (subset_walk r [] first)
  rw [← hwhole, walk_append, walk_append r [] first rest, walk_append, List.nil_append, hagain,
    List.nil_append, List.append_nil]

/-- A walk enters all that is mixed into what it enters. -/
theorem includesOf_subset_walk (r : Registry) (entered ms : List TypeId) :
    ∀ m ∈ r.walk entered ms, r.includesOf m ⊆ entered ++ r.walk entered ms := by
  fun_induction walk r entered ms with
  | case1 => simp
  | case2 entered m ms h ih => exact ih
  | case3 entered m ms h inner ihInner ih =>
    intro n hn k hk
    -- What the inner walk is closed in is part of what the whole walk has entered.
    have hinner : entered ++ [m] ++ inner ⊆
        entered ++ (m :: inner ++ r.walk (entered ++ m :: inner) ms) := by
      have hsplit : entered ++ (m :: inner ++ r.walk (entered ++ m :: inner) ms) =
          entered ++ [m] ++ inner ++ r.walk (entered ++ m :: inner) ms := by simp
      rw [hsplit]
      exact List.subset_append_left _ _
    rcases List.mem_append.mp hn with hn | hn
    · rcases List.mem_cons.mp hn with rfl | hn
      · exact hinner (subset_walk r _ _ hk)
      · exact hinner (ihInner n hn hk)
    · have hmem := ih n hn hk
      simp only [List.append_assoc, List.cons_append] at hmem ⊢
      exact hmem

theorem ClosedUnderIncludes.append_walk {r : Registry} {entered : List TypeId}
    (h : r.ClosedUnderIncludes entered) (ms : List TypeId) :
    r.ClosedUnderIncludes (entered ++ r.walk entered ms) := by
  intro m hm
  rcases List.mem_append.mp hm with hm | hm
  · exact fun n hn => List.mem_append_left _ (h m hm hn)
  · exact includesOf_subset_walk r entered ms m hm

/-- A walk does not leave a closed set that it starts in. -/
theorem walk_subset {r : Registry} {modules : List TypeId} (h : r.ClosedUnderIncludes modules)
    {entered ms : List TypeId} (hms : ms ⊆ modules) : r.walk entered ms ⊆ modules := by
  fun_induction walk r entered ms with
  | case1 => exact List.nil_subset _
  | case2 entered m ms hm ih => exact ih (List.cons_subset.mp hms).2
  | case3 entered m ms hm inner ihInner ih =>
    rcases List.cons_subset.mp hms with ⟨hm, hms⟩
    refine List.append_subset.mpr ⟨List.cons_subset.mpr ⟨hm, ihInner (h m hm)⟩, ih hms⟩

/-- Leaving a closed set out of a walk is the same as leaving it out of the list afterwards. -/
theorem walk_eq_filter {r : Registry} {modules : List TypeId} (h : r.ClosedUnderIncludes modules)
    {entered entered' ms : List TypeId}
    (hentered : ∀ m, m ∈ entered' ↔ m ∈ entered ∨ m ∈ modules) :
    r.walk entered' ms = (r.walk entered ms).filter (· ∉ modules) := by
  -- Along the longer walk. The shorter one passes by a module of the closed set, and otherwise
  -- enters what the longer one enters.
  fun_induction walk r entered ms generalizing entered' with
  | case1 => simp
  | case2 entered m ms hm ih =>
    rw [walk_of_mem ((hentered m).mpr (.inl hm)), ih hentered]
  | case3 entered m ms hm inner ihInner =>
    rename_i ih
    by_cases hmodules : m ∈ modules
    · -- All that is mixed into `m` is in the closed set as well.
      have hsub : inner ⊆ modules := walk_subset h (h m hmodules)
      have hnone : inner.filter (· ∉ modules) = [] := by
        rw [List.filter_eq_nil_iff]
        intro n hn
        simp [hsub hn]
      have hrest : ∀ n, n ∈ entered' ↔ n ∈ entered ++ m :: inner ∨ n ∈ modules := by
        intro n
        rw [hentered, List.mem_append, List.mem_cons]
        constructor
        · rintro (hn | hn)
          · exact .inl (.inl hn)
          · exact .inr hn
        · rintro ((hn | rfl | hn) | hn)
          · exact .inl hn
          · exact .inr hmodules
          · exact .inr (hsub hn)
          · exact .inr hn
      rw [walk_of_mem ((hentered m).mpr (.inr hmodules)), ih hrest, List.filter_append,
        List.filter_cons_of_neg (by simpa using hmodules), hnone, List.nil_append]
    · have hm' : m ∉ entered' := fun hmem => ((hentered m).mp hmem).elim hm hmodules
      have hfirst : ∀ n, n ∈ entered' ++ [m] ↔ n ∈ entered ++ [m] ∨ n ∈ modules := by
        intro n
        rw [List.mem_append, List.mem_append, hentered, or_right_comm]
      have hrest : ∀ n, n ∈ entered' ++ m :: inner.filter (· ∉ modules) ↔
          n ∈ entered ++ m :: inner ∨ n ∈ modules := by
        intro n
        by_cases hn : n ∈ modules
        · simp [hentered, hn]
        · simp [hentered, hn]
      rw [walk_of_not_mem hm', ihInner hfirst, ih hrest, List.filter_append,
        List.filter_cons_of_pos (by simpa using hmodules)]

end DeclLang.Registry
