import DeclLang.Proofs.Registry.Invariant
import DeclLang.Proofs.Registry.Walk

/-!
# Linearization: the one order in which a method is looked for

A receiver has a list of types that does not depend on the name that is looked for: each of its
classes, the template of that class, and the modules that a walk over their includes enters. A name
means the method of the first type on that list that declares it (`lookup_eq_first`).
-/

namespace DeclLang.Registry

/-! ## The order -/

/-- The types behind some classes, one class after the other. A module that is listed already is not
    listed again. -/
def linearizeFrom (r : Registry) (listed : List TypeId) : List TypeId → List TypeId
  | [] => []
  | c :: classes =>
    let own := c :: (r.template? c).toList
    let modules := (r.walk [] (r.mixins c)).filter (· ∉ listed ++ own)
    own ++ modules ++ r.linearizeFrom (listed ++ own ++ modules) classes

/-- Where a method of a type is looked for, in order. -/
def linearization (r : Registry) (id : TypeId) : List TypeId :=
  r.linearizeFrom [] (id :: r.ancestors id)

/-- Where a method is looked for at top level, in order. -/
def globalLinearization (r : Registry) : List Owner :=
  .main :: (r.walk [] r.main.includes).map .type

/-- The method that an owner itself declares. -/
def declaredBy? (r : Registry) (name : String) (owner : Owner) : Option MethodMatch :=
  ((r.owner? owner).bind (·.method? name)).map fun s => ⟨owner, s⟩

/-- All superclasses of a type, nearest first, up to one that has none. -/
inductive Ancestry (r : Registry) : TypeId → List TypeId → Prop where
  | root {id : TypeId} : r.superclass? id = none → Ancestry r id []
  | step {id next : TypeId} {above : List TypeId} :
      r.superclass? id = some next → Ancestry r next above → Ancestry r id (next :: above)

/-! ## Superclasses -/

/-- A superclass was registered before the types that inherit from it. -/
theorem WellFormed.index_superclass?_lt {r : Registry} (hr : WellFormed r) {id next : TypeId}
    (h : r.superclass? id = some next) : next.index < id.index := by
  rcases Option.bind_eq_some_iff.mp h with ⟨e, he, hnext⟩
  rcases hr.superclass he hnext with ⟨-, -, -, hlt⟩
  exact hlt

/-- A chain with as many steps as there are types below is never cut short. -/
theorem WellFormed.ancestry_superclassChain {r : Registry} (hr : WellFormed r) {fuel : Nat}
    {id : TypeId} (hfuel : id.index < fuel) : Ancestry r id (r.superclassChain id fuel) := by
  -- On the fuel, which stays above the index: each superclass has a smaller one.
  induction fuel generalizing id with
  | zero => omega
  | succ fuel ih =>
    unfold superclassChain
    split
    · rename_i h
      exact .root h
    · rename_i next h
      have hlt := hr.index_superclass?_lt h
      exact .step h (ih (by omega))

theorem WellFormed.ancestry_ancestors {r : Registry} (hr : WellFormed r) (id : TypeId) :
    Ancestry r id (r.ancestors id) := by
  -- An id that is not registered has no superclass, whatever its index.
  by_cases hid : id.index < r.size + 1
  · exact hr.ancestry_superclassChain hid
  · have hnone : r.get? id = none := get?_eq_none_iff.mpr (by omega)
    have hsuper : r.superclass? id = none := by rw [superclass?, hnone]; rfl
    rw [ancestors, superclassChain, hsuper]
    exact .root hsuper

/-- There are no more superclasses than places before the type. -/
theorem Ancestry.length_le {r : Registry} {id : TypeId} {above : List TypeId}
    (h : Ancestry r id above) (hr : WellFormed r) : above.length ≤ id.index := by
  induction h with
  | root => exact Nat.zero_le _
  | step hnext _ ih =>
    have hlt := hr.index_superclass?_lt hnext
    rw [List.length_cons]
    omega

theorem WellFormed.length_ancestors_le {r : Registry} (hr : WellFormed r) (id : TypeId) :
    (r.ancestors id).length ≤ r.size := by
  have hlength := (hr.ancestry_ancestors id).length_le hr
  cases he : r.get? id with
  | some e =>
    have hlt := index_lt_of_get? he
    omega
  | none =>
    -- What is not registered has no superclass.
    have hsuper : r.superclass? id = none := by rw [superclass?, he]; rfl
    rw [ancestors, superclassChain, hsuper]
    exact Nat.zero_le _

/-! ## Includes -/

theorem WellFormed.includesRegistered {r : Registry} (hr : WellFormed r) :
    r.IncludesRegistered := by
  intro id m hm
  rw [includesOf] at hm
  cases he : r.get? id with
  | none =>
    rw [he] at hm
    cases hm
  | some e =>
    rw [he] at hm
    rcases (hr.sound_get? he).includes m hm with ⟨-, f, hf, -⟩
    exact index_lt_of_get? hf

theorem WellFormed.mixins_registered {r : Registry} (hr : WellFormed r) (id : TypeId) :
    ∀ m ∈ r.mixins id, m.index < r.size := by
  intro m hm
  rcases List.mem_append.mp hm with hm | hm
  · exact hr.includesRegistered id m hm
  · cases ht : r.template? id with
    | none =>
      rw [ht] at hm
      cases hm
    | some t =>
      rw [ht] at hm
      exact hr.includesRegistered t m hm

/-! ## The search -/

/-- What is left out of a list does not matter when it would not be found. -/
theorem findSome?_filter {α β : Type} {f : α → Option β} {p : α → Bool} {l : List α}
    (h : ∀ a ∈ l, p a = false → f a = none) : (l.filter p).findSome? f = l.findSome? f := by
  induction l with
  | nil => rfl
  | cons a l ih =>
    have ih := ih fun b hb => h b (List.mem_cons_of_mem _ hb)
    by_cases hp : p a = true
    · rw [List.filter_cons_of_pos hp, List.findSome?_cons, List.findSome?_cons, ih]
    · rw [List.filter_cons_of_neg hp, List.findSome?_cons, ih,
        h a List.mem_cons_self (Bool.not_eq_true _ ▸ hp)]

/-- A class is asked before its template. -/
theorem ownMethod?_eq (r : Registry) (name : String) (id : TypeId) :
    r.ownMethod? name id =
      (id :: (r.template? id).toList).findSome? (r.declared? name) := by
  rw [ownMethod?, List.findSome?_cons]
  cases r.declared? name id with
  | some m => rfl
  | none =>
    cases r.template? id with
    | none => rfl
    | some t => simp

/-- The modules that a class adds to what is listed, after itself and its template. -/
def newModules (r : Registry) (listed : List TypeId) (c : TypeId) : List TypeId :=
  (r.walk [] (r.mixins c)).filter (· ∉ listed ++ c :: (r.template? c).toList)

theorem linearizeFrom_cons (r : Registry) (listed : List TypeId) (c : TypeId)
    (classes : List TypeId) :
    r.linearizeFrom listed (c :: classes) =
      (c :: (r.template? c).toList ++ r.newModules listed c) ++
        r.linearizeFrom (listed ++ (c :: (r.template? c).toList) ++ r.newModules listed c)
          classes := rfl

/-- What a search that goes on has behind it: the modules that were entered are among the types that
    are listed, and none of these declares the name. -/
structure Fruitless (r : Registry) (name : String) (entered listed : List TypeId) : Prop where
  closed : r.ClosedUnderIncludes entered
  subset : entered ⊆ listed
  undeclared : ∀ id ∈ listed, r.declared? name id = none

theorem fruitless_nil (r : Registry) (name : String) : r.Fruitless name [] [] :=
  ⟨fun _ hm => absurd hm List.not_mem_nil, List.nil_subset [], by simp⟩

/-- What a walk enters after others is what it would enter alone, less what they have entered. -/
theorem Fruitless.walk_eq {r : Registry} {name : String} {entered listed : List TypeId}
    (h : r.Fruitless name entered listed) (ms : List TypeId) :
    r.walk entered ms = (r.walk [] ms).filter (· ∉ entered) :=
  walk_eq_filter h.closed (by simp)

/-- A module that was entered before is listed, so leaving it out of a walk loses nothing. -/
theorem Fruitless.findSome?_walk {r : Registry} {name : String} {entered listed : List TypeId}
    (h : r.Fruitless name entered listed) {c : TypeId}
    (hown : (c :: (r.template? c).toList).findSome? (r.declared? name) = none) :
    (r.walk entered (r.mixins c)).findSome? (r.declared? name) =
      (r.newModules listed c).findSome? (r.declared? name) := by
  have hlisted : ∀ id ∈ listed ++ c :: (r.template? c).toList, r.declared? name id = none := by
    intro id hid
    rcases List.mem_append.mp hid with hid | hid
    · exact h.undeclared id hid
    · exact List.findSome?_eq_none_iff.mp hown id hid
  rw [h.walk_eq, newModules, findSome?_filter, findSome?_filter]
  · intro id _ hid
    exact hlisted id (Decidable.not_not.mp (of_decide_eq_false hid))
  · intro id _ hid
    exact h.undeclared id (h.subset (Decidable.not_not.mp (of_decide_eq_false hid)))

/-- Asking one more class without success. -/
theorem Fruitless.concat {r : Registry} {name : String} {entered listed : List TypeId}
    (h : r.Fruitless name entered listed) {c : TypeId}
    (hown : (c :: (r.template? c).toList).findSome? (r.declared? name) = none)
    (hmodules : (r.newModules listed c).findSome? (r.declared? name) = none) :
    r.Fruitless name (entered ++ r.walk entered (r.mixins c))
      (listed ++ (c :: (r.template? c).toList) ++ r.newModules listed c) where
  closed := h.closed.append_walk _
  subset := by
    -- What was entered for this class is listed, here or further down.
    intro m hm
    rcases List.mem_append.mp hm with hm | hm
    · exact List.mem_append_left _ (List.mem_append_left _ (h.subset hm))
    · rw [h.walk_eq] at hm
      have hmem := (List.mem_filter.mp hm).1
      by_cases hold : m ∈ listed ++ c :: (r.template? c).toList
      · exact List.mem_append_left _ hold
      · exact List.mem_append_right _ (List.mem_filter.mpr ⟨hmem, decide_eq_true hold⟩)
  undeclared := by
    intro id hid
    rcases List.mem_append.mp hid with hid | hid
    · rcases List.mem_append.mp hid with hid | hid
      · exact h.undeclared id hid
      · exact List.findSome?_eq_none_iff.mp hown id hid
    · exact List.findSome?_eq_none_iff.mp hmodules id hid

/-- Asking a class is looking through what it adds to the linearization. -/
theorem lookupOn_eq {r : Registry} (hr : WellFormed r) {name : String}
    {entered listed : List TypeId} (h : r.Fruitless name entered listed) (c : TypeId) :
    r.lookupOn name (r.unentered entered) c =
      match ((c :: (r.template? c).toList) ++ r.newModules listed c).findSome?
        (r.declared? name) with
      | some m => .found m
      | none => .exhausted (r.unentered (entered ++ r.walk entered (r.mixins c))) := by
  rw [lookupOn, ownMethod?_eq, List.findSome?_append]
  cases hown : (c :: (r.template? c).toList).findSome? (r.declared? name) with
  | some m => rfl
  | none =>
    have hsearch := @searchModules_eq_walk _ r hr.includesRegistered (r.declared? name) entered _
      (hr.mixins_registered c)
    rw [Option.none_or, ← h.findSome?_walk hown]
    dsimp only
    rw [hsearch]
    cases (r.walk entered (r.mixins c)).findSome? (r.declared? name) <;> rfl

/-- With as many steps as there are superclasses, going up from a class is looking through the
    linearization of the whole chain. -/
theorem lookupFrom_eq {r : Registry} (hr : WellFormed r) {name : String} {id : TypeId}
    {above : List TypeId} (hancestry : Ancestry r id above) {steps : Nat}
    (hsteps : above.length ≤ steps) {entered listed : List TypeId}
    (h : r.Fruitless name entered listed) :
    r.lookupFrom name (r.unentered entered) id steps =
      (r.linearizeFrom listed (id :: above)).findSome? (r.declared? name) := by
  -- Up the chain, with what was searched without success so far.
  induction hancestry generalizing steps entered listed with
  | @root id hnone =>
    rw [linearizeFrom_cons, linearizeFrom, List.append_nil]
    unfold lookupFrom
    rw [lookupOn_eq hr h id]
    cases (id :: (r.template? id).toList ++ r.newModules listed id).findSome?
      (r.declared? name) with
    | some m => rfl
    | none =>
      rw [hnone]
      cases steps <;> rfl
  | @step id next above hnext _ ih =>
    rw [List.length_cons] at hsteps
    obtain ⟨rest, rfl⟩ : ∃ rest, steps = rest + 1 := ⟨steps - 1, by omega⟩
    rw [linearizeFrom_cons, List.findSome?_append]
    unfold lookupFrom
    rw [lookupOn_eq hr h id]
    cases hfound : (id :: (r.template? id).toList ++ r.newModules listed id).findSome?
      (r.declared? name) with
    | some m => rfl
    | none =>
      rw [List.findSome?_append, Option.or_eq_none_iff] at hfound
      rw [hnext, Option.none_or]
      exact ih (by omega) (h.concat hfound.1 hfound.2)

/-- Going up at least as often as there are entries, a search is never cut short. -/
theorem WellFormed.lookupFrom_ids {r : Registry} (hr : WellFormed r) (id : TypeId) (name : String)
    {steps : Nat} (hsteps : r.size ≤ steps) :
    r.lookupFrom name r.ids id steps = (r.linearization id).findSome? (r.declared? name) := by
  rw [← unentered_nil]
  exact lookupFrom_eq hr (hr.ancestry_ancestors id) (Nat.le_trans (hr.length_ancestors_le id) hsteps)
    (fruitless_nil r name)

theorem WellFormed.lookupMethod?_eq {r : Registry} (hr : WellFormed r) (id : TypeId)
    (name : String) :
    r.lookupMethod? id name = (r.linearization id).findSome? (r.declared? name) :=
  hr.lookupFrom_ids id name (Nat.le_refl _)

/-- After any run a method name means, on a type, the method of the first type in its linearization
    that declares it, and at top level the one of the first owner in the global linearization. The
    linearization of a type goes through all its superclasses, and the limit on how often a lookup
    goes up to a superclass makes no difference: any greater one gives the same answer. -/
theorem lookup_eq_first {r : Registry} (h : Reachable r) (name : String) :
    (∀ id, Ancestry r id (r.ancestors id) ∧
      r.lookupMethod? id name =
        ((r.linearization id).map Owner.type).findSome? (r.declaredBy? name) ∧
      ∀ steps, r.size ≤ steps → r.lookupFrom name r.ids id steps = r.lookupMethod? id name) ∧
    r.lookupGlobal? name = r.globalLinearization.findSome? (r.declaredBy? name) := by
  have hr := h.wellFormed
  refine ⟨fun id => ⟨hr.ancestry_ancestors id, ?_, fun steps hsteps => ?_⟩, ?_⟩
  · rw [hr.lookupMethod?_eq, List.findSome?_map]
    rfl
  · rw [hr.lookupFrom_ids id name hsteps, hr.lookupMethod?_eq]
  · have hstack : ∀ m ∈ r.main.includes, m.index < r.size := by
      intro m hm
      have ho : r.owner? .main = some r.main := rfl
      rcases (hr.sound ho).includes m hm with ⟨-, f, hf, -⟩
      exact index_lt_of_get? hf
    have hsearch := @searchModules_eq_walk _ r hr.includesRegistered (r.declared? name) [] _ hstack
    rw [unentered_nil] at hsearch
    rw [lookupGlobal?, hsearch, globalLinearization, List.findSome?_cons, List.findSome?_map]
    cases hmain : r.main.method? name with
    | some s => simp [declaredBy?, owner?, hmain]
    | none =>
      have hcomp : r.declaredBy? name ∘ Owner.type = r.declared? name := rfl
      rw [hcomp]
      cases (r.walk [] r.main.includes).findSome? (r.declared? name) <;>
        simp [declaredBy?, owner?, hmain]

/-- Two modules that include each other, and a class that includes the first. -/
def mutualIncludes : Program :=
  let name (text : String) : Ident := ⟨text, .point 0⟩
  let at0 {α : Type} (a : α) : Located α := ⟨a, .point 0⟩
  [at0 (.moduleBlock (name "A") [at0 (.inclusion (name "B"))]),
    at0 (.moduleBlock (name "B") [at0 (.inclusion (name "A")), at0 (.method ⟨name "f", [], none⟩)]),
    at0 (.classBlock (name "C") none [at0 (.inclusion (name "A"))])]

/-- A search through modules that include each other ends, and finds what is declared there. -/
theorem lookup_eq_first_mutualIncludes :
    let r := ((initial .host64).collect mutualIncludes).2.registry
    Reachable r ∧ r.linearization ⟨16⟩ = [⟨16⟩, ⟨14⟩, ⟨15⟩, ⟨0⟩] ∧
      r.lookupMethod? ⟨16⟩ "f" = some ⟨.type ⟨15⟩, ⟨"f", [], none⟩⟩ := by
  intro r
  have hinitial : Reachable (initial .host64) :=
    .initial (ofTarget_eq_ok_iff.mpr ⟨by decide, rfl⟩)
  have hreach : Reachable r := .program mutualIncludes hinitial
  have hancestors : r.ancestors ⟨16⟩ = [⟨0⟩] := by decide +kernel
  have htemplates : r.template? ⟨16⟩ = none ∧ r.template? ⟨0⟩ = none := by decide +kernel
  have hmixins : r.mixins ⟨16⟩ = [⟨14⟩] ∧ r.mixins ⟨0⟩ = [] := by decide +kernel
  have hincludes : r.includesOf ⟨14⟩ = [⟨15⟩] ∧ r.includesOf ⟨15⟩ = [⟨14⟩] := by decide +kernel
  -- The walk enters `A`, then `B`, and passes by the `A` that `B` mixes in.
  have hwalk : r.walk [] [⟨14⟩] = [⟨14⟩, ⟨15⟩] := by
    rw [walk_of_not_mem (by decide), hincludes.1, walk_of_not_mem (by decide), hincludes.2,
      walk_of_mem (by decide)]
    simp
  have horder : r.linearization ⟨16⟩ = [⟨16⟩, ⟨14⟩, ⟨15⟩, ⟨0⟩] := by
    rw [linearization, hancestors]
    simp only [linearizeFrom, htemplates.1, htemplates.2, hmixins.1, hmixins.2, hwalk, walk_nil]
    decide
  refine ⟨hreach, horder, ?_⟩
  rw [((lookup_eq_first hreach "f").1 ⟨16⟩).2.1, horder]
  decide +kernel

end DeclLang.Registry
