import DeclLang.Proofs.Collection.Nominal
import DeclLang.Proofs.Library.Loads

/-!
# Poisoning: a registry after failed loads

A registry is poisoned exactly when a load on it has failed, and from then on every load is refused
before anything is read. What loads leave can always be verified, so a bootstrap never fails at its
last step (`poisoned_iff_failed`).
-/

namespace DeclLang

/-- A call to load files: the files as they are then, and what is asked for. -/
structure LoadCall where
  fs : FileSystem
  places : List String
  options : Options

/-! ## The mark of a failed load -/

namespace Registry

variable {r s : Registry}

@[simp] theorem poisoned_cache (r : Registry) (i : ArrayInstance) :
    (r.cache i).poisoned = r.poisoned := by
  unfold cache
  split <;> rfl

@[simp] theorem poisoned_modifyOwner (r : Registry) (owner : Owner) (f : Entry → Entry)
    [Entry.KeepsName f] : (r.modifyOwner owner f).poisoned = r.poisoned := by
  cases owner <;> rfl

theorem poisoned_of_change (h : Change r s) : s.poisoned = r.poisoned := by
  cases h with
  | none => rfl
  | declared => rfl
  | specialized =>
    rw [poisoned_cache]
    rfl
  | mixedIn => exact poisoned_modifyOwner r _ _
  | defined => exact poisoned_modifyOwner r _ _
  | @rebound array element previous superclass template e =>
    have hmodify := poisoned_modifyOwner r (.type array)
      ({ · with kind := .array superclass element template })
    cases template with
    | none => exact hmodify
    | some template =>
      simp only [rebound, poisoned_cache]
      split
      · exact hmodify
      · exact hmodify

/-- No operation and no program poisons a registry. -/
theorem steadfast_poisoned : Collect.Steadfast fun r s => s.poisoned = r.poisoned :=
  ⟨⟨fun _ => rfl, fun h h' => h'.trans h⟩, fun _ h => poisoned_of_change (change_of_apply h)⟩

theorem poisoned_collect (r : Registry) (p : Program) :
    (r.collect p).2.registry.poisoned = r.poisoned :=
  steadfast_poisoned.on.keeps_program p (fun _ _ _ _ => trivial) ⟨r, 0⟩

end Registry

/-! ## One load -/

namespace Loading

variable {σ : Type}

/-- On a poisoned registry nothing is read and nothing is handed on. -/
theorem outcome_load_of_poisoned {x : Registry × σ} (h : x.1.poisoned = true) (fs : FileSystem)
    (places : List String) (options : Options)
    (ingest : (file source : String) → Loading σ Unit) :
    outcome (load fs places options ingest) x = (.error .poisoned, x) := by
  rw [outcome_load, if_pos h]

/-- A load leaves a poisoned registry exactly when it fails. -/
theorem poisoned_load_iff (fs : FileSystem) (places : List String) (options : Options)
    {ingest : (file source : String) → Loading σ Unit}
    (hingest : ∀ path source, Keeps (fun r s => s.poisoned = r.poisoned) (ingest path source))
    (x : Registry × σ) :
    (outcome (load fs places options ingest) x).2.1.poisoned = true ↔
      ∃ e, (outcome (load fs places options ingest) x).1 = .error e := by
  by_cases h : x.1.poisoned = true
  · rw [outcome_load_of_poisoned h]
    exact ⟨fun _ => ⟨.poisoned, rfl⟩, fun _ => h⟩
  · have hkeeps := keeps_files Registry.steadfast_poisoned.toComposable fs hingest
      (options.files fs places) x.1.size x
    rw [outcome_load, if_neg h, outcome_poisoning]
    -- The files alone do not poison it; what does is that the load has failed on one of them.
    generalize outcome _ x = after at hkeeps ⊢
    obtain ⟨result, y⟩ := after
    cases result with
    | error e => exact ⟨fun _ => ⟨e, rfl⟩, fun _ => rfl⟩
    | ok summary =>
      constructor
      · intro hpoisoned
        exact absurd (hkeeps.symm.trans hpoisoned) h
      · intro ⟨e, he⟩
        cases he

end Loading

namespace Registry

theorem poisoned_load_iff (r : Registry) (fs : FileSystem) (places : List String)
    (options : Options) :
    (r.load fs places options).2.poisoned = true ↔ ∃ e, (r.load fs places options).1 = .error e :=
  Loading.poisoned_load_iff fs places options
    (Loading.keeps_collect steadfast_poisoned.toComposable poisoned_collect) (r, ())

theorem load_of_poisoned {r : Registry} (h : r.poisoned = true) (fs : FileSystem)
    (places : List String) (options : Options) :
    r.load fs places options = (.error .poisoned, r) := by
  have hload := Loading.outcome_load_of_poisoned (x := (r, ())) h fs places options Loading.collect
  rw [Loading.outcome] at hload
  rw [load, hload]

end Registry

/-! ## One load after the other -/

namespace Registry

/-- What each of some calls returns, and the registry that they leave. -/
def loadAll (r : Registry) :
    List LoadCall → List (Except BootstrapError Loading.Summary) × Registry
  | [] => ([], r)
  | c :: calls =>
    let (result, s) := r.load c.fs c.places c.options
    let (results, t) := s.loadAll calls
    (result :: results, t)

theorem loadAll_of_poisoned {r : Registry} (h : r.poisoned = true) (calls : List LoadCall) :
    r.loadAll calls = (calls.map fun _ => .error .poisoned, r) := by
  induction calls with
  | nil => rfl
  | cons c calls ih =>
    rw [loadAll, load_of_poisoned h]
    dsimp only
    rw [ih, List.map_cons]

theorem poisoned_loadAll_iff (r : Registry) (calls : List LoadCall) :
    (r.loadAll calls).2.poisoned = true ↔
      r.poisoned = true ∨ ∃ e, .error e ∈ (r.loadAll calls).1 := by
  induction calls generalizing r with
  | nil => simp [loadAll]
  | cons c calls ih =>
    have hfirst := r.poisoned_load_iff c.fs c.places c.options
    have hafter : r.poisoned = true → (r.load c.fs c.places c.options).2.poisoned = true := by
      intro h
      rw [load_of_poisoned h]
      exact h
    rw [loadAll]
    simp only [ih, List.mem_cons, exists_or, eq_comm (a := Except.error _), ← hfirst]
    -- What was poisoned before the first call is so after it.
    exact (or_iff_right_of_imp fun h => .inl (hafter h)).symm

/-! ## Verification -/

/-- A regular registry in which every type that is mentioned is registered. -/
structure Verifiable (r : Registry) : Prop extends Regular r, Closed r

theorem verifiable_initial (target : Target) : Verifiable (initial target) :=
  ⟨regular_initial target, closed_initial target⟩

/-- An element is mentioned by its array, so none is missing. -/
theorem Verifiable.verify_eq_ok {r : Registry} (h : r.Verifiable) : r.verify = .ok () := by
  have hnone : r.danglingArray? = none := by
    rw [danglingArray?, List.findSome?_eq_none_iff]
    intro e he
    have ⟨i, hi⟩ := List.mem_iff_getElem?.mp he
    have hget : r.get? ⟨i⟩ = some e := by rwa [Array.getElem?_toList] at hi
    rw [danglingArrayAt?, Option.map_eq_none_iff, danglingElement?]
    cases hkind : e.kind with
    | array superclass element template =>
      have hmem : element ∈ e.mentions := by
        simp only [Entry.mentions, hkind, TypeKind.mentions, List.mem_append, List.mem_cons,
          true_or, or_true]
      exact if_pos (isSome_get?_iff.mp (h.toClosed.get? hget hmem))
    | object => rfl
    | module => rfl
    | primitive => rfl
    | lib => rfl
  rw [verify_eq h.toWellFormed, hnone]

/-- Collecting resolves the types that it mentions before it adds anything that mentions them. -/
theorem steadfastOn_verifiable :
    Collect.SteadfastOn (fun _ => True) (Collect.Carries Verifiable fun _ _ => True) := by
  refine Collect.steadfastOn_carries ⟨fun _ => trivial, fun _ _ => trivial⟩ (fun h => h.toRegular)
    (fun {r s array element id} hr helement hmake => ?_) (fun {r s} op hop h hr => ?_)
    fun {r s owner signature} hr hids h => ?_
  · have happly : (Operation.instantiate array element).apply r = .ok s := by
      rw [Operation.apply, hmake]
      rfl
    have hregular := steadfast_regular.operation _ happly hr.toRegular
    exact ⟨⟨hregular, hr.toClosed.instantiate hr.toRegular helement hmake⟩, trivial⟩
  · exact ⟨⟨steadfast_regular.operation op h hr.toRegular, hr.toClosed.collects hop h⟩, trivial⟩
  · have hregular := steadfast_regular.operation (.defineMethod owner signature) h hr.toRegular
    exact ⟨⟨hregular, hr.toClosed.define hids h⟩, trivial⟩

theorem Verifiable.collect {r : Registry} (h : r.Verifiable) (p : Program) :
    (r.collect p).2.registry.Verifiable :=
  (steadfastOn_verifiable.keeps_program p (fun _ _ _ _ => trivial) ⟨r, 0⟩ h).1

theorem Verifiable.poison {r : Registry} (h : r.Verifiable) : r.poison.Verifiable := by
  have howner (o : Owner) : r.poison.owner? o = r.owner? o := by cases o <;> rfl
  exact ⟨⟨h.toWellFormed.congr rfl howner fun _ => rfl, h.array, h.template, h.cached⟩,
    h.toClosed.congr howner⟩

theorem Verifiable.load {r : Registry} (h : r.Verifiable) (fs : FileSystem)
    (places : List String) (options : Options) : (r.load fs places options).2.Verifiable :=
  keeps_load (R := fun r s => r.Verifiable → s.Verifiable) ⟨fun _ h => h, fun h h' hr => h' (h hr)⟩
    (fun _ h => h.poison) (fun _ p h => h.collect p) r fs places options h

/-! ## Every sequence of loads -/

theorem verify_load {target : Target} {r : Registry} (h : ofTarget target = .ok r)
    (fs : FileSystem) (places : List String) (options : Options) :
    (r.load fs places options).2.verify = .ok () := by
  have hinitial := (ofTarget_eq_ok_iff.mp h).2
  rw [← hinitial]
  exact ((verifiable_initial target).load fs places options).verify_eq_ok

end Registry

/-- The last check of a bootstrap is always passed: it returns what the load returns. -/
theorem bootstrap_eq (fs : FileSystem) (places : List String) (options : Options) :
    bootstrap fs places options =
      match Registry.ofTarget options.target with
      | .error e => .error (.invariant e)
      | .ok r =>
        match r.load fs places options with
        | (.error e, _) => .error e
        | (.ok _, s) => .ok s := by
  unfold bootstrap
  cases htarget : Registry.ofTarget options.target with
  | error e => rfl
  | ok r =>
    have hverify := Registry.verify_load htarget fs places options
    show (do
      let _ ← (r.load fs places options).1
      (r.load fs places options).2.verify.mapError .invariant
      return (r.load fs places options).2 : Except BootstrapError Registry) = _
    rw [hverify]
    dsimp only
    generalize r.load fs places options = after
    obtain ⟨result, s⟩ := after
    cases result <;> rfl

/-- A bootstrap succeeds exactly when the load does, and returns what that leaves. -/
theorem bootstrap_eq_ok_iff {r s : Registry} {options : Options}
    (h : Registry.ofTarget options.target = .ok r) (fs : FileSystem) (places : List String) :
    bootstrap fs places options = .ok s ↔
      ∃ summary, r.load fs places options = (.ok summary, s) := by
  rw [bootstrap_eq, h]
  dsimp only
  generalize r.load fs places options = after
  obtain ⟨result, t⟩ := after
  cases result with
  | error e => simp
  | ok summary => simp

/-- For a fresh registry and any calls to load files, whatever each asks for and finds: the registry
    is poisoned exactly when one of them has failed; then every later load is refused and leaves it
    as it is, with no file handed on. What a bootstrap returns is not poisoned and passes the
    verification, and no load that succeeds leaves a registry that would not. -/
theorem poisoned_iff_failed {target : Target} {r : Registry}
    (h : Registry.ofTarget target = .ok r) (calls : List LoadCall) :
    ((r.loadAll calls).2.poisoned = true ↔ ∃ e, .error e ∈ (r.loadAll calls).1) ∧
    ((r.loadAll calls).2.poisoned = true →
      (∀ more, (r.loadAll calls).2.loadAll more =
        (more.map fun _ => .error .poisoned, (r.loadAll calls).2)) ∧
      ∀ {σ : Type} (notes : σ) fs places options ingest,
        (Loading.load fs places options ingest).run.run ((r.loadAll calls).2, notes) =
          (.error .poisoned, (r.loadAll calls).2, notes)) ∧
    ∀ fs places options, options.target = target →
      (∀ s, bootstrap fs places options = .ok s → s.poisoned = false ∧ s.verify = .ok ()) ∧
      ∀ summary s, r.load fs places options = (.ok summary, s) →
        s.verify = .ok () ∧ bootstrap fs places options = .ok s := by
  have hclean : r.poisoned = false := by
    rw [← (Registry.ofTarget_eq_ok_iff.mp h).2]
    rfl
  refine ⟨?_, fun hpoisoned => ⟨fun more => ?_, fun notes fs places options ingest => ?_⟩,
    fun fs places options htarget => ?_⟩
  · rw [r.poisoned_loadAll_iff, hclean]
    simp
  · exact Registry.loadAll_of_poisoned hpoisoned more
  · exact Loading.outcome_load_of_poisoned hpoisoned fs places options ingest
  · have hverify := Registry.verify_load h fs places options
    have hfailed := r.poisoned_load_iff fs places options
    rw [← htarget] at h
    constructor
    · intro s hs
      have ⟨summary, hload⟩ := (bootstrap_eq_ok_iff h fs places).mp hs
      rw [hload] at hverify hfailed
      exact ⟨by simpa using hfailed, hverify⟩
    · intro summary s hload
      rw [hload] at hverify
      exact ⟨hverify, (bootstrap_eq_ok_iff h fs places).mpr ⟨summary, hload⟩⟩

/-- A load that finds no library fails, and the next one is refused though it asks for nothing; a
    registry that is built with no library at all is fine. -/
theorem poisoned_iff_failed_missing :
    let r := Registry.initial .host64
    let fs : FileSystem := ⟨.directory [], "/"⟩
    let nothing : Options := ⟨.none, .host64, none⟩
    let missing : LoadCall := ⟨fs, [], { nothing with selection := .all }⟩
    let s := (r.loadAll [missing]).2
    s.poisoned = true ∧ s.loadAll [⟨fs, [], nothing⟩] = ([.error .poisoned], s) ∧
      bootstrap fs [] nothing = .ok r := by
  intro r fs nothing missing s
  have hfresh : Registry.ofTarget .host64 = .ok r :=
    Registry.ofTarget_eq_ok_iff.mpr ⟨by decide, rfl⟩
  have hfailed : .error .libraryNotFound ∈ (r.loadAll [missing]).1 := List.mem_singleton.mpr rfl
  have hprotocol := poisoned_iff_failed hfresh [missing]
  have hpoisoned : s.poisoned = true := hprotocol.1.mpr ⟨_, hfailed⟩
  have hload : r.load fs [] nothing = (.ok ⟨[], 0⟩, r) := rfl
  have hboot := (hprotocol.2.2 fs [] nothing rfl).2 _ _ hload
  exact ⟨hpoisoned, (hprotocol.2.1 hpoisoned).1 _, hboot.2⟩

end DeclLang
