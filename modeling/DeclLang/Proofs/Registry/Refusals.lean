import DeclLang.Proofs.Registry.Extension

/-!
# Refusals: why an operation of the registry is refused

An operation is refused at the first thing that is wrong with it: an id that belongs to nothing, a
type of another kind than is needed, or a name that is taken. Each lemma lists what can be wrong for
one operation, with the error that says so.
-/

namespace DeclLang.Registry

/-- A chain of operations is refused by the first of them that is. -/
theorem bind_eq_error {ε α β : Type} {x : Except ε α} {f : α → Except ε β} {e : ε} :
    (x >>= f) = .error e ↔ x = .error e ∨ ∃ a, x = .ok a ∧ f a = .error e := by
  cases x with
  | error e' => simp [bind, Except.bind]
  | ok a => simp [bind, Except.bind]

@[simp] theorem throw_eq_error {ε α : Type} {e e' : ε} :
    (throw e : Except ε α) = .error e' ↔ e = e' := by
  simp [throw, throwThe, MonadExceptOf.throw]

@[simp] theorem pure_ne_error {ε α : Type} {a : α} {e : ε} : (pure a : Except ε α) ≠ .error e := by
  simp [pure, Except.pure]

variable {r : Registry} {id : TypeId} {error : DeclarationError}

theorem register_eq_error {new : Entry} (h : r.register new = .error error) :
    ∃ old ∈ r.entries, old.name = new.name ∧ error = .alreadyDefined new.name old.kind.label := by
  cases hid : r.lookup? new.name with
  | none =>
    rw [register_of_lookup?_eq_none hid] at h
    cases h
  | some id =>
    obtain ⟨old, hold, hname⟩ := get?_of_lookup? hid
    rw [register_of_lookup?_eq_some hid hold] at h
    cases h
    exact ⟨old, Array.mem_of_getElem? hold, hname, rfl⟩

/-- A free name is not refused. -/
theorem register_ne_error {new : Entry} (hfree : r.lookup? new.name = none) :
    r.register new ≠ .error error := by
  intro h
  obtain ⟨old, hold, hname, -⟩ := register_eq_error h
  exact lookup?_eq_none_iff.mp hfree old hold hname

theorem requireClass_eq_error {e : Entry} (he : r.get? id = some e)
    (h : r.requireClass id = .error error) :
    e.kind.isClassLike = false ∧ error = .notAClass e.name := by
  unfold requireClass at h
  rw [require_eq_ok.mpr he] at h
  by_cases hclass : e.kind.isClassLike = true
  · simp [bind, Except.bind, hclass] at h
  · simp [bind, Except.bind, hclass] at h
    exact ⟨by simpa using hclass, h.symm⟩

theorem declareObject_eq_error {name : String} {e : Entry} (hfree : r.lookup? name = none)
    (he : r.get? id = some e) (h : r.declareObject name id = .error error) :
    e.kind.isClassLike = false ∧ error = .notAClass e.name := by
  obtain h | ⟨u, -, h⟩ := bind_eq_error.mp h
  · exact requireClass_eq_error he h
  · exact absurd h (register_ne_error hfree)

theorem checkLayout_eq_error {target : Target} {name : String} {repr : Representation}
    {byteSize : Nat} {error : InvariantError}
    (h : checkLayout target name repr byteSize = .error error) :
    byteSize ≠ repr.storageSize target ∧
      error = .layoutMismatch name repr byteSize (repr.storageSize target) := by
  unfold checkLayout at h
  dsimp only at h
  split at h
  · cases h
  · rename_i hsize
    cases h
    exact ⟨hsize, rfl⟩

theorem declarePrimitive_eq_error {name : String} {repr : Representation} {byteSize : Nat}
    {e : Entry} (hfree : r.lookup? name = none) (he : r.get? id = some e)
    (h : r.declarePrimitive name id repr byteSize = .error error) :
    (e.kind.isClassLike = false ∧ error = .notAClass e.name) ∨
      (byteSize ≠ repr.storageSize r.target ∧
        error = .layout (.layoutMismatch name repr byteSize (repr.storageSize r.target))) := by
  obtain h | ⟨u, -, h⟩ := bind_eq_error.mp h
  · exact .inl (requireClass_eq_error he h)
  obtain h | ⟨u, -, h⟩ := bind_eq_error.mp h
  · right
    cases hcheck : checkLayout r.target name repr byteSize with
    | ok u =>
      rw [hcheck] at h
      cases h
    | error mismatch =>
      rw [hcheck] at h
      cases h
      obtain ⟨hsize, rfl⟩ := checkLayout_eq_error hcheck
      exact ⟨hsize, rfl⟩
  · exact absurd h (register_ne_error hfree)

/-! ## Members -/

theorem mixIn_eq_error {owner : Owner} {m o : Entry} (hm : r.get? id = some m)
    (ho : r.owner? owner = some o) (h : r.mixIn owner id = .error error) :
    m.kind.isModule = false ∧ error = .notAModule m.name ∨
      owner = .type id ∧ error = .selfInclude m.name ∨
      id ∈ o.includes ∧ error = .duplicateInclude o.name m.name := by
  unfold mixIn at h
  rw [require_eq_ok.mpr hm, requireOwner_eq_ok.mpr ho] at h
  simp only [bind, Except.bind] at h
  split at h
  · rename_i hmodule
    exact .inl ⟨by simpa using hmodule, (throw_eq_error.mp h).symm⟩
  split at h
  · rename_i hself
    exact .inr (.inl ⟨hself, (throw_eq_error.mp h).symm⟩)
  split at h
  · rename_i hincluded
    exact .inr (.inr ⟨by simpa using hincluded, (throw_eq_error.mp h).symm⟩)
  · exact absurd h pure_ne_error

theorem defineMethod_eq_error {owner : Owner} {s : Signature} {o : Entry}
    (ho : r.owner? owner = some o) (h : r.defineMethod owner s = .error error) :
    (o.method? s.name).isSome = true ∧ error = .duplicateMethod o.name s.name := by
  unfold defineMethod at h
  rw [requireOwner_eq_ok.mpr ho] at h
  simp only [bind, Except.bind] at h
  split at h
  · rename_i t hmethod
    exact ⟨Option.isSome_of_eq_some hmethod, (throw_eq_error.mp h).symm⟩
  · exact absurd h pure_ne_error

/-! ## Arrays -/

theorem templateOf_eq_error {e : Entry} (he : r.get? id = some e)
    (h : r.templateOf id = .error error) : e.kind.isArray = false ∧ error = .notGeneric e.name := by
  unfold templateOf at h
  rw [require_eq_ok.mpr he] at h
  simp only [bind, Except.bind] at h
  split at h
  · exact absurd h pure_ne_error
  · rename_i hnot
    refine ⟨?_, (throw_eq_error.mp h).symm⟩
    cases hkind : e.kind with
    | array superclass element template => exact absurd hkind (hnot _ _ _)
    | _ => rfl

end DeclLang.Registry
