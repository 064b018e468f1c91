import DeclLang.Registry.Error

/-!
# Declarations: adding types and members to a registry

An operation either adds what it declares or is refused; a refused one has no other effect. Entries
are only ever added at the end, so a place once given stays good, and an entry that is changed keeps
its name, so the table of names stays good as well.
-/

namespace DeclLang.Registry

/-- The entry at a place that must exist. -/
def require (r : Registry) (id : TypeId) : Except DeclarationError Entry :=
  match r.get? id with
  | some e => .ok e
  | none => .error (.unregistered id)

def requireOwner (r : Registry) : Owner → Except DeclarationError Entry
  | .main => .ok r.main
  | .type id => r.require id

/-- Adds an entry at the end, and its name to the table. -/
def push (r : Registry) (e : Entry) : TypeId × Registry :=
  let id : TypeId := ⟨r.size⟩
  (id, { r with
    entries := r.entries.push e
    nameTable := (e.name, id) :: r.nameTable
    named := fun {name other} h => by
      rw [List.lookup_cons] at h
      split at h
      · rename_i hname
        cases h
        exact ⟨e, Array.getElem?_push_size, (beq_iff_eq.mp hname).symm⟩
      · -- An entry that was there before has the place that it had.
        obtain ⟨f, hf, hname⟩ := r.named h
        obtain ⟨hlt, rfl⟩ := Array.getElem?_eq_some_iff.mp hf
        exact ⟨_, Array.getElem?_push_lt hlt, hname⟩
    listed := fun {f} hf => by
      rw [List.lookup_cons]
      split
      · simp
      · rename_i hname
        rcases Array.mem_push.mp hf with hf | rfl
        · exact r.listed hf
        · simp at hname })

@[simp] theorem size_push (r : Registry) (e : Entry) : (r.push e).2.size = r.size + 1 := by
  rw [push, size, Array.size_push]
  rfl

/-- A new entry takes the first free place and leaves the others alone. -/
theorem get?_push (r : Registry) (e : Entry) (id : TypeId) :
    (r.push e).2.get? id = if id = (r.push e).1 then some e else r.get? id := by
  have hid : id = ⟨r.size⟩ ↔ id.index = r.entries.size := by
    cases id
    simp [size]
  rw [push, get?, get?, Array.getElem?_push]
  simp only [hid]

/-- The main module is not an entry. -/
theorem owner?_push (r : Registry) (e : Entry) (o : Owner) :
    (r.push e).2.owner? o = if o = .type (r.push e).1 then some e else r.owner? o := by
  cases o with
  | main => rfl
  | type id => simp only [owner?, get?_push, Owner.type.injEq]

/-- A new entry is found under its name. -/
theorem lookup?_push (r : Registry) (e : Entry) (name : String) :
    (r.push e).2.lookup? name = if name = e.name then some (r.push e).1 else r.lookup? name := by
  rw [lookup?, lookup?, push, List.lookup_cons]
  by_cases h : name = e.name
  · simp [h]
  · rw [beq_eq_false_iff_ne.mpr h, if_neg h]

@[simp] theorem target_push (r : Registry) (e : Entry) : (r.push e).2.target = r.target := rfl

/-- Adds an entry whose name must be free. -/
def register (r : Registry) (e : Entry) : Except DeclarationError (TypeId × Registry) :=
  match r.lookup? e.name with
  | some id => do
    let existing ← r.require id
    throw (.alreadyDefined e.name existing.kind.label)
  | none => return r.push e

theorem register_of_lookup?_eq_none {r : Registry} {e : Entry} (h : r.lookup? e.name = none) :
    r.register e = .ok (r.push e) := by
  rw [register, h]
  rfl

/-- An entry whose name is taken is refused with the kind of what has it. -/
theorem register_of_lookup?_eq_some {r : Registry} {e old : Entry} {id : TypeId}
    (h : r.lookup? e.name = some id) (hold : r.get? id = some old) :
    r.register e = .error (.alreadyDefined e.name old.kind.label) := by
  rw [register, h]
  simp only [require, hold]
  rfl

/-- Nothing but the name can keep an entry out. -/
theorem register_eq_ok_iff {r s : Registry} {e : Entry} {id : TypeId} :
    r.register e = .ok (id, s) ↔ r.lookup? e.name = none ∧ r.push e = (id, s) := by
  cases h : r.lookup? e.name with
  | none => simp [register_of_lookup?_eq_none h]
  | some id =>
    obtain ⟨old, hold, -⟩ := get?_of_lookup? h
    simp [register_of_lookup?_eq_some h hold]

/-- Changes the entry of an owner, which keeps its name. -/
def modifyOwner (r : Registry) (owner : Owner) (f : Entry → Entry) [Entry.KeepsName f] :
    Registry :=
  match owner with
  | .main => { r with main := f r.main }
  | .type id =>
    { r with
      entries := r.entries.modify id.index f
      named := fun {name other} h => by
        obtain ⟨e, he, hname⟩ := r.named h
        rw [Array.getElem?_modify, he]
        split
        · exact ⟨f e, rfl, (Entry.KeepsName.name_eq e).trans hname⟩
        · exact ⟨e, rfl, hname⟩
      listed := fun {e} he => by
        obtain ⟨i, hi⟩ := Array.mem_iff_getElem?.mp he
        rw [Array.getElem?_modify] at hi
        split at hi
        · obtain ⟨old, hold, rfl⟩ := Option.map_eq_some_iff.mp hi
          rw [Entry.KeepsName.name_eq]
          exact r.listed (Array.mem_of_getElem? hold)
        · exact r.listed (Array.mem_of_getElem? hi) }

section Modification

variable (r : Registry) (owner : Owner) (f : Entry → Entry) [Entry.KeepsName f]

@[simp] theorem size_modifyOwner : (r.modifyOwner owner f).size = r.size := by
  cases owner with
  | main => rfl
  | type id => rw [modifyOwner, size, size, Array.size_modify]

@[simp] theorem target_modifyOwner : (r.modifyOwner owner f).target = r.target := by
  cases owner <;> rfl

/-- Nothing comes to stand for another name. -/
@[simp] theorem lookup?_modifyOwner (name : String) :
    (r.modifyOwner owner f).lookup? name = r.lookup? name := by
  cases owner <;> rfl

/-- Only the owner is changed. -/
theorem owner?_modifyOwner (o : Owner) :
    (r.modifyOwner owner f).owner? o =
      if o = owner then (r.owner? o).map f else r.owner? o := by
  cases owner with
  | main => cases o <;> simp [modifyOwner, owner?, get?]
  | type id =>
    cases o with
    | main => simp [modifyOwner, owner?]
    | type other =>
      have hid : id.index = other.index ↔ other = id := by
        rw [eq_comm (a := other), TypeId.mk.injEq]
      simp only [modifyOwner, owner?, get?, Array.getElem?_modify, hid, Owner.type.injEq]

variable {r owner f}

/-- Changing an entry adds none. -/
theorem get?_ne_none_of_modifyOwner {id : TypeId} {e : Entry}
    (he : (r.modifyOwner owner f).get? id = some e) : r.get? id ≠ none := by
  have hlt := index_lt_of_get? he
  rw [size_modifyOwner] at hlt
  rw [ne_eq, get?_eq_none_iff]
  omega

end Modification

/-! ## Types -/

/-- Only a type that takes part in inheritance can be inherited from. -/
def requireClass (r : Registry) (id : TypeId) : Except DeclarationError Unit := do
  let e ← r.require id
  if e.kind.isClassLike then return () else throw (.notAClass e.name)

def declareObject (r : Registry) (name : String) (superclass : TypeId) :
    Except DeclarationError (TypeId × Registry) := do
  r.requireClass superclass
  r.register (.bare name (.object (some superclass)))

def declareModule (r : Registry) (name : String) :
    Except DeclarationError (TypeId × Registry) :=
  r.register (.bare name .module)

/-- A primitive declares the size that its representation takes on the target. -/
def checkLayout (target : Target) (name : String) (repr : Representation) (byteSize : Nat) :
    Except InvariantError Unit :=
  let expected := repr.storageSize target
  if byteSize = expected then .ok ()
  else .error (.layoutMismatch name repr byteSize expected)

def declarePrimitive (r : Registry) (name : String) (superclass : TypeId) (repr : Representation)
    (byteSize : Nat) : Except DeclarationError (TypeId × Registry) := do
  r.requireClass superclass
  (checkLayout r.target name repr byteSize).mapError .layout
  r.register (.bare name (.primitive superclass repr byteSize))

def declareLib (r : Registry) (name : String) (libname : Option String) :
    Except DeclarationError (TypeId × Registry) :=
  r.register (.bare name (.lib libname))

/-! ## Members -/

/-- Mixes a module into an owner, after the modules already in it. -/
def mixIn (r : Registry) (owner : Owner) (module : TypeId) :
    Except DeclarationError Registry := do
  let m ← r.require module
  let o ← r.requireOwner owner
  if !m.kind.isModule then throw (.notAModule m.name)
  else if owner = .type module then throw (.selfInclude m.name)
  else if o.includes.contains module then throw (.duplicateInclude o.name m.name)
  else return r.modifyOwner owner (·.mixIn module)

/-- Adds a method whose name must be free on the owner. -/
def defineMethod (r : Registry) (owner : Owner) (s : Signature) :
    Except DeclarationError Registry := do
  let o ← r.requireOwner owner
  match o.method? s.name with
  | some _ => throw (.duplicateMethod o.name s.name)
  | none => return r.modifyOwner owner (·.define s)

end DeclLang.Registry
