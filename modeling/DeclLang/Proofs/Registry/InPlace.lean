import DeclLang.Proofs.Registry.Run

/-!
# Operations in place: refused before anything is written

An operation can be carried out on the registry itself, check by check and write by write, so that
whatever was written before a refusal would stay. Each operation makes all its checks before its
first write: carried out in place it leaves what `Operation.apply` returns, or the registry as it
found it (`outcome_inPlace`).
-/

namespace DeclLang

/-- A computation that writes to a registry. What it has written before a refusal stays. -/
abbrev Update := ExceptT DeclarationError (StateM Registry)

namespace Update

variable {α β : Type}

/-- A check, or anything else that only reads. -/
def ask (read : Registry → Except DeclarationError α) : Update α := do
  match read (← get) with
  | .ok a => return a
  | .error e => throw e

/-! ## The operations -/

def register (e : Entry) : Update TypeId := do
  match (← get).lookup? e.name with
  | some id =>
    let existing ← ask (·.require id)
    throw (.alreadyDefined e.name existing.kind.label)
  | none =>
    let id : TypeId := ⟨(← get).size⟩
    modify fun r => (r.push e).2
    return id

def declareObject (name : String) (superclass : TypeId) : Update TypeId := do
  ask (·.requireClass superclass)
  register (.bare name (.object (some superclass)))

def declarePrimitive (name : String) (superclass : TypeId) (repr : Representation)
    (byteSize : Nat) : Update TypeId := do
  ask (·.requireClass superclass)
  ask fun r => (Registry.checkLayout r.target name repr byteSize).mapError .layout
  register (.bare name (.primitive superclass repr byteSize))

def mixIn (owner : Owner) (module : TypeId) : Update Unit := do
  let m ← ask (·.require module)
  let o ← ask (·.requireOwner owner)
  if !m.kind.isModule then throw (.notAModule m.name)
  else if owner = .type module then throw (.selfInclude m.name)
  else if o.includes.contains module then throw (.duplicateInclude o.name m.name)
  else modify (·.modifyOwner owner (·.mixIn module))

def defineMethod (owner : Owner) (s : Signature) : Update Unit := do
  let o ← ask (·.requireOwner owner)
  match o.method? s.name with
  | some _ => throw (.duplicateMethod o.name s.name)
  | none => modify (·.modifyOwner owner (·.define s))

def specialize (id element : TypeId) (name : Option String) : Update TypeId := do
  let template ← ask (·.templateOf id)
  let r ← get
  match r.cloneArray? template element (name.getD (r.instanceName template element)) with
  | none => throw (.notGeneric (r.nameOf template))
  | some clone =>
    let array ← register clone
    modify (·.cache ⟨template, element, array⟩)
    return array

def instantiate (id element : TypeId) : Update TypeId := do
  let template ← ask (·.templateOf id)
  match (← get).cached? template element with
  | some array => return array
  | none => specialize template element none

/-- Moves an array in the cache, from its old element to its new one if that has no array. -/
def recache (array template previous element : TypeId) : Update Unit := do
  if (← get).cached? template previous = some array then modify (·.uncache template previous)
  modify (·.cache ⟨template, element, array⟩)

/-- The element is written first; the cache follows. -/
def rebindElement (array element : TypeId) : Update Unit := do
  let e ← ask (·.require array)
  match e.kind with
  | .array superclass previous template =>
    let kind := TypeKind.array superclass element template
    modify (·.modifyOwner (.type array) ({ · with kind := kind }))
    match template with
    | none => return ()
    | some template => recache array template previous element
  | _ => throw (.notGeneric e.name)

/-! ## Whole or not at all -/

/-- What an update returns, and the registry that it leaves. -/
def outcome (u : Update α) (r : Registry) : Except DeclarationError α × Registry :=
  u.run.run r

/-- What an operation comes to: what it gives, or the registry as it was if it is refused. -/
def settle (r : Registry) :
    Except DeclarationError (α × Registry) → Except DeclarationError α × Registry
  | .ok (a, s) => (.ok a, s)
  | .error e => (.error e, r)

/-- Carried out in place, an update comes to what a function gives. -/
def Performs (u : Update α) (f : Registry → Except DeclarationError (α × Registry)) : Prop :=
  ∀ r, u.outcome r = settle r (f r)

theorem outcome_bind (u : Update α) (v : α → Update β) (r : Registry) :
    (u >>= v).outcome r =
      match u.outcome r with
      | (.ok a, s) => (v a).outcome s
      | (.error e, s) => (.error e, s) := by
  show (ExceptT.bindCont v (u.outcome r).1).run (u.outcome r).2 = _
  rcases u.outcome r with ⟨x, s⟩
  cases x <;> rfl

theorem outcome_get_bind (v : Registry → Update β) (r : Registry) :
    (get >>= v).outcome r = (v r).outcome r := rfl

theorem outcome_ask (read : Registry → Except DeclarationError α) (r : Registry) :
    (ask read).outcome r = (read r, r) := by
  rw [ask, outcome_get_bind]
  cases read r <;> rfl

/-- A check that comes first leaves the registry as it was. -/
theorem performs_ask_bind {read : Registry → Except DeclarationError α} {u : α → Update β}
    {f : α → Registry → Except DeclarationError (β × Registry)} (h : ∀ a, Performs (u a) (f a)) :
    Performs (ask read >>= u) fun r => read r >>= fun a => f a r := by
  intro r
  rw [outcome_bind, outcome_ask]
  cases hread : read r with
  | error e => simp only [hread]; rfl
  | ok a => simp only [hread]; exact h a r

/-! ## Each operation -/

theorem performs_register (e : Entry) : Performs (register e) (·.register e) := by
  intro r
  rw [register, outcome_get_bind]
  simp only [Registry.register]
  cases r.lookup? e.name with
  | none => rfl
  | some id =>
    dsimp only
    rw [outcome_bind, outcome_ask]
    cases r.require id <;> rfl

theorem performs_declareObject (name : String) (superclass : TypeId) :
    Performs (declareObject name superclass) (·.declareObject name superclass) :=
  performs_ask_bind fun _ => performs_register _

theorem performs_declarePrimitive (name : String) (superclass : TypeId) (repr : Representation)
    (byteSize : Nat) :
    Performs (declarePrimitive name superclass repr byteSize)
      (·.declarePrimitive name superclass repr byteSize) :=
  performs_ask_bind fun _ => performs_ask_bind fun _ => performs_register _

theorem performs_mixIn (owner : Owner) (module : TypeId) :
    Performs (mixIn owner module) fun r => (r.mixIn owner module).map ((), ·) := by
  intro r
  rw [mixIn, outcome_bind, outcome_ask]
  simp only [Registry.mixIn]
  cases r.require module with
  | error e => rfl
  | ok m =>
    simp only
    rw [outcome_bind, outcome_ask]
    cases r.requireOwner owner with
    | error e => rfl
    | ok o =>
      dsimp only [bind, Except.bind]
      split
      · rfl
      · split
        · rfl
        · split <;> rfl

theorem performs_defineMethod (owner : Owner) (s : Signature) :
    Performs (defineMethod owner s) fun r => (r.defineMethod owner s).map ((), ·) := by
  intro r
  rw [defineMethod, outcome_bind, outcome_ask]
  simp only [Registry.defineMethod]
  cases r.requireOwner owner with
  | error e => rfl
  | ok o =>
    dsimp only [bind, Except.bind]
    cases o.method? s.name <;> rfl

theorem performs_specialize (id element : TypeId) (name : Option String) :
    Performs (specialize id element name) (·.specialize id element name) := by
  refine performs_ask_bind fun template => fun r => ?_
  rw [outcome_get_bind]
  dsimp only
  cases r.cloneArray? template element (name.getD (r.instanceName template element)) with
  | none => rfl
  | some clone =>
    dsimp only
    rw [outcome_bind, performs_register]
    -- After the registration, which may be refused, there is only one more write.
    cases hregister : r.register clone with
    | error e => simp only [hregister]; rfl
    | ok x => simp only [hregister]; rfl

theorem performs_instantiate (id element : TypeId) :
    Performs (instantiate id element) (·.instantiate id element) := by
  refine performs_ask_bind fun template => fun r => ?_
  rw [outcome_get_bind]
  cases r.cached? template element with
  | some array => rfl
  | none => exact performs_specialize template element none r

theorem outcome_recache (array template previous element : TypeId) (r : Registry) :
    (recache array template previous element).outcome r =
      (.ok (), (if r.cached? template previous = some array then r.uncache template previous
        else r).cache ⟨template, element, array⟩) := by
  rw [recache, outcome_get_bind]
  split <;> rfl

theorem performs_rebindElement (array element : TypeId) :
    Performs (rebindElement array element)
      fun r => (r.rebindElement array element).map ((), ·) := by
  intro r
  rw [rebindElement, outcome_bind, outcome_ask]
  simp only [Registry.rebindElement]
  cases r.require array with
  | error e => rfl
  | ok e =>
    dsimp only [bind, Except.bind]
    cases e.kind with
    | array superclass previous template =>
      cases template with
      | none => rfl
      | some template => exact outcome_recache array template previous element _
    | object => rfl
    | module => rfl
    | primitive => rfl
    | lib => rfl

end Update

/-! ## All operations -/

namespace Operation

/-- An operation, carried out on the registry itself. -/
def inPlace : Operation → Update Unit
  | .declareObject name superclass => discard (Update.declareObject name superclass)
  | .declareModule name => discard (Update.register (.bare name .module))
  | .declarePrimitive name superclass repr byteSize =>
    discard (Update.declarePrimitive name superclass repr byteSize)
  | .declareLib name libname => discard (Update.register (.bare name (.lib libname)))
  | .mixIn owner module => Update.mixIn owner module
  | .defineMethod owner signature => Update.defineMethod owner signature
  | .specialize array element name => discard (Update.specialize array element name)
  | .instantiate array element => discard (Update.instantiate array element)
  | .arrayOf element => discard (Update.instantiate Builtin.array.typeId element)
  | .rebindElement array element => Update.rebindElement array element

end Operation

namespace Update

theorem outcome_discard {u : Update TypeId}
    {f : Registry → Except DeclarationError (TypeId × Registry)} (h : Performs u f)
    (r : Registry) :
    (discard u).outcome r = settle r (((f r).map Prod.snd).map ((), ·)) := by
  show (u >>= fun _ => pure ()).outcome r = _
  rw [outcome_bind, h r]
  rcases f r with e | ⟨a, s⟩ <;> rfl

end Update

/-- Carried out in place, an operation comes to what it is said to give, or leaves the registry as
    it found it. -/
theorem Operation.outcome_inPlace (op : Operation) (r : Registry) :
    op.inPlace.outcome r = Update.settle r ((op.apply r).map ((), ·)) := by
  cases op with
  | declareObject name superclass =>
    exact Update.outcome_discard (Update.performs_declareObject name superclass) r
  | declareModule name => exact Update.outcome_discard (Update.performs_register _) r
  | declarePrimitive name superclass repr byteSize =>
    exact Update.outcome_discard (Update.performs_declarePrimitive name superclass repr byteSize) r
  | declareLib name libname => exact Update.outcome_discard (Update.performs_register _) r
  | mixIn owner module => exact Update.performs_mixIn owner module r
  | defineMethod owner signature => exact Update.performs_defineMethod owner signature r
  | specialize array element name =>
    exact Update.outcome_discard (Update.performs_specialize array element name) r
  | instantiate array element =>
    exact Update.outcome_discard (Update.performs_instantiate array element) r
  | arrayOf element => exact Update.outcome_discard (Update.performs_instantiate _ element) r
  | rebindElement array element => exact Update.performs_rebindElement array element r

end DeclLang
