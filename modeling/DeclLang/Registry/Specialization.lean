import DeclLang.Registry.Declaration

/-!
# Specializations: arrays of an element type

A specialization is an entry of its own with the template's superclass and includes. The first one
made for a template and an element becomes their instance, which is found again by both.
-/

namespace DeclLang.Registry

/-- The instance of a template for an element. -/
def cached? (r : Registry) (template element : TypeId) : Option TypeId :=
  (r.instances.find? fun i => i.template == template && i.element == element).map (·.array)

/-- Remembers an instance, unless there is one for its template and element. -/
def cache (r : Registry) (i : ArrayInstance) : Registry :=
  match r.cached? i.template i.element with
  | some _ => r
  | none => { r with instances := r.instances ++ [i] }

@[simp] theorem owner?_cache (r : Registry) (i : ArrayInstance) (o : Owner) :
    (r.cache i).owner? o = r.owner? o := by
  unfold cache
  split <;> cases o <;> rfl

@[simp] theorem target_cache (r : Registry) (i : ArrayInstance) :
    (r.cache i).target = r.target := by
  unfold cache
  split <;> rfl

@[simp] theorem lookup?_cache (r : Registry) (i : ArrayInstance) (name : String) :
    (r.cache i).lookup? name = r.lookup? name := by
  unfold cache
  split <;> rfl

/-- What is remembered is found again, or else what was remembered before it. -/
theorem cached?_cache_self (r : Registry) (i : ArrayInstance) :
    (r.cache i).cached? i.template i.element =
      some ((r.cached? i.template i.element).getD i.array) := by
  unfold cache
  split
  · rename_i array h
    rw [h, Option.getD_some]
  · rename_i h
    have hnone := Option.map_eq_none_iff.mp h
    rw [h, Option.getD_none, cached?, List.find?_append, hnone]
    simp

/-- Forgets the instance of a template for an element. -/
def uncache (r : Registry) (template element : TypeId) : Registry :=
  { r with
    instances := r.instances.filter fun i => !(i.template == template && i.element == element) }

@[simp] theorem owner?_uncache (r : Registry) (template element : TypeId) (o : Owner) :
    (r.uncache template element).owner? o = r.owner? o := by
  cases o <;> rfl

@[simp] theorem target_uncache (r : Registry) (template element : TypeId) :
    (r.uncache template element).target = r.target := rfl

@[simp] theorem lookup?_uncache (r : Registry) (template element : TypeId) (name : String) :
    (r.uncache template element).lookup? name = r.lookup? name := rfl

/-- The template behind an array, which may be the array itself. -/
def templateOf (r : Registry) (id : TypeId) : Except DeclarationError TypeId := do
  let e ← r.require id
  match e.kind with
  | .array _ _ template => return template.getD id
  | _ => throw (.notGeneric e.name)

/-- A specialization that is not registered yet. -/
def specialized (name : String) (element template : TypeId) (source : Entry) : Entry :=
  { name := name
    kind := .array source.kind.superclass? element (some template)
    includes := source.includes
    methods := [] }

/-- A specialization of an array, which is not registered yet. Specializing a specialization gives
    one of its template. -/
def cloneArray? (r : Registry) (id element : TypeId) (name : String) : Option Entry := do
  let array ← r.get? id
  match array.kind with
  | .array _ _ template =>
    let template := template.getD id
    let source ← r.get? template
    match source.kind with
    | .array .. => return specialized name element template source
    | _ => none
  | _ => none

/-- The name of a specialization that is given none. -/
def instanceName (r : Registry) (template element : TypeId) : String :=
  s!"{r.nameOf template}[{r.nameOf element}]"

/-- Registers a new specialization of an array. -/
def specialize (r : Registry) (id element : TypeId) (name : Option String) :
    Except DeclarationError (TypeId × Registry) := do
  let template ← r.templateOf id
  let name := name.getD (r.instanceName template element)
  match r.cloneArray? template element name with
  | none => throw (.notGeneric (r.nameOf template))
  | some clone =>
    let (array, r) ← r.register clone
    return (array, r.cache ⟨template, element, array⟩)

/-- The instance of an array for an element, which is made when it is first asked for. -/
def instantiate (r : Registry) (id element : TypeId) :
    Except DeclarationError (TypeId × Registry) := do
  let template ← r.templateOf id
  match r.cached? template element with
  | some array => return (array, r)
  | none => r.specialize template element none

/-- The builtin array of an element. -/
def arrayOf (r : Registry) (element : TypeId) : Except DeclarationError (TypeId × Registry) :=
  r.instantiate Builtin.array.typeId element

/-- Changes the element of one array. If it is the instance for its old element, it is so no longer,
    and it becomes the instance for the new one if there is none. -/
def rebindElement (r : Registry) (array element : TypeId) : Except DeclarationError Registry := do
  let e ← r.require array
  match e.kind with
  | .array superclass previous template =>
    let r := r.modifyOwner (.type array) ({ · with kind := .array superclass element template })
    match template with
    | none => return r
    | some template =>
      -- Another array may be the instance for the old element; it stays so.
      let r := if r.cached? template previous = some array then r.uncache template previous else r
      return r.cache ⟨template, element, array⟩
  | _ => throw (.notGeneric e.name)

end DeclLang.Registry
