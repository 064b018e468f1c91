import DeclLang.Registry.Initial

/-!
# The builtin types, as they are once they are all registered

Founding a registry succeeds on every supported target, and what it comes to can be said at once:
`initial` lists the entries, each builtin at its own place (`found_empty`).
-/

namespace DeclLang

namespace Builtin

/-- The kind of the entry of a builtin. -/
def typeKind (target : Target) : Builtin → TypeKind
  | .object => .object none
  | .value => .object (some object.typeId)
  | .numeric => .object (some value.typeId)
  | .enumerable => .module
  -- The template holds objects until it is specialized.
  | .array => .array (some object.typeId) object.typeId none
  | .bool => leaf .value .i1
  | .char => leaf .value .i8
  | .int => leaf .numeric .i32
  | .long => leaf .numeric .i64
  | .float => leaf .numeric .f32
  | .string => leaf .value .ptr
  | .symbol => leaf .value .i32
  | .pointer => leaf .value .ptr
  | .argv => .array (some object.typeId) string.typeId (some array.typeId)
where
  leaf (superclass : Builtin) (repr : Representation) : TypeKind :=
    .primitive superclass.typeId repr (repr.storageSize target)

/-- The modules mixed into a builtin. -/
def includes : Builtin → List TypeId
  | .array | .argv => [enumerable.typeId]
  | _ => []

/-- An operation on values of one builtin type. -/
def operation (receiver returns : Builtin) (name : String) : Signature :=
  ⟨name, [⟨"other", receiver.typeId⟩], some returns.typeId⟩

/-- The operations of a builtin, sorted by name. -/
def operations (b : Builtin) : List Signature :=
  let arithmetic := if b ∈ numbers then ["+", "-", "*", "/"].map (operation b b) else []
  let remainder := if b ∈ integers then [operation b b "%"] else []
  let order := if b ∈ ordered then ["<", "<=", ">", ">="].map (operation b .bool) else []
  let comparison := if b ∈ numbers then [operation b .int "<=>"] else []
  let equality := if b ∈ equatable then ["==", "!="].map (operation b .bool) else []
  (arithmetic ++ remainder ++ order ++ comparison ++ equality).foldr Signature.insertInto []

def entry (target : Target) (b : Builtin) : Entry :=
  ⟨b.name, b.typeKind target, b.includes, b.operations⟩

@[simp] theorem kind_entry (target : Target) (b : Builtin) :
    (b.entry target).kind = b.typeKind target := rfl

@[simp] theorem includes_entry (target : Target) (b : Builtin) :
    (b.entry target).includes = b.includes := rfl

theorem entries_getElem? (target : Target) (b : Builtin) :
    (all.map (entry target)).toArray[b.typeId.index]? = some (b.entry target) := by
  cases b <;> rfl

/-- Where each name stands once the builtins are registered. -/
def nameTable : List (String × TypeId) :=
  (all.map fun b => (b.name, b.typeId)).reverse

theorem lookup_nameTable (b : Builtin) : nameTable.lookup b.name = some b.typeId := by
  cases b <;> decide

/-- Where each builtin stands once all are registered. -/
def places : List (Builtin × TypeId) :=
  (all.map fun b => (b, b.typeId)).reverse

/-- Nothing but builtins has a name then. -/
theorem eq_of_lookup_nameTable {name : String} {id : TypeId} (h : nameTable.lookup name = some id) :
    ∃ b : Builtin, b.name = name ∧ b.typeId = id := by
  obtain ⟨before, after, hsplit, -⟩ := List.lookup_eq_some_iff.mp h
  have hmem : (name, id) ∈ nameTable := by simp [hsplit]
  obtain ⟨b, -, hb⟩ := List.mem_map.mp (List.mem_reverse.mp hmem)
  exact ⟨b, congrArg Prod.fst hb, congrArg Prod.snd hb⟩

end Builtin

namespace Registry

/-- The builtin types and nothing else. -/
def initial (target : Target) : Registry where
  entries := (Builtin.all.map (Builtin.entry target)).toArray
  nameTable := Builtin.nameTable
  main := .bare StandardLibrary.mainModule .module
  symbols := []
  instances := [⟨Builtin.array.typeId, Builtin.string.typeId, Builtin.argv.typeId⟩]
  target := target
  poisoned := false
  named h := by
    obtain ⟨b, hname, rfl⟩ := Builtin.eq_of_lookup_nameTable h
    exact ⟨_, Builtin.entries_getElem? target b, hname⟩
  listed h := by
    obtain ⟨b, -, rfl⟩ := List.mem_map.mp (List.mem_toArray.mp h)
    exact Option.ne_none_iff_exists'.mpr ⟨_, b.lookup_nameTable⟩

theorem get?_initial (target : Target) (b : Builtin) :
    (initial target).get? b.typeId = some (b.entry target) :=
  Builtin.entries_getElem? target b

/-- Every builtin is found under its name. -/
theorem lookup?_initial (target : Target) (b : Builtin) :
    (initial target).lookup? b.name = some b.typeId :=
  b.lookup_nameTable

/-! ## Founding -/

/-- On a supported target the steps of founding all succeed. They lead to the initial registry, and
    in their table every builtin has its own place. -/
theorem found_empty {target : Target} (h : target.isSupported = true) :
    Foundation.found.run ⟨empty target, []⟩ = .ok ((), ⟨initial target, Builtin.places⟩) := by
  -- There are two such targets, and nothing else to choose.
  have hrun : (Foundation.found.run ⟨empty target, []⟩).toOption =
      some ((), ⟨initial target, Builtin.places⟩) := by
    obtain ⟨pointerSize⟩ := target
    obtain rfl | rfl := Target.isSupported_iff.mp h
    · decide +kernel
    · decide +kernel
  cases hresult : Foundation.found.run ⟨empty target, []⟩ with
  | error e =>
    rw [hresult] at hrun
    exact nomatch hrun
  | ok result =>
    rw [hresult] at hrun
    exact congrArg Except.ok (Option.some.inj hrun)

theorem ofTarget_eq_ok_iff {target : Target} {r : Registry} :
    ofTarget target = .ok r ↔ target.isSupported = true ∧ initial target = r := by
  unfold ofTarget
  by_cases h : target.isSupported = true
  · simp [h, found_empty h, bind, Except.bind, pure, Except.pure]
  · simp [h]

end Registry

end DeclLang
