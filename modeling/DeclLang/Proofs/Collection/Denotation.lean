import DeclLang.Proofs.Collection.Consing

/-!
# Denotation: types as they are written and types as they are registered

A type expression has a normal form, in which no alias of an array is left, and so has every
registered type (`Denotes`). What an expression stands for has its normal form, and in a consed
registry a normal form has one type (`Denotes.injective`). So two expressions stand for the same
type exactly when their normal forms are equal, and each level of brackets is one array
(`CacheSound.unwind_of_typeOf?`).
-/

namespace DeclLang

/-! ## Expressions -/

namespace TypeExpr

/-- The type with every alias of an array written out: `ARGV` is the array of strings, and a
    specialization that is used as a base is the builtin array. -/
def normalForm : TypeExpr → String
  | .named name => if name.value = "ARGV" then "Array[String]" else name.value
  | .generic _ arg _ => "Array[" ++ arg.normalForm ++ "]"

/-- How many generic types are applied. -/
def depth : TypeExpr → Nat
  | .named _ => 0
  | .generic _ arg _ => arg.depth + 1

/-- The innermost name. -/
def leaf : TypeExpr → String
  | .named name => name.value
  | .generic _ arg _ => arg.leaf

theorem leaf_mem_names (t : TypeExpr) : t.leaf ∈ t.names := by
  induction t with
  | named name => exact List.mem_cons_self
  | generic base arg span ih => exact List.mem_cons_of_mem base ih

end TypeExpr

/-! ## Registered types -/

namespace Registry

variable {r s : Registry}

/-- The element of an array. -/
def element? (r : Registry) (id : TypeId) : Option TypeId :=
  (r.get? id).bind fun e =>
    match e.kind with
    | .array _ element _ => some element
    | _ => none

/-- The element of the element of ... an array, as often as there are `steps`. -/
def unwind (r : Registry) : (steps : Nat) → TypeId → Option TypeId
  | 0, id => some id
  | steps + 1, id => (r.element? id).bind (r.unwind steps)

/-- What an expression stands for is as many arrays around its innermost name as it has levels. -/
theorem CacheSound.unwind_of_typeOf? (h : r.CacheSound) {t : TypeExpr} {id : TypeId}
    (ht : r.typeOf? t = some id) : r.unwind t.depth id = r.lookup? t.leaf := by
  induction t generalizing id with
  | named name => exact ht.symm
  | generic base arg span ih =>
    obtain ⟨array, element, template, -, harg, -, hcached⟩ := typeOf?_generic_eq_some.mp ht
    obtain ⟨e, superclass, he, hkind⟩ := h.kind_of_cached? hcached
    have helement : r.element? id = some element := by
      rw [element?, he, Option.bind_some, hkind]
    show (r.element? id).bind (r.unwind arg.depth) = r.lookup? arg.leaf
    rw [helement, Option.bind_some, ih harg]

/-- An expression stands for nothing unless its innermost name does. -/
theorem isSome_lookup?_leaf {t : TypeExpr} {id : TypeId} (ht : r.typeOf? t = some id) :
    (r.lookup? t.leaf).isSome = true := by
  induction t generalizing id with
  | named name => exact Option.isSome_of_eq_some ht
  | generic base arg span ih =>
    obtain ⟨array, element, template, -, harg, -, -⟩ := typeOf?_generic_eq_some.mp ht
    exact ih harg

/-- The normal form of a type: its name, or that of its element in brackets. -/
inductive Denotes (r : Registry) : TypeId → String → Prop where
  | type {id : TypeId} {e : Entry} :
      r.get? id = some e → e.kind.template? = none → Denotes r id e.name
  | array {id element template : TypeId} {e : Entry} {superclass : Option TypeId} {name : String} :
      r.get? id = some e → e.kind = .array superclass element (some template) →
      Denotes r element name → Denotes r id (instanceOf name)

/-- A type has one normal form. -/
theorem Denotes.unique {id : TypeId} {m n : String} (hm : r.Denotes id m) (hn : r.Denotes id n) :
    m = n := by
  induction hm generalizing n with
  | type he htemplate =>
    cases hn with
    | type he' => rw [Option.some.inj (he.symm.trans he')]
    | array he' hkind =>
      obtain rfl := Option.some.inj (he.symm.trans he')
      rw [hkind] at htemplate
      cases htemplate
  | array he hkind _ ih =>
    cases hn with
    | type he' htemplate =>
      obtain rfl := Option.some.inj (he.symm.trans he')
      rw [hkind] at htemplate
      cases htemplate
    | array he' hkind' helement =>
      obtain rfl := Option.some.inj (he.symm.trans he')
      obtain ⟨-, rfl, -⟩ := TypeKind.array.inj (hkind.symm.trans hkind')
      rw [ih helement]

/-- A normal form belongs to one type. -/
theorem Denotes.injective (hr : Consed r) {a b : TypeId} {name : String} (ha : r.Denotes a name)
    (hb : r.Denotes b name) : a = b := by
  -- On the normal form of the first: an array has brackets, another type has none; two arrays are
  -- what the cache has for one element.
  generalize hname : name = name' at hb
  induction ha generalizing b name' with
  | type he htemplate =>
    have hplain := hr.plain he htemplate
    cases hb with
    | type he' => exact hr.names he he' hname
    | array =>
      rw [hname] at hplain
      exact absurd hplain (not_isPlain_instanceOf _)
  | array he hkind _ ih =>
    cases hb with
    | type he' htemplate =>
      have hplain := hr.plain he' htemplate
      rw [← hname] at hplain
      exact absurd hplain (not_isPlain_instanceOf _)
    | array he' hkind' helement =>
      obtain rfl := ih _ (instanceOf_injective hname) helement
      obtain ⟨-, hcached, -⟩ := hr.made he hkind
      obtain ⟨-, hcached', -⟩ := hr.made he' hkind'
      exact Option.some.inj (hcached.symm.trans hcached')

/-- A plain name that is not `ARGV` is that of a type without a template. -/
theorem Consed.denotes_of_lookup? (hr : Consed r) {name : Ident} {id : TypeId}
    (hname : IsPlain name.value) (hid : r.lookup? name.value = some id) :
    r.Denotes id (TypeExpr.named name).normalForm := by
  obtain ⟨e, he, hename⟩ := get?_of_lookup? hid
  obtain ⟨f, hf, hfname, hfkind⟩ := hr.start.builtin .argv
  by_cases hargv : name.value = "ARGV"
  · -- The alias is the array of strings.
    obtain rfl : id = Builtin.argv.typeId := hr.names he hf (by rw [hename, hfname, hargv]; rfl)
    obtain ⟨g, hg, hgname, hgkind⟩ := hr.start.builtin .string
    have hstring : r.Denotes Builtin.string.typeId "String" := by
      have hdenotes := Denotes.type hg (by rw [hgkind]; rfl)
      rwa [hgname] at hdenotes
    rw [TypeExpr.normalForm, if_pos hargv]
    exact .array hf hfkind hstring
  · rw [TypeExpr.normalForm, if_neg hargv, ← hename]
    cases htemplate : e.kind.template? with
    | none => exact .type he htemplate
    | some template =>
      obtain ⟨superclass, element, hkind⟩ := TypeKind.eq_array_of_template? htemplate
      obtain ⟨-, -, rfl | hinstance⟩ := hr.made he hkind
      · obtain rfl := Option.some.inj (he.symm.trans hf)
        exact absurd (hename.symm.trans hfname) hargv
      · rw [← hename, hinstance] at hname
        exact absurd hname (not_isPlain_instanceOf _)

/-- What an expression stands for has its normal form. -/
theorem Consed.denotes_of_typeOf? (hr : Consed r) {t : TypeExpr} {id : TypeId}
    (hleaf : IsPlain t.leaf) (ht : r.typeOf? t = some id) : r.Denotes id t.normalForm := by
  induction t generalizing id with
  | named name => exact hr.denotes_of_lookup? hleaf ht
  | generic base arg span ih =>
    obtain ⟨array, element, template, -, harg, -, hcached⟩ := typeOf?_generic_eq_some.mp ht
    obtain ⟨e, superclass, he, hkind⟩ := hr.toCacheSound.kind_of_cached? hcached
    exact .array he hkind (ih hleaf harg)

end Registry

end DeclLang
