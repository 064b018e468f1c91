import DeclLang.Proofs.Collection.Steps
import DeclLang.Proofs.Registry.Change

/-!
# Extensions: a registry only grows

An entry keeps its place, its name and its kind, and all its members, whatever is done later. The
element of an array is the one part of a kind that can change.
-/

namespace DeclLang

namespace TypeKind

/-- An array with another element; other kinds have none. -/
def withElement (element : TypeId) : TypeKind → TypeKind
  | .array superclass _ template => .array superclass element template
  | kind => kind

variable (kind : TypeKind) (element : TypeId)

@[simp] theorem isClassLike_withElement :
    (kind.withElement element).isClassLike = kind.isClassLike := by
  cases kind <;> rfl

@[simp] theorem isModule_withElement : (kind.withElement element).isModule = kind.isModule := by
  cases kind <;> rfl

def isArray : TypeKind → Bool
  | .array .. => true
  | _ => false

@[simp] theorem isArray_withElement : (kind.withElement element).isArray = kind.isArray := by
  cases kind <;> rfl

@[simp] theorem template?_withElement :
    (kind.withElement element).template? = kind.template? := by
  cases kind <;> rfl

@[simp] theorem withElement_withElement (other : TypeId) :
    (kind.withElement other).withElement element = kind.withElement element := by
  cases kind <;> rfl

/-- Every kind has an element that changes nothing. -/
theorem exists_withElement_eq_self : ∃ element, kind = kind.withElement element := by
  cases kind with
  | array superclass element template => exact ⟨element, rfl⟩
  | object => exact ⟨⟨0⟩, rfl⟩
  | module => exact ⟨⟨0⟩, rfl⟩
  | primitive => exact ⟨⟨0⟩, rfl⟩
  | lib => exact ⟨⟨0⟩, rfl⟩

end TypeKind

/-! ## Entries -/

namespace Entry

/-- What a later state of an entry keeps of an earlier one. -/
structure Extends (e f : Entry) : Prop where
  name : f.name = e.name
  kind : ∃ element, f.kind = e.kind.withElement element
  includes : e.includes <+: f.includes
  methods : e.methods.Sublist f.methods

theorem Extends.refl (e : Entry) : e.Extends e :=
  ⟨rfl, e.kind.exists_withElement_eq_self, List.prefix_rfl, List.Sublist.refl _⟩

theorem Extends.trans {e f g : Entry} (h : e.Extends f) (h' : f.Extends g) : e.Extends g := by
  rcases h.kind with ⟨a, ha⟩
  rcases h'.kind with ⟨b, hb⟩
  refine ⟨h'.name.trans h.name, ⟨b, ?_⟩, h.includes.trans h'.includes, h.methods.trans h'.methods⟩
  rw [hb, ha, TypeKind.withElement_withElement]

/-- Of a kind only the element changes. -/
theorem Extends.template?_eq {e f : Entry} (h : e.Extends f) :
    f.kind.template? = e.kind.template? := by
  rcases h.kind with ⟨element, hkind⟩
  rw [hkind, TypeKind.template?_withElement]

theorem extends_mixIn (e : Entry) (module : TypeId) : e.Extends (e.mixIn module) :=
  ⟨rfl, e.kind.exists_withElement_eq_self, List.prefix_append _ _, List.Sublist.refl _⟩

theorem extends_define (e : Entry) (s : Signature) : e.Extends (e.define s) := by
  refine ⟨rfl, e.kind.exists_withElement_eq_self, List.prefix_rfl, ?_⟩
  show e.methods.Sublist (s.insertInto e.methods)
  induction e.methods with
  | nil => exact List.nil_sublist _
  | cons t table ih =>
    unfold Signature.insertInto
    split
    · exact List.sublist_cons_self _ _
    · exact ih.cons_cons t

/-- Giving an array another element. -/
theorem extends_rebind {e : Entry} {superclass template : Option TypeId} {previous : TypeId}
    (element : TypeId) (h : e.kind = .array superclass previous template) :
    e.Extends { e with kind := .array superclass element template } := by
  refine ⟨rfl, ⟨element, ?_⟩, List.prefix_rfl, List.Sublist.refl _⟩
  rw [h, TypeKind.withElement]

end Entry

/-! ## Registries -/

namespace Registry

/-- What a later registry keeps of an earlier one. -/
structure Extends (r s : Registry) : Prop where
  target : s.target = r.target
  owner : ∀ {o e}, r.owner? o = some e → ∃ f, s.owner? o = some f ∧ e.Extends f
  /-- A name never comes to stand for something else. -/
  lookup? : ∀ {name id}, r.lookup? name = some id → s.lookup? name = some id

theorem Extends.refl (r : Registry) : r.Extends r :=
  ⟨rfl, fun {_ e} h => ⟨e, h, .refl e⟩, fun h => h⟩

theorem Extends.trans {r s t : Registry} (h : r.Extends s) (h' : s.Extends t) : r.Extends t := by
  refine ⟨h'.target.trans h.target, fun ho => ?_, fun hid => h'.lookup? (h.lookup? hid)⟩
  rcases h.owner ho with ⟨f, hf, hef⟩
  rcases h'.owner hf with ⟨g, hg, hfg⟩
  exact ⟨g, hg, hef.trans hfg⟩

theorem Extends.get? {r s : Registry} (h : r.Extends s) {id : TypeId} {e : Entry}
    (he : r.get? id = some e) : ∃ f, s.get? id = some f ∧ e.Extends f :=
  h.owner (o := .type id) he

-- The new entry has the place behind all others, so no owner is hidden by it.
theorem owner?_push_of_some {r : Registry} {o : Owner} {f : Entry} (h : r.owner? o = some f)
    (e : Entry) : (r.push e).2.owner? o = some f := by
  rw [owner?_push, if_neg]
  · exact h
  · rintro rfl
    have hlt : r.size < r.size := index_lt_of_get? h
    omega

-- A free name hides none that is taken.
theorem lookup?_push_of_some {r : Registry} {e : Entry} (hfree : r.lookup? e.name = none)
    {name : String} {id : TypeId} (h : r.lookup? name = some id) :
    (r.push e).2.lookup? name = some id := by
  rw [lookup?_push, if_neg]
  · exact h
  · rintro rfl
    rw [hfree] at h
    cases h

theorem extends_push {r : Registry} {e : Entry} (hfree : r.lookup? e.name = none) :
    r.Extends (r.push e).2 :=
  ⟨rfl, fun {_ f} ho => ⟨f, owner?_push_of_some ho e, .refl f⟩, lookup?_push_of_some hfree⟩

theorem extends_modifyOwner {r : Registry} {owner : Owner} {f : Entry → Entry}
    [Entry.KeepsName f] {e : Entry} (he : r.owner? owner = some e)
    (h : e.Extends (f e)) : r.Extends (r.modifyOwner owner f) := by
  refine ⟨target_modifyOwner r owner f, fun {o g} ho => ?_, fun hid => by simpa using hid⟩
  rw [owner?_modifyOwner]
  by_cases hown : o = owner
  · subst hown
    rw [he, Option.some.injEq] at ho
    subst ho
    exact ⟨f e, by simp [he], h⟩
  · exact ⟨g, by simp [hown, ho], .refl g⟩

/-- The instance cache is no part of what an extension keeps. -/
theorem Extends.congr {r s t : Registry} (h : r.Extends s) (htarget : t.target = s.target)
    (howner : ∀ o, t.owner? o = s.owner? o) (hnames : ∀ name, t.lookup? name = s.lookup? name) :
    r.Extends t where
  target := htarget.trans h.target
  owner ho := (h.owner ho).imp fun _ hf => ⟨(howner _).trans hf.1, hf.2⟩
  lookup? hid := (hnames _).trans (h.lookup? hid)

/-- Of the entries, rebinding changes that of the array only. -/
theorem owner?_rebound (r : Registry) (array previous element : TypeId)
    (template superclass : Option TypeId) (o : Owner) :
    (r.rebound array previous element template superclass).owner? o =
      (r.modifyOwner (.type array)
        ({ · with kind := .array superclass element template })).owner? o := by
  cases template with
  | none => rfl
  | some template =>
    simp only [rebound, owner?_cache]
    split
    · rw [owner?_uncache]
    · rfl

theorem target_rebound (r : Registry) (array previous element : TypeId)
    (template superclass : Option TypeId) :
    (r.rebound array previous element template superclass).target = r.target := by
  cases template with
  | none => rfl
  | some template =>
    simp only [rebound, target_cache]
    split <;> rfl

theorem lookup?_rebound (r : Registry) (array previous element : TypeId)
    (template superclass : Option TypeId) (name : String) :
    (r.rebound array previous element template superclass).lookup? name = r.lookup? name := by
  cases template with
  | none => rfl
  | some template =>
    simp only [rebound, lookup?_cache]
    split <;> rfl

theorem extends_of_change {r s : Registry} (h : Change r s) : r.Extends s := by
  -- Entries are added at the end or changed in place; the cache is no part of them.
  cases h with
  | none => exact .refl r
  | declared hfree => exact extends_push hfree
  | specialized _ _ _ hfree =>
    exact (extends_push hfree).congr (target_cache _ _) (owner?_cache _ _) (lookup?_cache _ _)
  | mixedIn ho => exact extends_modifyOwner ho (Entry.extends_mixIn _ _)
  | defined ho => exact extends_modifyOwner ho (Entry.extends_define _ _)
  | @rebound array element _ _ _ _ he hkind =>
    have ho : r.owner? (.type array) = some _ := he
    refine (extends_modifyOwner ho (Entry.extends_rebind element hkind)).congr ?_
      (owner?_rebound r _ _ _ _ _) fun name => ?_
    · rw [target_rebound, target_modifyOwner]
    · rw [lookup?_rebound, lookup?_modifyOwner]

/-- Every step of collecting extends the registry. -/
theorem steadfast_extends : Collect.Steadfast Extends :=
  ⟨⟨.refl, .trans⟩, fun _ h => extends_of_change (change_of_apply h)⟩

end Registry

end DeclLang
