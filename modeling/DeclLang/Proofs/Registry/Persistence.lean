import DeclLang.Proofs.Library.Loads
import DeclLang.Proofs.Registry.Extension
import DeclLang.Proofs.Registry.InPlace

/-!
# Persistence: what a registry has, it keeps

Entries stay where they are, under their names, with their kinds, the modules mixed into them and
all their methods. Only rebinding an array changes anything, and that is the element of this array.
A refused operation changes nothing at all (`registry_persists`).
-/

namespace DeclLang

/-! ## Entries -/

/-- What a later state of an entry keeps of an earlier one. Where it was rebound, an array may have
    another element. -/
structure Entry.Persists (rebound : Prop) (e f : Entry) : Prop extends e.Extends f where
  kind_eq : ¬ rebound → f.kind = e.kind
  method? : ∀ {name s}, e.method? name = some s → f.method? name = some s

namespace Entry

variable {rebound : Prop}

theorem Persists.refl (e : Entry) : e.Persists rebound e :=
  ⟨.refl e, fun _ => rfl, fun h => h⟩

theorem Persists.trans {e f g : Entry} (h : e.Persists rebound f) (h' : f.Persists rebound g) :
    e.Persists rebound g :=
  ⟨h.toExtends.trans h'.toExtends, fun hnot => (h'.kind_eq hnot).trans (h.kind_eq hnot),
    fun hs => h'.method? (h.method? hs)⟩

theorem persists_mixIn (e : Entry) (module : TypeId) : e.Persists rebound (e.mixIn module) :=
  ⟨e.extends_mixIn module, fun _ => rfl, fun h => h⟩

/-- A method with another name is still found in a table that one was added to. -/
theorem find?_insertInto {s : Signature} {name : String} (hname : s.name ≠ name)
    (table : List Signature) :
    (s.insertInto table).find? (·.name == name) = table.find? (·.name == name) := by
  have hskip : (s.name == name) = false := beq_eq_false_iff_ne.mpr hname
  induction table with
  | nil => simp [Signature.insertInto, hskip]
  | cons t table ih =>
    unfold Signature.insertInto
    split
    · rw [List.find?_cons, hskip]
    · rw [List.find?_cons, List.find?_cons, ih]

/-- A method may be added when its name is free, so none is hidden by it. -/
theorem persists_define {e : Entry} {s : Signature} (hfree : e.method? s.name = none) :
    e.Persists rebound (e.define s) := by
  refine ⟨e.extends_define s, fun _ => rfl, fun {name found} hfound => ?_⟩
  have hname : s.name ≠ name := by
    intro hname
    rw [hname, hfound] at hfree
    cases hfree
  exact (find?_insertInto hname e.methods).trans hfound

theorem persists_rebind {e : Entry} {superclass template : Option TypeId} {previous : TypeId}
    (element : TypeId) (h : e.kind = .array superclass previous template) (hrebound : rebound) :
    e.Persists rebound { e with kind := .array superclass element template } :=
  ⟨extends_rebind element h, fun hnot => absurd hrebound hnot, fun h => h⟩

end Entry

/-- The owner whose entry an operation gives another element. -/
def Operation.Rebinds : Operation → Owner → Prop
  | .rebindElement array _, o => o = .type array
  | _, _ => False

/-! ## Registries -/

namespace Registry

/-- What a later registry keeps of an earlier one, with the owners that may have been rebound. -/
structure Persists (rebound : Owner → Prop) (r s : Registry) : Prop where
  size_le : r.size ≤ s.size
  owner : ∀ {o e}, r.owner? o = some e → ∃ f, s.owner? o = some f ∧ e.Persists (rebound o) f

variable {rebound : Owner → Prop} {r s t : Registry}

theorem Persists.refl (r : Registry) : r.Persists rebound r :=
  ⟨Nat.le_refl _, fun {_ e} h => ⟨e, h, .refl e⟩⟩

theorem Persists.trans (h : r.Persists rebound s) (h' : s.Persists rebound t) :
    r.Persists rebound t := by
  refine ⟨Nat.le_trans h.size_le h'.size_le, fun ho => ?_⟩
  have ⟨f, hf, hef⟩ := h.owner ho
  have ⟨g, hg, hfg⟩ := h'.owner hf
  exact ⟨g, hg, hef.trans hfg⟩

/-- The cache, the symbols and the mark of a failed load are no part of the entries. -/
theorem Persists.congr (h : r.Persists rebound s) (hsize : t.size = s.size)
    (howner : ∀ o, t.owner? o = s.owner? o) : r.Persists rebound t := by
  refine ⟨hsize ▸ h.size_le, fun {o e} ho => ?_⟩
  have ⟨f, hf, hef⟩ := h.owner ho
  exact ⟨f, (howner o).trans hf, hef⟩

theorem persists_push (r : Registry) (e : Entry) : r.Persists rebound (r.push e).2 := by
  refine ⟨?_, fun {o f} ho => ⟨f, owner?_push_of_some ho e, .refl f⟩⟩
  rw [size_push]
  exact Nat.le_succ _

theorem persists_modifyOwner {owner : Owner} {f : Entry → Entry}
    [Entry.KeepsName f] {e : Entry} (he : r.owner? owner = some e)
    (h : e.Persists (rebound owner) (f e)) : r.Persists rebound (r.modifyOwner owner f) := by
  refine ⟨Nat.le_of_eq (size_modifyOwner r owner f).symm, fun {o g} ho => ?_⟩
  rw [owner?_modifyOwner]
  by_cases hown : o = owner
  · subst hown
    rw [he, Option.some.injEq] at ho
    subst ho
    exact ⟨f e, by simp [he], h⟩
  · exact ⟨g, by simp [hown, ho], .refl g⟩

@[simp] theorem size_cache (r : Registry) (i : ArrayInstance) : (r.cache i).size = r.size := by
  unfold cache
  split <;> rfl

theorem size_rebound (r : Registry) (array previous element : TypeId)
    (template superclass : Option TypeId) :
    (r.rebound array previous element template superclass).size = r.size := by
  cases template with
  | none => exact size_modifyOwner r _ _
  | some template =>
    simp only [rebound, size_cache]
    split <;> exact size_modifyOwner r _ _

/-! ## Operations -/

theorem persists_register {e : Entry} {id : TypeId} (h : r.register e = .ok (id, s)) :
    r.Persists rebound s := by
  have hpush := (register_eq_ok_iff.mp h).2
  have hs : (r.push e).2 = s := congrArg Prod.snd hpush
  rw [← hs]
  exact persists_push r e

theorem persists_specialize {array element id : TypeId} {name : Option String}
    (h : r.specialize array element name = .ok (id, s)) : r.Persists rebound s := by
  have ⟨template, base, source, _, _, _, _, _, hs⟩ := specialize_eq_ok h
  rw [hs]
  exact (persists_push r _).congr (size_cache _ _) (owner?_cache _ _)

theorem persists_instantiate {array element id : TypeId}
    (h : r.instantiate array element = .ok (id, s)) : r.Persists rebound s := by
  have ⟨template, _, h⟩ := bind_eq_ok.mp h
  split at h
  · rw [pure_eq_ok, Prod.mk.injEq] at h
    rw [← h.2]
    exact .refl r
  · exact persists_specialize h

/-- Of all operations only one changes a kind, and this of one entry. -/
theorem persists_apply {op : Operation} (h : op.apply r = .ok s) : r.Persists op.Rebinds s := by
  cases op with
  | declareObject name superclass =>
    have ⟨id, h⟩ := map_snd_eq_ok.mp h
    have ⟨_, _, hregister⟩ := bind_eq_ok.mp h
    exact persists_register hregister
  | declareModule name =>
    have ⟨id, hregister⟩ := map_snd_eq_ok.mp h
    exact persists_register hregister
  | declarePrimitive name superclass repr byteSize =>
    have ⟨id, h⟩ := map_snd_eq_ok.mp h
    have ⟨_, _, h⟩ := bind_eq_ok.mp h
    have ⟨_, _, hregister⟩ := bind_eq_ok.mp h
    exact persists_register hregister
  | declareLib name libname =>
    have ⟨id, hregister⟩ := map_snd_eq_ok.mp h
    exact persists_register hregister
  | mixIn owner module =>
    have ⟨o, m, ho, _, _, _, _, hs⟩ := mixIn_eq_ok h
    rw [hs]
    exact persists_modifyOwner ho (o.persists_mixIn module)
  | defineMethod owner signature =>
    have ⟨o, ho, hfree, hs⟩ := defineMethod_eq_ok h
    rw [hs]
    exact persists_modifyOwner ho (Entry.persists_define hfree)
  | specialize array element name =>
    have ⟨id, hmake⟩ := map_snd_eq_ok.mp h
    exact persists_specialize hmake
  | instantiate array element =>
    have ⟨id, hmake⟩ := map_snd_eq_ok.mp h
    exact persists_instantiate hmake
  | arrayOf element =>
    have ⟨id, hmake⟩ := map_snd_eq_ok.mp h
    exact persists_instantiate hmake
  | rebindElement array element =>
    have ⟨e, superclass, previous, template, he, hkind, hs⟩ := rebindElement_eq_ok h
    rw [hs]
    have ho : r.owner? (.type array) = some e := he
    refine (persists_modifyOwner ho (Entry.persists_rebind element hkind rfl)).congr ?_
      (owner?_rebound r _ _ _ _ _)
    rw [size_rebound, size_modifyOwner]

/-- A refused operation leaves everything as it was. -/
theorem persists_perform (r : Registry) (op : Operation) :
    r.Persists op.Rebinds (r.perform op) := by
  unfold perform
  split
  · rename_i s hs
    exact persists_apply hs
  · exact .refl r

/-! ## Programs -/

/-- Collecting rebinds nothing. -/
theorem steadfastOn_persists :
    Collect.SteadfastOn (fun _ => True) (Persists fun _ => False) := by
  have hcomposable : Collect.Composable (Persists fun _ => False) := ⟨.refl, .trans⟩
  have hresolve := hcomposable.keeps_resolveType fun h => persists_instantiate h
  refine ⟨⟨hcomposable, fun {r s} op hop happly => ?_⟩, hresolve, ?_⟩
  · have hpersists := persists_apply happly
    cases op with
    | rebindElement => exact hop.elim
    | _ => exact hpersists
  · intro owner
    refine hcomposable.keeps_defineMethod hresolve fun {r s signature} h => ?_
    have happly : (Operation.defineMethod owner signature).apply r = .ok s := h
    exact persists_apply happly

theorem persists_collect (r : Registry) (p : Program) :
    r.Persists (fun _ => False) (r.collect p).2.registry :=
  steadfastOn_persists.keeps_program p (fun _ _ _ _ => trivial) ⟨r, 0⟩

theorem persists_load (r : Registry) (fs : FileSystem) (places : List String) (options : Options) :
    r.Persists (fun _ => False) (r.load fs places options).2 := by
  refine keeps_load ⟨.refl, .trans⟩ (fun s => ?_) persists_collect r fs places options
  exact (Persists.refl s).congr rfl fun o => by cases o <;> rfl

/-! ## All ways to change a registry -/

/-- What can be done to a registry, and what it leaves. An operation is carried out on the registry
    itself: refused, it has changed nothing; accepted, it leaves what it is said to give, with every
    entry, module and method of before. Rebinding an array changes the element of this array and no
    other entry, and no other operation changes an element. Programs and loads keep all that was
    there, whether they are accepted or not. -/
theorem registry_persists (r : Registry) :
    (∀ (op : Operation) s result, op.inPlace.outcome r = (result, s) →
      (∀ e, result = .error e → s = r) ∧ s = r.perform op ∧ r.Persists op.Rebinds s) ∧
    (∀ array element s, r.rebindElement array element = .ok s →
      s.size = r.size ∧ (∀ o, o ≠ .type array → s.owner? o = r.owner? o) ∧
      ∃ e, r.get? array = some e ∧
        s.get? array = some { e with kind := e.kind.withElement element }) ∧
    (∀ p, r.Persists (fun _ => False) (r.collect p).2.registry) ∧
    ∀ fs places options, r.Persists (fun _ => False) (r.load fs places options).2 := by
  refine ⟨fun op s result hrun => ?_, fun array element s h => ?_, persists_collect r,
    persists_load r⟩
  · rw [op.outcome_inPlace] at hrun
    have hpersists := r.persists_perform op
    unfold perform at hpersists ⊢
    cases happly : op.apply r with
    | ok t =>
      rw [happly] at hrun hpersists
      obtain ⟨rfl, rfl⟩ := Prod.mk.inj hrun
      exact ⟨fun e he => (nomatch he), rfl, hpersists⟩
    | error e =>
      rw [happly] at hrun hpersists
      obtain ⟨rfl, rfl⟩ := Prod.mk.inj hrun
      exact ⟨fun _ _ => rfl, rfl, hpersists⟩
  · have ⟨e, superclass, previous, template, he, hkind, hs⟩ := rebindElement_eq_ok h
    have howner (o : Owner) := owner?_rebound r array previous element template superclass o
    rw [← hs] at howner
    simp only [owner?_modifyOwner] at howner
    refine ⟨?_, fun o ho => ?_, e, he, ?_⟩
    · rw [hs, size_rebound]
    · rw [howner, if_neg ho]
    · rw [← owner?_type, howner, if_pos rfl, owner?_type, he, hkind]
      rfl

/-- A builtin name is refused and changes nothing, and `ARGV` can be given integers, which leaves
    the template and all other entries alone. -/
theorem registry_persists_argv :
    let r := initial .host64
    let taken := Operation.declareObject "Int" Builtin.object.typeId
    (∃ e, (taken.inPlace.outcome r).1 = .error e) ∧ (taken.inPlace.outcome r).2 = r ∧
    ∃ s, r.rebindElement Builtin.argv.typeId Builtin.int.typeId = .ok s ∧
      s.owner? (.type Builtin.array.typeId) = r.owner? (.type Builtin.array.typeId) := by
  intro r taken
  have hpersists := registry_persists r
  have herror : (taken.inPlace.outcome r).1 = .error (.alreadyDefined "Int" "primitive") := rfl
  have hunchanged := (hpersists.1 taken _ _ rfl).1 _ herror
  have hrebound : r.rebindElement Builtin.argv.typeId Builtin.int.typeId =
      .ok (r.rebound Builtin.argv.typeId Builtin.string.typeId Builtin.int.typeId
        (some Builtin.array.typeId) (some Builtin.object.typeId)) := rfl
  have hothers := (hpersists.2.1 _ _ _ hrebound).2.1 (.type Builtin.array.typeId) (by decide)
  exact ⟨⟨_, herror⟩, hunchanged, _, hrebound, hothers⟩

end Registry

end DeclLang
