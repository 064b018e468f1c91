import DeclLang.Proofs.Collection.Headers
import Mathlib.Data.List.Induction
import Mathlib.Data.List.Nodup

/-!
# Hierarchies: which classes can be declared in some order

A class is grounded when the superclasses that it and the classes above it state lead to a class
that states none, or out of the program to a type that is there already. The classes of a program
are declared if all of them are grounded, in whatever order they stand, and they then inherit from
what they state (`declareTypes_iff_grounded`). What is left over otherwise is a cycle, or a class
above which there is nothing to inherit from.
-/

namespace DeclLang

/-! ## Grounded classes -/

/-- A name stands for a type that takes part in inheritance. -/
def Registry.Inheritable (r : Registry) (n : String) : Prop :=
  ∃ id e, r.lookup? n = some id ∧ r.get? id = some e ∧ e.kind.isClassLike = true

def TypeHeader.class? : TypeHeader → Option ClassHeader
  | .ofClass c => some c
  | .ofModule _ | .ofLib .. | .ofPrimitive .. => none

/-- What a class inherits from, by name. -/
def ClassHeader.inherited (c : ClassHeader) : String :=
  c.superclass.elim Builtin.object.name (·.value)

namespace Program

def classes (p : Program) : List ClassHeader :=
  p.headers.filterMap (·.class?)

theorem mem_classes {p : Program} {c : ClassHeader} : c ∈ p.classes ↔ .ofClass c ∈ p.headers := by
  rw [classes, List.mem_filterMap]
  constructor
  · rintro ⟨h, hmem, hclass⟩
    cases h with
    | ofClass c' =>
      cases hclass
      exact hmem
    | _ => cases hclass
  · exact fun hmem => ⟨_, hmem, rfl⟩

/-- Going from a class to the superclass that it states ends after finitely many steps, at a class
    of the program that states none or at a type of the registry that takes part in inheritance. -/
inductive Grounded (p : Program) (r : Registry) : String → Prop where
  | known {n : String} {id : TypeId} {e : Entry} :
      r.lookup? n = some id → r.get? id = some e → e.kind.isClassLike = true → Grounded p r n
  | root {c : ClassHeader} : c ∈ p.classes → c.superclass = none → Grounded p r c.name.value
  | step {c : ClassHeader} {superclass : Ident} :
      c ∈ p.classes → c.superclass = some superclass → Grounded p r superclass.value →
      Grounded p r c.name.value

/-- The types of a program have names of their own. -/
structure NewNames (p : Program) (r : Registry) : Prop where
  distinct : (p.headers.map (·.name)).Nodup
  free : ∀ h ∈ p.headers, r.lookup? h.name = none

/-- The program declares classes, modules and libraries only, under names of their own. -/
structure Fresh (p : Program) (r : Registry) : Prop extends NewNames p r where
  sizeless : ∀ name superclass repr size, .ofPrimitive name superclass repr size ∉ p.headers

variable {p q : Program} {r : Registry}

theorem NewNames.header_eq (hp : p.NewNames r) {h h' : TypeHeader} (hmem : h ∈ p.headers)
    (hmem' : h' ∈ p.headers) (hname : h.name = h'.name) : h = h' :=
  List.inj_on_of_nodup_map hp.distinct hmem hmem' hname

theorem Fresh.perm (hp : p.Fresh r) (h : p.headers.Perm q.headers) : q.Fresh r where
  distinct := (h.map _).nodup_iff.mp hp.distinct
  free t ht := hp.free t (h.mem_iff.mpr ht)
  sizeless name superclass repr size ht := hp.sizeless name superclass repr size (h.mem_iff.mpr ht)

/-- A name that is grounded belongs to a type of the registry or to a class of the program. -/
theorem Grounded.cases {n : String} (h : p.Grounded r n) :
    r.Inheritable n ∨ ∃ c ∈ p.classes, c.name.value = n := by
  cases h with
  | known hid he hclass => exact .inl ⟨_, _, hid, he, hclass⟩
  | root hc => exact .inr ⟨_, hc, rfl⟩
  | step hc => exact .inr ⟨_, hc, rfl⟩

theorem Grounded.superclass (hp : p.NewNames r) {c : ClassHeader} (hc : c ∈ p.classes)
    (h : p.Grounded r c.name.value) :
    ∀ superclass ∈ c.superclass, p.Grounded r superclass.value := by
  have hmem := mem_classes.mp hc
  -- No other class has the name, and no type of the registry.
  have hsame {c' : ClassHeader} (hc' : c' ∈ p.classes) (hname : c'.name.value = c.name.value) :
      c' = c :=
    TypeHeader.ofClass.inj (hp.header_eq (mem_classes.mp hc') hmem hname)
  generalize hn : c.name.value = n at h
  intro superclass hstates
  cases h with
  | known hid =>
    have hfree := hp.free _ hmem
    rw [show (TypeHeader.ofClass c).name = n from hn, hid] at hfree
    cases hfree
  | root hc' hnone =>
    rw [hsame hc' hn.symm, hstates] at hnone
    cases hnone
  | step hc' hsome hsuper =>
    rw [hsame hc' hn.symm, hstates] at hsome
    cases hsome
    exact hsuper

theorem Grounded.perm {n : String} (h : p.Grounded r n) (hperm : p.headers.Perm q.headers) :
    q.Grounded r n := by
  have hclass {c : ClassHeader} (hc : c ∈ p.classes) : c ∈ q.classes :=
    mem_classes.mpr (hperm.mem_iff.mp (mem_classes.mp hc))
  induction h with
  | known hid he hlike => exact .known hid he hlike
  | root hc hnone => exact .root (hclass hc) hnone
  | step hc hsome _ ih => exact .step (hclass hc) hsome ih

end Program

/-! ## Between the first declaration and the last -/

namespace Collect

open Registry

variable {r : Registry} {p : Program} {done todo before after : List TypeHeader} {c : Collection}

/-- Some headers of a program were declared, one after the other, and the others were not. -/
structure Underway (r : Registry) (p : Program) (done todo : List TypeHeader) (c : Collection) :
    Prop where
  run : outcome (done.forM declareHeader) ⟨r, 0⟩ = (.ok (), c)
  perm : (done ++ todo).Perm p.headers

namespace Underway

theorem declared (h : Underway r p done todo c) (hr : Regular r) :
    ∃ count, Declared r done c.registry count := by
  obtain ⟨count, hdeclared, -⟩ := declared_headers hr h.run
  exact ⟨count, hdeclared⟩

theorem mem_todo (h : Underway r p done todo c) {head : TypeHeader} (hmem : head ∈ todo) :
    head ∈ p.headers :=
  h.perm.mem_iff.mp (List.mem_append_right _ hmem)

theorem there (h : Underway r p done todo c) (hr : Regular r) {head : TypeHeader}
    (hmem : head ∈ done) : (c.registry.lookup? head.name).isSome = true := by
  obtain ⟨count, hdeclared⟩ := h.declared hr
  obtain ⟨id, e, hid, -⟩ := hdeclared.fits head hmem
  exact Option.isSome_of_eq_some hid

/-- The names of headers that were not declared are free. -/
theorem free (h : Underway r p done todo c) (hr : Regular r) (hp : p.NewNames r) {head : TypeHeader}
    (hmem : head ∈ todo) : c.registry.lookup? head.name = none := by
  obtain ⟨count, hdeclared⟩ := h.declared hr
  cases hid : c.registry.lookup? head.name with
  | none => rfl
  | some id =>
    exfalso
    obtain ⟨e, he, hname⟩ := get?_of_lookup? hid
    have hnew := hdeclared.get?_eq_none (hp.free head (h.mem_todo hmem)) hid
    obtain ⟨-, other, hother, hsame, -⟩ := hdeclared.new he hnew
    have hnodup := (h.perm.map (·.name)).nodup_iff.mpr hp.distinct
    rw [List.map_append, List.nodup_append] at hnodup
    exact hnodup.2.2 _ (List.mem_map_of_mem hother) _ (List.mem_map_of_mem hmem) (hsame.trans hname)

/-- What is grounded can be inherited from as soon as it is there. -/
theorem requireClass (h : Underway r p done todo c) (hr : Regular r) (hp : p.NewNames r)
    {n : String} (hn : p.Grounded r n) {id : TypeId} (hid : c.registry.lookup? n = some id) :
    c.registry.requireClass id = .ok () := by
  obtain ⟨count, hdeclared⟩ := h.declared hr
  obtain ⟨id', e, hid', he, hclass⟩ | ⟨head, hhead, rfl⟩ := hn.cases
  · obtain rfl := Option.some.inj ((hdeclared.retains.lookup? hid').symm.trans hid)
    exact requireClass_eq_ok.mpr ⟨e, hdeclared.get? he, hclass⟩
  · have hmem := h.perm.mem_iff.mpr (Program.mem_classes.mp hhead)
    obtain hdone | htodo := List.mem_append.mp hmem
    · obtain ⟨id', e, hid', he, hfits⟩ := hdeclared.fits _ hdone
      obtain rfl := Option.some.inj (hid'.symm.trans hid)
      exact requireClass_eq_ok.mpr ⟨e, he, hfits.1⟩
    · have hfree := h.free hr hp htodo
      rw [show (TypeHeader.ofClass head).name = head.name.value from rfl, hid] at hfree
      cases hfree

/-- A class that does not have to wait is declared. -/
theorem exists_declareClass (h : Underway r p done todo c) (hr : Regular r) (hp : p.NewNames r)
    (hg : ∀ c ∈ p.classes, p.Grounded r c.name.value) {head : ClassHeader}
    (hmem : .ofClass head ∈ todo) (hready : head.isReady c.registry = true) :
    ∃ c', outcome (declareClass head) c = (.ok (), c') := by
  have hclass := Program.mem_classes.mpr (h.mem_todo hmem)
  obtain ⟨count, hdeclared⟩ := h.declared hr
  refine declareClass_of_free hdeclared.regular.toWellFormed (h.free hr hp hmem) hready
    fun superclass hstates sup hsup => ?_
  exact h.requireClass hr hp ((hg head hclass).superclass hp hclass superclass hstates) hsup

/-- What is declared next is done from then on. -/
theorem advance {head : TypeHeader} {c' : Collection}
    (h : Underway r p done (before ++ head :: after) c)
    (hrun : outcome (declareHeader head) c = (.ok (), c')) :
    Underway r p (done ++ [head]) (before ++ after) c' := by
  refine ⟨outcome_forM_append.mpr ⟨c, h.run, ?_⟩, ?_⟩
  · exact outcome_forM_cons.mpr ⟨c', hrun, outcome_forM_nil.mpr rfl⟩
  · refine List.Perm.trans ?_ h.perm
    rw [List.append_assoc, List.singleton_append]
    exact List.perm_middle.symm.append_left done

end Underway

/-- In the first pass the classes that wait are to be declared, and what comes after them. -/
theorem Placed.underway {above below : List TypeHeader} {waiting : List ClassHeader}
    (h : Placed above ⟨r, 0⟩ waiting c) (hp : p.headers = above ++ below) :
    ∃ done, Underway r p done (waiting.map .ofClass ++ below) c := by
  obtain ⟨done, hrun, hperm⟩ := h.run
  refine ⟨done, hrun, ?_⟩
  rw [hp, ← List.append_assoc]
  exact hperm.append_right below

/-- No primitive of a program is refused when the first pass comes to it. -/
def AcceptsPrimitives (r : Registry) (p : Program) : Prop :=
  ∀ above name superclass repr size below waiting c,
    p.headers = above ++ .ofPrimitive name superclass repr size :: below →
    Placed above ⟨r, 0⟩ waiting c →
    ∃ c', outcome (declarePrimitive name superclass repr size) c = (.ok (), c')

/-! ## All declarations -/

section

variable {waiting cs : List ClassHeader} (hr : Regular r) (hp : p.NewNames r)
  (hg : ∀ c ∈ p.classes, p.Grounded r c.name.value)

include hr hp hg

/-- Of the classes that wait, one is ready. -/
theorem Underway.exists_ready (h : Underway r p done (cs.map .ofClass) c) (hne : cs ≠ []) :
    ∃ head ∈ cs, head.isReady c.registry = true := by
  -- Along the way from a name to where it ends: either its type is there already, or there is a
  -- class that is ready further up.
  have hway {n : String} (hn : p.Grounded r n) :
      (c.registry.lookup? n).isSome = true ∨ ∃ head ∈ cs, head.isReady c.registry = true := by
    have hclass {head : ClassHeader} (hhead : head ∈ p.classes)
        (hready : head.isReady c.registry = true) :
        (c.registry.lookup? head.name.value).isSome = true ∨
          ∃ head ∈ cs, head.isReady c.registry = true := by
      have hmem := h.perm.mem_iff.mpr (Program.mem_classes.mp hhead)
      obtain hdone | htodo := List.mem_append.mp hmem
      · exact .inl (h.there hr hdone)
      · obtain ⟨head', hcs, heq⟩ := List.mem_map.mp htodo
        obtain rfl := TypeHeader.ofClass.inj heq
        exact .inr ⟨head', hcs, hready⟩
    induction hn with
    | known hid =>
      obtain ⟨count, hdeclared⟩ := h.declared hr
      exact .inl (Option.isSome_of_eq_some (hdeclared.retains.lookup? hid))
    | root hhead hnone => exact hclass hhead (by rw [ClassHeader.isReady, hnone])
    | step hhead hstates _ ih =>
      obtain hthere | hready := ih
      · exact hclass hhead (by rw [ClassHeader.isReady, hstates]; exact hthere)
      · exact .inr hready
  obtain ⟨head, hhead⟩ := List.exists_mem_of_ne_nil cs hne
  have htodo : TypeHeader.ofClass head ∈ cs.map TypeHeader.ofClass := List.mem_map_of_mem hhead
  obtain hthere | hready := hway (hg head (Program.mem_classes.mpr (h.mem_todo htodo)))
  · have hfree := h.free hr hp htodo
    rw [show (TypeHeader.ofClass head).name = head.name.value from rfl] at hfree
    rw [hfree] at hthere
    cases hthere
  · exact hready

/-- The first pass is not refused if it accepts the primitives. -/
theorem exists_placed_of_accepts (hprimitives : AcceptsPrimitives r p)
    {above below : List TypeHeader}
    (habove : p.headers = above ++ below) : ∃ waiting c, Placed above ⟨r, 0⟩ waiting c := by
  -- On the headers that the pass has gone over, from the last of them.
  induction above using List.reverseRecOn generalizing below with
  | nil => exact ⟨[], ⟨r, 0⟩, .nil⟩
  | append_singleton above head ih =>
    rw [List.append_assoc, List.singleton_append] at habove
    obtain ⟨waiting, c, hplaced⟩ := ih habove
    obtain ⟨done, hunderway⟩ := hplaced.underway habove
    have hmem : head ∈ waiting.map .ofClass ++ head :: below :=
      List.mem_append_right _ List.mem_cons_self
    have hfree := hunderway.free hr hp hmem
    cases hready : head.isReady c.registry with
    | true =>
      have hrun : ∃ c', outcome (declareHeader head) c = (.ok (), c') := by
        cases head with
        | ofClass head => exact hunderway.exists_declareClass hr hp hg hmem hready
        | ofModule name => exact declareModule_of_free hfree
        | ofLib name libname => exact ⟨_, declare_of_ok (register_of_free hfree)⟩
        | ofPrimitive name superclass repr size => exact hprimitives _ _ _ _ _ _ _ _ habove hplaced
      obtain ⟨c', hrun⟩ := hrun
      exact ⟨waiting ++ [], c',
        placed_append.mpr ⟨waiting, c, [], hplaced, .declared hready hrun .nil, rfl⟩⟩
    | false =>
      cases head with
      | ofClass head =>
        exact ⟨waiting ++ [head], c,
          placed_append.mpr ⟨waiting, c, [head], hplaced, .waits hready .nil, rfl⟩⟩
      | _ => cases hready

/-- A round over the classes that wait is not refused, and it leaves fewer if one is ready. -/
theorem Underway.exists_declareReady {skipped : List ClassHeader}
    (h : Underway r p done ((skipped ++ cs).map .ofClass) c) :
    ∃ waiting done' c', outcome (declareReady cs) c = (.ok waiting, c') ∧
      Underway r p done' ((skipped ++ waiting).map .ofClass) c' ∧ waiting.length ≤ cs.length ∧
      ((∃ head ∈ cs, head.isReady c.registry = true) → waiting.length < cs.length) := by
  induction cs generalizing done skipped c with
  | nil =>
    refine ⟨[], done, c, rfl, h, Nat.le_refl 0, ?_⟩
    rintro ⟨head, hhead, -⟩
    cases hhead
  | cons head cs ih =>
    cases hready : head.isReady c.registry with
    | true =>
      rw [List.map_append, List.map_cons] at h
      have hmem : TypeHeader.ofClass head ∈
          skipped.map .ofClass ++ .ofClass head :: cs.map .ofClass :=
        List.mem_append_right _ List.mem_cons_self
      obtain ⟨mid, hrun⟩ := h.exists_declareClass hr hp hg hmem hready
      have hmid := h.advance hrun
      rw [← List.map_append] at hmid
      obtain ⟨waiting, done', c', hrest, hc', hle, -⟩ := ih hmid
      refine ⟨waiting, done', c', ?_, hc', Nat.le_succ_of_le hle, fun _ => Nat.lt_succ_of_le hle⟩
      rw [declareReady, outcome_bind, outcome_registry]
      dsimp only
      rw [if_pos hready]
      exact outcome_bind_eq_ok.mpr ⟨(), mid, hrun, hrest⟩
    | false =>
      have hskipped : Underway r p done (((skipped ++ [head]) ++ cs).map .ofClass) c := by
        rw [List.append_assoc, List.singleton_append]
        exact h
      obtain ⟨waiting, done', c', hrest, hc', hle, hless⟩ := ih hskipped
      rw [List.append_assoc, List.singleton_append] at hc'
      refine ⟨head :: waiting, done', c', ?_, hc', Nat.succ_le_succ hle, ?_⟩
      · rw [declareReady, outcome_bind, outcome_registry]
        dsimp only
        rw [if_neg (by rw [hready]; decide)]
        exact outcome_bind_eq_ok.mpr ⟨waiting, c', hrest, rfl⟩
      · rintro ⟨other, hother, hotherReady⟩
        obtain rfl | hother := List.mem_cons.mp hother
        · rw [hready] at hotherReady
          cases hotherReady
        · exact Nat.succ_lt_succ (hless ⟨other, hother, hotherReady⟩)

/-- Every round leaves fewer classes, so they are all declared in the end. -/
theorem Underway.exists_declareWaiting (h : Underway r p done (cs.map .ofClass) c) :
    ∃ c', outcome (declareWaiting cs) c = (.ok (), c') := by
  fun_induction declareWaiting cs generalizing done c with
  | case1 => exact ⟨c, rfl⟩
  | case2 head cs ih =>
    have hready := h.exists_ready hr hp hg (List.cons_ne_nil head cs)
    have hround : Underway r p done (([] ++ head :: cs).map .ofClass) c := h
    obtain ⟨waiting, done', mid, hrun, hmid, -, hless⟩ := hround.exists_declareReady hr hp hg
    obtain ⟨c', hc'⟩ := ih waiting (hless hready) hmid
    refine ⟨c', outcome_bind_eq_ok.mpr ⟨waiting, mid, hrun, ?_⟩⟩
    rw [dif_pos (hless hready)]
    exact hc'

/-- So the whole declaration pass comes down to the primitives. -/
theorem exists_declareTypes_of_accepts (hprimitives : AcceptsPrimitives r p) :
    ∃ c, outcome (declareTypes p) ⟨r, 0⟩ = (.ok (), c) := by
  have hall : p.headers = p.headers ++ [] := (List.append_nil p.headers).symm
  obtain ⟨waiting, mid, hplaced⟩ := exists_placed_of_accepts hr hp hg hprimitives hall
  obtain ⟨done, hmid⟩ := hplaced.underway hall
  rw [List.append_nil] at hmid
  obtain ⟨c, hrun⟩ := hmid.exists_declareWaiting hr hp hg
  exact ⟨c, outcome_bind_eq_ok.mpr ⟨waiting, mid, declareInOrder_eq_ok.mpr hplaced, hrun⟩⟩

end

theorem exists_declareTypes_of_grounded (hr : Regular r) (hp : p.Fresh r)
    (hg : ∀ c ∈ p.classes, p.Grounded r c.name.value) :
    ∃ c, outcome (declareTypes p) ⟨r, 0⟩ = (.ok (), c) := by
  refine exists_declareTypes_of_accepts hr hp.toNewNames hg fun above name superclass repr size below
    waiting c hheaders _ => ?_
  have hmem : .ofPrimitive name superclass repr size ∈ p.headers := by
    rw [hheaders]
    exact List.mem_append_right _ List.mem_cons_self
  exact absurd hmem (hp.sizeless _ _ _ _)

end Collect

/-! ## What is declared -/

namespace Registry

variable {r s : Registry} {p : Program} {count : Nat}

/-- The superclass of the type with a name, by name. -/
def superclassName? (r : Registry) (n : String) : Option String :=
  ((r.lookup? n).bind r.superclass?).map r.nameOf

theorem superclassName?_eq_some {n m : String} :
    r.superclassName? n = some m ↔
      ∃ id e sup, r.lookup? n = some id ∧ r.get? id = some e ∧ e.kind.superclass? = some sup ∧
        r.nameOf sup = m := by
  unfold superclassName? superclass?
  constructor
  · intro h
    obtain ⟨sup, hsup, hname⟩ := Option.map_eq_some_iff.mp h
    obtain ⟨id, hid, hsup⟩ := Option.bind_eq_some_iff.mp hsup
    obtain ⟨e, he, hsup⟩ := Option.bind_eq_some_iff.mp hsup
    exact ⟨id, e, sup, hid, he, hsup, hname⟩
  · rintro ⟨id, e, sup, hid, he, hsup, rfl⟩
    simp only [hid, he, hsup, Option.bind_some, Option.map_some]

/-- A class that was declared inherits from what it states. -/
theorem Declared.inherits (h : Declared r p.headers s count) (hp : p.Fresh r) {c : ClassHeader}
    (hc : c ∈ p.classes) :
    ∃ id e sup, s.lookup? c.name.value = some id ∧ s.get? id = some e ∧ r.get? id = none ∧
      e.kind.superclass? = some sup ∧ s.lookup? c.inherited = some sup := by
  have hmem := Program.mem_classes.mp hc
  obtain ⟨id, e, hid, he, -⟩ := h.fits _ hmem
  have hname := name_of_lookup? hid he
  have hnew := h.get?_eq_none (hp.free _ hmem) hid
  obtain ⟨-, head, hhead, hsame, hkind⟩ := h.new he hnew
  obtain rfl := hp.toNewNames.header_eq hhead hmem (hsame.trans hname)
  obtain ⟨name, superclass⟩ := c
  cases superclass with
  | none =>
    refine ⟨id, e, Builtin.object.typeId, hid, he, hnew, ?_, ?_⟩
    · rw [← Option.some.inj hkind]
      rfl
    · obtain ⟨root, hroot, hrootName, -⟩ := h.regular.root
      exact h.regular.lookup?_eq_some_iff.mpr ⟨root, hroot, hrootName⟩
  | some superclass =>
    obtain ⟨sup, hsup, hobject⟩ := Option.map_eq_some_iff.mp hkind
    exact ⟨id, e, sup, hid, he, hnew, by rw [← hobject]; rfl, hsup⟩

/-- Every class that was declared is grounded. -/
theorem Declared.grounded (h : Declared r p.headers s count) (hr : WellFormed r) (hp : p.Fresh r)
    {c : ClassHeader} (hc : c ∈ p.classes) : p.Grounded r c.name.value := by
  -- On the place of the class: its superclass was declared before it.
  obtain ⟨id, e, sup, hid, he, -, hsuper, hsup⟩ := h.inherits hp hc
  generalize hi : id.index = i
  induction i using Nat.strongRecOn generalizing c id e sup with
  | ind i ih =>
    cases hstates : c.superclass with
    | none => exact .root hc hstates
    | some superclass =>
      refine .step hc hstates ?_
      rw [ClassHeader.inherited, hstates] at hsup
      obtain ⟨f, hf, hclass, hlt⟩ := h.regular.toWellFormed.superclass he hsuper
      have hname := name_of_lookup? hsup hf
      cases hold : r.get? sup with
      | some g =>
        obtain rfl := Option.some.inj ((h.get? hold).symm.trans hf)
        exact .known (hr.lookup?_eq_some_iff.mpr ⟨g, hold, hname⟩) hold hclass
      | none =>
        -- A new type that takes part in inheritance is a class of the program.
        obtain ⟨-, head, hhead, hsame, hkind⟩ := h.new hf hold
        cases head with
        | ofClass c' =>
          have hc' := Program.mem_classes.mpr hhead
          obtain ⟨id', e', sup', hid', he', hnew', hsuper', hsup'⟩ := h.inherits hp hc'
          have hplace : c'.name.value = superclass.value := hsame.trans hname
          obtain rfl : id' = sup := Option.some.inj (hid'.symm.trans (hplace ▸ hsup))
          rw [← hplace]
          exact ih id'.index (hi ▸ hlt) hc' id' e' sup' hid' he' hsuper' hsup' rfl
        | ofModule | ofLib =>
          rw [← Option.some.inj hkind] at hclass
          cases hclass
        | ofPrimitive => exact absurd hhead (hp.sizeless _ _ _ _)

/-- Types that were there keep their superclasses; the others are classes that inherit from what
    they state. -/
theorem Declared.superclassName?_eq_some (h : Declared r p.headers s count) (hr : WellFormed r)
    (hp : p.Fresh r) {n m : String} :
    s.superclassName? n = some m ↔
      r.superclassName? n = some m ∨ ∃ c ∈ p.classes, c.name.value = n ∧ c.inherited = m := by
  have hkept {id sup : TypeId} {e : Entry} (he : r.get? id = some e)
      (hsup : e.kind.superclass? = some sup) : s.nameOf sup = r.nameOf sup := by
    obtain ⟨f, hf, -⟩ := hr.superclass he hsup
    rw [nameOf_of_get? hf, nameOf_of_get? (h.get? hf)]
  simp only [Registry.superclassName?_eq_some]
  constructor
  · rintro ⟨id, e, sup, hid, he, hsup, rfl⟩
    have hname := name_of_lookup? hid he
    cases hold : r.get? id with
    | some e' =>
      obtain rfl := Option.some.inj ((h.get? hold).symm.trans he)
      exact .inl ⟨id, e', sup, hr.lookup?_eq_some_iff.mpr ⟨e', hold, hname⟩, hold, hsup,
        (hkept hold hsup).symm⟩
    | none =>
      obtain ⟨-, head, hhead, hsame, hkind⟩ := h.new he hold
      cases head with
      | ofClass c =>
        have hc := Program.mem_classes.mpr hhead
        obtain ⟨id', f, sup', hid', hf, -, hsup', hstated⟩ := h.inherits hp hc
        have hplace : c.name.value = n := hsame.trans hname
        obtain rfl := Option.some.inj (hid'.symm.trans (hplace ▸ hid))
        obtain rfl := Option.some.inj (he.symm.trans hf)
        obtain rfl := Option.some.inj (hsup.symm.trans hsup')
        exact .inr ⟨c, hc, hplace, (nameOf_of_lookup? hstated).symm⟩
      | ofModule | ofLib =>
        rw [← Option.some.inj hkind] at hsup
        cases hsup
      | ofPrimitive => exact absurd hhead (hp.sizeless _ _ _ _)
  · rintro (⟨id, e, sup, hid, he, hsup, rfl⟩ | ⟨c, hc, rfl, rfl⟩)
    · exact ⟨id, e, sup, h.retains.lookup? hid, h.get? he, hsup, hkept he hsup⟩
    · obtain ⟨id, e, sup, hid, he, -, hsup, hstated⟩ := h.inherits hp hc
      exact ⟨id, e, sup, hid, he, hsup, nameOf_of_lookup? hstated⟩

/-- The types of a program of classes, modules and libraries with names of their own are declared
    if and only if all its classes are grounded, and then every class inherits from what it states.
    So the order of the declarations matters neither for that nor for what anything inherits
    from. -/
theorem declareTypes_iff_grounded (hreach : Reachable r) (hp : p.Fresh r) :
    ((∃ c, Collect.outcome (Collect.declareTypes p) ⟨r, 0⟩ = (.ok (), c)) ↔
      ∀ c ∈ p.classes, p.Grounded r c.name.value) ∧
    (∀ d, Collect.outcome (Collect.declareTypes p) ⟨r, 0⟩ = (.ok (), d) → ∀ c ∈ p.classes,
      ∃ id sup, d.registry.lookup? c.name.value = some id ∧
        d.registry.superclass? id = some sup ∧ d.registry.lookup? c.inherited = some sup) ∧
    ∀ q : Program, q.Perm p →
      ((∃ d, Collect.outcome (Collect.declareTypes q) ⟨r, 0⟩ = (.ok (), d)) ↔
        ∃ d, Collect.outcome (Collect.declareTypes p) ⟨r, 0⟩ = (.ok (), d)) ∧
      ∀ d d', Collect.outcome (Collect.declareTypes p) ⟨r, 0⟩ = (.ok (), d) →
        Collect.outcome (Collect.declareTypes q) ⟨r, 0⟩ = (.ok (), d') →
        ∀ n, d'.registry.superclassName? n = d.registry.superclassName? n := by
  have hr := hreach.regular
  have hiff {p : Program} (hp : p.Fresh r) :
      (∃ c, Collect.outcome (Collect.declareTypes p) ⟨r, 0⟩ = (.ok (), c)) ↔
        ∀ c ∈ p.classes, p.Grounded r c.name.value := by
    constructor
    · rintro ⟨d, hrun⟩ c hc
      obtain ⟨count, hdeclared, -⟩ := Collect.declared_types hr hrun
      exact hdeclared.grounded hr.toWellFormed hp hc
    · exact Collect.exists_declareTypes_of_grounded hr hp
  refine ⟨hiff hp, fun d hrun c hc => ?_, fun q hperm => ?_⟩
  · obtain ⟨count, hdeclared, -⟩ := Collect.declared_types hr hrun
    obtain ⟨id, e, sup, hid, he, -, hsup, hstated⟩ := hdeclared.inherits hp hc
    exact ⟨id, sup, hid, by rw [superclass?, he]; exact hsup, hstated⟩
  · have hheaders : p.headers.Perm q.headers := hperm.symm.filterMap _
    have hq := hp.perm hheaders
    have hclass {c : ClassHeader} : c ∈ p.classes ↔ c ∈ q.classes := by
      rw [Program.mem_classes, hheaders.mem_iff, Program.mem_classes]
    refine ⟨?_, fun d d' hrun hrun' n => ?_⟩
    · rw [hiff hp, hiff hq]
      constructor
      · exact fun hg c hc => (hg c (hclass.mp hc)).perm hheaders.symm
      · exact fun hg c hc => (hg c (hclass.mpr hc)).perm hheaders
    · obtain ⟨count, hdeclared, -⟩ := Collect.declared_types hr hrun
      obtain ⟨count', hdeclared', -⟩ := Collect.declared_types hr hrun'
      ext m
      rw [hdeclared'.superclassName?_eq_some hr.toWellFormed hq,
        hdeclared.superclassName?_eq_some hr.toWellFormed hp]
      simp only [hclass]

/-- Classes that come before their superclasses, and a class of a builtin type. -/
def superclassesLast : Program :=
  let name (text : String) : Ident := ⟨text, .point 0⟩
  let at0 {α : Type} (a : α) : Located α := ⟨a, .point 0⟩
  [at0 (.classBlock (name "Leaf") (some (name "Branch")) []), at0 (.moduleBlock (name "Green") []),
    at0 (.classBlock (name "Branch") (some (name "Tree")) []),
    at0 (.classBlock (name "Label") (some (name "String")) []),
    at0 (.classBlock (name "Tree") none [])]

/-- They are declared in this order and in the reverse one, and inherit the same. -/
theorem declareTypes_iff_grounded_superclassesLast :
    let r := initial .host64
    Reachable r ∧ superclassesLast.Fresh r ∧ ∃ d d',
      Collect.outcome (Collect.declareTypes superclassesLast) ⟨r, 0⟩ = (.ok (), d) ∧
      Collect.outcome (Collect.declareTypes superclassesLast.reverse) ⟨r, 0⟩ = (.ok (), d') ∧
      d'.registry.superclassName? "Leaf" = d.registry.superclassName? "Leaf" := by
  intro r
  have hreach : Reachable r := .initial (ofTarget_eq_ok_iff.mpr ⟨by decide, rfl⟩)
  have hfresh : superclassesLast.Fresh r := by
    refine ⟨⟨by decide, by decide +kernel⟩, fun name superclass repr size hmem => ?_⟩
    simp [superclassesLast, Program.headers, Declaration.header?] at hmem
  have hgrounded : ∀ c ∈ superclassesLast.classes, superclassesLast.Grounded r c.name.value := by
    have htree : superclassesLast.Grounded r "Tree" :=
      .root (c := ⟨⟨"Tree", .point 0⟩, none⟩) (by decide) rfl
    have hbranch : superclassesLast.Grounded r "Branch" :=
      .step (c := ⟨⟨"Branch", .point 0⟩, some ⟨"Tree", .point 0⟩⟩) (by decide) rfl htree
    have hleaf : superclassesLast.Grounded r "Leaf" :=
      .step (c := ⟨⟨"Leaf", .point 0⟩, some ⟨"Branch", .point 0⟩⟩) (by decide) rfl hbranch
    have hlabel : superclassesLast.Grounded r "Label" :=
      .step (c := ⟨⟨"Label", .point 0⟩, some ⟨"String", .point 0⟩⟩) (by decide) rfl
        (.known (lookup?_initial .host64 .string) (get?_initial .host64 .string) rfl)
    have hnames : superclassesLast.classes.map (·.name.value) =
        ["Leaf", "Branch", "Label", "Tree"] := by decide
    intro c hc
    have hname : c.name.value ∈ ["Leaf", "Branch", "Label", "Tree"] :=
      hnames ▸ List.mem_map_of_mem hc
    simp only [List.mem_cons, List.not_mem_nil, or_false] at hname
    obtain hname | hname | hname | hname := hname
    · exact hname ▸ hleaf
    · exact hname ▸ hbranch
    · exact hname ▸ hlabel
    · exact hname ▸ htree
  obtain ⟨hiff, -, hperm⟩ := declareTypes_iff_grounded hreach hfresh
  obtain ⟨d, hrun⟩ := hiff.mpr hgrounded
  obtain ⟨hverdict, hsame⟩ := hperm _ superclassesLast.reverse_perm
  obtain ⟨d', hrun'⟩ := hverdict.mpr ⟨d, hrun⟩
  exact ⟨hreach, hfresh, d, d', hrun, hrun', hsame d d' hrun hrun' "Leaf"⟩

end Registry

end DeclLang
