import DeclLang.Proofs.Collection.Hierarchy
import DeclLang.Proofs.Registry.Refusals

/-!
# Refusals: where collecting a program stops

Collecting stops at the first part of a program that is refused. For a header that is one of a few
reasons, each with the name or the size that is to blame (`HeaderRefusal`). The declaration pass is
stopped by such a header, or it is left with classes that all wait for a superclass (`Stops`).
-/

namespace DeclLang

namespace Collect

open Registry

variable {α β : Type} {c c' : Collection} {e : CollectError}

/-! ## Steps -/

/-- A step is refused when its first part is, or its second one after the first. -/
theorem outcome_bind_eq_error {m : Collect α} {f : α → Collect β} :
    outcome (m >>= f) c = (.error e, c') ↔
      outcome m c = (.error e, c') ∨
        ∃ a mid, outcome m c = (.ok a, mid) ∧ outcome (f a) mid = (.error e, c') := by
  rw [outcome_bind]
  rcases outcome m c with ⟨x, mid⟩
  cases x with
  | ok a =>
    constructor
    · exact fun h => .inr ⟨a, mid, rfl, h⟩
    · rintro (h | ⟨a', mid', h, h'⟩)
      · cases h
      · cases h
        exact h'
  | error e' => simp

theorem resolve_eq_error {name : Ident} (h : outcome (resolve name) c = (.error e, c')) :
    c.registry.lookup? name.value = none ∧ e = ⟨.unknownType name.value, name.span⟩ ∧ c' = c := by
  rw [resolve, outcome_bind, outcome_registry] at h
  dsimp only at h
  split at h
  · cases h
  · rename_i hnone
    cases h
    exact ⟨hnone, rfl, rfl⟩

/-- Nothing is found under a free name only. -/
theorem lookup?_eq_none_of_bind {r : Registry} {name : String}
    (h : (r.lookup? name).bind r.get? = none) : r.lookup? name = none := by
  cases hid : r.lookup? name with
  | none => rfl
  | some id =>
    obtain ⟨old, hold, -⟩ := get?_of_lookup? hid
    rw [hid, Option.bind_some, hold] at h
    cases h

theorem existing?_ne_error {name : String} : outcome (existing? name) c ≠ (.error e, c') := by
  intro h
  cases h

theorem apply_eq_error {blame : DeclarationError → Span}
    {operation : Registry → Except DeclarationError (α × Registry)}
    (h : outcome (apply blame operation) c = (.error e, c')) :
    operation c.registry = .error e.value ∧ e.span = blame e.value ∧ c' = c := by
  rw [outcome_apply] at h
  cases hx : operation c.registry with
  | ok x =>
    rw [hx] at h
    cases h
  | error error =>
    rw [hx] at h
    cases h
    exact ⟨rfl, rfl, rfl⟩

theorem declare_eq_error {blame : DeclarationError → Span}
    {operation : Registry → Except DeclarationError (TypeId × Registry)}
    (h : outcome (declare blame operation) c = (.error e, c')) :
    operation c.registry = .error e.value ∧ e.span = blame e.value ∧ c' = c := by
  obtain h | ⟨id, mid, -, h⟩ := outcome_bind_eq_error.mp h
  · exact apply_eq_error h
  · cases h

theorem update_eq_error {span : Span} {operation : Registry → Except DeclarationError Registry}
    (h : outcome (update span operation) c = (.error e, c')) :
    operation c.registry = .error e.value ∧ e.span = span ∧ c' = c := by
  obtain ⟨hoperation, hspan, hc⟩ := apply_eq_error h
  refine ⟨?_, hspan, hc⟩
  cases hx : operation c.registry with
  | ok s =>
    rw [hx] at hoperation
    cases hoperation
  | error error =>
    rw [hx] at hoperation
    cases hoperation
    rfl

/-- A sequence is refused at one of its steps, after those before it. -/
theorem outcome_forM_eq_error {f : α → Collect PUnit} {l : List α}
    (h : outcome (l.forM f) c = (.error e, c')) :
    ∃ before a after mid, l = before ++ a :: after ∧
      outcome (before.forM f) c = (.ok (), mid) ∧ outcome (f a) mid = (.error e, c') := by
  induction l generalizing c with
  | nil => cases h
  | cons a l ih =>
    rw [List.forM_eq_forM, List.forM_cons] at h
    obtain h | ⟨u, mid, ha, h⟩ := outcome_bind_eq_error.mp h
    · exact ⟨[], a, l, c, rfl, outcome_forM_nil.mpr rfl, h⟩
    · obtain ⟨before, b, after, mid', rfl, hbefore, hb⟩ := ih h
      exact ⟨a :: before, b, after, mid', rfl, outcome_forM_cons.mpr ⟨mid, ha, hbefore⟩, hb⟩

/-- A traversal is refused at one of its items, after those before it. -/
theorem outcome_mapM_eq_error {f : α → Collect β} {l : List α}
    (h : outcome (l.mapM f) c = (.error e, c')) :
    ∃ before a after bs mid, l = before ++ a :: after ∧
      outcome (before.mapM f) c = (.ok bs, mid) ∧ outcome (f a) mid = (.error e, c') := by
  induction l generalizing c with
  | nil => cases h
  | cons a l ih =>
    rw [List.mapM_cons] at h
    rcases outcome_bind_eq_error.mp h with ha | ⟨b, mid, ha, h⟩
    · exact ⟨[], a, l, [], c, rfl, rfl, ha⟩
    rcases outcome_bind_eq_error.mp h with hl | ⟨bs, mid', -, hpure⟩
    · rcases ih hl with ⟨before, a', after, bs, mid', rfl, hbefore, ha'⟩
      refine ⟨a :: before, a', after, b :: bs, mid', rfl, ?_, ha'⟩
      rw [List.mapM_cons]
      apply outcome_bind_eq_ok.mpr
      exact ⟨b, mid, ha, outcome_bind_eq_ok.mpr ⟨bs, mid', hbefore, rfl⟩⟩
    · cases hpure

end Collect

/-! ## Headers -/

namespace TypeHeader

/-- The name of a header, as written. -/
def ident : TypeHeader → Ident
  | .ofClass c => c.name
  | .ofModule name | .ofLib name _ | .ofPrimitive name _ _ _ => name

/-- The superclass that a header states, as written. -/
def stated? : TypeHeader → Option Ident
  | .ofClass c => c.superclass
  | .ofPrimitive _ superclass _ _ => some superclass
  | .ofModule _ | .ofLib .. => none

theorem value_ident (h : TypeHeader) : h.ident.value = h.name := by
  cases h <;> rfl

end TypeHeader

/-- Why a header that does not have to wait is refused, with the part of it that is to blame. -/
inductive HeaderRefusal (r : Registry) : TypeHeader → CollectError → Prop where
  | taken {h : TypeHeader} {id : TypeId} {old : Entry} :
      r.lookup? h.name = some id → r.get? id = some old →
      HeaderRefusal r h ⟨.alreadyDefined h.name old.kind.label, h.ident.span⟩
  /-- A class that is there inherits from something else. -/
  | mismatch {name superclass : Ident} {id sup : TypeId} {old : Entry} :
      r.lookup? name.value = some id → r.get? id = some old →
      r.lookup? superclass.value = some sup → old.kind.superclass? ≠ some sup →
      HeaderRefusal r (.ofClass ⟨name, some superclass⟩)
        ⟨.superclassMismatch name.value (old.kind.superclass?.elim "(none)" r.nameOf)
          superclass.value, superclass.span⟩
  | notAClass {h : TypeHeader} {superclass : Ident} {sup : TypeId} {old : Entry} :
      h.stated? = some superclass → r.lookup? superclass.value = some sup →
      r.get? sup = some old → old.kind.isClassLike = false →
      HeaderRefusal r h ⟨.notAClass superclass.value, superclass.span⟩
  /-- Only a primitive does not wait for its superclass. -/
  | unknownSuperclass {name superclass repr : Ident} {size : Located Nat} :
      r.lookup? superclass.value = none →
      HeaderRefusal r (.ofPrimitive name superclass repr size)
        ⟨.unknownType superclass.value, superclass.span⟩
  | unknownRepresentation {name superclass repr : Ident} {size : Located Nat} :
      Representation.ofSpelling? repr.value = none →
      HeaderRefusal r (.ofPrimitive name superclass repr size)
        ⟨.unknownRepresentation repr.value, repr.span⟩
  | layout {name superclass repr : Ident} {size : Located Nat} {tag : Representation} :
      Representation.ofSpelling? repr.value = some tag → size.value ≠ tag.storageSize r.target →
      HeaderRefusal r (.ofPrimitive name superclass repr size)
        ⟨.layout (.layoutMismatch name.value tag size.value (tag.storageSize r.target)), size.span⟩

namespace Collect

open Registry

variable {c c' : Collection} {e : CollectError}

theorem headerRefusal_refuseExisting {h : TypeHeader} {id : TypeId} {old : Entry}
    (hid : c.registry.lookup? h.name = some id) (hold : c.registry.get? id = some old)
    (hrun : outcome (refuseExisting h.ident old : Collect Unit) c = (.error e, c')) :
    HeaderRefusal c.registry h e ∧ c' = c := by
  cases hrun
  rw [h.value_ident]
  exact ⟨.taken hid hold, rfl⟩

section

variable {name : Ident} {superclass : Option Ident} {stated : Option TypeId}
  (hnames : superclass.map (fun n => c.registry.lookup? n.value) = stated.map some)

include hnames

/-- A class that is there is refused if it is something else, or inherits from something else. -/
theorem headerRefusal_reopenClass {id : TypeId} {old : Entry}
    (hid : c.registry.lookup? name.value = some id) (hold : c.registry.get? id = some old)
    (hrun : outcome (reopenClass ⟨name, superclass⟩ stated old) c = (.error e, c')) :
    HeaderRefusal c.registry (.ofClass ⟨name, superclass⟩) e ∧ c' = c := by
  simp only [reopenClass] at hrun
  split at hrun
  · exact headerRefusal_refuseExisting (h := .ofClass ⟨name, superclass⟩) hid hold hrun
  split at hrun
  · cases hrun
  rename_i hdiffers
  cases hrun
  cases superclass with
  | none =>
    obtain rfl : stated = none := by simpa using hnames.symm
    simp at hdiffers
  | some superclass =>
    obtain ⟨sup, rfl, hsup⟩ := Option.map_eq_some_iff.mp hnames.symm
    exact ⟨.mismatch hid hold hsup.symm (by simpa using hdiffers), rfl⟩

/-- A new class is refused for the superclass that it states. The root can be inherited from. -/
theorem headerRefusal_declareObject (hr : Regular c.registry)
    (hfree : c.registry.lookup? name.value = none)
    (hdeclare : c.registry.declareObject name.value (stated.getD Builtin.object.typeId) =
      .error e.value)
    (hspan : e.span = (ClassHeader.blamed ⟨name, superclass⟩).span) :
    HeaderRefusal c.registry (.ofClass ⟨name, superclass⟩) e := by
  obtain ⟨error, span⟩ := e
  dsimp only at hdeclare hspan
  cases superclass with
  | none =>
    obtain rfl : stated = none := by simpa using hnames.symm
    obtain ⟨root, hroot, -, hobject⟩ := hr.root
    obtain ⟨hclass, -⟩ := declareObject_eq_error hfree hroot hdeclare
    rw [hobject] at hclass
    cases hclass
  | some superclass =>
    obtain ⟨sup, rfl, hsup⟩ := Option.map_eq_some_iff.mp hnames.symm
    obtain ⟨old, hold, hname⟩ := get?_of_lookup? hsup.symm
    obtain ⟨hclass, rfl⟩ := declareObject_eq_error hfree hold hdeclare
    rw [hspan, hname]
    exact .notAClass rfl hsup.symm hold hclass

end

theorem headerRefusal_declareClass {head : ClassHeader} (hr : Regular c.registry)
    (hready : head.isReady c.registry = true)
    (hrun : outcome (declareClass head) c = (.error e, c')) :
    HeaderRefusal c.registry (.ofClass head) e ∧ c' = c := by
  obtain ⟨name, superclass⟩ := head
  obtain ⟨stated, hstated, hnames⟩ := exists_stated hready
  rcases outcome_bind_eq_error.mp hrun with h | ⟨stated', mid, hstated', h⟩
  · -- The superclass of a class that is ready is found.
    rw [hstated] at h
    cases h
  rw [hstated] at hstated'
  cases hstated'
  obtain h | ⟨found, mid, hfound, h⟩ := outcome_bind_eq_error.mp h
  · exact absurd h existing?_ne_error
  obtain ⟨hentry, rfl⟩ := existing?_eq_ok.mp hfound
  cases found with
  | some old =>
    obtain ⟨id, hid, hold⟩ := Option.bind_eq_some_iff.mp hentry
    exact headerRefusal_reopenClass hnames hid hold h
  | none =>
    obtain ⟨hdeclare, hspan, hc⟩ := declare_eq_error h
    have hfree := lookup?_eq_none_of_bind hentry
    exact ⟨headerRefusal_declareObject hnames hr hfree hdeclare hspan, hc⟩

theorem headerRefusal_declareModule {name : Ident}
    (hrun : outcome (declareModule name) c = (.error e, c')) :
    HeaderRefusal c.registry (.ofModule name) e ∧ c' = c := by
  obtain h | ⟨found, mid, hfound, h⟩ := outcome_bind_eq_error.mp hrun
  · exact absurd h existing?_ne_error
  obtain ⟨hentry, rfl⟩ := existing?_eq_ok.mp hfound
  cases found with
  | some old =>
    obtain ⟨id, hid, hold⟩ := Option.bind_eq_some_iff.mp hentry
    dsimp only at h
    split at h
    · cases h
    · exact headerRefusal_refuseExisting (h := .ofModule name) hid hold h
  | none =>
    obtain ⟨hdeclare, -⟩ := declare_eq_error h
    exact absurd hdeclare (register_ne_error (lookup?_eq_none_of_bind hentry))

theorem headerRefusal_declareLib {name : Ident} {libname : Option (Located String)}
    (hr : Regular c.registry) (hrun : outcome (declareLib name libname) c = (.error e, c')) :
    HeaderRefusal c.registry (.ofLib name libname) e ∧ c' = c := by
  obtain ⟨hdeclare, hspan, hc⟩ := declare_eq_error hrun
  obtain ⟨error, span⟩ := e
  obtain ⟨old, hmem, hname, rfl⟩ := register_eq_error hdeclare
  obtain ⟨i, hi, hold⟩ := Array.mem_iff_getElem.mp hmem
  have hold : c.registry.get? ⟨i⟩ = some old := Array.getElem?_eq_some_iff.mpr ⟨hi, hold⟩
  have hid := hr.lookup?_eq_some_iff.mpr ⟨old, hold, hname⟩
  obtain rfl : span = name.span := hspan
  exact ⟨.taken (h := .ofLib name libname) hid hold, hc⟩

theorem headerRefusal_declarePrimitive {name superclass repr : Ident} {size : Located Nat}
    (hrun : outcome (declarePrimitive name superclass repr size) c = (.error e, c')) :
    HeaderRefusal c.registry (.ofPrimitive name superclass repr size) e ∧ c' = c := by
  obtain h | ⟨found, mid, hfound, h⟩ := outcome_bind_eq_error.mp hrun
  · exact absurd h existing?_ne_error
  obtain ⟨hentry, rfl⟩ := existing?_eq_ok.mp hfound
  cases found with
  | some old =>
    obtain ⟨id, hid, hold⟩ := Option.bind_eq_some_iff.mp hentry
    exact headerRefusal_refuseExisting (h := .ofPrimitive name superclass repr size) hid hold h
  | none =>
    have hfree := lookup?_eq_none_of_bind hentry
    obtain h | ⟨sup, mid, hresolve, h⟩ := outcome_bind_eq_error.mp h
    · obtain ⟨hnone, rfl, hc⟩ := resolve_eq_error h
      exact ⟨.unknownSuperclass hnone, hc⟩
    obtain ⟨hsup, rfl⟩ := resolve_eq_ok.mp hresolve
    obtain ⟨old, hold, hname⟩ := get?_of_lookup? hsup
    dsimp only at h
    split at h
    · rename_i tag htag
      obtain ⟨hdeclare, hspan, hc⟩ := declare_eq_error h
      obtain ⟨error, span⟩ := e
      obtain ⟨hclass, rfl⟩ | ⟨hsize, rfl⟩ := declarePrimitive_eq_error hfree hold hdeclare
      · obtain rfl : span = superclass.span := hspan
        rw [hname]
        exact ⟨.notAClass rfl hsup hold hclass, hc⟩
      · obtain rfl : span = size.span := hspan
        exact ⟨.layout htag hsize, hc⟩
    · rename_i hnone
      cases h
      exact ⟨.unknownRepresentation hnone, rfl⟩

/-- A header that does not have to wait is refused for one of the listed reasons, and leaves
    everything as it was. -/
theorem headerRefusal_of_eq_error {h : TypeHeader} (hr : Regular c.registry)
    (hready : h.isReady c.registry = true) (hrun : outcome (declareHeader h) c = (.error e, c')) :
    HeaderRefusal c.registry h e ∧ c' = c := by
  cases h with
  | ofClass head => exact headerRefusal_declareClass hr hready hrun
  | ofModule name => exact headerRefusal_declareModule hrun
  | ofLib name libname => exact headerRefusal_declareLib hr hrun
  | ofPrimitive name superclass repr size => exact headerRefusal_declarePrimitive hrun

/-! ## The declaration pass -/

/-- How the declaration pass of a program over `r` ends, if it does not end well. -/
inductive Stops (r : Registry) (p : Program) (e : CollectError) (c : Collection) : Prop where
  /-- A header that does not have to wait, or waits no longer, is refused. -/
  | refused {done todo : List TypeHeader} {h : TypeHeader} :
      Underway r p done todo c → h ∈ todo → h.isReady c.registry = true →
      HeaderRefusal c.registry h e → Stops r p e c
  /-- There are only classes left that wait, in the order of the text. -/
  | stuck {done : List TypeHeader} {head : ClassHeader} {rest : List ClassHeader} :
      Underway r p done ((head :: rest).map .ofClass) c → (head :: rest).Sublist p.classes →
      (∀ k ∈ head :: rest, k.isReady c.registry = false) →
      e = ⟨.unknownType head.blamed.value, head.blamed.span⟩ → Stops r p e c

variable {r : Registry} {p : Program} {cs waiting : List ClassHeader}

theorem Stops.of_declareHeader {done todo : List TypeHeader} {h : TypeHeader} (hr : Regular r)
    (hunderway : Underway r p done todo c) (hmem : h ∈ todo)
    (hready : h.isReady c.registry = true) (hrun : outcome (declareHeader h) c = (.error e, c')) :
    Stops r p e c' := by
  obtain ⟨count, hdeclared⟩ := hunderway.declared hr
  obtain ⟨hrefusal, rfl⟩ := headerRefusal_of_eq_error hdeclared.regular hready hrun
  exact .refused hunderway hmem hready hrefusal

theorem declareType_eq_error {d : Declaration}
    (h : outcome (declareType d) c = (.error e, c')) :
    ∃ head, d.header? = some head ∧ head.isReady c.registry = true ∧
      outcome (declareHeader head) c = (.error e, c') := by
  have hsingle {m : Collect Unit} (h : outcome (m >>= fun _ => pure []) c =
      ((.error e : Except CollectError (List ClassHeader)), c')) :
      outcome m c = (.error e, c') := by
    obtain h | ⟨u, mid, -, h⟩ := outcome_bind_eq_error.mp h
    · exact h
    · cases h
  cases d with
  | classBlock name superclass members =>
    rw [declareType, outcome_bind, outcome_registry] at h
    dsimp only at h
    split at h
    · rename_i hready
      exact ⟨_, rfl, hready, hsingle h⟩
    · cases h
  | moduleBlock name members => exact ⟨_, rfl, rfl, hsingle h⟩
  | libBlock name libname functions => exact ⟨_, rfl, rfl, hsingle h⟩
  | primitive name superclass repr size => exact ⟨_, rfl, rfl, hsingle h⟩
  | method decl => cases h
  | inclusion module => cases h

/-- The first pass is refused at a header, with those above it placed. -/
theorem declareInOrder_eq_error {p : Program}
    (h : outcome (declareInOrder p) c = (.error e, c')) :
    ∃ above head below waiting mid, p.headers = above ++ head :: below ∧
      Placed above c waiting mid ∧ head.isReady mid.registry = true ∧
      outcome (declareHeader head) mid = (.error e, c') := by
  induction p generalizing c with
  | nil => cases h
  | cons d ds ih =>
    have hcons : Program.headers (d :: ds) = d.value.header?.toList ++ Program.headers ds := by
      rw [Program.headers, Program.headers, List.filterMap_cons]
      cases d.value.header? <;> rfl
    rw [hcons]
    obtain h | ⟨waiting, mid, hd, h⟩ := outcome_bind_eq_error.mp h
    · obtain ⟨head, hheader, hready, hrun⟩ := declareType_eq_error h
      rw [hheader]
      exact ⟨[], head, _, [], c, rfl, .nil, hready, hrun⟩
    · obtain h | ⟨others, mid', -, h⟩ := outcome_bind_eq_error.mp h
      · obtain ⟨above, head, below, others, mid', hds, hplaced, hready, hrun⟩ := ih h
        refine ⟨d.value.header?.toList ++ above, head, below, waiting ++ others, mid', ?_,
          placed_append.mpr ⟨waiting, mid, others, declareType_eq_ok.mp hd, hplaced, rfl⟩,
          hready, hrun⟩
        rw [hds, List.append_assoc]
      · cases h

theorem Placed.sublist {hs : List TypeHeader} (h : Placed hs c waiting c') :
    waiting.Sublist (hs.filterMap (·.class?)) := by
  induction h with
  | nil => exact .slnil
  | @declared head hs _ _ _ _ _ _ _ ih =>
    rw [List.filterMap_cons]
    split
    · exact ih
    · exact ih.cons _
  | waits _ _ ih => exact ih.cons_cons _

/-! ### Rounds over the classes that wait -/

/-- A round leaves some of its classes, in their order; if it leaves all of them, then none was
    ready. -/
theorem declareReady_sublist (h : outcome (declareReady cs) c = (.ok waiting, c')) :
    waiting.Sublist cs ∧ (waiting.length = cs.length →
      waiting = cs ∧ c' = c ∧ ∀ k ∈ cs, k.isReady c.registry = false) := by
  induction cs generalizing c waiting with
  | nil =>
    obtain ⟨rfl, rfl⟩ := outcome_pure_eq_ok.mp h
    exact ⟨.slnil, fun _ => ⟨rfl, rfl, List.forall_mem_nil _⟩⟩
  | cons head cs ih =>
    obtain ⟨r, mid, hregistry, h⟩ := outcome_bind_eq_ok.mp h
    obtain ⟨rfl, rfl⟩ := outcome_registry_eq_ok.mp hregistry
    split at h
    · obtain ⟨u, mid, -, h⟩ := outcome_bind_eq_ok.mp h
      have hless := (ih h).1.length_le
      refine ⟨(ih h).1.cons _, fun hlength => ?_⟩
      rw [List.length_cons] at hlength
      omega
    · rename_i hwaits
      obtain ⟨others, mid, hothers, h⟩ := outcome_bind_eq_ok.mp h
      obtain ⟨rfl, rfl⟩ := outcome_pure_eq_ok.mp h
      obtain ⟨hsublist, hall⟩ := ih hothers
      refine ⟨hsublist.cons_cons _, fun hlength => ?_⟩
      obtain ⟨rfl, hc, hnone⟩ := hall (Nat.succ.inj hlength)
      exact ⟨rfl, hc, List.forall_mem_cons.mpr ⟨by simpa using hwaits, hnone⟩⟩

/-- What a round declares is done from then on. -/
theorem Underway.round {done : List TypeHeader} (h : Underway r p done (cs.map .ofClass) c)
    (hround : outcome (declareReady cs) c = (.ok waiting, c')) :
    ∃ done', Underway r p done' (waiting.map .ofClass) c' := by
  obtain ⟨more, hmore, hperm⟩ := declareReady_eq_ok hround
  refine ⟨done ++ more.map .ofClass, outcome_forM_append.mpr ⟨c, h.run, hmore⟩, ?_⟩
  refine List.Perm.trans ?_ h.perm
  rw [List.append_assoc, ← List.map_append]
  exact (hperm.map _).append_left done

/-- A round is refused at a class that waits no longer. -/
theorem Underway.stops_declareReady {done : List TypeHeader} {skipped : List ClassHeader}
    (hr : Regular r) (h : Underway r p done ((skipped ++ cs).map .ofClass) c)
    (hround : outcome (declareReady cs) c = (.error e, c')) : Stops r p e c' := by
  induction cs generalizing done skipped c with
  | nil => cases hround
  | cons head cs ih =>
    rw [declareReady, outcome_bind, outcome_registry] at hround
    dsimp only at hround
    split at hround
    · rename_i hready
      rw [List.map_append, List.map_cons] at h
      obtain hround | ⟨u, mid, hrun, hround⟩ := outcome_bind_eq_error.mp hround
      · exact .of_declareHeader hr h (List.mem_append_right _ List.mem_cons_self) hready hround
      · have hmid := h.advance hrun
        rw [← List.map_append] at hmid
        exact ih hmid hround
    · have hskipped : Underway r p done (((skipped ++ [head]) ++ cs).map .ofClass) c := by
        rw [List.append_assoc, List.singleton_append]
        exact h
      obtain hround | ⟨others, mid, -, hround⟩ := outcome_bind_eq_error.mp hround
      · exact ih hskipped hround
      · cases hround

/-- Every round leaves fewer classes, until one is refused or none of them is ready. -/
theorem Underway.stops_declareWaiting {done : List TypeHeader} (hr : Regular r)
    (h : Underway r p done (cs.map .ofClass) c) (hsublist : cs.Sublist p.classes)
    (hrun : outcome (declareWaiting cs) c = (.error e, c')) : Stops r p e c' := by
  fun_induction declareWaiting cs generalizing done c with
  | case1 => cases hrun
  | case2 head cs ih =>
    obtain hround | ⟨waiting, mid, hround, hnext⟩ := outcome_bind_eq_error.mp hrun
    · have hall : Underway r p done (([] ++ head :: cs).map .ofClass) c := h
      exact hall.stops_declareReady hr hround
    · obtain ⟨hless, hstalls⟩ := declareReady_sublist hround
      split at hnext
      · rename_i hfewer
        obtain ⟨done', hmid⟩ := h.round hround
        exact ih waiting hfewer hmid (hless.trans hsublist) hnext
      · rename_i hsame
        obtain ⟨-, rfl, hnone⟩ := hstalls (Nat.le_antisymm hless.length_le (Nat.le_of_not_lt hsame))
        cases hnext
        exact .stuck h hsublist hnone rfl

/-- The declaration pass ends in one of two ways, if it does not end well. -/
theorem stops_of_declareTypes (hr : Regular r)
    (h : outcome (declareTypes p) ⟨r, 0⟩ = (.error e, c)) : Stops r p e c := by
  obtain h | ⟨waiting, mid, horder, h⟩ := outcome_bind_eq_error.mp h
  · obtain ⟨above, head, below, waiting, mid, hheaders, hplaced, hready, hrun⟩ :=
      declareInOrder_eq_error h
    obtain ⟨done, hunderway⟩ := hplaced.underway hheaders
    exact .of_declareHeader hr hunderway (List.mem_append_right _ List.mem_cons_self) hready hrun
  · have hplaced := declareInOrder_eq_ok.mp horder
    obtain ⟨done, hunderway⟩ := hplaced.underway (List.append_nil _).symm
    rw [List.append_nil] at hunderway
    exact hunderway.stops_declareWaiting hr hplaced.sublist h

end Collect

end DeclLang
