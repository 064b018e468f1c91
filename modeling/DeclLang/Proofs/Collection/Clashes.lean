import DeclLang.Proofs.Collection.Waiting

/-!
# Clashes: headers that come while a class waits

Which classes wait can be told from the names alone (`Placed.tracks`). A header that presumes a type
while a class waits under its name clashes with that class. If none does, then headers that are
accepted where all classes were declared are accepted where some of them still wait
(`exists_placed`), and one that does is refused there, or another one will be
(`clashes_eq_false`).
-/

namespace DeclLang

/-! ## Names -/

/-- The names of the types of a registry, and of the classes that wait, while headers are taken in
    order. -/
structure Names where
  known : List String
  waiting : List String
deriving DecidableEq, Repr

namespace Names

def isReady (s : Names) : TypeHeader → Bool
  | .ofClass c => c.superclass.all fun n => decide (n.value ∈ s.known)
  | .ofModule _ | .ofLib .. | .ofPrimitive .. => true

def place (s : Names) (h : TypeHeader) : Names :=
  if s.isReady h then ⟨h.name :: s.known, s.waiting⟩ else ⟨s.known, s.waiting ++ [h.name]⟩

/-- Whether a class waits under a name that no type has. -/
def awaits (s : Names) (n : String) : Bool :=
  decide (n ∈ s.waiting) && !decide (n ∈ s.known)

/-- Whether one of some headers presumes a type that waits when its turn comes. -/
def clashes (s : Names) : List TypeHeader → Bool
  | [] => false
  | h :: hs => h.presumed.any s.awaits || (s.place h).clashes hs

theorem clashes_cons_eq_false {s : Names} {h : TypeHeader} {hs : List TypeHeader} :
    s.clashes (h :: hs) = false ↔
      (∀ n ∈ h.presumed, n ∈ s.waiting → n ∈ s.known) ∧ (s.place h).clashes hs = false := by
  rw [clashes, Bool.or_eq_false_iff]
  cases h.presumed with
  | none => simp
  | some n => simp [awaits]

end Names

namespace Registry

def names (r : Registry) : Names :=
  ⟨r.ids.map r.nameOf, []⟩

/-- Whether a header of `p₂` presumes a type that still waits when it comes right after the
    headers of `p₁`. -/
def clashes (r : Registry) (p₁ p₂ : Program) : Bool :=
  (p₁.headers.foldl Names.place r.names).clashes p₂.headers

/-! ## Names as they are -/

/-- Whether names are those of a registry and of some classes that wait. -/
structure Tracks (s : Names) (w : Registry) (waiting : List ClassHeader) : Prop where
  known : ∀ n, n ∈ s.known ↔ (w.lookup? n).isSome = true
  waiting : s.waiting = waiting.map (·.name.value)

variable {r w w' : Registry} {s : Names} {h : TypeHeader} {waiting : List ClassHeader}

theorem tracks_names (hr : WellFormed r) : Tracks r.names r [] where
  known n := by
    rw [names, List.mem_map]
    constructor
    · rintro ⟨id, hid, rfl⟩
      obtain ⟨e, he⟩ := Option.isSome_iff_exists.mp (isSome_get?_iff.mpr (mem_ids.mp hid))
      rw [nameOf_of_get? he]
      exact Option.isSome_of_eq_some (hr.lookup?_eq_some_iff.mpr ⟨e, he, rfl⟩)
    · intro hn
      obtain ⟨id, hid⟩ := Option.isSome_iff_exists.mp hn
      obtain ⟨e, he, -⟩ := get?_of_lookup? hid
      exact ⟨id, mem_ids.mpr (index_lt_of_get? he), nameOf_of_lookup? hid⟩
  waiting := rfl

theorem Tracks.isReady_eq (ht : Tracks s w waiting) (h : TypeHeader) :
    s.isReady h = h.isReady w := by
  cases h with
  | ofClass c =>
    rw [Names.isReady, TypeHeader.isReady, ClassHeader.isReady]
    cases c.superclass with
    | none => rfl
    | some superclass =>
      rw [Option.all_some, Bool.eq_iff_iff, decide_eq_true_iff]
      exact ht.known superclass.value
  | _ => rfl

theorem Tracks.declared (ht : Tracks s w waiting) (hready : h.isReady w = true)
    (hstep : NominalStep h w w') : Tracks (s.place h) w' waiting := by
  rw [Names.place, ht.isReady_eq, if_pos hready]
  refine ⟨fun n => ?_, ht.waiting⟩
  rw [List.mem_cons, ht.known, ← isSome_kindOf?_iff, ← isSome_kindOf?_iff, hstep.kinds]
  constructor
  · rintro (rfl | hn)
    · obtain ⟨kind, hkind, -⟩ := hstep.meets
      rw [← hstep.kinds, hkind]
      rfl
    · rw [Option.isSome_or, hn, Bool.true_or]
  · intro hn
    rw [Option.isSome_or, Bool.or_eq_true] at hn
    obtain hn | hn := hn
    · exact .inr hn
    · split at hn
      · rename_i heq
        exact .inl heq
      · cases hn

theorem Tracks.waits (ht : Tracks s w waiting) {head : ClassHeader}
    (hwaits : head.isReady w = false) :
    Tracks (s.place (.ofClass head)) w (waiting ++ [head]) := by
  have hready : ¬ s.isReady (.ofClass head) = true := by
    rw [ht.isReady_eq]
    exact Bool.eq_false_iff.mp hwaits
  rw [Names.place, if_neg hready]
  exact ⟨ht.known, by rw [ht.waiting, List.map_append]; rfl⟩

theorem Tracks.mem_waiting (ht : Tracks s w waiting) {n : String} :
    n ∈ s.waiting ↔ ∃ head ∈ waiting, head.name.value = n := by
  rw [ht.waiting, List.mem_map]

/-- What a header presumes is not lacking, unless a class waits for it. -/
theorem Trailing.isSome_of_presumed {t : Registry} (h : Trailing w t waiting)
    (ht : Tracks s w waiting) {n : String} (hplain : IsPlain n)
    (hknown : n ∈ s.waiting → n ∈ s.known) (hn : (t.lookup? n).isSome = true) :
    (w.lookup? n).isSome = true := by
  cases hfree : w.lookup? n with
  | some id => rfl
  | none =>
    obtain ⟨kind, hkind⟩ := Option.isSome_iff_exists.mp (isSome_kindOf?_iff.mpr hn)
    obtain ⟨head, hhead, hname, -⟩ := h.lacks hplain hfree hkind
    have hthere := (ht.known n).mp (hknown (ht.mem_waiting.mpr ⟨head, hhead, hname⟩))
    rw [hfree] at hthere
    cases hthere

end Registry

/-! ## Headers in order -/

/-- Only a class with a superclass can wait. -/
theorem TypeHeader.exists_of_isReady_eq_false {h : TypeHeader} {r : Registry}
    (hready : h.isReady r = false) :
    ∃ head superclass, h = .ofClass head ∧ head.superclass = some superclass ∧
      r.lookup? superclass.value = none := by
  cases h with
  | ofClass head =>
    cases hsuper : head.superclass with
    | none => simp [isReady, ClassHeader.isReady, hsuper] at hready
    | some superclass =>
      refine ⟨head, superclass, rfl, hsuper, ?_⟩
      simpa [isReady, ClassHeader.isReady, hsuper] using hready
  | _ => cases hready

/-- A header that is ready finds its superclass, or it presumes that. -/
theorem TypeHeader.isSome_superclass {h : TypeHeader} {r : Registry} (hready : h.isReady r = true)
    {n : String} (hn : n ∈ h.superclass?)
    (hpresumed : n ∈ h.presumed → (r.lookup? n).isSome = true) : (r.lookup? n).isSome = true := by
  cases h with
  | ofClass head =>
    obtain ⟨superclass, hsuper, rfl⟩ := Option.map_eq_some_iff.mp hn
    rw [isReady, ClassHeader.isReady, hsuper] at hready
    exact hready
  | ofPrimitive name superclass repr size => exact hpresumed hn
  | ofModule name => cases hn
  | ofLib name libname => cases hn

namespace Collect

open Registry

variable {c c' d d' : Collection} {hs : List TypeHeader} {cs waiting : List ClassHeader} {s : Names}

theorem Placed.settled (h : Placed hs c cs c') (hplain : ∀ h ∈ hs, h.Plain)
    (hc : Settled c.registry) : Settled c'.registry ∧ c.registry.Retains c'.registry := by
  obtain ⟨done, hrun, hperm⟩ := h.run
  have hkeeps : Keeps (Carries Settled Retains) (done.forM declareHeader) :=
    steadfastOn_settled.keeps_forM fun h hh => steadfastOn_settled.keeps_declareHeader h
      (hplain h (hperm.mem_iff.mp (List.mem_append_left _ hh))).1
  exact settled_of_keeps hkeeps hc hrun

theorem Placed.mem (h : Placed hs c cs c') {head : ClassHeader} (hhead : head ∈ cs) :
    .ofClass head ∈ hs := by
  obtain ⟨done, -, hperm⟩ := h.run
  exact hperm.mem_iff.mp (List.mem_append_right _ (List.mem_map_of_mem hhead))

/-- A class that waits has a superclass, and that is not the root. -/
theorem Placed.stated (h : Placed hs c cs c') (hplain : ∀ h ∈ hs, h.Plain)
    (hc : Settled c.registry) {head : ClassHeader} (hhead : head ∈ cs) :
    ∃ superclass, head.superclass = some superclass ∧ superclass.value ≠ "Object" := by
  induction h with
  | nil => cases hhead
  | declared _ hrun _ ih =>
    obtain ⟨hh, hhs⟩ := List.forall_mem_cons.mp hplain
    exact ih hhs (nominalStep_of_eq_ok hh hc hrun).2.1 hhead
  | waits hwaits _ ih =>
    obtain ⟨-, hhs⟩ := List.forall_mem_cons.mp hplain
    obtain rfl | hhead := List.mem_cons.mp hhead
    · obtain ⟨_, superclass, ⟨⟩, hsuper, hfree⟩ :=
        TypeHeader.exists_of_isReady_eq_false (h := .ofClass head) hwaits
      refine ⟨superclass, hsuper, fun hobject => ?_⟩
      rw [hobject, ← kindOf?_eq_none_iff, hc.kindOf?_object] at hfree
      cases hfree
    · exact ih hhs hc hhead

/-- The names after some headers. -/
theorem Placed.tracks (h : Placed hs c cs c') (hplain : ∀ h ∈ hs, h.Plain)
    (hc : Settled c.registry) (ht : Tracks s c.registry waiting) :
    Tracks (hs.foldl Names.place s) c'.registry (waiting ++ cs) := by
  induction h generalizing s waiting with
  | nil =>
    rw [List.append_nil]
    exact ht
  | declared hready hrun _ ih =>
    obtain ⟨hh, hhs⟩ := List.forall_mem_cons.mp hplain
    obtain ⟨hstep, hmid, -⟩ := nominalStep_of_eq_ok hh hc hrun
    exact ih hhs hmid (ht.declared hready hstep)
  | waits hwaits _ ih =>
    obtain ⟨-, hhs⟩ := List.forall_mem_cons.mp hplain
    have hlast := ih hhs hc (ht.waits hwaits)
    rwa [List.append_assoc, List.singleton_append] at hlast

/-- Without a clash, a registry that is behind another one goes through the same headers. -/
theorem exists_placed (h : Placed hs d cs d') (hplain : ∀ h ∈ hs, h.Plain)
    (htrailing : Trailing c.registry d.registry waiting) (ht : Tracks s c.registry waiting)
    (hclash : s.clashes hs = false) :
    ∃ cs' c', Placed hs c cs' c' ∧ Trailing c'.registry d'.registry (waiting ++ cs') ∧
      cs ⊆ cs' := by
  induction h generalizing s c waiting with
  | nil => exact ⟨[], c, .nil, by rw [List.append_nil]; exact htrailing, List.nil_subset _⟩
  | @declared h hs d mid d' cs hready hrun _ ih =>
    obtain ⟨hh, hhs⟩ := List.forall_mem_cons.mp hplain
    obtain ⟨hknown, hclash⟩ := Names.clashes_cons_eq_false.mp hclash
    obtain ⟨hstep, hmid, hretains⟩ := nominalStep_of_eq_ok hh htrailing.right hrun
    have hpresumed (n : String) (hn : n ∈ h.presumed) :=
      htrailing.isSome_of_presumed ht (hh.presumed n hn) (hknown n hn)
    cases hbehind : h.isReady c.registry with
    | true =>
      have hsuper : ∀ n ∈ h.superclass?, (c.registry.lookup? n).isSome = true := fun n hn =>
        TypeHeader.isSome_superclass hbehind hn fun hpre => hpresumed n hpre (hstep.ready n hn)
      obtain ⟨next, hrun', hnext, -⟩ := declareHeader_trailing htrailing hmid
        hretains.target hstep hh hsuper hpresumed
      have hstep' := (nominalStep_of_eq_ok hh htrailing.left hrun').1
      obtain ⟨cs', c', hplaced, hlast, hsub⟩ := ih hhs hnext (ht.declared hbehind hstep') hclash
      exact ⟨cs', c', .declared hbehind hrun' hplaced, hlast, hsub⟩
    | false =>
      -- The class waits behind while it is declared ahead.
      obtain ⟨head, superclass, rfl, hstated, -⟩ :=
        TypeHeader.exists_of_isReady_eq_false hbehind
      have hnext : Trailing c.registry mid.registry (waiting ++ [head]) :=
        (htrailing.waits hh hstated).advance [head] hstep.realizes hmid hretains.target
          (List.subset_append_right _ _)
      obtain ⟨cs', c', hplaced, hlast, hsub⟩ := ih hhs hnext (ht.waits hbehind) hclash
      rw [List.append_assoc, List.singleton_append] at hlast
      exact ⟨head :: cs', c', .waits hbehind hplaced, hlast, List.subset_cons_of_subset head hsub⟩
  | @waits head hs d d' cs hwaits _ ih =>
    obtain ⟨hh, hhs⟩ := List.forall_mem_cons.mp hplain
    obtain ⟨-, hclash⟩ := Names.clashes_cons_eq_false.mp hclash
    obtain ⟨_, superclass, ⟨⟩, hstated, hfree⟩ :=
      TypeHeader.exists_of_isReady_eq_false (h := .ofClass head) hwaits
    -- A superclass that is not even ahead is not behind.
    have hbehind : head.isReady c.registry = false := by
      rw [ClassHeader.isReady, hstated, Option.isSome_eq_false_iff, Option.isNone_iff_eq_none,
        ← Option.not_isSome_iff_eq_none]
      intro hsome
      have hahead := htrailing.below.lookup? hsome
      rw [hfree] at hahead
      cases hahead
    obtain ⟨cs', c', hplaced, hlast, hsub⟩ :=
      ih hhs (htrailing.waits hh hstated) (ht.waits hbehind) hclash
    rw [List.append_assoc, List.singleton_append] at hlast
    exact ⟨head :: cs', c', .waits hbehind hplaced, hlast, List.cons_subset_cons head hsub⟩

/-- A header that is accepted does not presume a class that waits, or that class suits nothing that
    the registry can come to have for it. -/
theorem known_of_presumed {h : TypeHeader} {r mid t : Registry} (hstep : NominalStep h r mid)
    (hbelow : Below mid t) (ht : Tracks s r waiting)
    (hwaiting : ∀ head ∈ waiting, ∃ superclass, head.superclass = some superclass ∧
      superclass.value ≠ "Object")
    (hmeets : ∀ head ∈ waiting, t.Meets (.ofClass head)) :
    ∀ n ∈ h.presumed, n ∈ s.waiting → n ∈ s.known := by
  intro n hn hwaits
  rw [ht.known]
  cases h with
  | ofPrimitive name superclass repr size => exact hstep.ready n hn
  | ofModule name => cases hn
  | ofLib name libname => cases hn
  | ofClass head =>
    obtain ⟨name, stated⟩ := head
    cases stated with
    | some stated => cases hn
    | none =>
      obtain rfl := Option.some.inj hn
      rw [← isSome_kindOf?_iff, Option.isSome_iff_ne_none]
      intro hfree
      -- The class would be declared here with the root as its superclass.
      have hdeclared : t.kindOf? name.value = some (.object (some "Object")) := by
        refine hbelow _ _ ?_
        rw [hstep.kinds, hfree, Option.none_or]
        exact if_pos rfl
      obtain ⟨head, hhead, hname⟩ := ht.mem_waiting.mp hwaits
      obtain ⟨superclass, hstated, hne⟩ := hwaiting head hhead
      obtain ⟨kind, hkind, -, hagrees⟩ := hmeets head hhead
      have hkind : t.kindOf? name.value = some kind := hname ▸ hkind
      obtain rfl := Option.some.inj (hkind.symm.trans hdeclared)
      exact hne (Option.some.inj (hagrees superclass hstated)).symm

/-- Headers that are accepted, and find types that suit them in the end, do not clash. -/
theorem clashes_eq_false {t : Registry} (h : Placed hs c cs c') (hplain : ∀ h ∈ hs, h.Plain)
    (hc : Settled c.registry) (ht : Tracks s c.registry waiting) (hbelow : Below c'.registry t)
    (hwaiting : ∀ head ∈ waiting, ∃ superclass, head.superclass = some superclass ∧
      superclass.value ≠ "Object")
    (hmeets : ∀ h ∈ hs ++ waiting.map .ofClass, t.Meets h) : s.clashes hs = false := by
  induction h generalizing s waiting with
  | nil => rfl
  | @declared h hs c mid c' cs hready hrun hrest ih =>
    obtain ⟨hh, hhs⟩ := List.forall_mem_cons.mp hplain
    obtain ⟨-, hlater⟩ := List.forall_mem_cons.mp hmeets
    obtain ⟨hstep, hmid, -⟩ := nominalStep_of_eq_ok hh hc hrun
    have hlast : Below mid.registry t := fun n kind hn =>
      hbelow n kind (hmid.kindOf?_retained (hrest.settled hhs hmid).2 hn)
    refine Names.clashes_cons_eq_false.mpr
      ⟨known_of_presumed hstep hlast ht hwaiting fun head hhead => hlater _ ?_,
        ih hhs hmid (ht.declared hready hstep) hbelow hwaiting hlater⟩
    exact List.mem_append_right _ (List.mem_map_of_mem hhead)
  | @waits head hs c c' cs hwaits _ ih =>
    obtain ⟨hh, hhs⟩ := List.forall_mem_cons.mp hplain
    obtain ⟨hhead, hlater⟩ := List.forall_mem_cons.mp hmeets
    obtain ⟨_, superclass, ⟨⟩, hstated, hfree⟩ :=
      TypeHeader.exists_of_isReady_eq_false (h := .ofClass head) hwaits
    refine Names.clashes_cons_eq_false.mpr
      ⟨fun n hn => ?_, ih hhs hc (ht.waits hwaits) hbelow ?_ ?_⟩
    · obtain ⟨name, stated⟩ := head
      obtain rfl : stated = some superclass := hstated
      cases hn
    · refine List.forall_mem_append.mpr
        ⟨hwaiting, List.forall_mem_singleton.mpr ⟨superclass, hstated, fun hobject => ?_⟩⟩
      rw [hobject, ← kindOf?_eq_none_iff, hc.kindOf?_object] at hfree
      cases hfree
    · rw [List.map_append, ← List.append_assoc]
      exact List.forall_mem_append.mpr ⟨hlater, List.forall_mem_singleton.mpr hhead⟩

end Collect

end DeclLang
