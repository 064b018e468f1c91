import DeclLang.Proofs.Collection.Realized

/-!
# Waiting classes: a registry that is behind another one

A registry trails another one when all that it lacks are classes that wait (`Trailing`). Since a
superclass is declared before its subclasses, one of the classes that wait is ready in every round,
so all of them are declared in the end, in whatever order they stand (`declareWaiting_succeeds`).
-/

namespace DeclLang

namespace Registry

variable {w w' t t' : Registry} {header : TypeHeader} {waiting : List ClassHeader}

/-- All plain names that `w` lacks belong to classes that wait, and these are of the kind that `t`
    has for their names. -/
structure Trailing (w t : Registry) (waiting : List ClassHeader) : Prop where
  left : Settled w
  right : Settled t
  target : t.target = w.target
  below : Below w t
  plain : ∀ head ∈ waiting, (TypeHeader.ofClass head).Plain
  stated : ∀ head ∈ waiting, head.superclass.isSome = true
  lacks : ∀ {n kind}, IsPlain n → w.lookup? n = none → t.kindOf? n = some kind →
    ∃ head ∈ waiting, head.name.value = n ∧
      ∃ superclass, head.superclass = some superclass ∧ kind = .object (some superclass.value)

theorem Trailing.refl (hw : Settled w) (hplain : ∀ head ∈ waiting, (TypeHeader.ofClass head).Plain)
    (hstated : ∀ head ∈ waiting, head.superclass.isSome = true) : Trailing w w waiting where
  left := hw
  right := hw
  target := rfl
  below _ _ h := h
  plain := hplain
  stated := hstated
  lacks _ hfree hn := by
    rw [kindOf?_eq_none_iff.mpr hfree] at hn
    cases hn

/-- One more class may wait. -/
theorem Trailing.waits (h : Trailing w t waiting) {head : ClassHeader} {superclass : Ident}
    (hplain : (TypeHeader.ofClass head).Plain) (hstated : head.superclass = some superclass) :
    Trailing w t (waiting ++ [head]) where
  left := h.left
  right := h.right
  target := h.target
  below := h.below
  plain := List.forall_mem_append.mpr ⟨h.plain, List.forall_mem_singleton.mpr hplain⟩
  stated := List.forall_mem_append.mpr
    ⟨h.stated, List.forall_mem_singleton.mpr (Option.isSome_of_eq_some hstated)⟩
  lacks hn hfree hkind := by
    obtain ⟨head, hmem, hhead⟩ := h.lacks hn hfree hkind
    exact ⟨head, List.mem_append_left _ hmem, hhead⟩

/-- The registry ahead may get classes that still wait for the one behind. -/
theorem Trailing.advance (h : Trailing w t waiting) (more : List ClassHeader)
    (hreal : Realizes t (more.map .ofClass) t') (ht' : Settled t') (htarget : t'.target = t.target)
    (hmore : more ⊆ waiting) : Trailing w t' waiting where
  left := h.left
  right := ht'
  target := htarget.trans h.target
  below n kind hn := hreal.kept n kind (h.below n kind hn)
  plain := h.plain
  stated := h.stated
  lacks {n kind} hplain hfree hn := by
    cases hold : t.kindOf? n with
    | some kind' =>
      obtain rfl := Option.some.inj ((hreal.kept n kind' hold).symm.trans hn)
      exact h.lacks hplain hfree hold
    | none =>
      obtain ⟨header, hmem, hname, hkind⟩ := hreal.made hplain hold hn
      obtain ⟨head, hhead, rfl⟩ := List.mem_map.mp hmem
      obtain ⟨superclass, hsuper⟩ := Option.isSome_iff_exists.mp (h.stated head (hmore hhead))
      refine ⟨head, hmore hhead, hname, superclass, hsuper, ?_⟩
      rw [TypeHeader.nominalKind, hsuper, Option.some.injEq] at hkind
      exact hkind.symm

/-- A header makes the same type in both registries, unless it presumes the one that is lacking. -/
theorem Trailing.kindOf?_eq (h : Trailing w t waiting) (ht : NominalStep header t t')
    (hplain : header.Plain) (hfree : w.lookup? header.name = none)
    (hpresumed : header.presumed = some header.name → t.lookup? header.name = none) :
    t'.kindOf? header.name = header.nominalKind := by
  cases hahead : t.kindOf? header.name with
  | none => rw [ht.kinds, hahead, Option.none_or, if_pos rfl]
  | some kind =>
    -- A type that is lacking is a class.
    obtain ⟨-, -, -, superclass, -, rfl⟩ := h.lacks hplain.1 hfree hahead
    have hkept := ht.realizes.kept _ _ hahead
    obtain ⟨kind, hkind, hsuits⟩ := ht.meets
    obtain rfl := Option.some.inj (hkept.symm.trans hkind)
    have hnot : header.presumed ≠ some header.name := by
      intro hself
      rw [← kindOf?_eq_none_iff, hahead] at hpresumed
      cases hpresumed hself
    rw [hkept, TypeHeader.nominalKind_of_suits_object hsuits hnot]

/-- The two registries do not drift apart when a header is declared in both. -/
theorem Trailing.step (h : Trailing w t waiting) (hw' : Settled w') (ht' : Settled t')
    (htarget : t'.target = w'.target) (hw : NominalStep header w w') (ht : NominalStep header t t')
    (hplain : header.Plain) (hpresumed : header.presumed = some header.name →
      (t.lookup? header.name).isSome = true → (w.lookup? header.name).isSome = true) :
    Trailing w' t' waiting where
  left := hw'
  right := ht'
  target := htarget
  plain := h.plain
  stated := h.stated
  below n kind hn := by
    cases hold : w.kindOf? n with
    | some old =>
      rw [hw.kinds, hold, Option.some_or] at hn
      rw [← hn]
      exact ht.realizes.kept n old (h.below n old hold)
    | none =>
      rw [hw.kinds, hold, Option.none_or] at hn
      split at hn
      · rename_i heq
        subst heq
        have hfree := kindOf?_eq_none_iff.mp hold
        rw [h.kindOf?_eq ht hplain hfree fun hself => ?_, hn]
        rw [← Option.not_isSome_iff_eq_none]
        intro hahead
        have hthere := hpresumed hself hahead
        rw [hfree] at hthere
        cases hthere
      · cases hn
  lacks {n kind} hn hfree hkind := by
    have hne : n ≠ header.name := by
      rintro rfl
      have hname := hw.isSome_lookup?
      rw [hfree] at hname
      cases hname
    have hnone := kindOf?_eq_none_iff.mpr hfree
    rw [hw.kinds, Option.or_eq_none_iff] at hnone
    rw [ht.kinds, if_neg hne, Option.or_none] at hkind
    exact h.lacks hn (kindOf?_eq_none_iff.mp hnone.1) hkind

/-- A class does not wait once it is there. -/
theorem Trailing.drop {head : ClassHeader} {before after : List ClassHeader}
    (h : Trailing w t (before ++ head :: after))
    (hname : (w.lookup? head.name.value).isSome = true) : Trailing w t (before ++ after) := by
  have hsub : before ++ after ⊆ before ++ head :: after :=
    ((List.sublist_cons_self head after).append_left before).subset
  refine ⟨h.left, h.right, h.target, h.below, fun _ hh => h.plain _ (hsub hh),
    fun _ hh => h.stated _ (hsub hh), fun {n kind} hplain hfree hn => ?_⟩
  obtain ⟨other, hother, rfl, hobject⟩ := h.lacks hplain hfree hn
  refine ⟨other, ?_, rfl, hobject⟩
  obtain hother | hother := List.mem_append.mp hother
  · exact List.mem_append_left _ hother
  · obtain rfl | hother := List.mem_cons.mp hother
    · rw [hfree] at hname
      cases hname
    · exact List.mem_append_right _ hother

/-- One of the classes that wait is ready, if any do. -/
theorem Trailing.exists_ready (h : Trailing w t waiting)
    (hmeets : ∀ head ∈ waiting, t.Meets (.ofClass head)) (hne : waiting ≠ []) :
    ∃ head ∈ waiting, head.isReady w = true := by
  refine Decidable.byContradiction fun hnone => ?_
  have hsuper {head : ClassHeader} (hhead : head ∈ waiting) :
      ∃ superclass, head.superclass = some superclass ∧ IsPlain superclass.value ∧
        w.lookup? superclass.value = none := by
    obtain ⟨superclass, hsuper⟩ := Option.isSome_iff_exists.mp (h.stated head hhead)
    refine ⟨superclass, hsuper, (h.plain head hhead).2 _ ?_, ?_⟩
    · rw [TypeHeader.superclass?, hsuper]
      rfl
    · rw [← Option.not_isSome_iff_eq_none]
      intro hsome
      refine hnone ⟨head, hhead, ?_⟩
      rw [ClassHeader.isReady, hsuper]
      exact hsome
  -- On the place of a type that is lacking: its superclass is lacking as well and comes earlier.
  have hlacks : ∀ i n id, IsPlain n → t.lookup? n = some id → id.index = i →
      w.lookup? n ≠ none := by
    intro i
    induction i using Nat.strongRecOn with
    | ind i ih =>
      rintro n id hplain hid rfl hfree
      obtain ⟨e, he, -⟩ := get?_of_lookup? hid
      obtain ⟨head, hhead, -, superclass, hstated, hkind⟩ :=
        h.lacks hplain hfree (kindOf?_of_lookup? hid he)
      obtain ⟨superclass', hstated', hplain', hfree'⟩ := hsuper hhead
      obtain rfl := Option.some.inj (hstated.symm.trans hstated')
      obtain ⟨sup, -, hsup, -, -, hlt⟩ := h.right.superclass he (by rw [hkind]; rfl)
      exact ih sup.index hlt superclass.value sup hplain' hsup rfl hfree'
  obtain ⟨head, hhead⟩ := List.exists_mem_of_ne_nil waiting hne
  obtain ⟨superclass, hstated, hplain, hfree⟩ := hsuper hhead
  obtain ⟨kind, hkind, -, hagrees⟩ := hmeets head hhead
  obtain ⟨id, e, -, he, rfl⟩ := kindOf?_eq_some hkind
  obtain ⟨sup, -, hsup, -⟩ := h.right.superclass he (hagrees superclass hstated)
  exact hlacks sup.index superclass.value sup hplain hsup rfl hfree

end Registry

namespace Collect

open Registry

variable {c c' : Collection} {t t' : Registry} {h : TypeHeader}

/-- One more type, seen by names. -/
theorem nominalStep_of_eq_ok (hplain : h.Plain) (hc : Settled c.registry)
    (hrun : outcome (declareHeader h) c = (.ok (), c')) :
    NominalStep h c.registry c'.registry ∧ Settled c'.registry ∧
      c.registry.Retains c'.registry := by
  obtain ⟨hc', hretains⟩ :=
    settled_of_keeps (steadfastOn_settled.keeps_declareHeader h hplain.1) hc hrun
  exact ⟨nominalStep_of_headerStep hc hc' (headerStep_of_eq_ok hrun), hc', hretains⟩

/-- A header that the registry ahead accepts is accepted by the one behind, and they do not drift
    apart, unless the header presumes a type that is lacking. -/
theorem declareHeader_trailing {waiting : List ClassHeader}
    (htrailing : Trailing c.registry t waiting) (ht' : Settled t') (htarget : t'.target = t.target)
    (hstep : NominalStep h t t') (hplain : h.Plain)
    (hready : ∀ n ∈ h.superclass?, (c.registry.lookup? n).isSome = true)
    (hpresumed : ∀ n ∈ h.presumed, (t.lookup? n).isSome = true →
      (c.registry.lookup? n).isSome = true) :
    ∃ c', outcome (declareHeader h) c = (.ok (), c') ∧ Trailing c'.registry t' waiting ∧
      (c'.registry.lookup? h.name).isSome = true := by
  obtain ⟨kind, hkind, hsuits⟩ := hstep.meets
  have htarget : t'.target = c.registry.target := htarget.trans htrailing.target
  have hbelow : Below c.registry t' := fun n k hn =>
    hstep.realizes.kept n k (htrailing.below n k hn)
  have hfree (hclosed : h.isOpen = false) : c.registry.lookup? h.name = none := by
    rw [← Option.not_isSome_iff_eq_none]
    intro hsome
    have hahead := htrailing.below.lookup? hsome
    rw [hstep.unopened hclosed] at hahead
    cases hahead
  obtain ⟨c', hrun⟩ :=
    declareHeader_succeeds ht' hbelow htrailing.left htarget hkind hsuits hready hfree
  obtain ⟨hstep', hc', hretains⟩ := nominalStep_of_eq_ok hplain htrailing.left hrun
  exact ⟨c', hrun, htrailing.step hc' ht' (htarget.trans hretains.target.symm) hstep' hstep hplain
    (hpresumed h.name), hstep'.isSome_lookup?⟩

/-! ## Rounds -/

/-- A class that is ready is declared, and waits no more. -/
theorem declareClass_trailing {head : ClassHeader} {before after : List ClassHeader}
    (htrailing : Trailing c.registry t (before ++ head :: after))
    (hready : head.isReady c.registry = true)
    (hmeets : t.Meets (.ofClass head)) :
    ∃ c', outcome (declareClass head) c = (.ok (), c') ∧
      Trailing c'.registry t (before ++ after) := by
  have hmem : head ∈ before ++ head :: after := List.mem_append_right _ List.mem_cons_self
  obtain ⟨superclass, hstated⟩ := Option.isSome_iff_exists.mp (htrailing.stated head hmem)
  have hsuper : ∀ n ∈ (TypeHeader.ofClass head).superclass?,
      (c.registry.lookup? n).isSome = true := by
    intro n hn
    rw [TypeHeader.superclass?, hstated] at hn
    rw [ClassHeader.isReady, hstated] at hready
    obtain rfl := Option.some.inj hn
    exact hready
  -- The registry ahead has the class already, so for that one the header re-opens it.
  have hstep : NominalStep (.ofClass head) t t :=
    .reopens hmeets (fun n hn => htrailing.below.lookup? (hsuper n hn)) rfl
  have hpresumed : (TypeHeader.ofClass head).presumed = none := by
    obtain ⟨name, stated⟩ := head
    obtain rfl : stated = some superclass := hstated
    rfl
  obtain ⟨c', hrun, hc', hname⟩ := declareHeader_trailing htrailing htrailing.right rfl hstep
    (htrailing.plain head hmem) hsuper (by rw [hpresumed]; exact fun n hn => by cases hn)
  exact ⟨c', hrun, hc'.drop hname⟩

/-- A round goes over all classes that wait, and if one is ready it leaves fewer. -/
theorem declareReady_succeeds {before cs : List ClassHeader}
    (htrailing : Trailing c.registry t (before ++ cs))
    (hmeets : ∀ head ∈ cs, t.Meets (.ofClass head)) :
    ∃ waiting c', outcome (declareReady cs) c = (.ok waiting, c') ∧
      Trailing c'.registry t (before ++ waiting) ∧ waiting.Sublist cs ∧
      ((∃ head ∈ cs, head.isReady c.registry = true) → waiting.length < cs.length) := by
  induction cs generalizing c before with
  | nil => exact ⟨[], c, rfl, htrailing, .refl _, fun ⟨_, hhead, _⟩ => by cases hhead⟩
  | cons head cs ih =>
    obtain ⟨hhead, hcs⟩ := List.forall_mem_cons.mp hmeets
    cases hready : head.isReady c.registry with
    | true =>
      obtain ⟨mid, hrun, hmid⟩ := declareClass_trailing htrailing hready hhead
      obtain ⟨waiting, c', hrest, hc', hsub, -⟩ := ih hmid hcs
      refine ⟨waiting, c', ?_, hc', hsub.cons head, fun _ => ?_⟩
      · rw [declareReady, outcome_bind, outcome_registry]
        dsimp only
        rw [if_pos hready]
        exact outcome_bind_eq_ok.mpr ⟨(), mid, hrun, hrest⟩
      · have hle := hsub.length_le
        rw [List.length_cons]
        omega
    | false =>
      rw [← List.singleton_append, ← List.append_assoc] at htrailing
      obtain ⟨waiting, c', hrest, hc', hsub, hless⟩ := ih htrailing hcs
      rw [List.append_assoc, List.singleton_append] at hc'
      refine ⟨head :: waiting, c', ?_, hc', hsub.cons_cons head, ?_⟩
      · rw [declareReady, outcome_bind, outcome_registry]
        dsimp only
        rw [if_neg (by rw [hready]; decide)]
        exact outcome_bind_eq_ok.mpr ⟨waiting, c', hrest, rfl⟩
      · rintro ⟨other, hother, hotherReady⟩
        rw [List.length_cons, List.length_cons]
        obtain rfl | hother := List.mem_cons.mp hother
        · rw [hready] at hotherReady
          cases hotherReady
        · have hlt := hless ⟨other, hother, hotherReady⟩
          omega

/-- Classes that wait are all declared in the end. -/
theorem declareWaiting_succeeds {cs : List ClassHeader} (htrailing : Trailing c.registry t cs)
    (hmeets : ∀ head ∈ cs, t.Meets (.ofClass head)) :
    ∃ c', outcome (declareWaiting cs) c = (.ok (), c') := by
  fun_induction declareWaiting cs generalizing c with
  | case1 => exact ⟨c, rfl⟩
  | case2 head cs ih =>
    have hready := htrailing.exists_ready hmeets (List.cons_ne_nil head cs)
    have hround : Trailing c.registry t ([] ++ head :: cs) := htrailing
    obtain ⟨waiting, mid, hrun, hmid, hsub, hless⟩ := declareReady_succeeds hround hmeets
    obtain ⟨c', hc'⟩ := ih waiting (hless hready) hmid fun h hh => hmeets h (hsub.subset hh)
    refine ⟨c', outcome_bind_eq_ok.mpr ⟨waiting, mid, hrun, ?_⟩⟩
    rw [dif_pos (hless hready)]
    exact hc'

end Collect

end DeclLang
