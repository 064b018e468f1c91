import DeclLang.Proofs.Collection.Effect
import DeclLang.Proofs.Collection.Headers
import DeclLang.Proofs.Collection.Lockstep

/-!
# Realized headers: what is declared does not depend on the order

One header adds the type that it declares, if there is none with its name (`NominalStep`). After
any number of them each new type comes from one and suits them all (`Realizes`), and that leaves no
choice: the same headers make the same types in any order in which they are accepted
(`Realizes.kindOf?_eq`).
-/

namespace DeclLang

namespace TypeHeader

/-- Whether the names of a header are plain. -/
def Plain (h : TypeHeader) : Prop :=
  IsPlain h.name ∧ ∀ n ∈ h.superclass?, IsPlain n

/-- Two types that could come from one another's headers are of one kind. -/
theorem nominalKind_unique {h h' : TypeHeader} {kind kind' : NominalKind}
    (hkind : h.nominalKind = some kind) (hkind' : h'.nominalKind = some kind')
    (hsuits : h.Suits kind') (hsuits' : h'.Suits kind) : kind = kind' := by
  -- Only a class suits kinds that it does not declare.
  cases h with
  | ofClass c =>
    cases h' with
    | ofClass c' =>
      obtain rfl := Option.some.inj hkind
      obtain rfl := Option.some.inj hkind'
      cases hs : c.superclass with
      | some superclass =>
        have hsame := hsuits.2 superclass hs
        exact congrArg NominalKind.object hsame.symm
      | none =>
        cases hs' : c'.superclass with
        | some superclass' =>
          have hsame := hsuits'.2 superclass' hs'
          rw [hs] at hsame
          exact congrArg NominalKind.object hsame
        | none => rfl
    | _ => exact Option.some.inj (Eq.trans hsuits'.symm hkind')
  | _ => exact Option.some.inj (hkind.symm.trans hsuits)

/-- The type that a header takes to be there or else gets wrong: a class without a superclass would
    be declared anew if it is not, and a primitive does not wait for its superclass. -/
def presumed : TypeHeader → Option String
  | .ofClass ⟨name, none⟩ => some name.value
  | .ofPrimitive _ superclass _ _ => some superclass.value
  | .ofClass ⟨_, some _⟩ | .ofModule _ | .ofLib .. => none

/-- A header that suits a class and does not presume it declares just that class. -/
theorem nominalKind_of_suits_object {h : TypeHeader} {superclass : String}
    (hsuits : h.Suits (.object (some superclass))) (hname : h.presumed ≠ some h.name) :
    h.nominalKind = some (.object (some superclass)) := by
  cases h with
  | ofClass c =>
    obtain ⟨name, stated⟩ := c
    cases stated with
    | none => exact absurd rfl hname
    | some stated =>
      have hagrees := hsuits.2 stated rfl
      exact congrArg (fun s => some (NominalKind.object s)) hagrees.symm
  | _ => exact hsuits

theorem Plain.presumed {h : TypeHeader} (hplain : h.Plain) : ∀ n ∈ h.presumed, IsPlain n := by
  intro n hn
  cases h with
  | ofClass c =>
    obtain ⟨name, stated⟩ := c
    cases stated with
    | none =>
      obtain rfl := Option.some.inj hn
      exact hplain.1
    | some stated => cases hn
  | ofPrimitive name superclass repr size => exact hplain.2 n hn
  | ofModule name => cases hn
  | ofLib name libname => cases hn

end TypeHeader

theorem Program.Plain.header {p : Program} (hp : p.Plain) {h : TypeHeader} (hh : h ∈ p.headers) :
    h.Plain := by
  obtain ⟨d, hd, hheader⟩ := List.mem_filterMap.mp hh
  have hnames := hp d hd
  cases hdecl : d.value with
  | classBlock name superclass members =>
    rw [hdecl] at hheader hnames
    obtain rfl := Option.some.inj hheader
    refine ⟨hnames _ List.mem_cons_self, fun n hn => hnames n ?_⟩
    obtain ⟨s, rfl, rfl⟩ := Option.map_eq_some_iff.mp hn
    simp [Declaration.typeNames]
  | moduleBlock name members =>
    rw [hdecl] at hheader hnames
    obtain rfl := Option.some.inj hheader
    exact ⟨hnames _ List.mem_cons_self, fun n hn => by cases hn⟩
  | libBlock name libname functions =>
    rw [hdecl] at hheader hnames
    obtain rfl := Option.some.inj hheader
    exact ⟨hnames _ List.mem_cons_self, fun n hn => by cases hn⟩
  | primitive name superclass repr size =>
    rw [hdecl] at hheader hnames
    obtain rfl := Option.some.inj hheader
    refine ⟨hnames _ List.mem_cons_self, fun n hn => hnames n ?_⟩
    obtain rfl := Option.some.inj hn
    simp [Declaration.typeNames]
  | method decl =>
    rw [hdecl] at hheader
    cases hheader
  | inclusion module =>
    rw [hdecl] at hheader
    cases hheader

namespace Registry

variable {r s t : Registry} {hs hs' : List TypeHeader} {h : TypeHeader}

/-! ## One header -/

/-- Whether there is a type of a header's name that suits it. -/
def Meets (r : Registry) (h : TypeHeader) : Prop :=
  ∃ kind, r.kindOf? h.name = some kind ∧ h.Suits kind

/-- What an accepted header does, by names. -/
structure NominalStep (h : TypeHeader) (r s : Registry) : Prop where
  kinds : ∀ n, s.kindOf? n = (r.kindOf? n).or (if n = h.name then h.nominalKind else none)
  meets : s.Meets h
  ready : ∀ n ∈ h.superclass?, (r.lookup? n).isSome = true
  unopened : h.isOpen = false → r.lookup? h.name = none

theorem NominalStep.isSome_lookup? (h' : NominalStep h r s) :
    (s.lookup? h.name).isSome = true := by
  obtain ⟨kind, hkind, -⟩ := h'.meets
  exact isSome_kindOf?_iff.mp (Option.isSome_of_eq_some hkind)

/-- A header that re-opens a type leaves everything as it is. -/
theorem NominalStep.reopens (hmeets : r.Meets h)
    (hready : ∀ n ∈ h.superclass?, (r.lookup? n).isSome = true) (hopen : h.isOpen = true) :
    NominalStep h r r where
  kinds n := by
    split
    · rename_i heq
      obtain ⟨kind, hkind, -⟩ := hmeets
      rw [heq, hkind, Option.some_or]
    · rw [Option.or_none]
  meets := hmeets
  ready := hready
  unopened hclosed := by
    rw [hopen] at hclosed
    cases hclosed

theorem ready_of_fits {kind : TypeKind} (hfits : h.Fits r kind) :
    ∀ n ∈ h.superclass?, (r.lookup? n).isSome = true := by
  intro n hn
  cases h with
  | ofClass c =>
    obtain ⟨superclass, hsuper, rfl⟩ := Option.map_eq_some_iff.mp hn
    obtain ⟨id, hid, -⟩ := hfits.2 superclass hsuper
    exact Option.isSome_of_eq_some hid
  | ofModule name => cases hn
  | ofLib name libname => cases hn
  | ofPrimitive name superclass repr size =>
    obtain rfl := Option.some.inj hn
    obtain ⟨id, hid, -⟩ := Option.bind_eq_some_iff.mp hfits
    exact Option.isSome_of_eq_some hid

theorem kindOf?_push_bare (hr : Settled r) {name : String} {kind : TypeKind}
    (hfree : r.lookup? name = none) (hs : Settled (r.push (.bare name kind)).2)
    (hkind : kind.nominal (r.push (.bare name kind)).2.nameOf = kind.nominal r.nameOf)
    (n : String) :
    (r.push (.bare name kind)).2.kindOf? n =
      (r.kindOf? n).or (if n = name then some (kind.nominal r.nameOf) else none) := by
  cases hold : r.kindOf? n with
  | some old =>
    rw [hr.kindOf?_retained (retains_push hfree) hold, Option.some_or]
  | none =>
    rw [Option.none_or]
    split
    · rename_i heq
      have hget := get?_push_self r (.bare name kind)
      have hid := hs.toWellFormed.lookup?_eq_some_iff.mpr ⟨_, hget, rfl⟩
      rw [heq, ← hkind]
      exact kindOf?_of_lookup? hid hget
    · rename_i hne
      rw [Option.eq_none_iff_forall_ne_some]
      intro k hk
      obtain ⟨id, e, hid, he, -⟩ := kindOf?_eq_some hk
      have hname := name_of_lookup? hid he
      -- What is not new was there under this name.
      cases hget : r.get? id with
      | none =>
        obtain ⟨-, rfl⟩ := get?_push_new he hget
        exact hne hname.symm
      | some e' =>
        have hsame := owner?_push_of_some (o := .type id) hget (.bare name kind)
        obtain rfl := Option.some.inj (hsame.symm.trans he)
        have hid' := hr.toWellFormed.lookup?_eq_some_iff.mpr ⟨e', hget, hname⟩
        rw [kindOf?_of_lookup? hid' hget] at hold
        cases hold

theorem nominalStep_of_headerStep {c c' : Collection} (hc : Settled c.registry)
    (hc' : Settled c'.registry) (hstep : HeaderStep h c c') :
    NominalStep h c.registry c'.registry := by
  cases hstep with
  | reopened hopen hid he hfits =>
    exact .reopens ⟨_, kindOf?_of_lookup? hid he, hc.suits_of_fits hfits⟩ (ready_of_fits hfits)
      hopen
  | @declared kind hfree hkind =>
    have hretains : c.registry.Retains (c.registry.push (.bare h.name kind)).2 :=
      retains_push hfree
    have hafter := hc'.nominal_of_kind? (TypeHeader.kind?_mono hretains hkind)
    have hbefore := hc.nominal_of_kind? hkind
    have hnominal := Option.some.inj (hafter.symm.trans hbefore)
    have hkinds := kindOf?_push_bare hc hfree hc' hnominal
    refine ⟨fun n => ?_, ⟨_, ?_, TypeHeader.suits_nominalKind hbefore⟩,
      ready_of_fits (TypeHeader.fits_of_kind? hkind), fun _ => hfree⟩
    · rw [hbefore]
      exact hkinds n
    · rw [hkinds, kindOf?_eq_none_iff.mpr hfree, if_pos rfl, Option.none_or]

/-! ## Many headers -/

/-- What accepted headers have made of a registry, by names; types whose names are not plain are
    not considered to be new. -/
structure Realizes (r : Registry) (hs : List TypeHeader) (s : Registry) : Prop where
  kept : Below r s
  meets : ∀ h ∈ hs, s.Meets h
  made : ∀ {n kind}, IsPlain n → r.kindOf? n = none → s.kindOf? n = some kind →
    ∃ h ∈ hs, h.name = n ∧ h.nominalKind = some kind

theorem Realizes.trans (h : Realizes r hs s) (h' : Realizes s hs' t) :
    Realizes r (hs ++ hs') t where
  kept n kind hn := h'.kept n kind (h.kept n kind hn)
  meets head hmem := by
    obtain hmem | hmem := List.mem_append.mp hmem
    · obtain ⟨kind, hkind, hsuits⟩ := h.meets head hmem
      exact ⟨kind, h'.kept _ kind hkind, hsuits⟩
    · exact h'.meets head hmem
  made {n kind} hplain hfree hn := by
    cases hmid : s.kindOf? n with
    | some kind' =>
      obtain rfl := Option.some.inj ((h'.kept n kind' hmid).symm.trans hn)
      obtain ⟨head, hmem, hhead⟩ := h.made hplain hfree hmid
      exact ⟨head, List.mem_append_left _ hmem, hhead⟩
    | none =>
      obtain ⟨head, hmem, hhead⟩ := h'.made hplain hmid hn
      exact ⟨head, List.mem_append_right _ hmem, hhead⟩

theorem NominalStep.realizes (h' : NominalStep h r s) : Realizes r [h] s where
  kept n kind hn := by rw [h'.kinds, hn, Option.some_or]
  meets := List.forall_mem_singleton.mpr h'.meets
  made {n kind} _ hfree hn := by
    rw [h'.kinds, hfree, Option.none_or] at hn
    split at hn
    · rename_i heq
      exact ⟨h, List.mem_singleton_self h, heq.symm, hn⟩
    · cases hn

/-- Headers realized in two ways make the same types. -/
theorem Realizes.kindOf?_eq (h : Realizes r hs s) (h' : Realizes r hs t) {n : String}
    (hplain : IsPlain n) : s.kindOf? n = t.kindOf? n := by
  cases hold : r.kindOf? n with
  | some kind => rw [h.kept n kind hold, h'.kept n kind hold]
  | none =>
    -- If one of the two has a type, it comes from a header, which suits a type of the other.
    have hboth {s t : Registry} (h : Realizes r hs s) (h' : Realizes r hs t) {kind : NominalKind}
        (hs : s.kindOf? n = some kind) : t.kindOf? n = some kind := by
      obtain ⟨head, hmem, hname, hkind⟩ := h.made hplain hold hs
      obtain ⟨kind', hn', hsuits'⟩ := h'.meets head hmem
      rw [hname] at hn'
      obtain ⟨head', hmem', hname', hkind'⟩ := h'.made hplain hold hn'
      obtain ⟨kind'', hn, hsuits⟩ := h.meets head' hmem'
      rw [hname', hs, Option.some.injEq] at hn
      rw [hn', TypeHeader.nominalKind_unique hkind hkind' hsuits' (hn ▸ hsuits)]
    cases hs : s.kindOf? n with
    | some kind => rw [hboth h h' hs]
    | none =>
      cases ht : t.kindOf? n with
      | some kind =>
        rw [hboth h' h ht] at hs
        cases hs
      | none => rfl

/-! ## The two passes over a program -/

section

variable {count : Nat}

theorem Declared.exists_header (h : Declared r hs s count) (hr : Settled r) (hs' : Settled s)
    {n : String} {kind : NominalKind} (hfree : r.kindOf? n = none) (hn : s.kindOf? n = some kind) :
    ∃ head ∈ hs, head.name = n ∧ head.nominalKind = some kind ∧
      s.nominal.types n = some ⟨kind, [], []⟩ := by
  obtain ⟨id, e, hid, he, rfl⟩ := kindOf?_eq_some hn
  have hname := name_of_lookup? hid he
  have hnew : r.get? id = none := by
    rw [Option.eq_none_iff_forall_ne_some]
    intro e' he'
    obtain rfl := Option.some.inj (he.symm.trans (h.get? he'))
    have hid' := hr.toWellFormed.lookup?_eq_some_iff.mpr ⟨e, he', hname⟩
    rw [kindOf?_of_lookup? hid' he'] at hfree
    cases hfree
  obtain ⟨hbare, head, hmem, hheadName, hkind⟩ := h.new he hnew
  refine ⟨head, hmem, hheadName.trans hname, hs'.nominal_of_kind? hkind, ?_⟩
  rw [types_of_lookup? hid he, hbare]
  rfl

theorem Declared.realizes (h : Declared r hs s count) (hr : Settled r) (hs' : Settled s) :
    Realizes r hs s where
  kept _ _ hn := hr.kindOf?_retained h.retains hn
  meets head hmem := by
    obtain ⟨id, e, hid, he, hfits⟩ := h.fits head hmem
    exact ⟨_, kindOf?_of_lookup? hid he, hs'.suits_of_fits hfits⟩
  made _ hfree hn := by
    obtain ⟨head, hmem, hname, hkind, -⟩ := h.exists_header hr hs' hfree hn
    exact ⟨head, hmem, hname, hkind⟩

/-- The view of a new type, which has no members yet. -/
def bare? (s : Registry) (n : String) : Option NominalEntry :=
  (s.kindOf? n).map (⟨·, [], []⟩)

/-- The first pass changes nothing that was there and adds types without members. -/
theorem Declared.at_eq (h : Declared r hs s count) (hr : Settled r) (hs' : Settled s)
    (label : Option String) :
    s.nominal.at label = (r.nominal.at label).or (label.bind s.bare?) := by
  cases hold : r.nominal.at label with
  | some x => rw [hr.at_of_owner hs'.toWellFormed h.retains h.owner hold, Option.some_or]
  | none =>
    rw [Option.none_or]
    cases label with
    | none => cases hold
    | some n =>
      have hfree : r.kindOf? n = none := by
        rw [kindOf?, show r.nominal.types n = none from hold, Option.map_none]
      show s.nominal.types n = s.bare? n
      cases hn : s.kindOf? n with
      | none => rw [bare?, hn, Option.map_none, ← Option.map_eq_none_iff.mp hn]
      | some kind =>
        obtain ⟨-, -, -, -, hview⟩ := h.exists_header hr hs' hfree hn
        rw [bare?, hn, hview, Option.map_some]

end

/-- The second pass makes no type with a plain name. -/
theorem Progress.realizes {ms : List PlacedMember} (h : Progress r ms s) (hr : Settled r)
    (hs' : Settled s) : Realizes r [] s where
  kept _ _ hn := hr.kindOf?_retained h.retains hn
  meets := List.forall_mem_nil _
  made {n kind} hplain hfree hn := by
    obtain ⟨id, e, hid, he, -⟩ := kindOf?_eq_some hn
    have hname := name_of_lookup? hid he
    cases hget : r.get? id with
    | some e' =>
      obtain ⟨f, hf, hfname, -⟩ := h.retains.get? hget
      obtain rfl := Option.some.inj (he.symm.trans hf)
      have hid' := hr.toWellFormed.lookup?_eq_some_iff.mpr ⟨e', hget, hfname.symm.trans hname⟩
      rw [kindOf?_of_lookup? hid' hget] at hfree
      cases hfree
    | none =>
      cases h.made he hget with
      | intro _ _ _ _ _ hfresh =>
        have hinstance := congrArg Entry.name hfresh.entry
        rw [hname] at hinstance
        rw [hinstance] at hplain
        exact absurd hplain (hs'.toConsed.instanceName _ ▸ not_isPlain_instanceOf _)

end Registry

end DeclLang
