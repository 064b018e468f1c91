import DeclLang.Proofs.Collection.Hierarchy

/-!
# Primitives: what a primitive can inherit from

A primitive does not wait. When the first pass comes to it, its superclass has to be there: a type
of the registry, or a type that was declared further up. All primitives above it were declared, but
of the classes above it only those that did not have to wait (`AtHand`). So a primitive may be
refused below the class that it inherits from, and that is all that can keep a program from being
declared when its classes are grounded and its primitives have the sizes of their representations
(`declareTypes_iff_supplied`).
-/

namespace DeclLang

/-! ## What is at hand -/

namespace Program

/-- What there is to inherit from below some headers, when the first pass has gone over them: the
    types of the registry, the primitives, and the classes that did not have to wait. A class does
    not wait if it states no superclass, or one that is at hand where the class stands. -/
inductive AtHand (r : Registry) : List TypeHeader → String → Prop where
  | known {above : List TypeHeader} {n : String} : r.Inheritable n → AtHand r above n
  | root {above : List TypeHeader} {c : ClassHeader} :
      .ofClass c ∈ above → c.superclass = none → AtHand r above c.name.value
  | step {before after : List TypeHeader} {c : ClassHeader} {superclass : Ident} :
      c.superclass = some superclass → AtHand r before superclass.value →
      AtHand r (before ++ .ofClass c :: after) c.name.value
  | primitive {above : List TypeHeader} {name superclass repr : Ident} {size : Located Nat} :
      .ofPrimitive name superclass repr size ∈ above → AtHand r above name.value

/-- What each primitive inherits from is at hand where the primitive stands. -/
def Supplied (p : Program) (r : Registry) : Prop :=
  ∀ above name superclass repr size below,
    p.headers = above ++ .ofPrimitive name superclass repr size :: below →
    AtHand r above superclass.value

/-- Every primitive has a representation that is known, and the size of that. -/
def Sized (p : Program) (target : Target) : Prop :=
  ∀ name superclass repr size, .ofPrimitive name superclass repr size ∈ p.headers →
    ∃ tag, Representation.ofSpelling? repr.value = some tag ∧
      size.value = tag.storageSize target

/-- What is at hand stays so further down. -/
theorem AtHand.concat {r : Registry} {above : List TypeHeader} {n : String}
    (h : AtHand r above n) (head : TypeHeader) : AtHand r (above ++ [head]) n := by
  cases h with
  | known hn => exact .known hn
  | root hc hnone => exact .root (List.mem_append_left _ hc) hnone
  | step hstates hsuper =>
    rw [List.append_assoc, List.cons_append]
    exact .step hstates hsuper
  | primitive hmem => exact .primitive (List.mem_append_left _ hmem)

/-- What stands above a header is what comes before its place. -/
theorem place_of_headers {p : Program} {above below : List TypeHeader} {head : TypeHeader}
    (h : p.headers = above ++ head :: below) :
    above = p.headers.take above.length ∧ p.headers[above.length]? = some head := by
  rw [h, List.take_left, List.getElem?_append_right (Nat.le_refl _), Nat.sub_self]
  exact ⟨rfl, rfl⟩

end Program

namespace Registry

variable {r s : Registry} {n : String}

theorem Inheritable.mono (h : r.Inheritable n) (hrs : r.Retains s) : s.Inheritable n := by
  have ⟨id, e, hid, he, hclass⟩ := h
  have ⟨f, hf, _, hkind⟩ := hrs.get? he
  exact ⟨id, f, hrs.lookup? hid, hf, by rw [hkind, hclass]⟩

/-- The superclass of a type that was added takes part in inheritance, and did so before. -/
theorem inheritable_of_superclass? (hs : WellFormed s) (hrs : r.Retains s) {id sup : TypeId}
    {e : Entry} (he : s.get? id = some e) (hsup : e.kind.superclass? = some sup)
    (hn : r.lookup? n = some sup) : r.Inheritable n := by
  have ⟨f, hf, hclass, _⟩ := hs.superclass he hsup
  have ⟨g, hg, _⟩ := get?_of_lookup? hn
  have ⟨f', hf', _, hkind⟩ := hrs.get? hg
  rw [hf, Option.some.injEq] at hf'
  exact ⟨sup, g, hn, hg, by rw [← hkind, ← hf', hclass]⟩

end Registry

open Registry Program

variable {r : Registry} {p : Program} {above below : List TypeHeader} {head : TypeHeader}
  {waiting : List ClassHeader} {c c' : Collection} {n : String}

/-! ## One header -/

/-- What a header states to inherit from is there when the header is not refused. -/
theorem HeaderStep.inheritable (hstep : HeaderStep head c c') (hr : WellFormed c'.registry)
    (hn : n ∈ head.superclass?) : c.registry.Inheritable n := by
  cases hstep with
  | reopened hopen hid he hfits =>
    cases head with
    | ofClass cls =>
      have ⟨superclass, hstates, hname⟩ := Option.map_eq_some_iff.mp hn
      have ⟨sup, hlookup, hsup⟩ := hfits.2 superclass hstates
      rw [← hname]
      exact inheritable_of_superclass? hr (.refl _) he hsup hlookup
    | ofPrimitive => cases hopen
    | ofModule | ofLib => cases hn
  | @declared kind hfree hkind =>
    have hnew := get?_push_self c.registry (.bare head.name kind)
    have hretains : c.registry.Retains (c.registry.push (.bare head.name kind)).2 :=
      retains_push hfree
    cases head with
    | ofClass cls =>
      obtain ⟨name, superclass⟩ := cls
      cases superclass with
      | none => cases hn
      | some superclass =>
        have ⟨sup, hsup, hobject⟩ := Option.map_eq_some_iff.mp hkind
        have hname : superclass.value = n := Option.some.inj hn
        rw [← hname]
        exact inheritable_of_superclass? hr hretains hnew (by rw [← hobject]; rfl) hsup
    | ofPrimitive name superclass repr size =>
      have ⟨sup, hsup, hrepr⟩ := Option.bind_eq_some_iff.mp hkind
      have ⟨tag, _, hprimitive⟩ := Option.map_eq_some_iff.mp hrepr
      have hname : superclass.value = n := Option.some.inj hn
      rw [← hname]
      exact inheritable_of_superclass? hr hretains hnew (by rw [← hprimitive]; rfl) hsup
    | ofModule | ofLib => cases hn

/-- A header that is not refused adds nothing to inherit from but what is at hand below it. -/
theorem HeaderStep.atHand (hstep : HeaderStep head c c') (hr : WellFormed c.registry)
    (hr' : WellFormed c'.registry) (hn : c'.registry.Inheritable n)
    (habove : ∀ {m}, c.registry.Inheritable m → AtHand r above m) :
    AtHand r (above ++ [head]) n := by
  have hsuper {m : String} (hm : m ∈ head.superclass?) : AtHand r above m :=
    habove (hstep.inheritable hr' hm)
  cases hstep with
  | reopened => exact (habove hn).concat head
  | @declared kind hfree hkind =>
    have ⟨id, e, hid, he, hclass⟩ := hn
    have hname := name_of_lookup? hid he
    cases hold : c.registry.get? id with
    | some f =>
      -- The type was there before, under the same name.
      have hsame := owner?_push_of_some (o := .type id) hold (.bare head.name kind)
      rw [owner?_type, he, Option.some.injEq] at hsame
      rw [hsame] at hname hclass
      have hlookup := hr.lookup?_eq_some_iff.mpr ⟨f, hold, hname⟩
      exact (habove ⟨id, f, hlookup, hold, hclass⟩).concat head
    | none =>
      have ⟨_, hnew⟩ := get?_push_new he hold
      have hlast : head ∈ above ++ [head] := List.mem_append_right _ (List.mem_singleton_self head)
      rw [hnew] at hname hclass
      rw [← hname]
      cases head with
      | ofClass cls =>
        cases hstates : cls.superclass with
        | none => exact .root hlast hstates
        | some superclass =>
          exact .step hstates (hsuper (Option.map_eq_some_iff.mpr ⟨superclass, hstates, rfl⟩))
      | ofPrimitive name superclass repr size => exact .primitive hlast
      | ofModule name =>
        rw [← Option.some.inj hkind] at hclass
        cases hclass
      | ofLib name libname =>
        rw [← Option.some.inj hkind] at hclass
        cases hclass

namespace Collect

/-! ## The first pass -/

theorem Placed.exists_declared (hr : Regular c.registry) (h : Placed above c waiting c') :
    ∃ done count, Declared c.registry done c'.registry count := by
  have ⟨done, hrun, _⟩ := h.run
  have ⟨count, hdeclared, _⟩ := declared_headers hr hrun
  exact ⟨done, count, hdeclared⟩

/-- A type that does not wait can be inherited from after its turn, if it is of such a kind. -/
theorem Placed.inheritable (hr : Regular r)
    (h : Placed (above ++ head :: below) ⟨r, 0⟩ waiting c)
    (hready : ∀ {first mid}, Placed above ⟨r, 0⟩ first mid → head.isReady mid.registry = true)
    (hlike : ∀ {s : Registry} {kind}, head.Fits s kind → kind.isClassLike = true) :
    c.registry.Inheritable head.name := by
  have ⟨first, mid, last, hfirst, hrest, _⟩ := placed_append.mp h
  have ⟨mid', hrun, hlast⟩ := (placed_of_ready (hready hfirst)).mp hrest
  have ⟨_, _, hmid⟩ := hfirst.exists_declared hr
  have hsingle : outcome ([head].forM declareHeader) mid = (.ok (), mid') :=
    outcome_forM_cons.mpr ⟨mid', hrun, outcome_forM_nil.mpr rfl⟩
  have ⟨_, hone, _⟩ := declared_headers hmid.regular hsingle
  have ⟨_, _, hafter⟩ := hlast.exists_declared hone.regular
  have ⟨id, e, hid, he, hfits⟩ := hone.fits head (List.mem_singleton_self head)
  have hthere : mid'.registry.Inheritable head.name := ⟨id, e, hid, he, hlike hfits⟩
  exact hthere.mono hafter.retains

/-- What is at hand is there. -/
theorem Placed.inheritable_of_atHand (hr : Regular r) (h : Placed above ⟨r, 0⟩ waiting c)
    (hn : AtHand r above n) : c.registry.Inheritable n := by
  -- A class on the way did not wait, since what it states was there before its turn.
  induction hn generalizing waiting c with
  | known hknown =>
    obtain ⟨_, _, hdeclared⟩ := h.exists_declared hr
    exact hknown.mono hdeclared.retains
  | @root above head hmem hnone =>
    obtain ⟨before, after, hsplit⟩ := List.append_of_mem hmem
    rw [hsplit] at h
    refine h.inheritable hr (fun {_ mid} _ => ?_) fun hfits => hfits.1
    show head.isReady mid.registry = true
    rw [ClassHeader.isReady, hnone]
  | @step before after head superclass hstates _ ih =>
    refine h.inheritable hr (fun {_ mid} hfirst => ?_) fun hfits => hfits.1
    obtain ⟨id, _, hid, _⟩ := ih hfirst
    show head.isReady mid.registry = true
    rw [ClassHeader.isReady, hstates]
    exact Option.isSome_of_eq_some hid
  | @primitive above name superclass repr size hmem =>
    obtain ⟨before, after, hsplit⟩ := List.append_of_mem hmem
    rw [hsplit] at h
    refine h.inheritable hr (fun _ => rfl) fun hfits => ?_
    obtain ⟨sup, _, hrepr⟩ := Option.bind_eq_some_iff.mp hfits
    obtain ⟨tag, _, hkind⟩ := Option.map_eq_some_iff.mp hrepr
    rw [← hkind]
    rfl

/-- Nothing else is there to inherit from. -/
theorem Placed.atHand (hr : Regular r) (h : Placed above ⟨r, 0⟩ waiting c)
    (hn : c.registry.Inheritable n) : AtHand r above n := by
  -- On the headers that the pass has gone over, from the last of them.
  induction above using List.reverseRecOn generalizing waiting c n with
  | nil =>
    have ⟨_, hc⟩ := placed_nil.mp h
    rw [hc] at hn
    exact .known hn
  | append_singleton above head ih =>
    have ⟨first, mid, last, hfirst, hhead, _⟩ := placed_append.mp h
    have ⟨_, _, hmid⟩ := hfirst.exists_declared hr
    have ⟨_, _, hc⟩ := hhead.exists_declared hmid.regular
    cases hhead with
    | declared _ hrun hnil =>
      cases hnil
      exact (headerStep_of_eq_ok hrun).atHand hmid.regular.toWellFormed hc.regular.toWellFormed hn
        (ih hfirst)
    | waits _ hnil =>
      cases hnil
      exact (ih hfirst hn).concat _

/-! ## The declaration pass -/

/-- In a program that was declared, what each primitive inherits from was there. -/
theorem supplied_of_declareTypes (hr : Regular r)
    (h : outcome (declareTypes p) ⟨r, 0⟩ = (.ok (), c)) : p.Supplied r := by
  intro above name superclass repr size below hheaders
  have ⟨waiting, mid, horder, _⟩ := outcome_bind_eq_ok.mp h
  have hplaced := declareInOrder_eq_ok.mp horder
  rw [hheaders] at hplaced
  have ⟨first, before, last, hfirst, hrest, _⟩ := placed_append.mp hplaced
  have ⟨after, hrun, _⟩ := (placed_of_ready rfl).mp hrest
  have ⟨_, _, hbefore⟩ := hfirst.exists_declared hr
  have hsingle : Placed [.ofPrimitive name superclass repr size] before [] after :=
    .declared rfl hrun .nil
  have ⟨_, _, hafter⟩ := hsingle.exists_declared hbefore.regular
  exact hfirst.atHand hr ((headerStep_of_eq_ok hrun).inheritable hafter.regular.toWellFormed rfl)

/-- A primitive of the size of its representation is accepted if it is supplied. -/
theorem acceptsPrimitives_of_supplied (hr : Regular r) (hp : p.NewNames r)
    (hsized : p.Sized r.target) (hsupplied : p.Supplied r) : AcceptsPrimitives r p := by
  intro above name superclass repr size below waiting c hheaders hplaced
  have hmem : .ofPrimitive name superclass repr size ∈ p.headers := by
    rw [hheaders]
    exact List.mem_append_right _ List.mem_cons_self
  have ⟨tag, htag, hsize⟩ := hsized name superclass repr size hmem
  have ⟨done, hunderway⟩ := hplaced.underway hheaders
  have hfree := hunderway.free hr hp (List.mem_append_right _ List.mem_cons_self)
  have hathand := hsupplied above name superclass repr size below hheaders
  have ⟨sup, e, hsup, he, hclass⟩ := hplaced.inheritable_of_atHand hr hathand
  have ⟨_, _, hdeclared⟩ := hplaced.exists_declared hr
  rw [← hdeclared.retains.target] at hsize
  exact declarePrimitive_of_free hfree hsup (requireClass_eq_ok.mpr ⟨e, he, hclass⟩) htag hsize

end Collect

namespace Registry

/-- The types of a program with names of their own, whose classes are grounded and whose primitives
    have the sizes of their representations, are declared if and only if each primitive inherits
    from a type of the registry, from a primitive above it, or from a class above it that did not
    have to wait. -/
theorem declareTypes_iff_supplied (hreach : Reachable r) (hp : p.NewNames r)
    (hg : ∀ c ∈ p.classes, p.Grounded r c.name.value) (hsized : p.Sized r.target) :
    (∃ c, Collect.outcome (Collect.declareTypes p) ⟨r, 0⟩ = (.ok (), c)) ↔ p.Supplied r := by
  have hr := hreach.regular
  constructor
  · intro ⟨c, hrun⟩
    exact Collect.supplied_of_declareTypes hr hrun
  · intro hsupplied
    exact Collect.exists_declareTypes_of_accepts hr hp hg
      (Collect.acceptsPrimitives_of_supplied hr hp hsized hsupplied)

/-- A class that waits for the last one, and a primitive that inherits from it. -/
def primitiveOfWaiting : Program :=
  let name (text : String) : Ident := ⟨text, .point 0⟩
  let at0 {α : Type} (a : α) : Located α := ⟨a, .point 0⟩
  [at0 (.classBlock (name "Measure") (some (name "Unit")) []),
    at0 (.primitive (name "Meter") (name "Measure") (name "i32") (at0 4)),
    at0 (.classBlock (name "Unit") none [])]

/-- The primitive is refused, although it inherits from a class that stands above it, all classes
    are grounded and its size is right. -/
theorem declareTypes_primitiveOfWaiting :
    let r := initial .host64
    let p := primitiveOfWaiting
    Reachable r ∧ p.NewNames r ∧ (∀ c ∈ p.classes, p.Grounded r c.name.value) ∧
      p.Sized r.target ∧
      (∀ above name superclass repr size below,
        p.headers = above ++ .ofPrimitive name superclass repr size :: below →
        ∃ c, .ofClass c ∈ above ∧ c.name.value = superclass.value) ∧
      (Collect.outcome (Collect.declareTypes p) ⟨r, 0⟩).1 =
        .error ⟨.unknownType "Measure", .point 0⟩ := by
  intro r p
  have hreach : Reachable r := .initial (ofTarget_eq_ok_iff.mpr ⟨by decide, rfl⟩)
  have hunit : p.Grounded r "Unit" := .root (c := ⟨⟨"Unit", .point 0⟩, none⟩) (by decide) rfl
  have hmeasure : p.Grounded r "Measure" :=
    .step (c := ⟨⟨"Measure", .point 0⟩, some ⟨"Unit", .point 0⟩⟩) (by decide) rfl hunit
  refine ⟨hreach, ⟨by decide, by decide +kernel⟩, fun c hc => ?_,
    fun name superclass repr size hmem => ?_, fun above name superclass repr size below h => ?_,
    by decide +kernel⟩
  · have hall : p.classes.map (·.name.value) = ["Measure", "Unit"] := by decide
    have hgrounded : ∀ n ∈ ["Measure", "Unit"], p.Grounded r n := by
      simp only [List.forall_mem_cons]
      exact ⟨hmeasure, hunit, List.forall_mem_nil _⟩
    exact hgrounded _ (hall ▸ List.mem_map_of_mem hc)
  · simp [p, primitiveOfWaiting, Program.headers, Declaration.header?] at hmem
    obtain ⟨_, _, hrepr, hsize⟩ := hmem
    exact ⟨.i32, by rw [hrepr]; rfl, by rw [hsize]; rfl⟩
  · obtain ⟨habove, hplace⟩ := Program.place_of_headers h
    rw [habove]
    generalize above.length = i at hplace
    -- The primitive is the second header.
    rcases i with _ | _ | _ | i
    · cases hplace
    · cases hplace
      exact ⟨⟨⟨"Measure", .point 0⟩, some ⟨"Unit", .point 0⟩⟩, by decide, rfl⟩
    · cases hplace
    · cases hplace

/-- Classes and primitives that inherit from each other, and a class that waits for the last one. -/
def units : Program :=
  let name (text : String) : Ident := ⟨text, .point 0⟩
  let at0 {α : Type} (a : α) : Located α := ⟨a, .point 0⟩
  [at0 (.classBlock (name "Scale") none []),
    at0 (.classBlock (name "Degree") (some (name "Scale")) []),
    at0 (.classBlock (name "Grid") (some (name "Plane")) []),
    at0 (.primitive (name "Celsius") (name "Degree") (name "f32") (at0 4)),
    at0 (.primitive (name "Kelvin") (name "Celsius") (name "f32") (at0 4)),
    at0 (.classBlock (name "Plane") none [])]

/-- They are declared, since no primitive inherits from the class that waits. -/
theorem declareTypes_iff_supplied_units :
    let r := initial .host64
    Reachable r ∧ units.NewNames r ∧ (∀ c ∈ units.classes, units.Grounded r c.name.value) ∧
      units.Sized r.target ∧
      ∃ c, Collect.outcome (Collect.declareTypes units) ⟨r, 0⟩ = (.ok (), c) := by
  intro r
  have hreach : Reachable r := .initial (ofTarget_eq_ok_iff.mpr ⟨by decide, rfl⟩)
  have hnames : units.NewNames r := ⟨by decide, by decide +kernel⟩
  have hgrounded : ∀ c ∈ units.classes, units.Grounded r c.name.value := by
    have hscale : units.Grounded r "Scale" :=
      .root (c := ⟨⟨"Scale", .point 0⟩, none⟩) (by decide) rfl
    have hplane : units.Grounded r "Plane" :=
      .root (c := ⟨⟨"Plane", .point 0⟩, none⟩) (by decide) rfl
    have hdegree : units.Grounded r "Degree" :=
      .step (c := ⟨⟨"Degree", .point 0⟩, some ⟨"Scale", .point 0⟩⟩) (by decide) rfl hscale
    have hgrid : units.Grounded r "Grid" :=
      .step (c := ⟨⟨"Grid", .point 0⟩, some ⟨"Plane", .point 0⟩⟩) (by decide) rfl hplane
    have hall : units.classes.map (·.name.value) = ["Scale", "Degree", "Grid", "Plane"] := by decide
    have hgrounded : ∀ n ∈ ["Scale", "Degree", "Grid", "Plane"], units.Grounded r n := by
      simp only [List.forall_mem_cons]
      exact ⟨hscale, hdegree, hgrid, hplane, List.forall_mem_nil _⟩
    exact fun c hc => hgrounded _ (hall ▸ List.mem_map_of_mem hc)
  have hsized : units.Sized r.target := by
    intro name superclass repr size hmem
    simp [units, Program.headers, Declaration.header?] at hmem
    rcases hmem with ⟨_, _, hrepr, hsize⟩ | ⟨_, _, hrepr, hsize⟩
    · exact ⟨.f32, by rw [hrepr]; rfl, by rw [hsize]; rfl⟩
    · exact ⟨.f32, by rw [hrepr]; rfl, by rw [hsize]; rfl⟩
  have hsupplied : units.Supplied r := by
    have hscale : Program.AtHand r (units.headers.take 1) "Scale" :=
      .root (c := ⟨⟨"Scale", .point 0⟩, none⟩) (by decide) rfl
    have hdegree : Program.AtHand r (units.headers.take 3) "Degree" :=
      @Program.AtHand.step r (units.headers.take 1) [.ofClass ⟨⟨"Grid", .point 0⟩, _⟩]
        ⟨⟨"Degree", .point 0⟩, _⟩ ⟨"Scale", .point 0⟩ rfl hscale
    have hcelsius : Program.AtHand r (units.headers.take 4) "Celsius" :=
      @Program.AtHand.primitive r _ ⟨"Celsius", .point 0⟩ ⟨"Degree", .point 0⟩ ⟨"f32", .point 0⟩
        ⟨4, .point 0⟩ (by decide)
    intro above name superclass repr size below hheaders
    obtain ⟨habove, hplace⟩ := Program.place_of_headers hheaders
    rw [habove]
    generalize above.length = i at hplace
    -- The primitives are the fourth header and the fifth one.
    rcases i with _ | _ | _ | _ | _ | _ | i
    · cases hplace
    · cases hplace
    · cases hplace
    · cases hplace
      exact hdegree
    · cases hplace
      exact hcelsius
    · cases hplace
    · cases hplace
  exact ⟨hreach, hnames, hgrounded, hsized,
    (declareTypes_iff_supplied hreach hnames hgrounded hsized).mpr hsupplied⟩

end Registry

end DeclLang
