import DeclLang.Proofs.Collection.Clashes
import DeclLang.Proofs.Collection.Uses

/-!
# Merged programs: two programs as one

When a program is put behind another one, its types are declared before the classes of the first
that wait and before all members of the first. `collect_append` says when that makes a difference:
the types are refused exactly when a header of the second program clashes with a class of the first
that waits, and otherwise the two programs end in the registry that they make one after the other,
but for the ids of types.
-/

namespace DeclLang

namespace Program

theorem headers_append (p₁ p₂ : Program) : headers (p₁ ++ p₂) = p₁.headers ++ p₂.headers :=
  List.filterMap_append

theorem Plain.append {p₁ p₂ : Program} (hp₁ : p₁.Plain) (hp₂ : p₂.Plain) :
    Plain (p₁ ++ p₂) :=
  List.forall_mem_append.mpr ⟨hp₁, hp₂⟩

theorem Plain.headers {p : Program} (hp : p.Plain) : ∀ h ∈ p.headers, h.Plain :=
  fun _ hh => hp.header hh

end Program

namespace Registry

open Collect

variable {r : Registry} {p p₁ p₂ : Program} {c c₁ c₂ t : Collection}

/-! ## The two passes of each program -/

/-- An accepted program, taken apart into its two passes. -/
structure Passes (r : Registry) (p : Program) (mid c : Collection) : Prop where
  types : outcome (declareTypes p) ⟨r, 0⟩ = (.ok (), mid)
  members : outcome (p.forM fun d => collectDeclaration d.value) mid = (.ok (), c)
  start : Settled r
  between : Settled mid.registry
  final : Settled c.registry
  declared : ∃ count, Declared r p.headers mid.registry count
  progress : Progress mid.registry p.members c.registry

theorem declared_of_types (hr : Settled r) (hp : p.Plain)
    (h : outcome (declareTypes p) ⟨r, 0⟩ = (.ok (), c)) :
    Settled c.registry ∧ ∃ count, Declared r p.headers c.registry count := by
  have hnames : ∀ d ∈ p, ∀ n ∈ d.value.typeName?, IsPlain n :=
    fun d hd n hn => hp d hd n (typeName?_mem_typeNames hn)
  have hsettled :=
    (settled_of_keeps (steadfastOn_settled.keeps_declareTypes p hnames) hr h).1
  obtain ⟨count, hdeclared, -⟩ := declared_types hr.toRegular h
  exact ⟨hsettled, count, hdeclared⟩

theorem passes_of_collect (hr : Settled r) (hp : p.Plain) (h : r.collect p = (.ok (), c)) :
    ∃ mid, Passes r p mid c := by
  obtain ⟨⟨⟩, mid, htypes, hmembers⟩ := outcome_bind_eq_ok.mp h
  obtain ⟨hmid, count, hdeclared⟩ := declared_of_types hr hp htypes
  have hfinal := (carries_collect steadfastOn_settled hr hp).1
  rw [h] at hfinal
  exact ⟨mid, htypes, hmembers, hr, hmid, hfinal, ⟨count, hdeclared⟩,
    (hdeclared.progress hmembers).1⟩

variable {mid : Collection}

theorem Passes.realizes (h : Passes r p mid c) : Realizes r p.headers mid.registry := by
  obtain ⟨count, hdeclared⟩ := h.declared
  exact hdeclared.realizes h.start h.between

theorem Passes.realizes_members (h : Passes r p mid c) :
    Realizes mid.registry [] c.registry :=
  h.progress.realizes h.between h.final

theorem declareTypes_iff :
    outcome (declareTypes p) c = (.ok (), c₁) ↔
      ∃ cs last, Placed p.headers c cs last ∧ outcome (declareWaiting cs) last = (.ok (), c₁) := by
  rw [declareTypes, outcome_bind_eq_ok]
  simp only [declareInOrder_eq_ok]

/-- The classes that wait are declared in the end. -/
theorem realizes_of_declareWaiting {cs : List ClassHeader} (hc : Settled c.registry)
    (hplain : ∀ head ∈ cs, (TypeHeader.ofClass head).Plain)
    (h : outcome (declareWaiting cs) c = (.ok (), t)) :
    Realizes c.registry (cs.map .ofClass) t.registry ∧ Settled t.registry ∧
      c.registry.Retains t.registry := by
  obtain ⟨ht, hretains⟩ := settled_of_keeps (steadfastOn_settled.keeps_declareWaiting cs
    fun head hhead => (hplain head hhead).1) hc h
  obtain ⟨done, hrun, hperm⟩ := declareWaiting_eq_ok h
  obtain ⟨count, hdeclared, -⟩ := declared_headers hc.toRegular hrun
  exact ⟨(hdeclared.perm (hperm.map _)).realizes hc ht, ht, hretains⟩

/-! ## When the types are accepted -/

variable {mid₁ mid₂ : Collection}

/-- Both programs have headers that suit what there is after the second one. -/
theorem Passes.realizes_both (h₁ : Passes r p₁ mid₁ c₁) (h₂ : Passes c₁.registry p₂ mid₂ c₂) :
    Realizes r (p₁ ++ p₂).headers mid₂.registry := by
  rw [Program.headers_append, ← List.append_nil p₁.headers]
  exact (h₁.realizes.trans h₁.realizes_members).trans h₂.realizes

/-- If the types of both programs are accepted, no header of the second clashes. -/
theorem clashes_of_declareTypes (hr : Settled r) (hp₁ : p₁.Plain) (hp₂ : p₂.Plain)
    (h : outcome (declareTypes (p₁ ++ p₂)) ⟨r, 0⟩ = (.ok (), t)) : r.clashes p₁ p₂ = false := by
  obtain ⟨ht, count, hdeclared⟩ := declared_of_types hr (hp₁.append hp₂) h
  have hmeets := (hdeclared.realizes hr ht).meets
  obtain ⟨cs, last, hplaced, hwaiting⟩ := declareTypes_iff.mp h
  rw [Program.headers_append] at hplaced hmeets
  obtain ⟨first, next, others, hfirst, hothers, rfl⟩ := placed_append.mp hplaced
  obtain ⟨hnext, -⟩ := hfirst.settled hp₁.headers hr
  obtain ⟨hlast, -⟩ := hothers.settled hp₂.headers hnext
  obtain ⟨hreal, -⟩ := realizes_of_declareWaiting hlast (List.forall_mem_append.mpr
    ⟨fun head hhead => hp₁.header (hfirst.mem hhead),
      fun head hhead => hp₂.header (hothers.mem hhead)⟩) hwaiting
  refine clashes_eq_false hothers hp₂.headers hnext
    (hfirst.tracks hp₁.headers hr (tracks_names hr.toWellFormed)) hreal.kept
    (fun head hhead => hfirst.stated hp₁.headers hr hhead) fun h hh => hmeets h ?_
  obtain hh | hh := List.mem_append.mp hh
  · exact List.mem_append_right _ hh
  · obtain ⟨head, hhead, rfl⟩ := List.mem_map.mp hh
    exact List.mem_append_left _ (hfirst.mem hhead)

/-- Types that are accepted program by program are accepted together, if no header clashes. -/
theorem exists_declareTypes (hp₁ : p₁.Plain) (hp₂ : p₂.Plain) (h₁ : Passes r p₁ mid₁ c₁)
    (h₂ : Passes c₁.registry p₂ mid₂ c₂) (hclash : r.clashes p₁ p₂ = false) :
    ∃ t, outcome (declareTypes (p₁ ++ p₂)) ⟨r, 0⟩ = (.ok (), t) := by
  obtain ⟨first, next, hfirst, hwaiting₁⟩ := declareTypes_iff.mp h₁.types
  obtain ⟨others, ahead, hothers, hwaiting₂⟩ := declareTypes_iff.mp h₂.types
  obtain ⟨hnext, -⟩ := hfirst.settled hp₁.headers h₁.start
  obtain ⟨hahead, -⟩ := hothers.settled hp₂.headers h₁.final
  have hplain (head : ClassHeader) (hhead : head ∈ first) : (TypeHeader.ofClass head).Plain :=
    hp₁.header (hfirst.mem hhead)
  obtain ⟨hreal₁, -, hretains₁⟩ := realizes_of_declareWaiting hnext hplain hwaiting₁
  obtain ⟨hreal₂, -, hretains₂⟩ := realizes_of_declareWaiting hahead
    (fun head hhead => hp₂.header (hothers.mem hhead)) hwaiting₂
  -- One run is through with the first program; in the other its classes still wait.
  have hbehind : Trailing next.registry c₁.registry first := by
    refine (Trailing.refl hnext hplain fun head hhead => ?_).advance first ?_ h₁.final
      (h₁.progress.retains.target.trans hretains₁.target) (List.Subset.refl _)
    · obtain ⟨superclass, hsuper, -⟩ := hfirst.stated hp₁.headers h₁.start hhead
      exact Option.isSome_of_eq_some hsuper
    · rw [← List.append_nil (first.map _)]
      exact hreal₁.trans h₁.realizes_members
  obtain ⟨others', last, hothers', hlast, hsub⟩ := exists_placed hothers hp₂.headers hbehind
    (hfirst.tracks hp₁.headers h₁.start (tracks_names h₁.start.toWellFormed)) hclash
  have hend : Trailing last.registry mid₂.registry (first ++ others') :=
    hlast.advance others hreal₂ h₂.between hretains₂.target
      (List.subset_append_of_subset_right _ hsub)
  obtain ⟨t, ht⟩ := declareWaiting_succeeds hend fun head hhead => by
    refine (h₁.realizes_both h₂).meets (.ofClass head) ?_
    rw [Program.headers_append]
    exact List.mem_append.mpr ((List.mem_append.mp hhead).imp hfirst.mem hothers'.mem)
  refine ⟨t, declareTypes_iff.mpr ⟨first ++ others', last, ?_, ht⟩⟩
  rw [Program.headers_append]
  exact placed_append.mpr ⟨first, next, others', hfirst, hothers', rfl⟩

/-! ## What the programs add together -/

theorem Declared.plain {hs : List TypeHeader} {s : Registry} {count : Nat}
    (h : Declared r hs s count) (hr : Settled r) (hs' : Settled s) (hplain : ∀ h ∈ hs, h.Plain)
    {n : String} {kind : NominalKind} (hfree : r.kindOf? n = none) (hn : s.kindOf? n = some kind) :
    IsPlain n := by
  obtain ⟨head, hmem, rfl, -⟩ := h.exists_header hr hs' hfree hn
  exact (hplain head hmem).1

theorem kindOf?_of_at_eq_none {n : String} (h : r.nominal.at (some n) = none) :
    r.kindOf? n = none := by
  rw [kindOf?, show r.nominal.types n = none from h, Option.map_none]

/-- The types of `t` that `s` does not have, without members. -/
def lacking (s t : Registry) (n : String) : Option NominalEntry :=
  if (s.kindOf? n).isSome then none else t.bare? n

/-- With the types of both programs declared, a registry is ahead of one with those of the first. -/
theorem Passes.ahead (hp₁ : p₁.Plain) (hp₂ : p₂.Plain) (h₁ : Passes r p₁ mid₁ c₁)
    (h₂ : Passes c₁.registry p₂ mid₂ c₂)
    (ht : outcome (declareTypes (p₁ ++ p₂)) ⟨r, 0⟩ = (.ok (), t)) :
    Ahead (lacking mid₁.registry t.registry) mid₁.registry t.registry := by
  obtain ⟨ht', count, hdeclared⟩ := declared_of_types h₁.start (hp₁.append hp₂) ht
  obtain ⟨count₁, hdeclared₁⟩ := h₁.declared
  refine ⟨h₁.between, ht', fun {n} hn => ?_, fun label => ?_⟩
  · unfold lacking at hn
    split at hn
    · cases hn
    · rename_i hfree
      obtain ⟨x, hx⟩ := Option.isSome_iff_exists.mp hn
      obtain ⟨kind, hkind, -⟩ := Option.map_eq_some_iff.mp hx
      rw [Option.not_isSome_iff_eq_none] at hfree
      exact hdeclared.plain h₁.start ht' (hp₁.append hp₂).headers
        (h₁.realizes.kept.kindOf?_eq_none hfree) hkind
  · rw [hdeclared.at_eq h₁.start ht', hdeclared₁.at_eq h₁.start h₁.between]
    cases hold : r.nominal.at label with
    | some x => rw [Option.some_or, Option.some_or, Option.some_or]
    | none =>
      cases label with
      | none => cases hold
      | some n =>
        rw [Option.none_or, Option.none_or, Option.bind_some, Option.bind_some, Option.bind_some]
        cases hfirst : mid₁.registry.kindOf? n with
        | none => simp [bare?, lacking, hfirst]
        | some kind =>
          -- A type of the first program is of the same kind in all registries.
          have hfree := kindOf?_of_at_eq_none hold
          have hn := hdeclared₁.plain h₁.start h₁.between hp₁.headers hfree hfirst
          have hlast := h₂.realizes.kept n kind (h₁.realizes_members.kept n kind hfirst)
          rw [(h₁.realizes_both h₂).kindOf?_eq (hdeclared.realizes h₁.start ht') hn] at hlast
          simp [bare?, hfirst, hlast]

/-- Once the members of the first program are there, that registry lacks nothing. -/
theorem Passes.ahead_members (hp₁ : p₁.Plain) (hp₂ : p₂.Plain) (h₁ : Passes r p₁ mid₁ c₁)
    (h₂ : Passes c₁.registry p₂ mid₂ c₂)
    (ht : outcome (declareTypes (p₁ ++ p₂)) ⟨r, 0⟩ = (.ok (), t))
    (hmore : Ahead (lacking mid₁.registry t.registry) c₁.registry c.registry) :
    Ahead (fun _ => none) mid₂.registry c.registry := by
  obtain ⟨ht', count, hdeclared⟩ := declared_of_types h₁.start (hp₁.append hp₂) ht
  obtain ⟨count₂, hdeclared₂⟩ := h₂.declared
  refine ⟨h₂.between, hmore.right, fun hn => (by cases hn), fun label => ?_⟩
  rw [hmore.view, hdeclared₂.at_eq h₁.final h₂.between]
  cases hold : c₁.registry.nominal.at label with
  | some x => rw [Option.some_or, Option.some_or, Option.some_or]
  | none =>
    cases label with
    | none => cases hold
    | some n =>
      rw [Option.none_or, Option.none_or, Option.bind_some, Option.bind_some, Option.bind_some,
        Option.or_none]
      have hfree := kindOf?_of_at_eq_none hold
      have hfirst := h₁.realizes_members.kept.kindOf?_eq_none hfree
      have hstart := h₁.realizes.kept.kindOf?_eq_none hfirst
      have hsame : t.registry.kindOf? n = mid₂.registry.kindOf? n := by
        by_cases hn : IsPlain n
        · exact (hdeclared.realizes h₁.start ht').kindOf?_eq (h₁.realizes_both h₂) hn
        · -- Names that are not plain are not declared at all.
          have hnone : t.registry.kindOf? n = none := by
            rw [Option.eq_none_iff_forall_ne_some]
            intro kind hkind
            exact hn (hdeclared.plain h₁.start ht' (hp₁.append hp₂).headers hstart hkind)
          have hnone₂ : mid₂.registry.kindOf? n = none := by
            rw [Option.eq_none_iff_forall_ne_some]
            intro kind hkind
            exact hn (hdeclared₂.plain h₁.final h₂.between hp₂.headers hfree hkind)
          rw [hnone, hnone₂]
      simp [lacking, bare?, hfirst, hsame]

/-- If the types of both programs are accepted, so are their members, with the same outcome. -/
theorem nominal_append (hp₁ : p₁.Plain) (hp₂ : p₂.Plain) (h₁ : Passes r p₁ mid₁ c₁)
    (h₂ : Passes c₁.registry p₂ mid₂ c₂)
    (ht : outcome (declareTypes (p₁ ++ p₂)) ⟨r, 0⟩ = (.ok (), t)) :
    ∃ c, r.collect (p₁ ++ p₂) = (.ok (), c) ∧ c.registry.nominal = c₂.registry.nominal := by
  obtain ⟨⟨⟩, mid, hmembers₁, hmid⟩ :=
    follows_declarations p₁ mid₁ t (h₁.ahead hp₁ hp₂ h₂ ht) () c₁ h₁.members
  obtain ⟨⟨⟩, c, hmembers₂, hc⟩ :=
    follows_declarations p₂ mid₂ mid (h₁.ahead_members hp₁ hp₂ h₂ ht hmid) () c₂ h₂.members
  have hview (label : Option String) :
      c.registry.nominal.at label = c₂.registry.nominal.at label := by
    rw [hc.view]
    cases label <;> simp
  have hcollect : r.collect (p₁ ++ p₂) = (.ok (), c) :=
    outcome_bind_eq_ok.mpr ⟨(), t, ht, outcome_forM_append.mpr ⟨mid, hmembers₁, hmembers₂⟩⟩
  have hmain : c.registry.nominal.main = c₂.registry.nominal.main := Option.some.inj (hview none)
  have htypes : c.registry.nominal.types = c₂.registry.nominal.types :=
    funext fun n => hview (some n)
  exact ⟨c, hcollect, Nominal.ext hmain htypes⟩

/-! ## Merging -/

/-- Two programs that are accepted one after the other, after any run of programs, are accepted as
    one exactly when no header of the second clashes with a class of the first that waits. The one
    program then makes the same registry, but for the ids of types. -/
theorem collect_append {target : Target} {r₀ : Registry} (h₀ : ofTarget target = .ok r₀)
    {ps : List Program} (hps : ∀ p ∈ ps, p.Plain) (hp₁ : p₁.Plain) (hp₂ : p₂.Plain)
    (h₁ : (r₀.collectAll ps).collect p₁ = (.ok (), c₁))
    (h₂ : c₁.registry.collect p₂ = (.ok (), c₂)) :
    let r := r₀.collectAll ps
    ((r.collect (p₁ ++ p₂)).1 = .ok () ↔ r.clashes p₁ p₂ = false) ∧
      ((r.collect (p₁ ++ p₂)).1 = .ok () →
        (r.collect (p₁ ++ p₂)).2.registry.nominal = c₂.registry.nominal) := by
  intro r
  have hr₀ : Settled r₀ := by
    rw [← (ofTarget_eq_ok_iff.mp h₀).2]
    exact settled_initial target
  have hr : Settled r := (carries_collectAll steadfastOn_settled hr₀ hps).1
  obtain ⟨mid₁, h₁⟩ := passes_of_collect hr hp₁ h₁
  obtain ⟨mid₂, h₂⟩ := passes_of_collect h₁.final hp₂ h₂
  have htypes (h : (r.collect (p₁ ++ p₂)).1 = .ok ()) :
      ∃ t, outcome (declareTypes (p₁ ++ p₂)) ⟨r, 0⟩ = (.ok (), t) := by
    have hcollect : r.collect (p₁ ++ p₂) = (.ok (), (r.collect (p₁ ++ p₂)).2) := Prod.ext h rfl
    obtain ⟨⟨⟩, t, ht, -⟩ := outcome_bind_eq_ok.mp hcollect
    exact ⟨t, ht⟩
  refine ⟨⟨fun h => ?_, fun hclash => ?_⟩, fun h => ?_⟩
  · obtain ⟨t, ht⟩ := htypes h
    exact clashes_of_declareTypes hr hp₁ hp₂ ht
  · obtain ⟨t, ht⟩ := exists_declareTypes hp₁ hp₂ h₁ h₂ hclash
    obtain ⟨c, hc, -⟩ := nominal_append hp₁ hp₂ h₁ h₂ ht
    rw [hc]
  · obtain ⟨t, ht⟩ := htypes h
    obtain ⟨c, hc, hsame⟩ := nominal_append hp₁ hp₂ h₁ h₂ ht
    rw [hc]
    exact hsame

/-- A class waits in the first text, and the second does not presume it. As one program they declare
    `Square` before `Circle`, and nothing else is different. -/
theorem collect_append_shapes :
    let r := initial .host64
    let p₁ := (Program.ofSource
      "class Circle < Shape\ndef radius: Float\nend\nclass Shape\nend\n").toOption.getD []
    let p₂ := (Program.ofSource ("class Square < Shape\ndef sides: Array[Float]\nend\n" ++
      "class Shape\ndef area: Float\nend\n")).toOption.getD []
    let c₂ := ((r.collect p₁).2.registry.collect p₂).2
    let c := (r.collect (p₁ ++ p₂)).2
    r.clashes p₁ p₂ = false ∧ (r.collect (p₁ ++ p₂)).1 = .ok () ∧
      c.registry.nominal = c₂.registry.nominal ∧
      c.registry.lookup? "Circle" ≠ c₂.registry.lookup? "Circle" := by
  intro r p₁ p₂ c₂ c
  have hok {p : Program} {r : Registry} (h : (r.collect p).1.isOk = true) :
      r.collect p = (.ok (), (r.collect p).2) := by
    refine Prod.ext ?_ rfl
    cases houtcome : (r.collect p).1 with
    | ok u => rfl
    | error e =>
      rw [houtcome] at h
      cases h
  have h₀ : ofTarget .host64 = .ok r := ofTarget_eq_ok_iff.mpr ⟨by decide, rfl⟩
  obtain ⟨hp₁, hp₂, hok₁, hok₂, hclash, hids⟩ : p₁.Plain ∧ p₂.Plain ∧
      (r.collect p₁).1.isOk = true ∧ ((r.collect p₁).2.registry.collect p₂).1.isOk = true ∧
      r.clashes p₁ p₂ = false ∧
      c.registry.lookup? "Circle" ≠ c₂.registry.lookup? "Circle" := by
    decide +kernel
  obtain ⟨haccepted, hsame⟩ :=
    collect_append h₀ (List.forall_mem_nil Program.Plain) hp₁ hp₂ (hok hok₁) (hok hok₂)
  have hmerged := haccepted.mpr hclash
  exact ⟨hclash, hmerged, hsame hmerged, hids⟩

/-- Merging can turn two accepted programs into a refused one: while a class waits, a block of it
    that states no superclass declares it anew, and a primitive does not find it. The same happens
    if a program declares what has the name of an instance, which no text can do. -/
theorem collect_append_refused :
    let r := initial .host64
    let read (source : String) : Program := (Program.ofSource source).toOption.getD []
    let accepts (r : Registry) (p : Program) : Bool := (r.collect p).1.isOk
    let waits := read "class C < Later\nend\nclass Later\nend\n"
    let s := (r.collect waits).2.registry
    let block := read "class C\nend\n"
    let primitive := read "primitive Short < C : i16 2\n"
    let instances := read "def counts: Array[Int]\n"
    let bracket : Program :=
      [⟨.classBlock ⟨"Array[Int]", .point 0⟩ none [], .point 0⟩]
    accepts r waits = true ∧
      (accepts s block = true ∧ accepts r (waits ++ block) = false) ∧
      (accepts s primitive = true ∧ accepts r (waits ++ primitive) = false) ∧
      accepts r instances = true ∧ accepts (r.collect instances).2.registry bracket = true ∧
      accepts r (instances ++ bracket) = false := by
  decide +kernel

end Registry

end DeclLang
