import DeclLang.Proofs.Collection.Types
import DeclLang.Proofs.Collection.Consing
import DeclLang.Proofs.Syntax.Literals

/-!
# Linking: the libraries that sources are linked against

Libraries never wait and are never re-opened, so a registry lists what the headers of libraries name
in the order of the texts; whatever else is declared, now or later, adds nothing to the list and
takes nothing away. The names are the string literals of the texts (`libraryNames_ingested`).
-/

namespace DeclLang

/-- What an entry of a kind is linked against. -/
def TypeKind.linkName? : TypeKind → Option String
  | .lib (some libname) => if libname.isEmpty then none else some libname
  | _ => none

/-- The libraries that a list of names asks for: an empty name asks for none. -/
def linkNames (names : List (Located String)) : List String :=
  (names.map (·.value)).filter fun name => !name.isEmpty

theorem linkNames_append (xs ys : List (Located String)) :
    linkNames (xs ++ ys) = linkNames xs ++ linkNames ys := by
  rw [linkNames, List.map_append, List.filter_append]
  rfl

def TypeHeader.libname? : TypeHeader → Option (Located String)
  | .ofLib _ libname => libname
  | .ofClass _ | .ofModule _ | .ofPrimitive .. => none

theorem Program.libnames_eq (p : Program) : p.libnames = p.headers.filterMap (·.libname?) := by
  have hheader (d : Declaration) : d.libname? = d.header?.bind (·.libname?) := by
    cases d <;> rfl
  rw [headers, List.filterMap_filterMap, libnames]
  exact congrArg (List.filterMap · p) (funext fun d => hheader d.value)

/-- The kind that a header declares is linked against what the header names. -/
theorem TypeHeader.linkName?_of_kind? {h : TypeHeader} {r : Registry} {kind : TypeKind}
    (hkind : h.kind? r = some kind) : kind.linkName?.toList = linkNames h.libname?.toList := by
  cases h with
  | ofClass c =>
    obtain ⟨name, superclass⟩ := c
    cases superclass with
    | none =>
      cases hkind
      rfl
    | some superclass =>
      obtain ⟨id, -, rfl⟩ := Option.map_eq_some_iff.mp hkind
      rfl
  | ofModule name =>
    cases hkind
    rfl
  | ofLib name libname =>
    cases hkind
    cases libname with
    | none => rfl
    | some libname =>
      by_cases hempty : libname.value.isEmpty = true <;>
        simp [TypeKind.linkName?, linkNames, libname?, hempty]
  | ofPrimitive name superclass repr size =>
    obtain ⟨id, -, hrepr⟩ := Option.bind_eq_some_iff.mp hkind
    obtain ⟨tag, -, rfl⟩ := Option.map_eq_some_iff.mp hrepr
    rfl

namespace Registry

variable {r s : Registry}

theorem libraryNames_eq (r : Registry) :
    r.libraryNames = (r.entries.map (·.kind)).toList.filterMap (·.linkName?) := by
  rw [Array.toList_map, List.filterMap_map]
  rfl

theorem libraryNames_push (r : Registry) (e : Entry) :
    (r.push e).2.libraryNames = r.libraryNames ++ e.kind.linkName?.toList := by
  rw [libraryNames_eq, libraryNames_eq, push, Array.map_push, Array.toList_push,
    List.filterMap_append]
  cases h : e.kind.linkName? <;> simp [h]

/-- Members are not linked. -/
theorem libraryNames_modifyOwner (r : Registry) (owner : Owner) {f : Entry → Entry}
    [Entry.KeepsName f] (hf : ∀ e, (f e).kind = e.kind) :
    (r.modifyOwner owner f).libraryNames = r.libraryNames := by
  cases owner with
  | main => rfl
  | type id =>
    have hkinds : (r.entries.modify id.index f).map (·.kind) = r.entries.map (·.kind) := by
      refine Array.ext_getElem? fun i => ?_
      rw [Array.getElem?_map, Array.getElem?_modify, Array.getElem?_map]
      split
      · cases r.entries[i]? with
        | none => rfl
        | some e => exact congrArg some (hf e)
      · rfl
    rw [libraryNames_eq, libraryNames_eq, modifyOwner, hkinds]

theorem libraryNames_cache (r : Registry) (i : ArrayInstance) :
    (r.cache i).libraryNames = r.libraryNames := by
  unfold cache
  split <;> rfl

/-- An instance is an array. -/
theorem libraryNames_instantiate {array element id : TypeId}
    (h : r.instantiate array element = .ok (id, s)) : s.libraryNames = r.libraryNames := by
  obtain ⟨template, -, h⟩ := bind_eq_ok.mp h
  split at h
  · rw [pure_eq_ok, Prod.mk.injEq] at h
    rw [h.2]
  · obtain ⟨_, base, source, -, -, -, -, -, rfl⟩ := specialize_eq_ok h
    rw [libraryNames_cache, libraryNames_push]
    exact List.append_nil _

end Registry

namespace Collect

open Registry

variable {c c' : Collection}

/-! ## Types -/

theorem libraryNames_headerStep {h : TypeHeader} (hstep : HeaderStep h c c') :
    c'.registry.libraryNames = c.registry.libraryNames ++ linkNames h.libname?.toList := by
  cases hstep with
  | reopened hopen =>
    -- A library is not re-opened.
    cases h with
    | ofLib => cases hopen
    | _ => exact (List.append_nil _).symm
  | declared hfree hkind =>
    rw [libraryNames_push, Entry.kind_bare, TypeHeader.linkName?_of_kind? hkind]

theorem libraryNames_headers {hs : List TypeHeader}
    (h : outcome (hs.forM declareHeader) c = (.ok (), c')) :
    c'.registry.libraryNames =
      c.registry.libraryNames ++ linkNames (hs.filterMap (·.libname?)) := by
  refine forM_induction (motive := fun done mid => mid.registry.libraryNames =
    c.registry.libraryNames ++ linkNames (done.filterMap (·.libname?))) ?_ ?_ h
  · exact (List.append_nil _).symm
  · intro before head mid mid' _ hbefore hstep
    rw [libraryNames_headerStep (headerStep_of_eq_ok hstep), hbefore, List.append_assoc,
      ← linkNames_append, List.filterMap_append]
    cases hname : head.libname? <;> simp [hname]

/-- Libraries are declared where they stand; what waits is classes. -/
theorem Placed.libraryNames {hs : List TypeHeader} {waiting : List ClassHeader}
    (h : Placed hs c waiting c') :
    c'.registry.libraryNames =
      c.registry.libraryNames ++ linkNames (hs.filterMap (·.libname?)) := by
  induction h with
  | nil => exact (List.append_nil _).symm
  | @declared head hs c mid c' waiting _ hrun _ ih =>
    rw [ih, libraryNames_headerStep (headerStep_of_eq_ok hrun), List.append_assoc,
      ← linkNames_append, List.filterMap_cons]
    cases hname : head.libname? <;> simp
  | waits _ _ ih => exact ih

theorem libraryNames_declareTypes {p : Program} (h : outcome (declareTypes p) c = (.ok (), c')) :
    c'.registry.libraryNames = c.registry.libraryNames ++ linkNames p.libnames := by
  obtain ⟨waiting, mid, horder, hwaiting⟩ := outcome_bind_eq_ok.mp h
  obtain ⟨done, hrun, -⟩ := declareWaiting_eq_ok hwaiting
  have hclasses : (done.map TypeHeader.ofClass).filterMap (·.libname?) = [] := by
    rw [List.filterMap_map]
    exact List.filterMap_eq_nil_iff.mpr fun _ _ => rfl
  rw [libraryNames_headers hrun, hclasses, (declareInOrder_eq_ok.mp horder).libraryNames,
    p.libnames_eq]
  exact List.append_nil _

/-! ## Members -/

/-- No member is linked, and neither is an instance that is made for one. -/
theorem steadfastOn_libraryNames :
    SteadfastOn (fun _ => False) fun r s => s.libraryNames = r.libraryNames := by
  have hcomposable : Composable fun r s => s.libraryNames = r.libraryNames :=
    ⟨fun _ => rfl, fun h h' => h'.trans h⟩
  have hresolve := hcomposable.keeps_resolveType libraryNames_instantiate
  refine ⟨⟨hcomposable, fun op hop h => ?_⟩, hresolve, fun owner =>
    hcomposable.keeps_defineMethod hresolve fun h => ?_⟩
  · obtain ⟨name, kind, hN, -⟩ | ⟨owner, module, rfl⟩ := collects_cases hop h
    · exact hN.elim
    · exact libraryNames_modifyOwner _ owner fun _ => rfl
  · obtain ⟨-, -, -, rfl⟩ := Registry.defineMethod_eq_ok h
    exact libraryNames_modifyOwner _ _ fun _ => rfl

end Collect

namespace Registry

theorem libraryNames_collect {r : Registry} {p : Program} {c : Collection}
    (h : r.collect p = (.ok (), c)) :
    c.registry.libraryNames = r.libraryNames ++ linkNames p.libnames := by
  obtain ⟨⟨⟩, mid, htypes, hmembers⟩ := Collect.outcome_bind_eq_ok.mp h
  have hkeeps := Collect.steadfastOn_libraryNames.keeps_forM (l := p)
    (fun d _ => Collect.steadfastOn_libraryNames.keeps_collectDeclaration d.value) mid
  rw [hmembers] at hkeeps
  rw [hkeeps, Collect.libraryNames_declareTypes htypes]

theorem libraryNames_initial (target : Target) : (initial target).libraryNames = [] := rfl

/-! ## Sources -/

/-- Sources that are read and collected one after the other, each of them with success. -/
inductive Ingests : Registry → List (String × Program) → Registry → Prop where
  | nil {r : Registry} : Ingests r [] r
  | cons {r s : Registry} {source : String} {p : Program} {c : Collection}
      {files : List (String × Program)} :
      Program.ofSource source = .ok p → r.collect p = (.ok (), c) →
      Ingests c.registry files s → Ingests r ((source, p) :: files) s

theorem Ingests.libraryNames {r s : Registry} {files : List (String × Program)}
    (h : Ingests r files s) :
    s.libraryNames = r.libraryNames ++ files.flatMap fun file => linkNames file.2.libnames := by
  induction h with
  | nil => exact (List.append_nil _).symm
  | cons _ hcollect _ ih =>
    rw [ih, libraryNames_collect hcollect, List.append_assoc, List.flatMap_cons]

theorem Ingests.read {r s : Registry} {files : List (String × Program)} (h : Ingests r files s) :
    ∀ file ∈ files, Program.ofSource file.1 = .ok file.2 := by
  induction h with
  | nil => exact List.forall_mem_nil _
  | cons hread _ _ ih => exact List.forall_mem_cons.mpr ⟨hread, ih⟩

/-- The libraries of a registry that sources were collected into are those that the sources name,
    source by source in the order of the text, but for empty names. What a source names is its
    string literals: nothing is left out, repeated or added. -/
theorem libraryNames_ingested {target : Target} {r s : Registry} (hr : ofTarget target = .ok r)
    {files : List (String × Program)} (h : Ingests r files s) :
    s.libraryNames = files.flatMap (fun file => linkNames file.2.libnames) ∧
    ∀ file ∈ files, ∃ tokens, lex file.1 = .ok tokens ∧
      file.2.libnames = stringLiterals tokens ∧
      (∀ literal ∈ file.2.libnames, Quotes file.1 literal) ∧
      file.2.libnames.Pairwise fun first next => first.span.stop ≤ next.span.start := by
  constructor
  · obtain ⟨-, rfl⟩ := ofTarget_eq_ok_iff.mp hr
    rw [h.libraryNames, libraryNames_initial, List.nil_append]
  · exact fun file hfile => Program.libnames_of_ofSource (h.read file hfile)

/-- Libraries with the same name, with an empty one and with none, between classes that wait. -/
theorem libraryNames_ingested_duplicate :
    let read (source : String) := (Program.ofSource source).toOption.getD []
    let first := "lib Z(\"z\\n\")\nend\nclass B < C\nend\nlib D(\"\")\nend\nclass C\nend"
    let second := "lib E\nend\nlib F(\"a\\\"\")\nend\nlib G(\"z\\n\")\nend"
    let r := ((initial .host64).collect (read first)).2.registry
    let s := (r.collect (read second)).2.registry
    Ingests (initial .host64) [(first, read first), (second, read second)] s ∧
      s.libraryNames = ["z\n", "a\"", "z\n"] := by
  intro read first second r s
  have htarget : ofTarget .host64 = .ok (initial .host64) :=
    ofTarget_eq_ok_iff.mpr ⟨by decide, rfl⟩
  have hfirst : ((initial .host64).collect (read first)).1 = .ok () :=
    ok_of_isOk (by decide +kernel) ()
  have hsecond : (r.collect (read second)).1 = .ok () := ok_of_isOk (by decide +kernel) ()
  have hfiles : Ingests (initial .host64) [(first, read first), (second, read second)] s :=
    .cons (ok_of_isOk (by decide +kernel) []) (Prod.ext hfirst rfl)
      (.cons (ok_of_isOk (by decide +kernel) []) (Prod.ext hsecond rfl) .nil)
  exact ⟨hfiles, (libraryNames_ingested htarget hfiles).1.trans (by decide +kernel)⟩

end Registry

end DeclLang
