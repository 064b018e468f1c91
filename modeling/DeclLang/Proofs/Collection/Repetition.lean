import DeclLang.Proofs.Collection.Effect
import DeclLang.Proofs.Collection.Headers

/-!
# Repetition: collecting a program twice

Once a program was accepted, each of its headers fits a type and each of its members is there
(`Recorded`). When it is collected again, classes and modules are re-opened with nothing to change,
and the types of a member are those that it was resolved to before. So nothing is added, and the
program is refused at its first library or primitive, or else at its first member
(`collect_recorded`).
-/

namespace DeclLang

/-! ## Refusals -/

/-- The refusal of a type that is there and cannot be re-opened. -/
def TypeHeader.repetition? : TypeHeader → Option CollectError
  | .ofClass _ | .ofModule _ => none
  | .ofLib name _ => some ⟨.alreadyDefined name.value "lib", name.span⟩
  | .ofPrimitive name _ _ _ => some ⟨.alreadyDefined name.value "primitive", name.span⟩

/-- The refusal of a member that the owner with a given name has. -/
def Member.repetition (owner : String) : Member → CollectError
  | .method decl => ⟨.duplicateMethod owner decl.name.value, decl.name.span⟩
  | .inclusion module => ⟨.duplicateInclude owner module.value, module.span⟩

/-- What is in no block belongs to the main module. -/
def PlacedMember.repetition (main : String) (m : PlacedMember) : CollectError :=
  m.member.repetition (m.block.elim main (·.value))

/-- The refusal of a program that was collected before, if it is refused. Types come before
    members. -/
def Program.repetition? (main : String) (p : Program) : Option CollectError :=
  (p.headers.findSome? (·.repetition?)).or (p.members.head?.map (·.repetition main))

/-- Whether an error says that something is there already. -/
def DeclarationError.IsRepetition : DeclarationError → Prop
  | .alreadyDefined .. | .duplicateMethod .. | .duplicateInclude .. => True
  | _ => False

/-- A class or module without members. -/
def Declaration.IsEmptyBlock : Declaration → Prop
  | .classBlock _ _ members | .moduleBlock _ members => members = []
  | _ => False

theorem Program.isRepetition_of_repetition? {p : Program} {main : String} {e : CollectError}
    (h : p.repetition? main = some e) : e.value.IsRepetition := by
  obtain hheader | ⟨-, hmember⟩ := Option.or_eq_some_iff.mp h
  · obtain ⟨head, -, hhead⟩ := List.exists_of_findSome?_eq_some hheader
    cases head with
    | ofClass | ofModule => cases hhead
    | ofLib | ofPrimitive =>
      obtain rfl := Option.some.inj hhead
      trivial
  · obtain ⟨⟨block, member⟩, -, rfl⟩ := Option.map_eq_some_iff.mp hmember
    cases member <;> trivial

/-- Only classes and modules without members can be collected twice. -/
theorem Program.repetition?_eq_none_iff {p : Program} {main : String} :
    p.repetition? main = none ↔ ∀ d ∈ p, d.value.IsEmptyBlock := by
  have hdeclaration (d : Declaration) :
      ((∀ head ∈ d.header?, head.repetition? = none) ∧ d.members = []) ↔ d.IsEmptyBlock := by
    cases d <;> simp [Declaration.header?, Declaration.members, Declaration.IsEmptyBlock,
      TypeHeader.repetition?]
  have hheaders : p.headers.findSome? (·.repetition?) = none ↔
      ∀ d ∈ p, ∀ head ∈ d.value.header?, head.repetition? = none := by
    rw [List.findSome?_eq_none_iff]
    constructor
    · exact fun h d hd head hhead => h head (List.mem_filterMap.mpr ⟨d, hd, hhead⟩)
    · intro h head hmem
      obtain ⟨d, hd, hhead⟩ := List.mem_filterMap.mp hmem
      exact h d hd head hhead
  rw [repetition?, Option.or_eq_none_iff, hheaders, Option.map_eq_none_iff, List.head?_eq_none_iff,
    members, List.flatMap_eq_nil_iff]
  constructor
  · exact fun ⟨hhead, hmembers⟩ d hd => (hdeclaration d.value).mp ⟨hhead d hd, hmembers d hd⟩
  · intro h
    exact ⟨fun d hd => ((hdeclaration d.value).mpr (h d hd)).1,
      fun d hd => ((hdeclaration d.value).mpr (h d hd)).2⟩

/-! ## What is recorded -/

/-- An entry has a member, whose types are read in `s`. -/
def Entry.Holds (s : Registry) (e : Entry) : Member → Prop
  | .method decl => ∃ signature ∈ e.methods, s.signature? decl = some signature
  | .inclusion module => ∃ id ∈ e.includes, s.lookup? module.value = some id

namespace Registry

/-- The owner of the members in a block. -/
def blockOwner? (s : Registry) : Option Ident → Option Owner
  | none => some .main
  | some name => (s.lookup? name.value).map .type

/-- A member is among those of its owner. -/
def Holds (s : Registry) (m : PlacedMember) : Prop :=
  ∃ o e, s.blockOwner? m.block = some o ∧ s.owner? o = some e ∧ e.Holds s m.member

/-- A type that a header may re-open, or that it has declared, is there. -/
def Knows (s : Registry) (h : TypeHeader) : Prop :=
  ∃ id e, s.lookup? h.name = some id ∧ s.get? id = some e ∧ h.Fits s e.kind

/-- A registry into which a program was collected. -/
structure Recorded (s : Registry) (p : Program) : Prop where
  regular : Regular s
  headers : ∀ h ∈ p.headers, s.Knows h
  members : ∀ m ∈ p.members, s.Holds m

variable {r s : Registry} {p : Program} {c : Collection}

/-- An accepted program, taken apart into its two passes. -/
theorem exists_passes (hr : Regular r) (h : r.collect p = (.ok (), c)) :
    ∃ mid count, Declared r p.headers mid count ∧ Progress mid p.members c.registry := by
  obtain ⟨⟨⟩, mid, htypes, hmembers⟩ := Collect.outcome_bind_eq_ok.mp h
  obtain ⟨count, hdeclared, -⟩ := Collect.declared_types hr htypes
  exact ⟨mid.registry, count, hdeclared, (hdeclared.progress hmembers).1⟩

/-- An entry that has gained members holds each of them. -/
theorem holds_of_gains {ms : List Member} {e f : Entry} (h : e.Gains s ms f) {m : Member}
    (hm : m ∈ ms) : f.Holds s m := by
  cases m with
  | method decl =>
    obtain ⟨signatures, hsignatures, htable⟩ := h.methods
    have hmem : decl ∈ ms.filterMap Member.method? := List.mem_filterMap.mpr ⟨_, hm, rfl⟩
    obtain ⟨signature, hsignature, heq⟩ := exists_mem_of_mapM hsignatures decl hmem
    refine ⟨signature, ?_, heq⟩
    rw [htable, (Signature.perm_foldl_insertInto signatures e.methods).mem_iff]
    exact List.mem_append_right _ hsignature
  | inclusion module =>
    obtain ⟨modules, hmodules, hincludes⟩ := h.includes
    have hmem : module ∈ ms.filterMap Member.inclusion? := List.mem_filterMap.mpr ⟨_, hm, rfl⟩
    obtain ⟨id, hid, heq⟩ := exists_mem_of_mapM hmodules module hmem
    refine ⟨id, ?_, heq⟩
    rw [hincludes]
    exact List.mem_append_right _ hid

theorem recorded_of_passes {mid : Registry} {count : Nat} (h₁ : Declared r p.headers mid count)
    (h₂ : Progress mid p.members s) : Recorded s p where
  regular := h₂.regular
  headers h hmem := by
    obtain ⟨id, e, hid, he, hfits⟩ := h₁.fits h hmem
    obtain ⟨f, hf, -, hkind⟩ := h₂.retains.get? he
    refine ⟨id, f, h₂.retains.lookup? hid, hf, ?_⟩
    rw [hkind]
    exact hfits.mono h₂.retains
  members m hm := by
    have howner : ∃ o e, s.blockOwner? m.block = some o ∧ s.owner? o = some e ∧
        o.label e = m.block.map (·.value) := by
      cases hblock : m.block with
      | none => exact ⟨.main, s.main, rfl, rfl, rfl⟩
      | some name =>
        obtain ⟨h, hmem, hname⟩ := Program.header_of_block hm hblock
        obtain ⟨id, -, hid, -⟩ := h₁.fits h hmem
        rw [hname] at hid
        obtain ⟨e, he, hvalue⟩ := get?_of_lookup? (h₂.retains.lookup? hid)
        refine ⟨.type id, e, ?_, he, congrArg some hvalue⟩
        rw [blockOwner?, h₂.retains.lookup? hid]
        rfl
    obtain ⟨o, e, ho, he, hlabel⟩ := howner
    have hunder : m.member ∈ membersUnder (o.label e) p.members :=
      List.mem_map.mpr ⟨m, List.mem_filter.mpr ⟨hm, decide_eq_true hlabel.symm⟩, rfl⟩
    refine ⟨o, e, ho, he, ?_⟩
    -- An instance has no members of the program, so the owner is of the first kind.
    obtain ⟨_, -, -, hgains⟩ | ⟨-, -, -, hnone⟩ := gains_of_passes h₁ h₂ he
    · exact holds_of_gains hgains hunder
    · rw [hnone] at hunder
      cases hunder

end Registry

/-! ## The first pass again -/

namespace Collect

open Registry

variable {s : Registry} {n : Nat}

theorem declare_of_error {blame : DeclarationError → Span} {e : DeclarationError}
    {operation : Registry → Except DeclarationError (TypeId × Registry)}
    (h : operation s = .error e) :
    outcome (declare blame operation) ⟨s, n⟩ = (.error ⟨e, blame e⟩, ⟨s, n⟩) := by
  rw [declare, outcome_bind, outcome_apply, h]

/-- A class that is there is re-opened. -/
theorem declareClass_of_fits {head : ClassHeader} {id : TypeId} {e : Entry}
    (hid : s.lookup? head.name.value = some id) (he : s.get? id = some e)
    (hfits : (TypeHeader.ofClass head).Fits s e.kind) :
    head.isReady s = true ∧ outcome (declareClass head) ⟨s, n⟩ = (.ok (), ⟨s, n⟩) := by
  obtain ⟨name, superclass⟩ := head
  obtain ⟨hclass, hsuperclass⟩ := hfits
  have hready : ClassHeader.isReady ⟨name, superclass⟩ s = true := by
    cases superclass with
    | none => rfl
    | some superclass =>
      obtain ⟨sup, hsup, -⟩ := hsuperclass superclass rfl
      exact Option.isSome_of_eq_some hsup
  obtain ⟨stated, hstated, hnames⟩ := exists_stated hready (c := ⟨s, n⟩)
  have hexisting : outcome (existing? name.value) ⟨s, n⟩ = (.ok (some e), ⟨s, n⟩) :=
    existing?_eq_ok.mpr ⟨Option.bind_eq_some_iff.mpr ⟨id, hid, he⟩, rfl⟩
  have hagrees : stated = none ∨ e.kind.superclass? = stated := by
    cases superclass with
    | none => exact .inl (by simpa using hnames.symm)
    | some superclass =>
      obtain ⟨sup, hsup, hactual⟩ := hsuperclass superclass rfl
      obtain ⟨found, rfl, hfound⟩ := Option.map_eq_some_iff.mp hnames.symm
      obtain rfl := Option.some.inj (hfound.trans hsup)
      exact .inr hactual
  refine ⟨hready, outcome_bind_eq_ok.mpr ⟨stated, _, hstated,
    outcome_bind_eq_ok.mpr ⟨some e, _, hexisting, ?_⟩⟩⟩
  simp [reopenClass, hclass, hagrees]

/-- A header whose type is there changes nothing. -/
theorem declareHeader_of_knows {h : TypeHeader} (hs : WellFormed s) (hknows : s.Knows h) :
    h.isReady s = true ∧
      outcome (declareHeader h) ⟨s, n⟩ = (h.repetition?.elim (.ok ()) .error, ⟨s, n⟩) := by
  obtain ⟨id, e, hid, he, hfits⟩ := hknows
  have hexisting : outcome (existing? h.name) ⟨s, n⟩ = (.ok (some e), ⟨s, n⟩) :=
    existing?_eq_ok.mpr ⟨Option.bind_eq_some_iff.mpr ⟨id, hid, he⟩, rfl⟩
  cases h with
  | ofClass head => exact declareClass_of_fits hid he hfits
  | ofModule name =>
    have hmodule : e.kind = .module := (Option.some.inj hfits).symm
    refine ⟨rfl, outcome_bind_eq_ok.mpr ⟨some e, _, hexisting, ?_⟩⟩
    simp [hmodule, TypeKind.isModule]
  | ofLib name libname =>
    have hlib : e.kind = .lib (libname.map (·.value)) := (Option.some.inj hfits).symm
    have hregister := register_of_taken hs he
      (e := .bare name.value (.lib (libname.map (·.value)))) (name_of_lookup? hid he)
    rw [hlib] at hregister
    exact ⟨rfl, declare_of_error hregister⟩
  | ofPrimitive name superclass repr size =>
    obtain ⟨sup, -, hrepr⟩ := Option.bind_eq_some_iff.mp hfits
    obtain ⟨tag, -, hprimitive⟩ := Option.map_eq_some_iff.mp hrepr
    have hexisting : outcome (existing? name.value) ⟨s, n⟩ = (.ok (some e), ⟨s, n⟩) := hexisting
    refine ⟨rfl, ?_⟩
    rw [declareHeader, declarePrimitive, outcome_bind, hexisting]
    dsimp only
    rw [refuseExisting, ← hprimitive]
    rfl

theorem declareType_of_knows {d : Declaration} (hs : WellFormed s)
    (hknows : ∀ h ∈ d.header?, s.Knows h) :
    outcome (declareType d) ⟨s, n⟩ =
      ((d.header?.bind (·.repetition?)).elim (.ok []) .error, ⟨s, n⟩) := by
  have hsingle {h : TypeHeader} (hheader : d.header? = some h) :
      outcome (declareHeader h >>= fun _ => pure []) ⟨s, n⟩ =
        (h.repetition?.elim (.ok ([] : List ClassHeader)) .error, ⟨s, n⟩) := by
    rw [outcome_bind, (declareHeader_of_knows hs (hknows h hheader)).2]
    cases h.repetition? <;> rfl
  cases d with
  | classBlock name superclass members =>
    have hready : ClassHeader.isReady ⟨name, superclass⟩ s = true :=
      (declareHeader_of_knows (n := n) hs (hknows _ rfl)).1
    rw [declareType, outcome_bind, outcome_registry]
    dsimp only
    rw [if_pos hready]
    exact hsingle (h := .ofClass ⟨name, superclass⟩) rfl
  | moduleBlock name members => exact hsingle (h := .ofModule name) rfl
  | libBlock name libname functions => exact hsingle (h := .ofLib name libname) rfl
  | primitive name superclass repr size =>
    exact hsingle (h := .ofPrimitive name superclass repr size) rfl
  | method decl => rfl
  | inclusion module => rfl

theorem declareInOrder_of_knows (hs : WellFormed s) {p : Program}
    (hknows : ∀ h ∈ p.headers, s.Knows h) :
    outcome (declareInOrder p) ⟨s, n⟩ =
      ((p.headers.findSome? (·.repetition?)).elim (.ok []) .error, ⟨s, n⟩) := by
  induction p with
  | nil => rfl
  | cons d ds ih =>
    have hcons : Program.headers (d :: ds) = d.value.header?.toList ++ Program.headers ds := by
      rw [Program.headers, Program.headers, List.filterMap_cons]
      cases d.value.header? <;> rfl
    rw [hcons] at hknows ⊢
    have hfirst := declareType_of_knows (n := n) hs fun h hh =>
      hknows h (List.mem_append_left _ (Option.mem_toList.mpr hh))
    have hrest := ih fun h hh => hknows h (List.mem_append_right _ hh)
    rw [declareInOrder, outcome_bind, hfirst, List.findSome?_append]
    cases hheader : d.value.header? with
    | none =>
      dsimp only [Option.bind_none, Option.elim_none, Option.toList_none]
      rw [outcome_bind, hrest, List.findSome?_nil, Option.none_or]
      cases (Program.headers ds).findSome? (·.repetition?) <;> rfl
    | some h =>
      rw [Option.bind_some, Option.toList_some, List.findSome?_singleton]
      cases h.repetition? with
      | some e => rfl
      | none =>
        dsimp only [Option.elim_none]
        rw [outcome_bind, hrest, Option.none_or]
        cases (Program.headers ds).findSome? (·.repetition?) <;> rfl

/-- No class has to wait, since every superclass is there. -/
theorem declareTypes_of_knows (hs : WellFormed s) {p : Program}
    (hknows : ∀ h ∈ p.headers, s.Knows h) :
    outcome (declareTypes p) ⟨s, n⟩ =
      ((p.headers.findSome? (·.repetition?)).elim (.ok ()) .error, ⟨s, n⟩) := by
  rw [declareTypes, outcome_bind, declareInOrder_of_knows hs hknows]
  cases p.headers.findSome? (·.repetition?) with
  | some e => rfl
  | none =>
    dsimp only [Option.elim_none]
    rw [declareWaiting]
    rfl

/-! ## The second pass again -/

/-- What finds something for every item of a list, and changes nothing. -/
theorem outcome_mapM_of_mapM {α β : Type} {f : α → Collect β} {g : α → Option β}
    {c : Collection} (hfg : ∀ {a b}, g a = some b → outcome (f a) c = (.ok b, c)) {l : List α}
    {bs : List β} (h : l.mapM g = some bs) : outcome (l.mapM f) c = (.ok bs, c) := by
  rw [mapM_eq_some_iff] at h
  induction h with
  | nil => rfl
  | cons hb _ ih =>
    rw [List.mapM_cons, outcome_bind, hfg hb]
    dsimp only
    rw [outcome_bind, ih]
    rfl

/-- The types of a method that stands for a signature are resolved without a change. -/
theorem outcome_resolveSignature (hs : Regular s) {m : MethodDecl} {signature : Signature}
    (h : s.signature? m = some signature) :
    ∃ parameters returns,
      outcome (m.parameters.mapM resolveParameter) ⟨s, n⟩ = (.ok parameters, ⟨s, n⟩) ∧
      outcome (m.returns.mapM resolveType) ⟨s, n⟩ = (.ok returns, ⟨s, n⟩) ∧
      signature = ⟨m.name.value, parameters, returns⟩ := by
  obtain ⟨parameters, returns, hparameters, hreturns, rfl⟩ := signature?_eq_some.mp h
  refine ⟨parameters, returns, outcome_mapM_of_mapM (fun {p q} hp => ?_) hparameters, ?_, rfl⟩
  · obtain ⟨id, hid, rfl⟩ := Option.map_eq_some_iff.mp hp
    rw [resolveParameter, outcome_bind, (resolveType_eq_ok_iff hs).mpr hid]
    rfl
  · rw [optionMapM_eq_some_iff] at hreturns
    generalize m.returns = t at hreturns ⊢
    cases hreturns with
    | none => rfl
    | some hid =>
      rw [Option.mapM_some, map_eq_pure_bind, outcome_bind, (resolveType_eq_ok_iff hs).mpr hid]
      rfl

theorem update_of_error {span : Span} {operation : Registry → Except DeclarationError Registry}
    {e : DeclarationError} (h : operation s = .error e) :
    outcome (update span operation) ⟨s, n⟩ = (.error ⟨e, span⟩, ⟨s, n⟩) := by
  rw [update, outcome_apply, h]
  rfl

/-- A member that its owner has is refused, and nothing is changed. -/
theorem collectMember_of_holds (hs : Regular s) {o : Owner} {e : Entry} {m : Member}
    (ho : s.owner? o = some e) (h : e.Holds s m) :
    outcome (collectMember o m) ⟨s, n⟩ = (.error (m.repetition e.name), ⟨s, n⟩) := by
  have howner : s.requireOwner o = .ok e := requireOwner_eq_ok.mpr ho
  cases m with
  | method decl =>
    obtain ⟨signature, hmem, hsignature⟩ := h
    obtain ⟨parameters, returns, hparameters, hreturns, rfl⟩ :=
      outcome_resolveSignature (n := n) hs hsignature
    have hfound : (e.method? decl.name.value).isSome = true :=
      List.find?_isSome.mpr ⟨_, hmem, beq_self_eq_true _⟩
    obtain ⟨old, hold⟩ := Option.isSome_iff_exists.mp hfound
    have hrefused : s.defineMethod o ⟨decl.name.value, parameters, returns⟩ =
        .error (.duplicateMethod e.name decl.name.value) := by
      rw [Registry.defineMethod, howner]
      simp [bind, Except.bind, hold, throw, throwThe, MonadExceptOf.throw]
    rw [collectMember, defineMethod, outcome_bind, hparameters]
    dsimp only
    rw [outcome_bind, hreturns]
    exact update_of_error hrefused
  | inclusion module =>
    obtain ⟨id, hmem, hid⟩ := h
    obtain ⟨hself, f, hf, hmodule⟩ := (hs.sound ho).includes id hmem
    have hrefused : s.mixIn o id = .error (.duplicateInclude e.name module.value) := by
      have hrequire : s.require id = .ok f := require_eq_ok.mpr hf
      rw [Registry.mixIn, hrequire, howner]
      simp [bind, Except.bind, hmodule, hself, hmem, name_of_lookup? hid hf, throw, throwThe,
        MonadExceptOf.throw]
    rw [collectMember, mixIn, outcome_bind, resolve_eq_ok.mpr ⟨hid, rfl⟩]
    exact update_of_error hrefused

/-- Of members that are all refused, only the first one is reached. -/
theorem outcome_forM_of_refused {α : Type} {f : α → Collect PUnit} {refusal : α → CollectError}
    {c : Collection} {l : List α} (h : ∀ a ∈ l, outcome (f a) c = (.error (refusal a), c)) :
    outcome (l.forM f) c = ((l.head?.map refusal).elim (.ok ()) .error, c) := by
  cases l with
  | nil => rfl
  | cons a l =>
    rw [List.forM_eq_forM, List.forM_cons, outcome_bind, h a List.mem_cons_self]
    rfl

theorem collectMember_of_block (hs : Regular s) {name : Ident} {id : TypeId} {m : Member}
    (hid : s.lookup? name.value = some id) (h : s.Holds ⟨some name, m⟩) :
    outcome (collectMember (.type id) m) ⟨s, n⟩ =
      (.error (m.repetition name.value), ⟨s, n⟩) := by
  obtain ⟨o, e, ho, he, hm⟩ := h
  rw [blockOwner?, hid] at ho
  obtain rfl := Option.some.inj ho
  rw [collectMember_of_holds hs he hm, name_of_lookup? hid he]

theorem collectDeclaration_of_holds (hs : Regular s) {d : Declaration}
    (hknows : ∀ h ∈ d.header?, s.Knows h) (hmembers : ∀ m ∈ d.members, s.Holds m) :
    outcome (collectDeclaration d) ⟨s, n⟩ =
      ((d.members.head?.map (·.repetition s.main.name)).elim (.ok ()) .error, ⟨s, n⟩) := by
  have hblock {h : TypeHeader} {name : Ident} {members : List (Located Member)}
      (hheader : d.header? = some h) (hname : h.name = name.value)
      (hlisted : d.members = members.map fun m => ⟨some name, m.value⟩) :
      outcome (collectMembers name members) ⟨s, n⟩ =
        ((d.members.head?.map (·.repetition s.main.name)).elim (.ok ()) .error, ⟨s, n⟩) := by
    obtain ⟨id, -, hid, -⟩ := hknows h hheader
    rw [hname] at hid
    rw [hlisted] at hmembers ⊢
    rw [collectMembers, outcome_bind, resolve_eq_ok.mpr ⟨hid, rfl⟩, List.head?_map, Option.map_map]
    exact outcome_forM_of_refused fun m hm =>
      collectMember_of_block hs hid (hmembers _ (List.mem_map_of_mem hm))
  have hmain {m : Member} (h : s.Holds ⟨none, m⟩) :
      outcome (collectMember .main m) ⟨s, n⟩ = (.error (m.repetition s.main.name), ⟨s, n⟩) := by
    obtain ⟨o, e, ho, he, hm⟩ := h
    obtain rfl := Option.some.inj ho
    obtain rfl := Option.some.inj he
    exact collectMember_of_holds hs rfl hm
  cases d with
  | classBlock name superclass members => exact hblock rfl rfl rfl
  | moduleBlock name members => exact hblock rfl rfl rfl
  | libBlock name libname functions =>
    obtain ⟨id, -, hid, -⟩ := hknows _ rfl
    rw [Declaration.members, List.head?_map, Option.map_map]
    rw [collectDeclaration, collectFunctions, outcome_bind, resolve_eq_ok.mpr ⟨hid, rfl⟩]
    exact outcome_forM_of_refused fun f hf =>
      collectMember_of_block (m := .method f.value) hs hid (hmembers _ (List.mem_map_of_mem hf))
  | primitive name superclass repr size => rfl
  | method decl => exact hmain (hmembers _ (List.mem_singleton_self _))
  | inclusion module => exact hmain (hmembers _ (List.mem_singleton_self _))

theorem collectDeclarations_of_holds (hs : Regular s) {p : Program}
    (hknows : ∀ h ∈ p.headers, s.Knows h) (hmembers : ∀ m ∈ p.members, s.Holds m) :
    outcome (p.forM fun d => collectDeclaration d.value) ⟨s, n⟩ =
      ((p.members.head?.map (·.repetition s.main.name)).elim (.ok ()) .error, ⟨s, n⟩) := by
  induction p with
  | nil => rfl
  | cons d ds ih =>
    have hcons : Program.members (d :: ds) = d.value.members ++ Program.members ds :=
      List.flatMap_cons
    rw [hcons] at hmembers ⊢
    have hfirst := collectDeclaration_of_holds (n := n) hs
      (fun h hh => hknows h (List.mem_filterMap.mpr ⟨d, List.mem_cons_self, hh⟩))
      fun m hm => hmembers m (List.mem_append_left _ hm)
    have hrest := ih (fun h hh => by
        obtain ⟨d', hd', hh⟩ := List.mem_filterMap.mp hh
        exact hknows h (List.mem_filterMap.mpr ⟨d', List.mem_cons_of_mem d hd', hh⟩))
      fun m hm => hmembers m (List.mem_append_right _ hm)
    rw [List.forM_eq_forM, List.forM_cons, outcome_bind, hfirst, List.head?_append]
    cases d.value.members.head? with
    | none => exact hrest
    | some m => rfl

end Collect

/-! ## Both passes -/

namespace Registry

variable {r s : Registry} {p : Program} {c : Collection}

/-- A program that is recorded changes nothing when it is collected. -/
theorem collect_recorded (h : Recorded s p) :
    s.collect p = ((p.repetition? s.main.name).elim (.ok ()) .error, ⟨s, 0⟩) := by
  show Collect.outcome (Collect.program p) ⟨s, 0⟩ = _
  rw [Collect.program, Collect.outcome_bind,
    Collect.declareTypes_of_knows h.regular.toWellFormed h.headers, Program.repetition?]
  cases p.headers.findSome? (·.repetition?) with
  | some e => rfl
  | none => exact Collect.collectDeclarations_of_holds h.regular h.headers h.members

/-- A program that was accepted changes nothing when it is collected again. It is accepted again
    only if it has nothing but classes and modules without members; another one is refused because
    something that it declares is there already, be it a type or a member. -/
theorem collect_repeated (hr : Reachable r) (h : r.collect p = (.ok (), c)) :
    (c.registry.collect p).2 = ⟨c.registry, 0⟩ ∧
      ((c.registry.collect p).1 = .ok () ↔ ∀ d ∈ p, d.value.IsEmptyBlock) ∧
      ∀ e, (c.registry.collect p).1 = .error e →
        e.value.IsRepetition ∧ p.repetition? c.registry.main.name = some e := by
  obtain ⟨mid, count, hdeclared, hprogress⟩ := exists_passes hr.regular h
  rw [collect_recorded (recorded_of_passes hdeclared hprogress), ← Program.repetition?_eq_none_iff]
  refine ⟨rfl, ?_, fun e he => ?_⟩
  · cases p.repetition? c.registry.main.name <;> simp
  · cases hrefused : p.repetition? c.registry.main.name with
    | none =>
      rw [hrefused] at he
      cases he
    | some e' =>
      rw [hrefused] at he
      obtain rfl := Except.error.inj he
      exact ⟨Program.isRepetition_of_repetition? hrefused, rfl⟩

/-- The classes and modules of `shapes` are re-opened, also the class that had to wait for its
    superclass. Its primitive is refused, before a library or a member is reached. -/
theorem collect_repeated_shapes :
    let s := ((initial .host64).collect shapes).2.registry
    s.collect shapes = (.error ⟨.alreadyDefined "Byte" "primitive", .point 0⟩, ⟨s, 0⟩) := by
  intro s
  have hinitial : Reachable (initial .host64) :=
    .initial (ofTarget_eq_ok_iff.mpr ⟨by decide, rfl⟩)
  have haccepted : ((initial .host64).collect shapes).1 = .ok () :=
    ok_of_isOk (by decide +kernel) ()
  obtain ⟨hsame, hagain, hrefused⟩ := collect_repeated hinitial (Prod.ext haccepted rfl)
  refine Prod.ext ?_ hsame
  cases houtcome : (s.collect shapes).1 with
  | ok u =>
    -- The block of the first class has a member.
    have hempty := hagain.mp houtcome (shapes.head (by decide)) (List.head_mem _)
    cases hempty
  | error e => exact congrArg Except.error (Option.some.inj (hrefused e houtcome).2).symm

end Registry

end DeclLang
