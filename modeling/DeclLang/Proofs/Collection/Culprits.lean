import DeclLang.Proofs.Collection.Refusals
import DeclLang.Proofs.Collection.Uses
import DeclLang.Proofs.Syntax.Parts

/-!
# Culprits: what the error of a program points at

Whatever step of collecting is refused, it is refused for one of the parts of the program, at whose
span the error is reported (`Consed.blamesOneOf_collect`). Such a part stands in the source of the
program, so what the source has at the span of the error starts with the name that the error
reports, or is the size that does not fit (`collect_culprit`).
-/

namespace DeclLang

/-! ## Errors and their parts -/

/-- The name that an error is about. -/
def DeclarationError.reported? : DeclarationError → Option String
  | .alreadyDefined name _ | .unknownType name | .notAClass name | .notAModule name
  | .selfInclude name | .notGeneric name | .unknownRepresentation name => some name
  | .superclassMismatch _ _ stated => some stated
  | .duplicateMethod _ method => some method
  | .duplicateInclude _ module => some module
  | .layout _ | .unregistered _ => none

/-- A text is what an error is about: it starts with the name that is reported, or it is a literal
    of the size that was declared. -/
inductive DeclarationError.IsAbout : DeclarationError → List Char → Prop where
  | name {error : DeclarationError} {name : String} {text : List Char} :
      error.reported? = some name → name.toList <+: withoutBlanks text → error.IsAbout text
  | size {name : String} {repr : Representation} {declared expected : Nat} {text : List Char} :
      Spells text (.int declared) →
      IsAbout (.layout (.layoutMismatch name repr declared expected)) text

/-- An error is reported at a part of a program, and about all texts that this part may have. -/
structure CollectError.Blames (e : CollectError) (part : Part) : Prop where
  span : e.span = part.span
  about : ∀ text, part.HasText text → e.value.IsAbout text

/-- One of some parts is to blame for an error. -/
def CollectError.BlamesOneOf (e : CollectError) (parts : List Part) : Prop :=
  ∃ part ∈ parts, e.Blames part

namespace CollectError

variable {e : CollectError}

theorem blames_name {x : Ident} (hspan : e.span = x.span)
    (hreported : e.value.reported? = some x.value) : e.Blames (.name x) where
  span := hspan
  about text htext := by
    apply DeclarationError.IsAbout.name hreported
    have hwritten : withoutBlanks text = x.value.toList := htext
    exact hwritten ▸ List.prefix_rfl

/-- A type starts with its outermost name. -/
theorem blames_type {t : TypeExpr} (hspan : e.span = t.span)
    (hreported : e.value.reported? = some t.base) : e.Blames (.type t) where
  span := hspan
  about text htext := by
    apply DeclarationError.IsAbout.name hreported
    rw [show withoutBlanks text = t.text.toList from htext]
    cases t with
    | named name => exact List.prefix_rfl
    | generic base arg span =>
      show base.toList <+: (base ++ "[" ++ arg.text ++ "]").toList
      simp only [String.toList_append, List.append_assoc]
      exact List.prefix_append _ _

theorem blames_size {name : String} {repr : Representation} {size : Located Nat} {expected : Nat} :
    Blames ⟨.layout (.layoutMismatch name repr size.value expected), size.span⟩ (.size size) where
  span := rfl
  about _ htext := .size htext

theorem BlamesOneOf.mono {parts parts' : List Part} (h : e.BlamesOneOf parts)
    (hparts : parts ⊆ parts') : e.BlamesOneOf parts' := by
  rcases h with ⟨part, hpart, hblames⟩
  exact ⟨part, hparts hpart, hblames⟩

theorem Blames.oneOf {part : Part} {parts : List Part} (h : e.Blames part)
    (hpart : part ∈ parts) : e.BlamesOneOf parts :=
  ⟨part, hpart, h⟩

end CollectError

/-! ## Headers -/

/-- The parts of a declaration without its members. -/
def TypeHeader.parts : TypeHeader → List Part
  | .ofClass c => .name c.name :: c.superclass.toList.map .name
  | .ofModule name | .ofLib name _ => [.name name]
  | .ofPrimitive name superclass repr size =>
    [.name name, .name superclass, .name repr, .size size]

theorem TypeHeader.ident_mem_parts (h : TypeHeader) : Part.name h.ident ∈ h.parts := by
  cases h with
  | ofClass | ofModule | ofLib | ofPrimitive => exact List.mem_cons_self

theorem TypeHeader.stated_mem_parts {h : TypeHeader} {superclass : Ident}
    (hstated : h.stated? = some superclass) : Part.name superclass ∈ h.parts := by
  cases h with
  | ofClass c =>
    apply List.mem_cons_of_mem
    rw [show c.superclass = some superclass from hstated]
    exact List.mem_cons_self
  | ofModule | ofLib => cases hstated
  | ofPrimitive name superclass' repr size =>
    rcases Option.some.inj hstated with rfl
    exact List.mem_cons_of_mem _ List.mem_cons_self

theorem Declaration.parts_header {d : Declaration} {h : TypeHeader} (hd : d.header? = some h) :
    h.parts ⊆ d.parts := by
  cases d with
  | classBlock | moduleBlock | libBlock =>
    rcases Option.some.inj hd with rfl
    exact List.subset_append_left _ _
  | primitive =>
    rcases Option.some.inj hd with rfl
    exact List.Subset.refl _
  | method | inclusion => cases hd

theorem Program.parts_header {p : Program} {h : TypeHeader} (hp : h ∈ p.headers) :
    h.parts ⊆ p.parts := by
  rcases List.mem_filterMap.mp hp with ⟨d, hd, hheader⟩
  intro part hpart
  exact List.mem_flatMap.mpr ⟨d, hd, Declaration.parts_header hheader hpart⟩

open CollectError in
/-- A header is refused for one of its parts. -/
theorem HeaderRefusal.blamesOneOf {r : Registry} {h : TypeHeader} {e : CollectError}
    (hrefusal : HeaderRefusal r h e) : e.BlamesOneOf h.parts := by
  cases hrefusal with
  | @taken _ _ old =>
    have hreported : (DeclarationError.alreadyDefined h.name old.kind.label).reported? =
        some h.ident.value := congrArg some h.value_ident.symm
    exact (blames_name rfl hreported).oneOf h.ident_mem_parts
  | mismatch => exact (blames_name rfl rfl).oneOf (TypeHeader.stated_mem_parts rfl)
  | notAClass hstated => exact (blames_name rfl rfl).oneOf (TypeHeader.stated_mem_parts hstated)
  | unknownSuperclass => exact (blames_name rfl rfl).oneOf (TypeHeader.stated_mem_parts rfl)
  | unknownRepresentation => exact (blames_name rfl rfl).oneOf (by simp [TypeHeader.parts])
  | layout => exact blames_size.oneOf (by simp [TypeHeader.parts])

theorem ClassHeader.blamed_mem_parts (c : ClassHeader) :
    Part.name c.blamed ∈ (TypeHeader.ofClass c).parts := by
  rcases c with ⟨name, superclass⟩
  cases superclass with
  | none => exact List.mem_cons_self
  | some superclass => exact List.mem_cons_of_mem _ List.mem_cons_self

namespace Collect

open Registry CollectError

variable {c c' : Collection} {e : CollectError}

theorem blamesOneOf_declareTypes {p : Program} {r : Registry} (hr : Regular r)
    (h : outcome (declareTypes p) ⟨r, 0⟩ = (.error e, c)) : e.BlamesOneOf p.parts := by
  cases stops_of_declareTypes hr h with
  | refused hunderway hmem _ hrefusal =>
    exact hrefusal.blamesOneOf.mono (Program.parts_header (hunderway.mem_todo hmem))
  | @stuck done head rest hunderway _ _ he =>
    have hmem : TypeHeader.ofClass head ∈ (head :: rest).map TypeHeader.ofClass :=
      List.mem_cons_self
    have hblames : e.Blames (.name head.blamed) := by
      rw [he]
      exact blames_name rfl rfl
    exact (hblames.oneOf head.blamed_mem_parts).mono
      (Program.parts_header (hunderway.mem_todo hmem))

/-! ## Types -/

/-- What a step of a run leaves behind. -/
theorem consed_of_keeps {α : Type} {m : Collect α} {x : Except CollectError α}
    (hm : Keeps ConsedStep m) (hc : Consed c.registry) (h : outcome m c = (x, c')) :
    Consed c'.registry ∧ c.registry.Retains c'.registry := by
  have hkept := hm c hc
  rwa [h] at hkept

/-- A sequence is refused at an item, at which the registry is still consed. -/
theorem exists_refused {α : Type} {f : α → Collect PUnit} {l : List α}
    (hf : ∀ a, Keeps ConsedStep (f a)) (hc : Consed c.registry)
    (h : outcome (l.forM f) c = (.error e, c')) :
    ∃ a ∈ l, ∃ mid, Consed mid.registry ∧ c.registry.Retains mid.registry ∧
      outcome (f a) mid = (.error e, c') := by
  rcases outcome_forM_eq_error h with ⟨before, a, after, mid, rfl, hbefore, ha⟩
  have hkeeps : Keeps ConsedStep (before.forM f) := steadfastOn_consed.keeps_forM fun b _ => hf b
  rcases consed_of_keeps hkeeps hc hbefore with ⟨hmid, hretains⟩
  exact ⟨a, by simp, mid, hmid, hretains, ha⟩

theorem blames_resolve {x : Ident} (h : outcome (resolve x) c = (.error e, c')) :
    e.Blames (.name x) := by
  rcases resolve_eq_error h with ⟨-, rfl, -⟩
  exact blames_name rfl rfl

end Collect

theorem Registry.Retains.isSome_owner? {r s : Registry} (h : r.Retains s) {owner : Owner}
    (howner : (r.owner? owner).isSome = true) : (s.owner? owner).isSome = true := by
  cases owner with
  | main => rfl
  | type id => exact h.isSome_get? howner

/-- An array makes all its instances, so only a type that is no array is refused. -/
theorem Registry.Consed.instantiate_eq_error {r : Registry} (h : Consed r) {id element : TypeId}
    {old : Entry} {error : DeclarationError} (hold : r.get? id = some old)
    (helement : (r.get? element).isSome = true)
    (hmake : r.instantiate id element = .error error) : error = .notGeneric old.name := by
  by_cases harray : old.kind.isArray = true
  · rcases h.exists_instantiate hold harray helement with ⟨array, s, hok⟩
    rw [hok] at hmake
    cases hmake
  · rcases bind_eq_error.mp hmake with htemplate | ⟨template, htemplate, -⟩
    · exact (templateOf_eq_error hold htemplate).2
    · rcases templateOf_eq_ok.mp htemplate with ⟨old', hold', harray', -⟩
      rw [Option.some.inj (hold.symm.trans hold')] at harray
      exact absurd harray' harray

namespace Collect

open Registry CollectError

variable {c c' : Collection} {e : CollectError}

/-- A type is refused for its outermost name, or for a type inside of it. -/
theorem blamesOneOf_resolveType {t : TypeExpr} (hc : Consed c.registry)
    (h : outcome (resolveType t) c = (.error e, c')) : e.BlamesOneOf t.parts := by
  induction t generalizing c' with
  | named name =>
    rcases resolve_eq_error h with ⟨-, rfl, -⟩
    exact (blames_type (t := .named name) rfl rfl).oneOf List.mem_cons_self
  | generic base arg span ih =>
    have hwhole (hspan : e.span = span) (hreported : e.value.reported? = some base) :
        e.BlamesOneOf (TypeExpr.generic base arg span).parts :=
      (blames_type (t := .generic base arg span) hspan hreported).oneOf List.mem_cons_self
    rcases outcome_bind_eq_error.mp h with hbase | ⟨array, mid, hbase, h⟩
    · rcases resolve_eq_error hbase with ⟨-, rfl, -⟩
      exact hwhole rfl rfl
    rcases resolve_eq_ok.mp hbase with ⟨hid, rfl⟩
    rcases outcome_bind_eq_error.mp h with harg | ⟨element, mid, harg, h⟩
    · exact (ih harg).mono (List.subset_cons_self _ _)
    -- The base is still what it was when the argument has been resolved.
    rcases get?_of_lookup? hid with ⟨old, hold, hname⟩
    rcases consed_of_keeps (steadfastOn_consed.keeps_resolveType arg) hc harg with
      ⟨hmid, hretains⟩
    rcases hretains.get? hold with ⟨old', hold', hname', -⟩
    have helement := hmid.isSome_get?_of_typeOf? (resolveType_eq_ok hc.toRegular harg).2.1
    rcases apply_eq_error h with ⟨hmake, hspan, -⟩
    apply hwhole hspan
    rw [hmid.instantiate_eq_error hold' helement hmake]
    exact congrArg some (hname'.trans hname)

theorem blamesOneOf_resolveParameters {ps : List Parameter} (hc : Consed c.registry)
    (h : outcome (ps.mapM resolveParameter) c = (.error e, c')) :
    ∃ p ∈ ps, e.BlamesOneOf p.type.parts := by
  rcases outcome_mapM_eq_error h with ⟨before, p, after, qs, mid, rfl, hbefore, hp⟩
  have hR := steadfastOn_consed
  have hkeeps := hR.keeps_mapM (l := before) hR.keeps_resolveParameter
  have hmid := (consed_of_keeps hkeeps hc hbefore).1
  rcases outcome_bind_eq_error.mp hp with htype | ⟨id, mid', -, hpure⟩
  · exact ⟨p, by simp, blamesOneOf_resolveType hmid htype⟩
  · cases hpure

theorem blamesOneOf_resolveReturns {returns : Option TypeExpr} (hc : Consed c.registry)
    (h : outcome (returns.mapM resolveType) c = (.error e, c')) :
    ∃ t ∈ returns, e.BlamesOneOf t.parts := by
  cases returns with
  | none => cases h
  | some t =>
    rw [Option.mapM_some, map_eq_pure_bind] at h
    rcases outcome_bind_eq_error.mp h with ht | ⟨id, mid, -, hpure⟩
    · exact ⟨t, rfl, blamesOneOf_resolveType hc ht⟩
    · cases hpure

/-! ## Members -/

/-- A method is refused for one of its types, or for its name. -/
theorem blamesOneOf_defineMethod {owner : Owner} {m : MethodDecl} (hc : Consed c.registry)
    (howner : (c.registry.owner? owner).isSome = true)
    (h : outcome (defineMethod owner m) c = (.error e, c')) : e.BlamesOneOf m.parts := by
  have htype {t : TypeExpr} (ht : t ∈ m.types) (hblames : e.BlamesOneOf t.parts) :
      e.BlamesOneOf m.parts :=
    hblames.mono fun part hpart => List.mem_cons_of_mem _ (List.mem_flatMap.mpr ⟨t, ht, hpart⟩)
  have hR := steadfastOn_consed
  rcases outcome_bind_eq_error.mp h with hparameters | ⟨parameters, mid, hparameters, h⟩
  · rcases blamesOneOf_resolveParameters hc hparameters with ⟨p, hp, hblames⟩
    exact htype (List.mem_append_left _ (List.mem_map_of_mem hp)) hblames
  rcases consed_of_keeps (hR.keeps_mapM hR.keeps_resolveParameter) hc hparameters with
    ⟨hmid, hretains⟩
  rcases outcome_bind_eq_error.mp h with hreturns | ⟨returns, last, hreturns, h⟩
  · rcases blamesOneOf_resolveReturns hmid hreturns with ⟨t, ht, hblames⟩
    exact htype (List.mem_append_right _ (Option.mem_toList.mpr ht)) hblames
  rcases consed_of_keeps (hR.keeps_optionMapM hR.keeps_resolveType) hmid hreturns with
    ⟨-, hretains'⟩
  have hsome := (hretains.trans hretains').isSome_owner? howner
  rcases Option.isSome_iff_exists.mp hsome with ⟨o, ho⟩
  rcases update_eq_error h with ⟨hdefine, hspan, -⟩
  have hblames : e.Blames (.name m.name) := by
    apply blames_name hspan
    rw [(defineMethod_eq_error ho hdefine).2]
    rfl
  exact hblames.oneOf List.mem_cons_self

theorem blames_mixIn {owner : Owner} {module : Ident}
    (howner : (c.registry.owner? owner).isSome = true)
    (h : outcome (mixIn owner module) c = (.error e, c')) : e.Blames (.name module) := by
  rcases outcome_bind_eq_error.mp h with hresolve | ⟨id, mid, hresolve, h⟩
  · exact blames_resolve hresolve
  rcases resolve_eq_ok.mp hresolve with ⟨hid, rfl⟩
  rcases get?_of_lookup? hid with ⟨m, hm, hname⟩
  rcases Option.isSome_iff_exists.mp howner with ⟨o, ho⟩
  rcases update_eq_error h with ⟨hmix, hspan, -⟩
  apply blames_name hspan
  rw [← hname]
  rcases mixIn_eq_error hm ho hmix with ⟨-, herror⟩ | ⟨-, herror⟩ | ⟨-, herror⟩
  all_goals
    rw [herror]
    rfl

theorem blamesOneOf_collectMember {owner : Owner} {m : Member} (hc : Consed c.registry)
    (howner : (c.registry.owner? owner).isSome = true)
    (h : outcome (collectMember owner m) c = (.error e, c')) : e.BlamesOneOf m.parts := by
  cases m with
  | method decl => exact blamesOneOf_defineMethod hc howner h
  | inclusion module => exact (blames_mixIn howner h).oneOf List.mem_cons_self

/-- In a block, the name is resolved first, and then one item after the other is collected. -/
theorem blamesOneOf_block {α : Type} {name : Ident} {items : List α}
    {collectItem : TypeId → α → Collect PUnit} {itemParts : α → List Part}
    (hkeeps : ∀ id a, Keeps ConsedStep (collectItem id a))
    (hitem : ∀ {id a c}, Consed c.registry → (c.registry.owner? (.type id)).isSome = true →
      outcome (collectItem id a) c = (.error e, c') → e.BlamesOneOf (itemParts a))
    (hc : Consed c.registry)
    (h : outcome (resolve name >>= fun id => items.forM (collectItem id)) c = (.error e, c')) :
    e.BlamesOneOf (.name name :: items.flatMap itemParts) := by
  rcases outcome_bind_eq_error.mp h with hresolve | ⟨id, mid, hresolve, h⟩
  · exact (blames_resolve hresolve).oneOf List.mem_cons_self
  rcases resolve_eq_ok.mp hresolve with ⟨hid, rfl⟩
  rcases get?_of_lookup? hid with ⟨old, hold, -⟩
  rcases exists_refused (hkeeps id) hc h with ⟨a, hmem, mid, hmid, hretains, ha⟩
  have howner : (mid.registry.owner? (.type id)).isSome = true :=
    hretains.isSome_get? (Option.isSome_of_eq_some hold)
  apply (hitem hmid howner ha).mono
  intro part hpart
  exact List.mem_cons_of_mem _ (List.mem_flatMap.mpr ⟨a, hmem, hpart⟩)

theorem blamesOneOf_collectDeclaration {d : Declaration} (hc : Consed c.registry)
    (h : outcome (collectDeclaration d) c = (.error e, c')) : e.BlamesOneOf d.parts := by
  have hR := steadfastOn_consed
  have hmembers {name : Ident} {members : List (Located Member)}
      (h : outcome (collectMembers name members) c = (.error e, c')) :
      e.BlamesOneOf (.name name :: members.flatMap (·.value.parts)) :=
    blamesOneOf_block (fun id m => hR.keeps_collectMember (.type id) m.value)
      blamesOneOf_collectMember hc h
  cases d with
  | classBlock name superclass members =>
    apply (hmembers h).mono
    intro part hpart
    rcases List.mem_cons.mp hpart with rfl | hpart
    · exact List.mem_cons_self
    · exact List.mem_append_right _ hpart
  | moduleBlock name members => exact hmembers h
  | libBlock name libname functions =>
    exact blamesOneOf_block (fun id f => hR.keeps_defineMethod (.type id) f.value)
      blamesOneOf_defineMethod hc h
  | primitive name superclass repr size => cases h
  | method decl => exact blamesOneOf_defineMethod hc rfl h
  | inclusion module => exact (blames_mixIn rfl h).oneOf List.mem_cons_self

end Collect

/-! ## Programs -/

namespace Registry

open Collect

variable {r : Registry} {p : Program} {e : CollectError} {c : Collection}

/-- A program is refused for one of its parts. -/
theorem Consed.blamesOneOf_collect (hr : Consed r) (hp : p.Plain)
    (h : r.collect p = (.error e, c)) : e.BlamesOneOf p.parts := by
  have hR := steadfastOn_consed
  have hnames : ∀ d ∈ p, ∀ n ∈ d.value.typeName?, IsPlain n :=
    fun d hd n hn => hp d hd n (typeName?_mem_typeNames hn)
  rcases outcome_bind_eq_error.mp h with htypes | ⟨u, mid, htypes, hmembers⟩
  · exact blamesOneOf_declareTypes hr.toRegular htypes
  have hmid := (consed_of_keeps (hR.keeps_declareTypes p hnames) hr htypes).1
  have hkeeps (d : Located Declaration) : Keeps ConsedStep (collectDeclaration d.value) :=
    hR.keeps_collectDeclaration d.value
  rcases exists_refused hkeeps hmid hmembers with ⟨d, hmem, mid', hmid', -, hd⟩
  apply (blamesOneOf_collectDeclaration hmid' hd).mono
  intro part hpart
  exact List.mem_flatMap.mpr ⟨d, hmem, hpart⟩

/-- Wherever a run of programs is, the error of a program that was read from a source is reported at
    a stretch of that source which is not empty. Without its blanks, this starts with the name that
    the error is about; if the error is about a size, it is a literal of the size. -/
theorem collect_culprit {target : Target} {r₀ : Registry} (h₀ : ofTarget target = .ok r₀)
    {ps : List Program} (hps : ∀ q ∈ ps, q.Plain) {source : String}
    (hsource : Program.ofSource source = .ok p) (h : (r₀.collectAll ps).collect p = (.error e, c)) :
    e.span.start < e.span.stop ∧ e.span.stop ≤ source.utf8ByteSize ∧
      ∃ text, e.span.Covers source.toList text ∧ e.value.IsAbout text := by
  have hr₀ : Consed r₀ := by
    rw [← (ofTarget_eq_ok_iff.mp h₀).2]
    exact consed_initial target
  have hr := (carries_collectAll steadfastOn_consed hr₀ hps).1
  rcases hr.blamesOneOf_collect (Program.plain_of_ofSource hsource) h with ⟨part, hpart, hblames⟩
  rcases Program.shownIn_of_ofSource hsource part hpart with ⟨text, hne, hcovers, htext⟩
  rw [← hblames.span] at hcovers
  rcases hcovers with ⟨before, after, hchars, hstart, hstop⟩
  have hpos := utf8Length_pos hne
  have hsize : utf8Length source.toList =
      utf8Length before + (utf8Length text + utf8Length after) := by
    rw [hchars, utf8Length_append, utf8Length_append]
  rw [utf8Length_toList] at hsize
  refine ⟨by omega, by omega, text, ⟨before, after, hchars, hstart, hstop⟩, ?_⟩
  exact hblames.about text htext

/-- A method that is written with blanks in its name, and a size with an underscore. -/
theorem collect_culprit_setter :
    let read (source : String) := (Program.ofSource source).toOption.getD []
    let ring := read "class Ring\n  def []=(at: Int)\nend"
    let setter := "# é\nclass Ring\n  def [ ] =(one: Ring)\nend"
    let meter := "primitive Meter < Value : i32 1_0"
    let r := (initial .host64).collectAll [ring, read setter]
    (r.collect (read setter)).1 = .error ⟨.duplicateMethod "Ring" "[]=", ⟨22, 27⟩⟩ ∧
      (∃ text, Span.Covers ⟨22, 27⟩ setter.toList text ∧
        DeclarationError.IsAbout (.duplicateMethod "Ring" "[]=") text) ∧
      (r.collect (read meter)).1 =
        .error ⟨.layout (.layoutMismatch "Meter" .i32 10 4), ⟨30, 33⟩⟩ ∧
      ∃ text, Span.Covers ⟨30, 33⟩ meter.toList text ∧
        DeclarationError.IsAbout (.layout (.layoutMismatch "Meter" .i32 10 4)) text := by
  intro read ring setter meter r
  have h₀ : ofTarget .host64 = .ok (initial .host64) := ofTarget_eq_ok_iff.mpr ⟨by decide, rfl⟩
  have hps : ∀ q ∈ [ring, read setter], q.Plain := by decide +kernel
  have hread (source : String) (h : (Program.ofSource source).isOk = true) :
      Program.ofSource source = .ok (read source) := by
    show _ = Except.ok ((Program.ofSource source).toOption.getD [])
    cases hp : Program.ofSource source with
    | ok p => rfl
    | error e =>
      rw [hp] at h
      cases h
  have hrefused {p : Program} {e : CollectError} (h : (r.collect p).1 = .error e) :
      r.collect p = (.error e, (r.collect p).2) := Prod.ext h rfl
  have hsetter : (r.collect (read setter)).1 =
      .error ⟨.duplicateMethod "Ring" "[]=", ⟨22, 27⟩⟩ := by decide +kernel
  have hmeter : (r.collect (read meter)).1 =
      .error ⟨.layout (.layoutMismatch "Meter" .i32 10 4), ⟨30, 33⟩⟩ := by decide +kernel
  have hculprit :=
    collect_culprit h₀ hps (hread setter (by decide +kernel)) (hrefused hsetter)
  have hculprit' :=
    collect_culprit h₀ hps (hread meter (by decide +kernel)) (hrefused hmeter)
  exact ⟨hsetter, hculprit.2.2, hmeter, hculprit'.2.2⟩

end Registry

end DeclLang
