import DeclLang.Proofs.Collection.Types
import DeclLang.Proofs.Collection.Uses
import DeclLang.Proofs.Registry.Retarget

/-!
# Targets: what a program means on one target and on another

The same programs are collected on two targets. As long as they declare no pointers, each of them
is accepted on both or refused on both, for the same reason, and the registries that it leaves
differ in the sizes of `String` and `Pointer` only (`outcomes_retarget`). A program that declares a
pointer states a size for it, which is wrong on all targets but one.
-/

namespace DeclLang

/-- Some primitive of the program is represented as a pointer. -/
def Program.DeclaresPointer (p : Program) : Prop :=
  ∃ d ∈ p, ∃ name superclass repr size, d.value = .primitive name superclass repr size ∧
    repr.value = Representation.ptr.spelling

def Collection.retarget (t : Target) (c : Collection) : Collection :=
  { c with registry := c.registry.retarget t }

namespace Collect

variable {α α' β β' : Type} {t : Target}

/-- What one step does in a registry, another does in the registry on another target. What they
    return may depend on the target as well. -/
def Mirrors (t : Target) (g : α → α') (m : Collect α) (m' : Collect α') : Prop :=
  ∀ c, outcome m' (c.retarget t) = ((outcome m c).1.map g, (outcome m c).2.retarget t)

/-! ## Sequences -/

theorem mirrors_pure (g : α → α') (a : α) : Mirrors t g (pure a) (pure (g a)) :=
  fun _ => rfl

theorem mirrors_refuse (g : α → α') (error : DeclarationError) (span : Span) :
    Mirrors t g (refuse error span) (refuse error span) :=
  fun _ => rfl

theorem mirrors_registry : Mirrors t (·.retarget t) registry registry :=
  fun _ => rfl

theorem mirrors_modify {f : Collection → Collection}
    (hf : ∀ c : Collection, f (c.retarget t) = (f c).retarget t) :
    Mirrors t id (modify f : Collect PUnit) (modify f) := by
  intro c
  rw [outcome_modify, outcome_modify, hf]
  rfl

theorem mirrors_bind {g : α → α'} {h : β → β'} {m : Collect α} {m' : Collect α'}
    {f : α → Collect β} {f' : α' → Collect β'} (hm : Mirrors t g m m')
    (hf : ∀ a, Mirrors t h (f a) (f' (g a))) : Mirrors t h (m >>= f) (m' >>= f') := by
  intro c
  rw [outcome_bind, outcome_bind, hm c]
  rcases outcome m c with ⟨x, mid⟩
  cases x with
  | error e => rfl
  | ok a => exact hf a mid

theorem mirrors_mapM {f : α → Collect β} (hf : ∀ a, Mirrors t id (f a) (f a)) (l : List α) :
    Mirrors t id (l.mapM f) (l.mapM f) := by
  induction l with
  | nil => exact mirrors_pure id []
  | cons a l ih =>
    rw [List.mapM_cons]
    exact mirrors_bind (hf a) fun b => mirrors_bind ih fun bs => mirrors_pure id (b :: bs)

theorem mirrors_optionMapM {f : α → Collect β} (hf : ∀ a, Mirrors t id (f a) (f a))
    (o : Option α) : Mirrors t id (o.mapM f) (o.mapM f) := by
  cases o with
  | none => exact mirrors_pure id none
  | some a =>
    rw [Option.mapM_some, map_eq_pure_bind]
    exact mirrors_bind (hf a) fun b => mirrors_pure id (some b)

theorem mirrors_forM {f : α → Collect PUnit} {l : List α} (hf : ∀ a ∈ l, Mirrors t id (f a) (f a)) :
    Mirrors t id (l.forM f) (l.forM f) := by
  induction l with
  | nil => exact mirrors_pure id PUnit.unit
  | cons a l ih =>
    obtain ⟨ha, hl⟩ := List.forall_mem_cons.mp hf
    rw [List.forM_eq_forM, List.forM_cons]
    exact mirrors_bind ha fun _ => ih hl

/-! ## Operations -/

theorem mirrors_apply {blame : DeclarationError → Span}
    {operation : Registry → Except DeclarationError (α × Registry)}
    (h : ∀ r : Registry, operation (r.retarget t) =
      (operation r).map (Prod.map id (·.retarget t))) :
    Mirrors t id (apply blame operation) (apply blame operation) := by
  intro c
  have hregistry : (c.retarget t).registry = c.registry.retarget t := rfl
  rw [outcome_apply, outcome_apply, hregistry, h]
  cases operation c.registry <;> rfl

theorem mirrors_declare {blame : DeclarationError → Span}
    {operation : Registry → Except DeclarationError (TypeId × Registry)}
    (h : ∀ r : Registry, operation (r.retarget t) =
      (operation r).map (Prod.map id (·.retarget t))) :
    Mirrors t id (declare blame operation) (declare blame operation) :=
  mirrors_bind (mirrors_apply h) fun _ => mirrors_modify fun _ => rfl

theorem mirrors_update {span : Span} {operation : Registry → Except DeclarationError Registry}
    (h : ∀ r : Registry, operation (r.retarget t) = (operation r).map (·.retarget t)) :
    Mirrors t id (update span operation) (update span operation) := by
  refine mirrors_apply fun r => ?_
  rw [h]
  cases operation r <;> rfl

/-! ## Types -/

theorem mirrors_resolve (name : Ident) : Mirrors t id (resolve name) (resolve name) := by
  refine mirrors_bind mirrors_registry fun r => ?_
  rw [r.lookup?_retarget]
  cases r.lookup? name.value with
  | none => exact mirrors_refuse id _ _
  | some place => exact mirrors_pure id place

theorem mirrors_existing? (name : String) :
    Mirrors t (Option.map (·.retarget t)) (existing? name) (existing? name) := by
  refine mirrors_bind mirrors_registry fun r => ?_
  have hfound : ((r.retarget t).lookup? name).bind (r.retarget t).get? =
      ((r.lookup? name).bind r.get?).map (·.retarget t) := by
    rw [r.lookup?_retarget]
    cases r.lookup? name with
    | none => rfl
    | some place => exact r.get?_retarget place
  rw [hfound]
  exact mirrors_pure _ _

theorem mirrors_refuseExisting (name : Ident) (e : Entry) :
    Mirrors t id (refuseExisting name e : Collect α) (refuseExisting name (e.retarget t)) := by
  unfold refuseExisting
  rw [e.label_retarget]
  exact mirrors_refuse id _ _

theorem mirrors_reopenClass (c : ClassHeader) (stated : Option TypeId) (e : Entry) :
    Mirrors t id (reopenClass c stated e) (reopenClass c stated (e.retarget t)) := by
  unfold reopenClass
  rw [e.isClassLike_retarget, e.superclass?_retarget]
  split
  · exact mirrors_refuseExisting c.name e
  · split
    · exact mirrors_pure id ()
    · refine mirrors_bind mirrors_registry fun r => ?_
      rw [r.nameOf_retarget]
      exact mirrors_refuse id _ _

theorem mirrors_declareClass (c : ClassHeader) :
    Mirrors t id (declareClass c) (declareClass c) := by
  refine mirrors_bind (mirrors_optionMapM mirrors_resolve c.superclass) fun stated => ?_
  refine mirrors_bind (mirrors_existing? c.name.value) fun found => ?_
  cases found with
  | none => exact mirrors_declare fun r => r.declareObject_retarget _ _
  | some e => exact mirrors_reopenClass c stated e

theorem mirrors_declareModule (name : Ident) :
    Mirrors t id (declareModule name) (declareModule name) := by
  refine mirrors_bind (mirrors_existing? name.value) fun found => ?_
  cases found with
  | none => exact mirrors_declare fun r => r.declareModule_retarget _
  | some e =>
    dsimp only [Option.map_some]
    rw [e.isModule_retarget]
    split
    · exact mirrors_pure id ()
    · exact mirrors_refuseExisting name e

theorem mirrors_declareLib (name : Ident) (libname : Option (Located String)) :
    Mirrors t id (declareLib name libname) (declareLib name libname) :=
  mirrors_declare fun r => r.declareLib_retarget _ _

/-- A primitive that is not a pointer has the same size on every target. -/
theorem mirrors_declarePrimitive {name superclass repr : Ident} {size : Located Nat}
    (h : repr.value ≠ Representation.ptr.spelling) :
    Mirrors t id (declarePrimitive name superclass repr size)
      (declarePrimitive name superclass repr size) := by
  refine mirrors_bind (mirrors_existing? name.value) fun found => ?_
  cases found with
  | some e => exact mirrors_refuseExisting name e
  | none =>
    refine mirrors_bind (mirrors_resolve superclass) fun super => ?_
    cases htag : Representation.ofSpelling? repr.value with
    | none => exact mirrors_refuse id _ _
    | some tag =>
      refine mirrors_declare fun r => r.declarePrimitive_retarget _ _ ?_ _
      rintro rfl
      exact h (Representation.spelling_of_ofSpelling? htag).symm

theorem isReady_retarget (c : ClassHeader) (r : Registry) :
    c.isReady (r.retarget t) = c.isReady r := by
  unfold ClassHeader.isReady
  cases c.superclass with
  | none => rfl
  | some superclass => exact congrArg Option.isSome (r.lookup?_retarget superclass.value)

theorem mirrors_declareType {d : Declaration}
    (h : ∀ name superclass repr size, d = .primitive name superclass repr size →
      repr.value ≠ Representation.ptr.spelling) :
    Mirrors t id (declareType d) (declareType d) := by
  cases d with
  | classBlock name superclass members =>
    refine mirrors_bind mirrors_registry fun r => ?_
    rw [isReady_retarget]
    split
    · exact mirrors_bind (mirrors_declareClass _) fun _ => mirrors_pure id []
    · exact mirrors_pure id _
  | moduleBlock name members =>
    exact mirrors_bind (mirrors_declareModule name) fun _ => mirrors_pure id []
  | libBlock name libname functions =>
    exact mirrors_bind (mirrors_declareLib name libname) fun _ => mirrors_pure id []
  | primitive name superclass repr size =>
    exact mirrors_bind (mirrors_declarePrimitive (h _ _ _ _ rfl)) fun _ => mirrors_pure id []
  | method decl => exact mirrors_pure id []
  | inclusion module => exact mirrors_pure id []

theorem mirrors_declareInOrder {p : Program} (h : ¬ p.DeclaresPointer) :
    Mirrors t id (declareInOrder p) (declareInOrder p) := by
  induction p with
  | nil => exact mirrors_pure id []
  | cons d ds ih =>
    have hds : ¬ Program.DeclaresPointer ds := fun ⟨d', hd', hpointer⟩ =>
      h ⟨d', List.mem_cons_of_mem _ hd', hpointer⟩
    have hd : ∀ name superclass repr size, d.value = .primitive name superclass repr size →
        repr.value ≠ Representation.ptr.spelling := fun _ _ _ _ hvalue hrepr =>
      h ⟨d, List.mem_cons_self, _, _, _, _, hvalue, hrepr⟩
    exact mirrors_bind (mirrors_declareType hd) fun waiting =>
      mirrors_bind (ih hds) fun others => mirrors_pure id (waiting ++ others)

theorem mirrors_declareReady (cs : List ClassHeader) :
    Mirrors t id (declareReady cs) (declareReady cs) := by
  induction cs with
  | nil => exact mirrors_pure id []
  | cons c cs ih =>
    refine mirrors_bind mirrors_registry fun r => ?_
    rw [isReady_retarget]
    split
    · exact mirrors_bind (mirrors_declareClass c) fun _ => ih
    · exact mirrors_bind ih fun waiting => mirrors_pure id (c :: waiting)

theorem mirrors_declareWaiting (cs : List ClassHeader) :
    Mirrors t id (declareWaiting cs) (declareWaiting cs) := by
  -- Along the rounds: as many classes wait on both targets, so both go on or both refuse.
  fun_induction declareWaiting cs with
  | case1 => exact mirrors_pure id ()
  | case2 c cs ih =>
    refine mirrors_bind (mirrors_declareReady (c :: cs)) fun waiting => ?_
    dsimp only [id]
    split
    · rename_i h
      exact ih waiting h
    · exact mirrors_refuse id _ _

/-! ## Members -/

theorem mirrors_resolveType (type : TypeExpr) :
    Mirrors t id (resolveType type) (resolveType type) := by
  induction type with
  | named name => exact mirrors_resolve name
  | generic base arg span ih =>
    refine mirrors_bind (mirrors_resolve _) fun template => ?_
    refine mirrors_bind ih fun element => ?_
    exact mirrors_apply fun r => r.instantiate_retarget template element

theorem mirrors_defineMethod (owner : Owner) (m : MethodDecl) :
    Mirrors t id (defineMethod owner m) (defineMethod owner m) := by
  have hparameter (p : Parameter) : Mirrors t id (resolveParameter p) (resolveParameter p) :=
    mirrors_bind (mirrors_resolveType p.type) fun type =>
      mirrors_pure id (⟨p.name, type⟩ : SignatureParameter)
  refine mirrors_bind (mirrors_mapM hparameter m.parameters) fun parameters => ?_
  refine mirrors_bind (mirrors_optionMapM mirrors_resolveType m.returns) fun returns => ?_
  exact mirrors_update fun r => r.defineMethod_retarget owner _

theorem mirrors_mixIn (owner : Owner) (module : Ident) :
    Mirrors t id (mixIn owner module) (mixIn owner module) :=
  mirrors_bind (mirrors_resolve module) fun place =>
    mirrors_update fun r => r.mixIn_retarget owner place

theorem mirrors_collectMember (owner : Owner) (m : Member) :
    Mirrors t id (collectMember owner m) (collectMember owner m) := by
  cases m with
  | method decl => exact mirrors_defineMethod owner decl
  | inclusion module => exact mirrors_mixIn owner module

theorem mirrors_collectDeclaration (d : Declaration) :
    Mirrors t id (collectDeclaration d) (collectDeclaration d) := by
  have hmembers (name : Ident) (members : List (Located Member)) :
      Mirrors t id (collectMembers name members) (collectMembers name members) :=
    mirrors_bind (mirrors_resolve name) fun place =>
      mirrors_forM fun m _ => mirrors_collectMember (.type place) m.value
  cases d with
  | classBlock name superclass members => exact hmembers name members
  | moduleBlock name members => exact hmembers name members
  | libBlock name libname functions =>
    exact mirrors_bind (mirrors_resolve name) fun place =>
      mirrors_forM fun f _ => mirrors_defineMethod (.type place) f.value
  | primitive name superclass repr size => exact mirrors_pure id ()
  | method decl => exact mirrors_defineMethod .main decl
  | inclusion module => exact mirrors_mixIn .main module

/-- Both passes do the same on every target. -/
theorem mirrors_program {p : Program} (h : ¬ p.DeclaresPointer) :
    Mirrors t id (program p) (program p) := by
  have htypes : Mirrors t id (declareTypes p) (declareTypes p) :=
    mirrors_bind (mirrors_declareInOrder h) mirrors_declareWaiting
  exact mirrors_bind htypes fun _ => mirrors_forM fun d _ => mirrors_collectDeclaration d.value

/-- What every operation keeps is kept by programs that are collected one after the other. -/
theorem Steadfast.collectAll {R : Registry → Registry → Prop}
    (hR : Steadfast R) (r : Registry) (ps : List Program) : R r (r.collectAll ps) := by
  induction ps generalizing r with
  | nil => exact hR.refl r
  | cons p ps ih =>
    have hp := hR.on.keeps_program p (fun _ _ _ _ => trivial) ⟨r, 0⟩
    exact hR.trans hp (ih _)

end Collect

namespace Registry

variable {r : Registry} {t u : Target}

theorem collect_retarget (r : Registry) {p : Program} (h : ¬ p.DeclaresPointer) :
    (r.retarget t).collect p = ((r.collect p).1, (r.collect p).2.retarget t) := by
  have hmirrors := Collect.mirrors_program (t := t) h ⟨r, 0⟩
  have hid (x : Except CollectError Unit) : x.map id = x := by cases x <;> rfl
  rw [hid] at hmirrors
  exact hmirrors

/-- Programs that are collected one after the other: for each of them, whether it was accepted, and
    the registry that it left. -/
def outcomes (r : Registry) : List Program → List (Except CollectError Unit × Registry)
  | [] => []
  | p :: ps =>
    let (verdict, c) := r.collect p
    (verdict, c.registry) :: c.registry.outcomes ps

theorem outcomes_cons (r : Registry) (p : Program) (ps : List Program) :
    r.outcomes (p :: ps) =
      ((r.collect p).1, (r.collect p).2.registry) :: (r.collect p).2.registry.outcomes ps := rfl

theorem outcomes_eq_map_retarget (r : Registry) {ps : List Program}
    (h : ∀ p ∈ ps, ¬ p.DeclaresPointer) :
    (r.retarget t).outcomes ps = (r.outcomes ps).map fun step => (step.1, step.2.retarget t) := by
  induction ps generalizing r with
  | nil => rfl
  | cons p ps ih =>
    obtain ⟨hp, hps⟩ := List.forall_mem_cons.mp h
    rw [outcomes_cons, collect_retarget r hp, outcomes_cons, List.map_cons]
    exact congrArg _ (ih _ hps)

/-! ## Pointers -/

theorem Reachable.collectAll {r : Registry} (hr : Reachable r) (ps : List Program) :
    Reachable (r.collectAll ps) := by
  induction ps generalizing r with
  | nil => exact hr
  | cons p ps ih => exact ih (.program p hr)

/-- A pointer that is accepted was stated to be as large as the pointers of the target. -/
theorem size_of_pointer {r : Registry} (hr : Reachable r) {p : Program} {c : Collection}
    (h : r.collect p = (.ok (), c)) {d : Located Declaration} (hd : d ∈ p)
    {name superclass repr : Ident} {size : Located Nat}
    (hvalue : d.value = .primitive name superclass repr size)
    (hrepr : repr.value = Representation.ptr.spelling) :
    size.value = r.target.pointerSize := by
  obtain ⟨⟨⟩, mid, htypes, -⟩ := Collect.outcome_bind_eq_ok.mp h
  obtain ⟨count, hdeclared, -⟩ := Collect.declared_types hr.regular htypes
  have hheader : TypeHeader.ofPrimitive name superclass repr size ∈ p.headers :=
    List.mem_filterMap.mpr ⟨d, hd, by rw [hvalue]; rfl⟩
  obtain ⟨id, e, -, he, hkind⟩ := hdeclared.fits _ hheader
  obtain ⟨sup, -, hkind⟩ := Option.bind_eq_some_iff.mp hkind
  rw [hrepr, Representation.ofSpelling?_spelling, Option.map_some, Option.some.injEq] at hkind
  rw [(hdeclared.regular.sound_get? he).layout hkind.symm, hdeclared.retains.target]
  rfl

/-- Programs without pointers have the same outcome on two targets, one after the other: each of
    them is accepted on both or refused on both for the same reason, and each time the registries
    differ in the target and the sizes of `String` and `Pointer` only. A program that comes after
    them and declares a pointer is not accepted on both. -/
theorem outcomes_retarget {t u : Target} {r s : Registry} (hr : ofTarget t = .ok r)
    (hs : ofTarget u = .ok s) {ps : List Program} (hps : ∀ p ∈ ps, ¬ p.DeclaresPointer) :
    s.outcomes ps = (r.outcomes ps).map (fun step => (step.1, step.2.retarget u)) ∧
    ∀ p, p.DeclaresPointer → t ≠ u →
      ¬ (((r.collectAll ps).collect p).1 = .ok () ∧ ((s.collectAll ps).collect p).1 = .ok ()) := by
  constructor
  · obtain ⟨-, rfl⟩ := ofTarget_eq_ok_iff.mp hr
    obtain ⟨-, rfl⟩ := ofTarget_eq_ok_iff.mp hs
    rw [← initial_retarget t u]
    exact outcomes_eq_map_retarget (initial t) hps
  · rintro p ⟨d, hd, name, superclass, repr, size, hvalue, hrepr⟩ hne ⟨hleft, hright⟩
    have hsize {v : Target} {w : Registry} (hw : ofTarget v = .ok w)
        (h : ((w.collectAll ps).collect p).1 = .ok ()) : size.value = v.pointerSize := by
      have hkept := (Collect.Steadfast.collectAll steadfast_extends w ps).target
      obtain ⟨-, rfl⟩ := ofTarget_eq_ok_iff.mp hw
      have hreach : Reachable (initial v) := .initial hw
      have hstated := size_of_pointer (hreach.collectAll ps) (Prod.ext h rfl) hd hvalue hrepr
      rw [hstated, hkept]
      rfl
    -- The one size that the program states would be that of both targets.
    have hsame : t.pointerSize = u.pointerSize := (hsize hr hleft).symm.trans (hsize hs hright)
    cases t
    cases u
    exact hne (congrArg Target.mk hsame)

/-- A class with a method on arrays of strings. -/
def boxOfStrings : Program :=
  let name (text : String) : Ident := ⟨text, .point 0⟩
  let at0 {α : Type} (a : α) : Located α := ⟨a, .point 0⟩
  let strings : TypeExpr := .generic "Array" (.named (name "String")) (.point 0)
  let fill : MethodDecl := ⟨name "fill", [⟨"with", strings, .point 0⟩], none⟩
  [at0 (.classBlock (name "Box") none [at0 (.method fill)])]

/-- A pointer of eight bytes. -/
def widePointer : Program :=
  [⟨.primitive ⟨"Handle", .point 0⟩ ⟨"Value", .point 0⟩ ⟨"ptr", .point 0⟩ ⟨8, .point 0⟩, .point 0⟩]

/-- A class means the same on both targets; a pointer of eight bytes is one on the target with wide
    pointers only. -/
theorem outcomes_retarget_widePointer :
    let r := initial .host64
    let s := initial .host32
    s.outcomes [boxOfStrings] =
      (r.outcomes [boxOfStrings]).map (fun step => (step.1, step.2.retarget .host32)) ∧
    ((r.collectAll [boxOfStrings]).collect widePointer).1 = .ok () ∧
    ((s.collectAll [boxOfStrings]).collect widePointer).1 ≠ .ok () := by
  intro r s
  have hr : ofTarget .host64 = .ok r := ofTarget_eq_ok_iff.mpr ⟨by decide, rfl⟩
  have hs : ofTarget .host32 = .ok s := ofTarget_eq_ok_iff.mpr ⟨by decide, rfl⟩
  have hbox : ∀ p ∈ [boxOfStrings], ¬ p.DeclaresPointer := by
    rw [List.forall_mem_singleton]
    rintro ⟨d, hd, name, superclass, repr, size, hvalue, -⟩
    rw [List.mem_singleton.mp hd] at hvalue
    cases hvalue
  have hpointer : widePointer.DeclaresPointer :=
    ⟨_, List.mem_singleton_self _, _, _, _, _, rfl, by decide⟩
  have haccepted : ((r.collectAll [boxOfStrings]).collect widePointer).1 = .ok () :=
    ok_of_isOk (by decide +kernel) ()
  obtain ⟨hsame, hrefused⟩ := outcomes_retarget hr hs hbox
  exact ⟨hsame, haccepted, fun hboth => hrefused _ hpointer (by decide) ⟨haccepted, hboth⟩⟩

end Registry

end DeclLang
