import DeclLang.Proofs.Registry.Run

/-!
# Steps: what collecting does to a registry

Collecting changes a registry by single operations only. So a relation between registries that every
operation keeps is kept by a whole program, accepted or not (`Keeps`, `keeps_program`). A step that
succeeds is taken apart by `outcome_bind_eq_ok`.
-/

namespace DeclLang

namespace Collect

variable {α β : Type}

/-- What a step returns, and what it leaves behind. -/
def outcome (m : Collect α) (c : Collection) : Except CollectError α × Collection :=
  m.run.run c

/-! ## Outcomes -/

@[simp] theorem outcome_pure (a : α) (c : Collection) :
    outcome (pure a : Collect α) c = (.ok a, c) := rfl

@[simp] theorem outcome_refuse (error : DeclarationError) (span : Span) (c : Collection) :
    outcome (refuse error span : Collect α) c = (.error ⟨error, span⟩, c) := rfl

@[simp] theorem outcome_registry (c : Collection) :
    outcome registry c = (.ok c.registry, c) := rfl

@[simp] theorem outcome_modify (f : Collection → Collection) (c : Collection) :
    outcome (modify f) c = (.ok (), f c) := rfl

theorem outcome_bind (m : Collect α) (f : α → Collect β) (c : Collection) :
    outcome (m >>= f) c =
      match outcome m c with
      | (.ok a, c') => outcome (f a) c'
      | (.error e, c') => (.error e, c') := by
  show (ExceptT.bindCont f ((outcome m c).1)).run (outcome m c).2 = _
  rcases outcome m c with ⟨x, c'⟩
  cases x <;> rfl

/-- A step succeeds when both its parts do. -/
theorem outcome_bind_eq_ok {m : Collect α} {f : α → Collect β} {c c' : Collection} {b : β} :
    outcome (m >>= f) c = (.ok b, c') ↔
      ∃ a mid, outcome m c = (.ok a, mid) ∧ outcome (f a) mid = (.ok b, c') := by
  rw [outcome_bind]
  rcases outcome m c with ⟨x, mid⟩
  cases x with
  | ok a =>
    constructor
    · exact fun h => ⟨a, mid, rfl, h⟩
    · rintro ⟨a', mid', h, h'⟩
      simp only [Prod.mk.injEq, Except.ok.injEq] at h
      rcases h with ⟨rfl, rfl⟩
      exact h'
  | error e => simp

theorem outcome_pure_eq_ok {a b : α} {c c' : Collection} :
    outcome (pure a : Collect α) c = (.ok b, c') ↔ a = b ∧ c = c' := by
  rw [outcome_pure, Prod.mk.injEq, Except.ok.injEq]

theorem outcome_registry_eq_ok {c c' : Collection} {r : Registry} :
    outcome registry c = (.ok r, c') ↔ c.registry = r ∧ c = c' := by
  rw [outcome_registry, Prod.mk.injEq, Except.ok.injEq]

theorem outcome_apply (blame : DeclarationError → Span)
    (operation : Registry → Except DeclarationError (α × Registry)) (c : Collection) :
    outcome (apply blame operation) c =
      match operation c.registry with
      | .ok (a, r) => (.ok a, { c with registry := r })
      | .error e => (.error ⟨e, blame e⟩, c) := by
  rw [apply, outcome_bind, outcome_registry]
  dsimp only
  cases operation c.registry with
  | ok x => rfl
  | error e => rfl

theorem resolve_eq_ok {name : Ident} {id : TypeId} {c c' : Collection} :
    outcome (resolve name) c = (.ok id, c') ↔ c.registry.lookup? name.value = some id ∧ c = c' := by
  rw [resolve, outcome_bind, outcome_registry]
  dsimp only
  cases c.registry.lookup? name.value with
  | none => simp
  | some found => simp

/-! ## Relations that steps keep -/

/-- Whether it succeeds or not, a step leaves a registry that is related to the one it found. -/
def Keeps (R : Registry → Registry → Prop) (m : Collect α) : Prop :=
  ∀ c, R c.registry (outcome m c).2.registry

/-- A step that keeps a relation and returns, if anything, something with a property. -/
def KeepsWith (R : Registry → Registry → Prop) (Q : α → Prop) (m : Collect α) : Prop :=
  Keeps R m ∧ ∀ c a c', outcome m c = (.ok a, c') → Q a

/-- A relation between the registries of a run that holds across any number of steps when it holds
    across each of them. -/
structure Composable (R : Registry → Registry → Prop) : Prop where
  refl : ∀ r, R r r
  trans : ∀ {r s t}, R r s → R s t → R r t

namespace Composable

variable {R : Registry → Registry → Prop} (hR : Composable R)

include hR

theorem keeps_pure (a : α) : Keeps R (pure a : Collect α) :=
  fun c => hR.refl c.registry

theorem keeps_refuse (error : DeclarationError) (span : Span) :
    Keeps R (refuse error span : Collect α) :=
  fun c => hR.refl c.registry

theorem keeps_registry : Keeps R registry :=
  fun c => hR.refl c.registry

theorem of_bind {m : Collect α} {f : α → Collect β} {c : Collection}
    (hm : R c.registry (outcome m c).2.registry)
    (hf : ∀ a c', outcome m c = (.ok a, c') → R c'.registry (outcome (f a) c').2.registry) :
    R c.registry (outcome (m >>= f) c).2.registry := by
  rw [outcome_bind]
  -- A refusal in the first part ends the step: what it has done so far is all that was done.
  generalize outcome m c = x at hm hf
  obtain ⟨x, mid⟩ := x
  cases x with
  | ok a => exact hR.trans hm (hf a mid rfl)
  | error e => exact hm

theorem keeps_bind_with {m : Collect α} {f : α → Collect β} {Q : α → Prop} (hm : KeepsWith R Q m)
    (hf : ∀ a, Q a → Keeps R (f a)) : Keeps R (m >>= f) :=
  fun c => hR.of_bind (hm.1 c) fun a c' h => hf a (hm.2 c a c' h) c'

theorem keeps_bind {m : Collect α} {f : α → Collect β} (hm : Keeps R m) (hf : ∀ a, Keeps R (f a)) :
    Keeps R (m >>= f) :=
  hR.keeps_bind_with (Q := fun _ => True) ⟨hm, fun _ _ _ _ => trivial⟩ fun a _ => hf a

theorem keepsWith_pure {Q : α → Prop} {a : α} (ha : Q a) : KeepsWith R Q (pure a : Collect α) := by
  refine ⟨hR.keeps_pure a, fun c b c' h => ?_⟩
  rw [← (outcome_pure_eq_ok.mp h).1]
  exact ha

theorem keepsWith_bind {m : Collect α} {f : α → Collect β} {Q : α → Prop} {Q' : β → Prop}
    (hm : KeepsWith R Q m) (hf : ∀ a, Q a → KeepsWith R Q' (f a)) : KeepsWith R Q' (m >>= f) := by
  refine ⟨hR.keeps_bind_with hm fun a ha => (hf a ha).1, fun c b c' h => ?_⟩
  obtain ⟨a, mid, ha, hb⟩ := outcome_bind_eq_ok.mp h
  exact (hf a (hm.2 c a mid ha)).2 mid b c' hb

theorem keepsWith_bind_of_keeps {m : Collect α} {f : α → Collect β} {Q : β → Prop}
    (hm : Keeps R m) (hf : ∀ a, KeepsWith R Q (f a)) : KeepsWith R Q (m >>= f) :=
  hR.keepsWith_bind (Q := fun _ => True) ⟨hm, fun _ _ _ _ => trivial⟩ fun a _ => hf a

theorem keeps_map {m : Collect α} (g : α → β) (hm : Keeps R m) : Keeps R (g <$> m) := by
  rw [map_eq_pure_bind]
  exact hR.keeps_bind hm fun a => hR.keeps_pure (g a)

theorem keeps_forM {f : α → Collect PUnit} {l : List α} (hf : ∀ a ∈ l, Keeps R (f a)) :
    Keeps R (l.forM f) := by
  induction l with
  | nil => exact hR.keeps_pure _
  | cons a l ih =>
    rw [List.forM_eq_forM, List.forM_cons]
    obtain ⟨ha, hl⟩ := List.forall_mem_cons.mp hf
    exact hR.keeps_bind ha fun _ => ih hl

theorem keeps_mapM {f : α → Collect β} {l : List α} (hf : ∀ a, Keeps R (f a)) :
    Keeps R (l.mapM f) := by
  induction l with
  | nil =>
    rw [List.mapM_nil]
    exact hR.keeps_pure _
  | cons a l ih =>
    rw [List.mapM_cons]
    exact hR.keeps_bind (hf a) fun b => hR.keeps_bind ih fun bs => hR.keeps_pure (b :: bs)

theorem keeps_optionMapM {f : α → Collect β} {o : Option α} (hf : ∀ a, Keeps R (f a)) :
    Keeps R (o.mapM f) := by
  cases o with
  | none => exact hR.keeps_pure none
  | some a => exact hR.keeps_map some (hf a)

/-- An operation of the registry is applied whole or not at all. -/
theorem keeps_apply {blame : DeclarationError → Span}
    {operation : Registry → Except DeclarationError (α × Registry)}
    (hoperation : ∀ {r s a}, operation r = .ok (a, s) → R r s) :
    Keeps R (apply blame operation) := by
  intro c
  rw [outcome_apply]
  cases hx : operation c.registry with
  | error e => exact hR.refl c.registry
  | ok x => exact hoperation hx

-- Counting the declaration does not touch the registry.
theorem keeps_declare {blame : DeclarationError → Span}
    {operation : Registry → Except DeclarationError (TypeId × Registry)}
    (hoperation : ∀ {r s a}, operation r = .ok (a, s) → R r s) :
    Keeps R (declare blame operation) :=
  hR.keeps_bind (hR.keeps_apply hoperation) fun _ => fun c => hR.refl c.registry

theorem keeps_update {span : Span} {operation : Registry → Except DeclarationError Registry}
    (hoperation : ∀ {r s}, operation r = .ok s → R r s) : Keeps R (update span operation) := by
  refine hR.keeps_apply fun {r s a} h => ?_
  cases hx : operation r with
  | error e =>
    rw [hx] at h
    cases h
  | ok s' =>
    rw [hx] at h
    cases h
    exact hoperation hx

theorem keeps_resolve (name : Ident) : Keeps R (resolve name) := by
  refine hR.keeps_bind hR.keeps_registry fun r => ?_
  split
  · exact hR.keeps_pure _
  · exact hR.keeps_refuse _ _

theorem keeps_existing? (name : String) : Keeps R (existing? name) :=
  hR.keeps_bind hR.keeps_registry fun _ => hR.keeps_pure _

theorem keeps_reopenClass (c : ClassHeader) (stated : Option TypeId) (e : Entry) :
    Keeps R (reopenClass c stated e) := by
  unfold reopenClass
  split
  · exact hR.keeps_refuse _ _
  · split
    · exact hR.keeps_pure _
    · exact hR.keeps_bind hR.keeps_registry fun _ => hR.keeps_refuse _ _

end Composable

end Collect

/-- The operations by which collecting adds types, whose names have a property, and mixes modules
    in. -/
def Operation.Collects (N : String → Prop) : Operation → Prop
  | .declareObject name _ | .declareModule name | .declarePrimitive name _ _ _
  | .declareLib name _ => N name
  | .mixIn .. => True
  | .defineMethod .. | .specialize .. | .instantiate .. | .arrayOf _ | .rebindElement .. => False

/-- The name of the type that a declaration declares or re-opens. -/
def Declaration.typeName? : Declaration → Option String
  | .classBlock name _ _ | .moduleBlock name _ | .libBlock name _ _ | .primitive name _ _ _ =>
    some name.value
  | .method _ | .inclusion _ => none

def Member.method? : Member → Option MethodDecl
  | .method decl => some decl
  | .inclusion _ => none

/-- The methods and foreign functions in a declaration. -/
def Declaration.methods : Declaration → List MethodDecl
  | .classBlock _ _ members | .moduleBlock _ members => members.filterMap (·.value.method?)
  | .libBlock _ _ functions => functions.map (·.value)
  | .method decl => [decl]
  | .primitive .. | .inclusion _ => []

/-- Whom a declaration adds its members to: the main module, or the type that it names. -/
def Declaration.AddsTo (r : Registry) (d : Declaration) : Owner → Prop
  | .main => True
  | .type id => ∃ name ∈ d.typeName?, r.lookup? name = some id

namespace Collect

variable {α β : Type}

/-- A relation that holds across every operation that is not refused. -/
structure Steadfast (R : Registry → Registry → Prop) : Prop extends Composable R where
  operation : ∀ {r s} (op : Operation), op.apply r = .ok s → R r s

/-- A relation that holds across every operation that collecting uses, other than for methods, as
    long as the types that are declared have names with a property. -/
structure DeclaresOn (N : String → Prop) (R : Registry → Registry → Prop) : Prop
    extends Composable R where
  operation : ∀ {r s} (op : Operation), op.Collects N → op.apply r = .ok s → R r s

/-- One that holds across all that collecting does, whatever the methods are. -/
structure SteadfastOn (N : String → Prop) (R : Registry → Registry → Prop) : Prop
    extends DeclaresOn N R where
  keeps_resolveType : ∀ t, Keeps R (resolveType t)
  keeps_defineMethod : ∀ owner m, Keeps R (defineMethod owner m)

/-- Of all operations, resolving a type only makes instances. -/
theorem Composable.keeps_resolveType {R : Registry → Registry → Prop} (hR : Composable R)
    (hinstantiate : ∀ {r s template element id},
      r.instantiate template element = .ok (id, s) → R r s) (t : TypeExpr) :
    Keeps R (resolveType t) := by
  induction t with
  | named name => exact hR.keeps_resolve name
  | generic base arg span ih =>
    refine hR.keeps_bind (hR.keeps_resolve _) fun template => ?_
    exact hR.keeps_bind ih fun element => hR.keeps_apply hinstantiate

namespace Composable

variable {R : Registry → Registry → Prop} (hR : Composable R)
  (hresolve : ∀ t, Keeps R (resolveType t))

include hR hresolve

theorem keeps_resolveParameter (p : Parameter) : Keeps R (resolveParameter p) :=
  hR.keeps_bind (hresolve p.type) fun _ => hR.keeps_pure _

/-- A method is added once its types are resolved. -/
theorem keeps_defineMethod {owner : Owner}
    (hdefine : ∀ {r s signature}, r.defineMethod owner signature = .ok s → R r s)
    (m : MethodDecl) : Keeps R (defineMethod owner m) := by
  refine hR.keeps_bind (hR.keeps_mapM (hR.keeps_resolveParameter hresolve)) fun parameters => ?_
  refine hR.keeps_bind (hR.keeps_optionMapM hresolve) fun returns => ?_
  exact hR.keeps_update hdefine

end Composable

theorem keeps_collectMember {R : Registry → Registry → Prop} {owner : Owner}
    (hmixIn : ∀ module, Keeps R (mixIn owner module)) (m : Member)
    (hm : ∀ decl ∈ m.method?, Keeps R (defineMethod owner decl)) :
    Keeps R (collectMember owner m) := by
  cases m with
  | method decl => exact hm decl rfl
  | inclusion module => exact hmixIn module

namespace Composable

variable {R : Registry → Registry → Prop} (hR : Composable R)

include hR

theorem keeps_mixIn {owner : Owner} (hmixIn : ∀ {r s id}, r.mixIn owner id = .ok s → R r s)
    (module : Ident) : Keeps R (mixIn owner module) :=
  hR.keeps_bind (hR.keeps_resolve module) fun _ => hR.keeps_update hmixIn

/-- What is added in a declaration is added to the owners that it names. -/
theorem of_collectDeclaration {c : Collection} (d : Declaration)
    (hmixIn : ∀ owner, d.AddsTo c.registry owner → ∀ module, Keeps R (mixIn owner module))
    (hdefine : ∀ owner, d.AddsTo c.registry owner → ∀ m ∈ d.methods,
      Keeps R (defineMethod owner m)) :
    R c.registry (outcome (collectDeclaration d) c).2.registry := by
  -- Where a block starts, its name stands for the owner of all its members.
  have hblock {name : Ident} {body : TypeId → Collect Unit} (hname : name.value ∈ d.typeName?)
      (hbody : ∀ id, d.AddsTo c.registry (.type id) → Keeps R (body id)) :
      R c.registry (outcome (resolve name >>= body) c).2.registry := by
    refine hR.of_bind (hR.keeps_resolve name c) fun id c' hresolve => ?_
    have ⟨hid, hc⟩ := resolve_eq_ok.mp hresolve
    rw [← hc]
    exact hbody id ⟨name.value, hname, hid⟩ c
  have hmembers {name : Ident} {members : List (Located Member)} (hname : name.value ∈ d.typeName?)
      (hmethods : ∀ m ∈ members.filterMap (·.value.method?), m ∈ d.methods) :
      R c.registry (outcome (collectMembers name members) c).2.registry := by
    refine hblock hname fun id hid => hR.keeps_forM fun m hm => ?_
    refine keeps_collectMember (hmixIn _ hid) m.value fun decl hdecl => ?_
    exact hdefine _ hid decl (hmethods decl (List.mem_filterMap.mpr ⟨m, hm, hdecl⟩))
  cases d with
  | classBlock name superclass members => exact hmembers rfl fun _ hm => hm
  | moduleBlock name members => exact hmembers rfl fun _ hm => hm
  | libBlock name libname functions =>
    exact hblock rfl fun id hid =>
      hR.keeps_forM fun f hf => hdefine _ hid f.value (List.mem_map_of_mem hf)
  | primitive name superclass repr size => exact hR.refl c.registry
  | method decl => exact hdefine .main trivial decl List.mem_cons_self c
  | inclusion module => exact hmixIn .main trivial module c

end Composable

theorem Steadfast.on {R : Registry → Registry → Prop} (hR : Steadfast R) :
    SteadfastOn (fun _ => True) R := by
  have hresolve := hR.keeps_resolveType fun {r s template element id} h => by
    refine hR.operation (.instantiate template element) ?_
    show (r.instantiate template element).map Prod.snd = .ok s
    rw [h]
    rfl
  refine ⟨⟨hR.toComposable, fun op _ => hR.operation op⟩, hresolve, fun owner => ?_⟩
  exact hR.keeps_defineMethod hresolve fun h => hR.operation (.defineMethod owner _) h

namespace DeclaresOn

variable {N : String → Prop} {R : Registry → Registry → Prop} (hR : DeclaresOn N R)

include hR

/-! ### Types -/

-- An operation that also returns the type that it declares.
theorem keeps_declareWith {blame : DeclarationError → Span}
    {operation : Registry → Except DeclarationError (TypeId × Registry)} (op : Operation)
    (hop : ∀ r, (operation r).map Prod.snd = op.apply r) (hN : op.Collects N) :
    Keeps R (declare blame operation) := by
  refine hR.keeps_declare fun {r s id} h => hR.operation op hN ?_
  rw [← hop r, h]
  rfl

theorem keeps_declareClass (c : ClassHeader) (hN : N c.name.value) : Keeps R (declareClass c) := by
  refine hR.keeps_bind (hR.keeps_optionMapM hR.keeps_resolve) fun stated => ?_
  refine hR.keeps_bind (hR.keeps_existing? _) fun e => ?_
  cases e with
  | none => exact hR.keeps_declareWith (.declareObject _ _) (fun _ => rfl) hN
  | some e => exact hR.keeps_reopenClass c stated e

theorem keeps_declareModule (name : Ident) (hN : N name.value) :
    Keeps R (declareModule name) := by
  refine hR.keeps_bind (hR.keeps_existing? _) fun e => ?_
  cases e with
  | none => exact hR.keeps_declareWith (.declareModule _) (fun _ => rfl) hN
  | some e =>
    dsimp only
    split
    · exact hR.keeps_pure _
    · exact hR.keeps_refuse _ _

theorem keeps_declareLib (name : Ident) (libname : Option (Located String)) (hN : N name.value) :
    Keeps R (declareLib name libname) :=
  hR.keeps_declareWith (.declareLib _ _) (fun _ => rfl) hN

theorem keeps_declarePrimitive (name superclass repr : Ident) (size : Located Nat)
    (hN : N name.value) : Keeps R (declarePrimitive name superclass repr size) := by
  refine hR.keeps_bind (hR.keeps_existing? _) fun e => ?_
  cases e with
  | some e => exact hR.keeps_refuse _ _
  | none =>
    refine hR.keeps_bind (hR.keeps_resolve _) fun super => ?_
    dsimp only
    split
    · exact hR.keeps_declareWith (.declarePrimitive _ _ _ _) (fun _ => rfl) hN
    · exact hR.keeps_refuse _ _

/-- What a class that waits is called has the property as well. -/
theorem keeps_declareType (d : Declaration) (hN : ∀ n ∈ d.typeName?, N n) :
    KeepsWith R (fun waiting => ∀ c ∈ waiting, N c.name.value) (declareType d) := by
  have hdone {m : Collect Unit} (hm : Keeps R m) :
      KeepsWith R (fun waiting : List ClassHeader => ∀ c ∈ waiting, N c.name.value)
        (m >>= fun _ => pure []) :=
    hR.keepsWith_bind_of_keeps hm fun _ => hR.keepsWith_pure (List.forall_mem_nil _)
  cases d with
  | classBlock name superclass members =>
    -- A class whose superclass is not there yet is only put aside.
    refine hR.keepsWith_bind_of_keeps hR.keeps_registry fun r => ?_
    split
    · exact hdone (hR.keeps_declareClass _ (hN _ rfl))
    · exact hR.keepsWith_pure (List.forall_mem_singleton.mpr (hN _ rfl))
  | moduleBlock name members => exact hdone (hR.keeps_declareModule name (hN _ rfl))
  | libBlock name libname functions => exact hdone (hR.keeps_declareLib name libname (hN _ rfl))
  | primitive name superclass repr size =>
    exact hdone (hR.keeps_declarePrimitive _ _ _ _ (hN _ rfl))
  | method decl => exact hR.keepsWith_pure (List.forall_mem_nil _)
  | inclusion module => exact hR.keepsWith_pure (List.forall_mem_nil _)

theorem keeps_declareInOrder (p : Program) (hN : ∀ d ∈ p, ∀ n ∈ d.value.typeName?, N n) :
    KeepsWith R (fun waiting => ∀ c ∈ waiting, N c.name.value) (declareInOrder p) := by
  induction p with
  | nil => exact hR.keepsWith_pure (List.forall_mem_nil _)
  | cons d ds ih =>
    obtain ⟨hd, hds⟩ := List.forall_mem_cons.mp hN
    refine hR.keepsWith_bind (hR.keeps_declareType d.value hd) fun waiting hwaiting => ?_
    refine hR.keepsWith_bind (ih hds) fun others hothers => ?_
    exact hR.keepsWith_pure (List.forall_mem_append.mpr ⟨hwaiting, hothers⟩)

theorem keeps_declareReady (cs : List ClassHeader) (hN : ∀ c ∈ cs, N c.name.value) :
    KeepsWith R (fun waiting => ∀ c ∈ waiting, N c.name.value) (declareReady cs) := by
  induction cs with
  | nil => exact hR.keepsWith_pure (List.forall_mem_nil _)
  | cons c cs ih =>
    obtain ⟨hc, hcs⟩ := List.forall_mem_cons.mp hN
    refine hR.keepsWith_bind_of_keeps hR.keeps_registry fun r => ?_
    split
    · exact hR.keepsWith_bind_of_keeps (hR.keeps_declareClass c hc) fun _ => ih hcs
    · refine hR.keepsWith_bind (ih hcs) fun others hothers => ?_
      exact hR.keepsWith_pure (List.forall_mem_cons.mpr ⟨hc, hothers⟩)

theorem keeps_declareWaiting (cs : List ClassHeader) (hN : ∀ c ∈ cs, N c.name.value) :
    Keeps R (declareWaiting cs) := by
  -- Along the rounds, which end when no class is left or none could be declared.
  fun_induction declareWaiting cs with
  | case1 => exact hR.keeps_pure _
  | case2 c cs ih =>
    refine hR.keeps_bind_with (hR.keeps_declareReady _ hN) fun waiting hwaiting => ?_
    split
    · rename_i h
      exact ih waiting h hwaiting
    · exact hR.keeps_refuse _ _

theorem keeps_declareTypes (p : Program) (hN : ∀ d ∈ p, ∀ n ∈ d.value.typeName?, N n) :
    Keeps R (declareTypes p) :=
  hR.keeps_bind_with (hR.keeps_declareInOrder p hN) fun waiting => hR.keeps_declareWaiting waiting

/-! ### Members and programs -/

theorem keeps_mixIn (owner : Owner) (module : Ident) : Keeps R (mixIn owner module) :=
  hR.toComposable.keeps_mixIn (fun h => hR.operation (.mixIn owner _) trivial h) module

theorem keeps_collectMember (owner : Owner) (m : Member)
    (hm : ∀ decl ∈ m.method?, Keeps R (defineMethod owner decl)) :
    Keeps R (collectMember owner m) :=
  Collect.keeps_collectMember (hR.keeps_mixIn owner) m hm

theorem keeps_collectDeclaration (d : Declaration)
    (hd : ∀ m ∈ d.methods, ∀ owner, Keeps R (defineMethod owner m)) :
    Keeps R (collectDeclaration d) :=
  fun _ => hR.of_collectDeclaration d (fun owner _ => hR.keeps_mixIn owner) fun owner _ m hm =>
    hd m hm owner

/-- Whatever holds across single operations and the methods of a program holds across the program,
    accepted or not. -/
theorem keeps_program (p : Program) (hN : ∀ d ∈ p, ∀ n ∈ d.value.typeName?, N n)
    (hp : ∀ d ∈ p, ∀ m ∈ d.value.methods, ∀ owner, Keeps R (defineMethod owner m)) :
    Keeps R (program p) :=
  hR.keeps_bind (hR.keeps_declareTypes p hN) fun _ =>
    hR.keeps_forM fun d hd => hR.keeps_collectDeclaration d.value (hp d hd)

end DeclaresOn

namespace SteadfastOn

variable {N : String → Prop} {R : Registry → Registry → Prop} (hR : SteadfastOn N R)

include hR

theorem keeps_resolveParameter (p : Parameter) : Keeps R (resolveParameter p) :=
  hR.toComposable.keeps_resolveParameter hR.keeps_resolveType p

theorem keeps_collectMember (owner : Owner) (m : Member) : Keeps R (collectMember owner m) :=
  hR.toDeclaresOn.keeps_collectMember owner m fun decl _ => hR.keeps_defineMethod owner decl

theorem keeps_collectDeclaration (d : Declaration) : Keeps R (collectDeclaration d) :=
  hR.toDeclaresOn.keeps_collectDeclaration d fun m _ owner => hR.keeps_defineMethod owner m

theorem keeps_program (p : Program) (hN : ∀ d ∈ p, ∀ n ∈ d.value.typeName?, N n) :
    Keeps R (program p) :=
  hR.toDeclaresOn.keeps_program p hN fun _ _ m _ owner => hR.keeps_defineMethod owner m

end SteadfastOn

end Collect

/-- What holds of the builtin types and across every operation holds after every run. -/
theorem Registry.Reachable.of_steadfast {P : Registry → Prop}
    (hinitial : ∀ target, P (Registry.initial target))
    (hP : Collect.Steadfast fun r s => P r → P s) {r : Registry} (h : Registry.Reachable r) :
    P r := by
  induction h with
  | @initial target r h =>
    rw [← (Registry.ofTarget_eq_ok_iff.mp h).2]
    exact hinitial target
  | @operation r op _ _ ih =>
    -- A refused operation leaves the registry as it was.
    unfold Registry.perform
    split
    · rename_i s hs
      exact hP.operation op hs ih
    · exact ih
  | @program r p _ ih => exact hP.on.keeps_program p (fun _ _ _ _ => trivial) ⟨r, 0⟩ ih

end DeclLang
