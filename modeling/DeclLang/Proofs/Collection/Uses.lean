import DeclLang.Proofs.Collection.Denotation

/-!
# Uses: where the types of a run are resolved

Collecting resolves types in many registries one after the other, and some of these belong to
programs that are refused later on. `Registry.typeUses` lists every use of `resolveType` in a run
together with the registry it finds. `typeUses_consed` compares any two of them.
-/

namespace DeclLang

/-- A use of `resolveType`: what is resolved, and what it is resolved in. -/
structure TypeUse where
  type : TypeExpr
  before : Collection

namespace TypeUse

def result (u : TypeUse) : Except CollectError TypeId :=
  (Collect.outcome (Collect.resolveType u.type) u.before).1

def after (u : TypeUse) : Collection :=
  (Collect.outcome (Collect.resolveType u.type) u.before).2

end TypeUse

/-! ## The uses of a step -/

namespace Collect

variable {α β : Type}

/-- The uses of what follows a step, unless the step fails. -/
def usesAfter (m : Collect α) (next : α → Collection → List TypeUse) (c : Collection) :
    List TypeUse :=
  match outcome m c with
  | (.ok a, c') => next a c'
  | (.error _, _) => []

/-- The uses of one step for each item of a list, up to the first that fails. -/
def usesOfEach (f : α → Collect β) (uses : α → Collection → List TypeUse) :
    List α → Collection → List TypeUse
  | [], _ => []
  | a :: as, c => uses a c ++ usesAfter (f a) (fun _ => usesOfEach f uses as) c

/-- The argument of a generic type is resolved by a use of its own, after the base was found. -/
def typeUses : TypeExpr → Collection → List TypeUse
  | .named name, c => [⟨.named name, c⟩]
  | .generic base arg span, c =>
    ⟨.generic base arg span, c⟩ :: usesAfter (resolve ⟨base, span⟩) (fun _ => typeUses arg) c

def methodUses (m : MethodDecl) (c : Collection) : List TypeUse :=
  usesOfEach resolveParameter (fun p => typeUses p.type) m.parameters c ++
    usesAfter (m.parameters.mapM resolveParameter)
      (fun _ c => m.returns.toList.flatMap (typeUses · c)) c

def memberUses : Member → Collection → List TypeUse
  | .method decl, c => methodUses decl c
  | .inclusion _, _ => []

def membersUses (name : Ident) (members : List (Located Member)) : Collection → List TypeUse :=
  usesAfter (resolve name) fun id =>
    usesOfEach (fun m => collectMember (.type id) m.value) (fun m => memberUses m.value) members

def declarationUses : Declaration → Collection → List TypeUse
  | .classBlock name _ members => membersUses name members
  | .moduleBlock name members => membersUses name members
  | .libBlock name _ functions =>
    usesAfter (resolve name) fun id =>
      usesOfEach (fun f => defineMethod (.type id) f.value) (fun f => methodUses f.value) functions
  | .method decl => methodUses decl
  | .primitive .. | .inclusion _ => fun _ => []

def programUses (p : Program) : Collection → List TypeUse :=
  usesAfter (declareTypes p) fun _ =>
    usesOfEach (fun d => collectDeclaration d.value) (fun d => declarationUses d.value) p

end Collect

namespace Registry

/-- The registry after programs that are collected one after the other, refused or not. -/
def collectAll (r : Registry) : List Program → Registry
  | [] => r
  | p :: ps => (r.collect p).2.registry.collectAll ps

/-- All uses of `resolveType` while programs are collected one after the other. -/
def typeUses (r : Registry) : List Program → List TypeUse
  | [] => []
  | p :: ps => Collect.programUses p ⟨r, 0⟩ ++ (r.collect p).2.registry.typeUses ps

end Registry

/-! ## What a use finds and leaves -/

/-- A use with a plain innermost name in a consed registry, whose result is kept up to `s`. -/
structure TypeUse.Within (s : Registry) (u : TypeUse) : Prop where
  leaf : IsPlain u.type.leaf
  consed : Registry.Consed u.before.registry
  kept : u.after.registry.Retains s

theorem TypeUse.Within.consed_after {s : Registry} {u : TypeUse} (h : u.Within s) :
    Registry.Consed u.after.registry :=
  (Registry.steadfastOn_consed.keeps_resolveType u.type u.before h.consed).1

theorem TypeUse.Within.mono {s t : Registry} {u : TypeUse} (h : u.Within s) (hst : s.Retains t) :
    u.Within t :=
  ⟨h.leaf, h.consed, h.kept.trans hst⟩

namespace Collect

open Registry

variable {α β : Type}

/-- All uses of a step that starts in a consed registry lie within the step. -/
def Encloses (m : Collect α) (uses : Collection → List TypeUse) : Prop :=
  ∀ c, Consed c.registry → ∀ u ∈ uses c, u.Within (outcome m c).2.registry

theorem encloses_nil (m : Collect α) : Encloses m fun _ => [] :=
  fun _ _ => List.forall_mem_nil _

section

variable {m : Collect α} {f : α → Collect β} {uses : Collection → List TypeUse}
  {next : α → Collection → List TypeUse}

/-- What a use leaves in the first part of a step is kept by the other part. -/
theorem encloses_first (hm : Keeps ConsedStep m) (hf : ∀ a, Keeps ConsedStep (f a))
    (huses : Encloses m uses) : Encloses (m >>= f) uses := by
  intro c hc u hu
  obtain ⟨hmid, -⟩ := hm c hc
  have hwithin := huses c hc u hu
  rw [outcome_bind]
  generalize outcome m c = x at hmid hwithin
  obtain ⟨x, mid⟩ := x
  cases x with
  | ok a => exact hwithin.mono (hf a mid hmid).2
  | error e => exact hwithin

theorem encloses_after (hm : Keeps ConsedStep m) (hnext : ∀ a, Encloses (f a) (next a)) :
    Encloses (m >>= f) (usesAfter m next) := by
  intro c hc u hu
  obtain ⟨hmid, -⟩ := hm c hc
  rw [outcome_bind]
  unfold usesAfter at hu
  generalize outcome m c = x at hu hmid
  obtain ⟨x, mid⟩ := x
  cases x with
  | ok a => exact hnext a mid hmid u hu
  | error e => cases hu

theorem encloses_bind (hm : Keeps ConsedStep m) (hf : ∀ a, Keeps ConsedStep (f a))
    (huses : Encloses m uses) (hnext : ∀ a, Encloses (f a) (next a)) :
    Encloses (m >>= f) fun c => uses c ++ usesAfter m next c := by
  intro c hc u hu
  obtain hu | hu := List.mem_append.mp hu
  · exact encloses_first hm hf huses c hc u hu
  · exact encloses_after hm hnext c hc u hu

end

theorem encloses_forM {f : α → Collect PUnit} {uses : α → Collection → List TypeUse} {l : List α}
    (hf : ∀ a ∈ l, Keeps ConsedStep (f a)) (huses : ∀ a ∈ l, Encloses (f a) (uses a)) :
    Encloses (l.forM f) (usesOfEach f uses l) := by
  induction l with
  | nil => exact encloses_nil _
  | cons a l ih =>
    rw [List.forM_eq_forM, List.forM_cons]
    obtain ⟨ha, hl⟩ := List.forall_mem_cons.mp hf
    obtain ⟨hause, hluses⟩ := List.forall_mem_cons.mp huses
    exact encloses_bind ha (fun _ => steadfastOn_consed.keeps_forM hl) hause
      fun _ => ih hl hluses

theorem encloses_mapM {f : α → Collect β} {uses : α → Collection → List TypeUse} {l : List α}
    (hf : ∀ a, Keeps ConsedStep (f a)) (huses : ∀ a ∈ l, Encloses (f a) (uses a)) :
    Encloses (l.mapM f) (usesOfEach f uses l) := by
  induction l with
  | nil => exact encloses_nil _
  | cons a l ih =>
    rw [List.mapM_cons]
    obtain ⟨hause, hluses⟩ := List.forall_mem_cons.mp huses
    have hlast (b : β) (bs : List β) : Keeps ConsedStep (pure (b :: bs) : Collect (List β)) :=
      steadfastOn_consed.keeps_pure (b :: bs)
    have hl := steadfastOn_consed.keeps_mapM (l := l) hf
    exact encloses_bind (hf a) (fun b => steadfastOn_consed.keeps_bind hl (hlast b)) hause
      fun b => encloses_first hl (hlast b) (ih hluses)

/-! ## The uses of a program -/

theorem encloses_typeUses {t : TypeExpr} (ht : IsPlain t.leaf) :
    Encloses (resolveType t) (typeUses t) := by
  have hself {t : TypeExpr} (ht : IsPlain t.leaf) {c : Collection} (hc : Consed c.registry) :
      TypeUse.Within (outcome (resolveType t) c).2.registry ⟨t, c⟩ :=
    ⟨ht, hc, .refl _⟩
  induction t with
  | named name =>
    intro c hc u hu
    rw [List.mem_singleton.mp hu]
    exact hself ht hc
  | generic base arg span ih =>
    intro c hc u hu
    obtain rfl | hu := List.mem_cons.mp hu
    · exact hself ht hc
    · have hbase := steadfastOn_consed.keeps_resolve ⟨base, span⟩
      refine encloses_after hbase (fun template start hstart u hu => ?_) c hc u hu
      -- The uses of the argument are followed by nothing but the making of the instance.
      have hwithin := ih ht start hstart u hu
      obtain ⟨hmid, -⟩ := steadfastOn_consed.keeps_resolveType arg start hstart
      rw [outcome_bind]
      cases harg : outcome (resolveType arg) start with
      | mk x mid =>
        rw [harg] at hwithin hmid
        cases x with
        | error e => exact hwithin
        | ok element =>
          have hmade := carries_instantiate ⟨.refl, .trans⟩ Consed.toRegular
            (fun hr helement hmake => hr.instantiate helement hmake) hstart harg template
            (fun _ => span)
          exact hwithin.mono (hmade hmid).2

theorem encloses_methodUses {owner : Owner} {m : MethodDecl}
    (hm : ∀ n ∈ m.typeNames, IsPlain n) : Encloses (defineMethod owner m) (methodUses m) := by
  have htype {t : TypeExpr} (ht : t ∈ m.types) : Encloses (resolveType t) (typeUses t) :=
    encloses_typeUses (hm _ (List.mem_flatMap.mpr ⟨t, ht, t.leaf_mem_names⟩))
  have hR := steadfastOn_consed
  have hparameters := hR.keeps_mapM (l := m.parameters) hR.keeps_resolveParameter
  have hreturns := hR.keeps_optionMapM (o := m.returns) hR.keeps_resolveType
  have hdefine (parameters : List SignatureParameter) (returns : Option TypeId) :
      Keeps ConsedStep (update m.name.span
        (·.defineMethod owner ⟨m.name.value, parameters, returns⟩)) :=
    hR.keeps_update consedStep_of_define
  refine encloses_bind hparameters
    (fun parameters => hR.keeps_bind hreturns (hdefine parameters)) ?_ fun parameters => ?_
  · refine encloses_mapM hR.keeps_resolveParameter fun p hp => ?_
    have hmem : p.type ∈ m.types := List.mem_append_left _ (List.mem_map_of_mem hp)
    exact encloses_first (hR.keeps_resolveType p.type) (fun _ => hR.keeps_pure _) (htype hmem)
  · refine encloses_first hreturns (hdefine parameters) ?_
    cases hret : m.returns with
    | none => exact encloses_nil _
    | some t =>
      have hmem : t ∈ m.types := List.mem_append_right _ (by rw [hret]; exact List.mem_cons_self)
      rw [Option.mapM_some, map_eq_pure_bind, Option.toList_some]
      simp only [List.flatMap_singleton]
      exact encloses_first (hR.keeps_resolveType t) (fun _ => hR.keeps_pure _) (htype hmem)

theorem encloses_memberUses {owner : Owner} {m : Member} (hm : ∀ n ∈ m.typeNames, IsPlain n) :
    Encloses (collectMember owner m) (memberUses m) := by
  cases m with
  | method decl => exact encloses_methodUses hm
  | inclusion module => exact encloses_nil _

theorem encloses_declarationUses {d : Declaration} (hd : ∀ n ∈ d.typeNames, IsPlain n) :
    Encloses (collectDeclaration d) (declarationUses d) := by
  have hR := steadfastOn_consed
  -- The names of a member are among those of its declaration.
  have hmembers {name : Ident} {members : List (Located Member)}
      (hd : ∀ n ∈ members.flatMap (·.value.typeNames), IsPlain n) :
      Encloses (collectMembers name members) (membersUses name members) := by
    refine encloses_after (hR.keeps_resolve name) fun id => ?_
    refine encloses_forM (fun m _ => hR.keeps_collectMember _ m.value) fun m hm => ?_
    exact encloses_memberUses fun n hn => hd n (List.mem_flatMap.mpr ⟨m, hm, hn⟩)
  cases d with
  | classBlock name superclass members =>
    exact hmembers fun n hn => hd n (List.mem_append_right _ hn)
  | moduleBlock name members => exact hmembers fun n hn => hd n (List.mem_cons_of_mem _ hn)
  | libBlock name libname functions =>
    refine encloses_after (hR.keeps_resolve name) fun id => ?_
    refine encloses_forM (fun f _ => hR.keeps_defineMethod _ f.value) fun f hf => ?_
    exact encloses_methodUses fun n hn =>
      hd n (List.mem_cons_of_mem _ (List.mem_flatMap.mpr ⟨f, hf, hn⟩))
  | primitive name superclass repr size => exact encloses_nil _
  | method decl => exact encloses_methodUses hd
  | inclusion module => exact encloses_nil _

theorem encloses_programUses {p : Program} (hp : p.Plain) :
    Encloses (program p) (programUses p) := by
  have hR := steadfastOn_consed
  have hnames : ∀ d ∈ p, ∀ n ∈ d.value.typeName?, IsPlain n :=
    fun d hd n hn => hp d hd n (typeName?_mem_typeNames hn)
  refine encloses_after (hR.keeps_declareTypes p hnames) fun _ => ?_
  exact encloses_forM (fun d _ => hR.keeps_collectDeclaration d.value) fun d hd =>
    encloses_declarationUses (hp d hd)

end Collect

/-! ## Runs -/

namespace Registry

variable {r : Registry}

/-- What is carried on by everything that collecting does is carried on by a run. -/
theorem carries_collect {I : Registry → Prop}
    (hI : Collect.SteadfastOn IsPlain (Collect.Carries I Retains)) (h : I r) {p : Program}
    (hp : p.Plain) : I (r.collect p).2.registry ∧ r.Retains (r.collect p).2.registry :=
  hI.keeps_program p (fun d hd n hn => hp d hd n (typeName?_mem_typeNames hn)) ⟨r, 0⟩ h

theorem carries_collectAll {I : Registry → Prop}
    (hI : Collect.SteadfastOn IsPlain (Collect.Carries I Retains)) (h : I r) {ps : List Program}
    (hps : ∀ p ∈ ps, p.Plain) : I (r.collectAll ps) ∧ r.Retains (r.collectAll ps) := by
  induction ps generalizing r with
  | nil => exact ⟨h, .refl r⟩
  | cons p ps ih =>
    obtain ⟨hp, hps⟩ := List.forall_mem_cons.mp hps
    obtain ⟨hmid, hretains⟩ := carries_collect hI h hp
    obtain ⟨hlast, hretains'⟩ := ih hmid hps
    exact ⟨hlast, hretains.trans hretains'⟩

/-- Every use lies within the run. -/
theorem Consed.within_of_mem_typeUses (h : Consed r) {ps : List Program}
    (hps : ∀ p ∈ ps, p.Plain) {u : TypeUse} (hu : u ∈ r.typeUses ps) :
    u.Within (r.collectAll ps) := by
  induction ps generalizing r with
  | nil => cases hu
  | cons p ps ih =>
    obtain ⟨hp, hps⟩ := List.forall_mem_cons.mp hps
    obtain ⟨hmid, -⟩ := carries_collect steadfastOn_consed h hp
    obtain hu | hu := List.mem_append.mp hu
    · have hwithin := Collect.encloses_programUses hp ⟨r, 0⟩ h u hu
      exact hwithin.mono (carries_collectAll steadfastOn_consed hmid hps).2
    · exact ih hmid hps hu

/-- What a use returns is what its type stands for from then on. -/
theorem typeOf?_of_result {s : Registry} {u : TypeUse} (h : u.Within s) {id : TypeId}
    (hresult : u.result = .ok id) : u.after.registry.typeOf? u.type = some id :=
  (Collect.resolveType_eq_ok h.consed.toRegular (Prod.ext hresult rfl)).2.1

/-- Types are consed: of all types that are resolved in a run of programs, which may be refused or
    not, two get the same id exactly when their normal forms are equal; an id is as many arrays
    around the type of the innermost name as its type has brackets; and any type whose names are
    registered, those before brackets as arrays, can be resolved at all of these points and at the
    end of the run. -/
theorem typeUses_consed {target : Target} (htarget : ofTarget target = .ok r) {ps : List Program}
    (hps : ∀ p ∈ ps, p.Plain) :
    (∀ u ∈ r.typeUses ps, ∀ v ∈ r.typeUses ps, ∀ i j, u.result = .ok i → v.result = .ok j →
      (i = j ↔ u.type.normalForm = v.type.normalForm)) ∧
    (∀ u ∈ r.typeUses ps, ∀ i, u.result = .ok i →
      ∃ k, u.after.registry.lookup? u.type.leaf = some k ∧
        u.after.registry.unwind u.type.depth i = some k) ∧
    (∀ s, (∃ u ∈ r.typeUses ps, s = u.before.registry) ∨ s = r.collectAll ps →
      ∀ t n, t.Resolvable s → ∃ i c', Collect.outcome (Collect.resolveType t) ⟨s, n⟩ =
        (.ok i, c')) := by
  have hr : Consed r := by
    rw [← (ofTarget_eq_ok_iff.mp htarget).2]
    exact consed_initial target
  have hlast := (carries_collectAll steadfastOn_consed hr hps).1
  refine ⟨fun u hu v hv i j hi hj => ?_, fun u hu i hi => ?_, fun s hs t n ht => ?_⟩
  · -- Both types are read in the registry at the end of the run.
    have hdenotes {u : TypeUse} (hu : u ∈ r.typeUses ps) {i : TypeId} (hi : u.result = .ok i) :
        (r.collectAll ps).Denotes i u.type.normalForm := by
      have hwithin := hr.within_of_mem_typeUses hps hu
      exact hlast.denotes_of_typeOf? hwithin.leaf
        (hwithin.kept.typeOf? (typeOf?_of_result hwithin hi))
    have hu := hdenotes hu hi
    have hv := hdenotes hv hj
    constructor
    · intro hij
      rw [hij] at hu
      exact hu.unique hv
    · intro hforms
      rw [hforms] at hu
      exact hu.injective hlast hv
  · have hwithin := hr.within_of_mem_typeUses hps hu
    have htype := typeOf?_of_result hwithin hi
    have hunwind := hwithin.consed_after.toCacheSound.unwind_of_typeOf? htype
    obtain ⟨k, hk⟩ := Option.isSome_iff_exists.mp (isSome_lookup?_leaf htype)
    exact ⟨k, hk, hunwind.trans hk⟩
  · have hs : Consed s := by
      obtain ⟨u, hu, rfl⟩ | rfl := hs
      · exact (hr.within_of_mem_typeUses hps hu).consed
      · exact hlast
    exact hs.exists_resolveType ht

/-- `ARGV` in a program that is accepted and `Array[String]` in one that is refused get one id. -/
theorem typeUses_consed_alias :
    let r := initial .host64
    let p := (Program.ofSource "def args(rows: Array[Array[Int]]): ARGV\n").toOption.getD []
    let q := (Program.ofSource "def args: Array[String]\n").toOption.getD []
    (r.typeUses [p, q]).map (fun u => (u.type.text, u.result.toOption)) =
      [("Array[Array[Int]]", some ⟨15⟩), ("Array[Int]", some ⟨14⟩), ("Int", some ⟨7⟩),
        ("ARGV", some ⟨13⟩), ("Array[String]", some ⟨13⟩), ("String", some ⟨10⟩)] ∧
    ((r.collectAll [p]).collect q).1.isOk = false ∧
    ∀ u ∈ r.typeUses [p, q], ∀ v ∈ r.typeUses [p, q], ∀ i j, u.result = .ok i → v.result = .ok j →
      (i = j ↔ u.type.normalForm = v.type.normalForm) := by
  intro r p q
  have htarget : ofTarget .host64 = .ok r := ofTarget_eq_ok_iff.mpr ⟨by decide, rfl⟩
  have hp : p.Plain := by decide +kernel
  have hq : q.Plain := by decide +kernel
  have hps : ∀ p' ∈ [p, q], p'.Plain :=
    List.forall_mem_cons.mpr ⟨hp, List.forall_mem_singleton.mpr hq⟩
  exact ⟨by decide +kernel, by decide +kernel, (typeUses_consed htarget hps).1⟩

end Registry

end DeclLang
