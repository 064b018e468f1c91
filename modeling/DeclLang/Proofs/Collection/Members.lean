import DeclLang.Proofs.Collection.Instances

/-!
# Members: what the second pass over a program adds

Each owner gets the members that are written under its name and nothing else (`Entry.Gains`), and
each new array instance starts from the builtin array as it is at the first member that asks for it
(`MadeFor`). Both hold after every member (`progress_step`), whatever registry the pass starts from.
-/

namespace DeclLang

namespace Member

def inclusion? : Member → Option Ident
  | .method _ => none
  | .inclusion module => some module

/-- The applications of generic types in a member. -/
def instances : Member → List TypeExpr
  | .method decl => decl.instances
  | .inclusion _ => []

end Member

/-- The members in blocks of one name, or those in no block. -/
def membersUnder (label : Option String) (ms : List PlacedMember) : List Member :=
  (ms.filter fun m => m.block.map (·.value) = label).map (·.member)

/-- The name of the blocks whose members belong to an owner. -/
def Owner.label (o : Owner) (e : Entry) : Option String :=
  match o with
  | .main => none
  | .type _ => some e.name

/-- A table with more signatures in it has these and those that it had. -/
theorem Signature.perm_foldl_insertInto (signatures table : List Signature) :
    (signatures.foldl (fun table signature => signature.insertInto table) table).Perm
      (table ++ signatures) := by
  induction signatures generalizing table with
  | nil => rw [List.append_nil, List.foldl_nil]
  | cons s signatures ih =>
    rw [List.foldl_cons]
    have hone : (s.insertInto table ++ signatures).Perm (s :: table ++ signatures) :=
      (s.perm_insertInto table).append_right signatures
    have hmove : (s :: table ++ signatures).Perm (table ++ s :: signatures) :=
      List.perm_middle.symm
    exact ((ih _).trans hone).trans hmove

/-! ## Owners -/

/-- Entry `f` is `e` with more members, whose types are read in `s`. -/
structure Entry.Gains (s : Registry) (ms : List Member) (e f : Entry) : Prop where
  name : f.name = e.name
  kind : f.kind = e.kind
  methods : ∃ signatures, (ms.filterMap Member.method?).mapM s.signature? = some signatures ∧
    f.methods = signatures.foldl (fun table signature => signature.insertInto table) e.methods
  includes : ∃ modules,
    (ms.filterMap Member.inclusion?).mapM (fun m => s.lookup? m.value) = some modules ∧
    f.includes = e.includes ++ modules

namespace Entry

variable {s t : Registry} {ms : List Member} {e f : Entry}

theorem Gains.nil (s : Registry) (e : Entry) : Gains s [] e e :=
  ⟨rfl, rfl, ⟨[], rfl, rfl⟩, ⟨[], rfl, by simp⟩⟩

theorem Gains.mono (h : Gains s ms e f) (hst : s.Retains t) : Gains t ms e f where
  name := h.name
  kind := h.kind
  methods := by
    rcases h.methods with ⟨signatures, hsignatures, hmethods⟩
    exact ⟨signatures, Registry.mapM_mono hst.signature? hsignatures, hmethods⟩
  includes := by
    rcases h.includes with ⟨modules, hmodules, hincludes⟩
    exact ⟨modules, Registry.mapM_mono hst.lookup? hmodules, hincludes⟩

/-- What is found for the items of a list and for one more. -/
theorem mapM_concat {α β : Type} {g : α → Option β} {l : List α} {bs : List β} {a : α} {b : β}
    (hl : l.mapM g = some bs) (ha : g a = some b) : (l ++ [a]).mapM g = some (bs ++ [b]) := by
  simp [List.mapM_append, hl, ha]

theorem Gains.define (h : Gains s ms e f) {m : MethodDecl} {signature : Signature}
    (hm : s.signature? m = some signature) :
    Gains s (ms ++ [.method m]) e (f.define signature) where
  name := h.name
  kind := h.kind
  methods := by
    rcases h.methods with ⟨signatures, hsignatures, hmethods⟩
    refine ⟨signatures ++ [signature], ?_, ?_⟩
    · rw [List.filterMap_append]
      exact mapM_concat hsignatures hm
    · rw [List.foldl_append, ← hmethods]
      rfl
  includes := by
    rcases h.includes with ⟨modules, hmodules, hincludes⟩
    refine ⟨modules, ?_, hincludes⟩
    rw [List.filterMap_append]
    exact (List.append_nil _).symm ▸ hmodules

theorem Gains.mixIn (h : Gains s ms e f) {module : Ident} {id : TypeId}
    (hid : s.lookup? module.value = some id) :
    Gains s (ms ++ [.inclusion module]) e (f.mixIn id) where
  name := h.name
  kind := h.kind
  methods := by
    rcases h.methods with ⟨signatures, hsignatures, hmethods⟩
    refine ⟨signatures, ?_, hmethods⟩
    rw [List.filterMap_append]
    exact (List.append_nil _).symm ▸ hsignatures
  includes := by
    rcases h.includes with ⟨modules, hmodules, hincludes⟩
    refine ⟨modules ++ [id], ?_, ?_⟩
    · rw [List.filterMap_append]
      exact mapM_concat hmodules hid
    · show f.includes ++ [id] = _
      rw [hincludes, List.append_assoc]

end Entry

namespace Registry

/-! ## New instances -/

/-- Entry `e` is an array instance that is not in `r` and was made for a member of `ms`: the first
    one that asks for it, when the builtin array had its old modules and those that the members
    before that one mix in. -/
inductive MadeFor (r s : Registry) (ms : List PlacedMember) (id : TypeId) (e : Entry) : Prop where
  | intro {before after : List PlacedMember} {m : PlacedMember} {element : TypeId} {source : Entry}
      {modules : List TypeId} :
      ms = before ++ m :: after →
      (∃ t ∈ m.member.instances, s.typeOf? t = some id) →
      (∀ m' ∈ before, ∀ t ∈ m'.member.instances, s.typeOf? t ≠ some id) →
      r.get? Builtin.array.typeId = some source →
      ((membersUnder (some source.name) before).filterMap Member.inclusion?).mapM
        (fun m => s.lookup? m.value) = some modules →
      FreshInstance r s id e element { source with includes := source.includes ++ modules } →
      MadeFor r s ms id e

/-- What a member asks for is there once the member is collected. -/
def Resolved (s : Registry) (ms : List PlacedMember) : Prop :=
  ∀ m ∈ ms, ∀ t ∈ m.member.instances, ∃ id, s.typeOf? t = some id

theorem Resolved.mono {s t : Registry} {ms : List PlacedMember} (h : Resolved s ms)
    (hst : s.Retains t) : Resolved t ms := by
  intro m hm g hg
  rcases h m hm g hg with ⟨id, hid⟩
  exact ⟨id, hst.typeOf? hid⟩

theorem Resolved.concat {s : Registry} {ms : List PlacedMember} (h : Resolved s ms)
    {m : PlacedMember} (hm : ∀ t ∈ m.member.instances, ∃ id, s.typeOf? t = some id) :
    Resolved s (ms ++ [m]) := by
  intro m' hm' t ht
  rcases List.mem_append.mp hm' with hm' | hm'
  · exact h m' hm' t ht
  · rw [List.mem_singleton.mp hm'] at ht
    exact hm t ht

/-- Something that does not stand for a type now, but for another one, never will. -/
theorem Resolved.ne_mono {s t : Registry} {ms : List PlacedMember} (h : Resolved s ms)
    (hst : s.Retains t) {id : TypeId} {m : PlacedMember} (hm : m ∈ ms) {g : TypeExpr}
    (hg : g ∈ m.member.instances) (hne : s.typeOf? g ≠ some id) : t.typeOf? g ≠ some id := by
  rcases h m hm g hg with ⟨id', hid'⟩
  rw [hst.typeOf? hid']
  rwa [hid'] at hne

theorem MadeFor.mono {r s t : Registry} {ms : List PlacedMember} {id : TypeId} {e : Entry}
    (h : MadeFor r s ms id e) (hs : Regular s) (hresolved : Resolved s ms) (hst : s.Retains t)
    (more : List PlacedMember) : MadeFor r t (ms ++ more) id e := by
  cases h with
  | @intro before after m element source modules hms hm hbefore hsource hmodules hfresh =>
    rcases hm with ⟨g, hg, hgid⟩
    -- Later members do not change which one was the first to ask.
    have hms' : ms ++ more = before ++ m :: (after ++ more) := by
      rw [hms, List.append_assoc, List.cons_append]
    refine .intro hms' ⟨g, hg, hst.typeOf? hgid⟩ ?_ hsource (mapM_mono hst.lookup? hmodules)
      (hfresh.mono hs hst)
    · intro m' hm' g' hg'
      have hmem : m' ∈ ms := by
        rw [hms]
        exact List.mem_append_left _ hm'
      exact hresolved.ne_mono hst hmem hg' (hbefore m' hm' g' hg')

/-! ## Progress -/

/-- What a registry has become when some members have been collected into it. -/
structure Progress (r : Registry) (done : List PlacedMember) (s : Registry) : Prop where
  regular : Regular s
  retains : r.Retains s
  gains : ∀ {o e}, r.owner? o = some e →
    ∃ f, s.owner? o = some f ∧ e.Gains s (membersUnder (o.label e) done) f
  made : ∀ {id e}, s.get? id = some e → r.get? id = none → MadeFor r s done id e
  resolved : Resolved s done
  records : r.RecordsNew s

theorem Progress.nil {r : Registry} (hr : Regular r) : Progress r [] r where
  regular := hr
  retains := .refl r
  gains {_ e} he := ⟨e, he, .nil r e⟩
  made he hid := by
    rw [hid] at he
    cases he
  resolved := by simp [Resolved]
  records := .refl r

/-- The instances that one more member asks for are made for it. -/
theorem Progress.made_next {r s t : Registry} {done : List PlacedMember} (hr : Regular r)
    (h : Progress r done s) {m : PlacedMember} (hm : Instantiated m.member.instances s t)
    {id : TypeId} {e : Entry} (he : t.get? id = some e) (hid : s.get? id = none) :
    MadeFor r t (done ++ [m]) id e := by
  rcases hm.new he hid with ⟨hneeded, element, array, harray, hfresh⟩
  rcases Option.isSome_iff_exists.mp hr.array with ⟨source, hsource⟩
  rcases h.gains (o := .type Builtin.array.typeId) hsource with ⟨array', harray', hgains⟩
  rw [owner?_type, harray, Option.some.injEq] at harray'
  subst harray'
  rcases hgains.includes with ⟨modules, hmodules, hincludes⟩
  refine @MadeFor.intro r t (done ++ [m]) id e done [] m element source modules rfl hneeded ?_
    hsource (mapM_mono hm.retains.lookup? hmodules) ?_
  · -- All that was asked for before was there before this instance.
    intro m' hm' g hg
    rcases h.resolved m' hm' g hg with ⟨id', hid'⟩
    rw [hm.retains.typeOf? hid']
    rintro ⟨⟩
    have hsome := h.regular.isSome_get?_of_typeOf? hid'
    rw [hid] at hsome
    cases hsome
  · refine ⟨?_, hfresh.registered, (hfresh.earlier h.retains).unmade, hfresh.made⟩
    rw [hfresh.entry, specialized, specialized, hgains.kind, hincludes]

/-! ## One member -/

/-- A name belongs to one owner only. -/
theorem WellFormed.owner_of_label {r : Registry} (hr : WellFormed r) {o o' : Owner} {e e' : Entry}
    (he : r.owner? o = some e) (he' : r.owner? o' = some e') (h : o.label e = o'.label e') :
    o = o' := by
  cases o with
  | main =>
    cases o' with
    | main => rfl
    | type id' => simp [Owner.label] at h
  | type id =>
    cases o' with
    | main => simp [Owner.label] at h
    | type id' =>
      rw [Owner.label, Owner.label, Option.some.injEq] at h
      rw [hr.names he he' h]

theorem retains_modifyOwner {s : Registry} {o : Owner} {g : Entry → Entry} [Entry.KeepsName g]
    (hg : ∀ f : Entry, (g f).kind = f.kind) : s.Retains (s.modifyOwner o g) := by
  refine ⟨target_modifyOwner s o g, by cases o <;> rfl, by cases o <;> rfl, fun {o' e} he => ?_,
    by cases o <;> exact List.prefix_rfl, fun hid => by rwa [lookup?_modifyOwner]⟩
  rw [owner?_modifyOwner, he]
  split
  · exact ⟨g e, rfl, Entry.KeepsName.name_eq e, hg e⟩
  · exact ⟨e, rfl, rfl, rfl⟩

end Registry

namespace Collect

open Registry

variable {c c' : Collection}

theorem SteadfastOn.keeps_collectPlaced {N : String → Prop} {R : Registry → Registry → Prop}
    (hR : SteadfastOn N R) (m : PlacedMember) : Keeps R (collectPlaced m) := by
  refine hR.keeps_bind ?_ fun o => hR.keeps_collectMember o m.member
  cases m.block with
  | none => exact hR.keeps_pure _
  | some name => exact hR.keeps_bind (hR.keeps_resolve name) fun _ => hR.keeps_pure _

/-- A member that is collected makes the instances that it asks for and is then added to its
    owner. -/
theorem collectMember_eq_ok {o : Owner} {m : Member} (hr : Regular c.registry)
    (h : outcome (collectMember o m) c = (.ok (), c')) :
    ∃ s g, ∃ _ : Entry.KeepsName g, Instantiated m.instances c.registry s ∧ Regular s ∧
      (∀ {ms e f}, Entry.Gains s ms e f → Entry.Gains s (ms ++ [m]) e (g f)) ∧
      c' = ⟨s.modifyOwner o g, c.declared⟩ := by
  cases m with
  | method decl =>
    rcases defineMethod_eq_ok hr h with ⟨s, signature, e, hinstances, hs, hsignature, -, hc⟩
    exact ⟨s, _, inferInstance, hinstances, hs, fun hgains => hgains.define hsignature, hc⟩
  | inclusion module =>
    rcases mixIn_eq_ok h with ⟨id, e, hid, -, hc⟩
    exact ⟨c.registry, _, inferInstance, .refl _, hr, fun hgains => hgains.mixIn hid, hc⟩

/-- The owner of a member is the one with the name of its block. -/
theorem owner_of_ownerOf {r : Registry} {block : Option Ident} {o : Owner}
    (hblock : ∀ name ∈ block, (r.lookup? name.value).isSome = true) (hr : r.Retains c.registry)
    (h : outcome (ownerOf block) c = (.ok o, c')) :
    (∃ e, r.owner? o = some e ∧ o.label e = block.map (·.value)) ∧ c = c' := by
  rcases ownerOf_eq_ok.mp h with ⟨ho, hc⟩
  refine ⟨?_, hc⟩
  cases block with
  | none => exact ⟨r.main, by rw [ho]; rfl, by rw [ho]; rfl⟩
  | some name =>
    rcases ho with ⟨id, hid, rfl⟩
    rcases Option.isSome_iff_exists.mp (hblock name rfl) with ⟨id', hid'⟩
    have hsame := hr.lookup? hid'
    rw [hid, Option.some.injEq] at hsame
    subst hsame
    rcases get?_of_lookup? hid' with ⟨e, he, hname⟩
    exact ⟨e, he, congrArg some hname⟩

theorem membersUnder_concat (label : Option String) (ms : List PlacedMember) (m : PlacedMember) :
    membersUnder label (ms ++ [m]) =
      if m.block.map (·.value) = label then membersUnder label ms ++ [m.member]
      else membersUnder label ms := by
  unfold membersUnder
  by_cases h : m.block.map (·.value) = label <;> simp [h]

/-- One more member: its owner gains it, and all else stays as it is but for new instances. -/
theorem progress_step {r : Registry} (hr : Regular r) {done : List PlacedMember} {m : PlacedMember}
    (hblock : ∀ name ∈ m.block, (r.lookup? name.value).isSome = true)
    (h : Progress r done c.registry) (hm : outcome (collectPlaced m) c = (.ok (), c')) :
    Progress r (done ++ [m]) c'.registry ∧ c'.declared = c.declared := by
  have hc' := regular_of_keeps (steadfast_regular.on.keeps_collectPlaced m) h.regular hm
  rcases outcome_bind_eq_ok.mp hm with ⟨o, mid, howner, hmember⟩
  rcases owner_of_ownerOf hblock h.retains howner with ⟨⟨e₀, he₀, hlabel⟩, rfl⟩
  rcases collectMember_eq_ok h.regular hmember with ⟨s, g, _, hinstances, hs, hg, rfl⟩
  have hlast : s.Retains (s.modifyOwner o g) := retains_modifyOwner fun f => (hg (.nil s f)).kind
  have hboth := hinstances.retains.trans hlast
  have hresolved : Resolved s (done ++ [m]) :=
    (h.resolved.mono hinstances.retains).concat hinstances.resolved
  refine ⟨⟨hc', h.retains.trans hboth, fun {o' e} he => ?_, fun {id e} he hid => ?_, ?_, ?_⟩, rfl⟩
  · rcases h.gains he with ⟨f, hf, hgains⟩
    have hf' := hinstances.owner hf
    have hgains' := hgains.mono hinstances.retains
    rw [membersUnder_concat, ← hlabel]
    -- The owner of the member gains it; every other owner has another name.
    by_cases hsame : o' = o
    · subst hsame
      rw [he₀, Option.some.injEq] at he
      subst he
      refine ⟨g f, ?_, ?_⟩
      · rw [owner?_modifyOwner, if_pos rfl, hf', Option.map_some]
      · rw [if_pos rfl]
        exact (hg hgains').mono hlast
    · refine ⟨f, ?_, ?_⟩
      · rw [owner?_modifyOwner, if_neg hsame, hf']
      · rw [if_neg fun h => hsame (hr.owner_of_label he he₀ h.symm)]
        exact hgains'.mono hlast
  · -- An entry that is new is not the owner, which was there before.
    have hne : Owner.type id ≠ o := by
      rintro rfl
      rw [owner?_type, hid] at he₀
      cases he₀
    rw [← owner?_type, owner?_modifyOwner, if_neg hne, owner?_type] at he
    cases hold : c.registry.get? id with
    | none =>
      have hnew := h.made_next hr hinstances he hold
      have hlater := hnew.mono hs hresolved hlast []
      rwa [List.append_nil] at hlater
    | some e' =>
      have hsame := hinstances.owner (o := .type id) hold
      rw [owner?_type, he, Option.some.injEq] at hsame
      subst hsame
      exact (h.made hold hid).mono h.regular h.resolved hboth [m]
  · exact hresolved.mono hlast
  · have hsame : s.RecordsNew (s.modifyOwner o g) :=
      ⟨[], by cases o <;> exact (List.append_nil _).symm, by simp⟩
    exact (h.records.trans hinstances.records h.retains hinstances.retains).trans hsame
      (h.retains.trans hinstances.retains) hlast

/-- The members of a program whose types are all declared. -/
theorem progress_members {ms : List PlacedMember} (hr : Regular c.registry)
    (hblocks : ∀ m ∈ ms, ∀ name ∈ m.block, (c.registry.lookup? name.value).isSome = true)
    (h : outcome (ms.forM collectPlaced) c = (.ok (), c')) :
    Progress c.registry ms c'.registry ∧ c'.declared = c.declared := by
  refine forM_induction (motive := fun done mid =>
    Progress c.registry done mid.registry ∧ mid.declared = c.declared) ⟨.nil hr, rfl⟩ ?_ h
  intro before m mid mid' hm hmid hstep
  rcases progress_step hr (hblocks m hm) hmid.1 hstep with ⟨hprogress, hdeclared⟩
  exact ⟨hprogress, hdeclared.trans hmid.2⟩

end Collect

end DeclLang
