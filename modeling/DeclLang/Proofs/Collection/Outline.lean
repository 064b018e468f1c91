import DeclLang.Proofs.Registry.Extension

/-!
# Outlines: what a program declares, and in which order it is collected

A program is an outline of types and one of members. Collecting goes over the first, where classes
may have to wait for others, and then over the second. Both passes come down to one action after the
other: one for each type in some order (`declareTypes_eq_ok`), and one for each member in the order
of the text (`collectDeclarations_eq_ok`).
-/

namespace DeclLang

/-! ## Outlines -/

/-- The declaration of a type without its members. -/
inductive TypeHeader where
  | ofClass (c : ClassHeader)
  | ofModule (name : Ident)
  | ofLib (name : Ident) (libname : Option (Located String))
  | ofPrimitive (name superclass repr : Ident) (size : Located Nat)
deriving DecidableEq, Repr

def TypeHeader.name : TypeHeader → String
  | .ofClass c => c.name.value
  | .ofModule name | .ofLib name _ | .ofPrimitive name _ _ _ => name.value

/-- Whether a header can be declared now. Only a class can wait for its superclass. -/
def TypeHeader.isReady (r : Registry) : TypeHeader → Bool
  | .ofClass c => c.isReady r
  | .ofModule _ | .ofLib .. | .ofPrimitive .. => true

/-- A member and the name of the block that it is written in, if it is in one. -/
structure PlacedMember where
  block : Option Ident
  member : Member
deriving DecidableEq, Repr

namespace Declaration

/-- The type that a declaration declares or re-opens. -/
def header? : Declaration → Option TypeHeader
  | .classBlock name superclass _ => some (.ofClass ⟨name, superclass⟩)
  | .moduleBlock name _ => some (.ofModule name)
  | .libBlock name libname _ => some (.ofLib name libname)
  | .primitive name superclass repr size => some (.ofPrimitive name superclass repr size)
  | .method _ | .inclusion _ => none

/-- The members of a declaration, in order. -/
def members : Declaration → List PlacedMember
  | .classBlock name _ members | .moduleBlock name members =>
    members.map fun m => ⟨some name, m.value⟩
  | .libBlock name _ functions => functions.map fun f => ⟨some name, .method f.value⟩
  | .primitive .. => []
  | .method decl => [⟨none, .method decl⟩]
  | .inclusion module => [⟨none, .inclusion module⟩]

end Declaration

namespace Program

def headers (p : Program) : List TypeHeader :=
  p.filterMap (·.value.header?)

/-- The members of a program, in the order of its text. -/
def members (p : Program) : List PlacedMember :=
  p.flatMap (·.value.members)

/-- A block names the type that its header declares. -/
theorem header_of_block {p : Program} {m : PlacedMember} (hm : m ∈ p.members) {name : Ident}
    (hname : m.block = some name) : ∃ h ∈ p.headers, h.name = name.value := by
  rcases List.mem_flatMap.mp hm with ⟨d, hd, hmember⟩
  -- What a declaration without a block has for members is in no block.
  suffices hheader : ∃ h, d.value.header? = some h ∧ h.name = name.value by
    rcases hheader with ⟨h, hh, hvalue⟩
    exact ⟨h, List.mem_filterMap.mpr ⟨d, hd, hh⟩, hvalue⟩
  cases hdecl : d.value with
  | classBlock n superclass members =>
    rw [hdecl] at hmember
    rcases List.mem_map.mp hmember with ⟨_, -, rfl⟩
    rcases Option.some.inj hname with rfl
    exact ⟨_, rfl, rfl⟩
  | moduleBlock n members =>
    rw [hdecl] at hmember
    rcases List.mem_map.mp hmember with ⟨_, -, rfl⟩
    rcases Option.some.inj hname with rfl
    exact ⟨_, rfl, rfl⟩
  | libBlock n libname functions =>
    rw [hdecl] at hmember
    rcases List.mem_map.mp hmember with ⟨_, -, rfl⟩
    rcases Option.some.inj hname with rfl
    exact ⟨_, rfl, rfl⟩
  | primitive n superclass repr size =>
    rw [hdecl] at hmember
    cases hmember
  | method decl =>
    rw [hdecl] at hmember
    rcases List.mem_singleton.mp hmember with rfl
    cases hname
  | inclusion module =>
    rw [hdecl] at hmember
    rcases List.mem_singleton.mp hmember with rfl
    cases hname

end Program

namespace Collect

/-- Declares or re-opens a type. -/
def declareHeader : TypeHeader → Collect Unit
  | .ofClass c => declareClass c
  | .ofModule name => declareModule name
  | .ofLib name libname => declareLib name libname
  | .ofPrimitive name superclass repr size => declarePrimitive name superclass repr size

/-- The type with the name of a block; what is in no block belongs to the main module. -/
def ownerOf : Option Ident → Collect Owner
  | none => return .main
  | some name => return .type (← resolve name)

def collectPlaced (m : PlacedMember) : Collect Unit := do
  collectMember (← ownerOf m.block) m.member

/-! ## Sequences -/

variable {α β : Type} {f : α → Collect PUnit} {c c' : Collection}

@[simp] theorem outcome_forM_nil :
    outcome (([] : List α).forM f) c = (.ok (), c') ↔ c = c' := by
  show (Except.ok (), c) = (.ok (), c') ↔ _
  simp

theorem outcome_forM_cons {a : α} {l : List α} :
    outcome ((a :: l).forM f) c = (.ok (), c') ↔
      ∃ mid, outcome (f a) c = (.ok (), mid) ∧ outcome (l.forM f) mid = (.ok (), c') := by
  rw [List.forM_eq_forM, List.forM_cons, outcome_bind_eq_ok]
  exact ⟨fun ⟨_, mid, h⟩ => ⟨mid, h⟩, fun ⟨mid, h⟩ => ⟨(), mid, h⟩⟩

theorem outcome_forM_append {l l' : List α} :
    outcome ((l ++ l').forM f) c = (.ok (), c') ↔
      ∃ mid, outcome (l.forM f) c = (.ok (), mid) ∧ outcome (l'.forM f) mid = (.ok (), c') := by
  induction l generalizing c with
  | nil => simp
  | cons a l ih =>
    simp only [List.cons_append, outcome_forM_cons, ih]
    constructor
    · rintro ⟨m, ha, n, hl, hl'⟩
      exact ⟨n, ⟨m, ha, hl⟩, hl'⟩
    · rintro ⟨n, ⟨m, ha, hl⟩, hl'⟩
      exact ⟨m, ha, n, hl, hl'⟩

/-- What holds at first and is carried on by every action holds of the whole sequence. -/
theorem forM_induction {motive : List α → Collection → Prop} {l : List α} (hnil : motive [] c)
    (hstep : ∀ {before a c c'}, a ∈ l → motive before c → outcome (f a) c = (.ok (), c') →
      motive (before ++ [a]) c')
    (h : outcome (l.forM f) c = (.ok (), c')) : motive l c' := by
  -- On what is left of the sequence, whatever was done before it.
  have hrest (rest : List α) (hrest : ∀ a ∈ rest, a ∈ l) :
      ∀ {before c}, motive before c → outcome (rest.forM f) c = (.ok (), c') →
        motive (before ++ rest) c' := by
    induction rest with
    | nil =>
      intro before c hbefore h
      rw [outcome_forM_nil] at h
      rw [List.append_nil, ← h]
      exact hbefore
    | cons a rest ih =>
      intro before c hbefore h
      rcases outcome_forM_cons.mp h with ⟨mid, ha, hafter⟩
      have hmid := hstep (hrest a List.mem_cons_self) hbefore ha
      have hall := ih (fun b hb => hrest b (List.mem_cons_of_mem a hb)) hmid hafter
      rwa [List.append_assoc, List.singleton_append] at hall
  exact hrest l (fun _ ha => ha) hnil h

/-! ## The order of types -/

/-- What happens to the headers of a program when they are taken in order: each one is declared at
    once, or it is a class that waits. -/
inductive Placed : List TypeHeader → Collection → List ClassHeader → Collection → Prop where
  | nil {c : Collection} : Placed [] c [] c
  | declared {h : TypeHeader} {hs : List TypeHeader} {c mid c' : Collection}
      {waiting : List ClassHeader} :
      h.isReady c.registry = true → outcome (declareHeader h) c = (.ok (), mid) →
      Placed hs mid waiting c' → Placed (h :: hs) c waiting c'
  | waits {head : ClassHeader} {hs : List TypeHeader} {c c' : Collection}
      {waiting : List ClassHeader} :
      head.isReady c.registry = false → Placed hs c waiting c' →
      Placed (.ofClass head :: hs) c (head :: waiting) c'

theorem placed_nil {waiting : List ClassHeader} :
    Placed [] c waiting c' ↔ waiting = [] ∧ c' = c := by
  constructor
  · intro h
    cases h
    exact ⟨rfl, rfl⟩
  · rintro ⟨rfl, rfl⟩
    exact .nil

theorem placed_of_ready {h : TypeHeader} {hs : List TypeHeader} {waiting : List ClassHeader}
    (hready : h.isReady c.registry = true) :
    Placed (h :: hs) c waiting c' ↔
      ∃ mid, outcome (declareHeader h) c = (.ok (), mid) ∧ Placed hs mid waiting c' := by
  constructor
  · intro hplaced
    cases hplaced with
    | declared _ hh hrest => exact ⟨_, hh, hrest⟩
    | waits hwaits hrest =>
      have hcontra := hwaits.symm.trans hready
      cases hcontra
  · rintro ⟨mid, hh, hrest⟩
    exact .declared hready hh hrest

theorem placed_of_waits {head : ClassHeader} {hs : List TypeHeader} {waiting : List ClassHeader}
    (hwaits : head.isReady c.registry = false) :
    Placed (.ofClass head :: hs) c waiting c' ↔
      ∃ rest, Placed hs c rest c' ∧ waiting = head :: rest := by
  constructor
  · intro hplaced
    cases hplaced with
    | declared hready hh hrest =>
      have hcontra := hwaits.symm.trans hready
      cases hcontra
    | waits _ hrest => exact ⟨_, hrest, rfl⟩
  · rintro ⟨rest, hrest, rfl⟩
    exact .waits hwaits hrest

/-- A declaration is collected at once, or it is a class that waits. -/
theorem declareType_eq_ok {d : Declaration} {waiting : List ClassHeader} :
    outcome (declareType d) c = (.ok waiting, c') ↔ Placed d.header?.toList c waiting c' := by
  -- Where nothing has to wait, the declaration is one action and then a constant.
  have hsingle {h : TypeHeader} (hready : h.isReady c.registry = true) :
      outcome (declareHeader h >>= fun _ => pure []) c = (.ok waiting, c') ↔
        Placed [h] c waiting c' := by
    rw [placed_of_ready hready, outcome_bind_eq_ok]
    simp only [placed_nil, outcome_pure_eq_ok]
    constructor
    · rintro ⟨⟨⟩, mid, hh, rfl, rfl⟩
      exact ⟨mid, hh, rfl, rfl⟩
    · rintro ⟨mid, hh, rfl, rfl⟩
      exact ⟨(), _, hh, rfl, rfl⟩
  have hnone : outcome (pure [] : Collect (List ClassHeader)) c = (.ok waiting, c') ↔
      Placed [] c waiting c' := by
    rw [placed_nil, outcome_pure_eq_ok, eq_comm (a := c), eq_comm (a := waiting)]
  cases d with
  | classBlock name superclass members =>
    rw [declareType, outcome_bind, outcome_registry]
    dsimp only
    split
    · rename_i hready
      exact hsingle (h := .ofClass ⟨name, superclass⟩) hready
    · rename_i hwaits
      have hwaits : ClassHeader.isReady ⟨name, superclass⟩ c.registry = false := by
        simpa using hwaits
      refine Iff.trans ?_ (placed_of_waits hwaits).symm
      rw [outcome_pure_eq_ok]
      constructor
      · rintro ⟨rfl, rfl⟩
        exact ⟨[], .nil, rfl⟩
      · rintro ⟨rest, hrest, rfl⟩
        obtain ⟨rfl, rfl⟩ := placed_nil.mp hrest
        exact ⟨rfl, rfl⟩
  | moduleBlock name members => exact hsingle (h := .ofModule name) rfl
  | libBlock name libname functions => exact hsingle (h := .ofLib name libname) rfl
  | primitive name superclass repr size =>
    exact hsingle (h := .ofPrimitive name superclass repr size) rfl
  | method decl => exact hnone
  | inclusion module => exact hnone

theorem placed_append {hs hs' : List TypeHeader} {waiting : List ClassHeader} :
    Placed (hs ++ hs') c waiting c' ↔ ∃ first mid last,
      Placed hs c first mid ∧ Placed hs' mid last c' ∧ waiting = first ++ last := by
  constructor
  · intro h
    induction hs generalizing c waiting with
    | nil => exact ⟨[], c, waiting, .nil, h, rfl⟩
    | cons head hs ih =>
      cases h with
      | declared hready hh hrest =>
        obtain ⟨first, mid, last, hfirst, hlast, rfl⟩ := ih hrest
        exact ⟨first, mid, last, .declared hready hh hfirst, hlast, rfl⟩
      | waits hwaits hrest =>
        obtain ⟨first, mid, last, hfirst, hlast, rfl⟩ := ih hrest
        exact ⟨_ :: first, mid, last, .waits hwaits hfirst, hlast, rfl⟩
  · rintro ⟨first, mid, last, hfirst, hlast, rfl⟩
    induction hfirst with
    | nil => exact hlast
    | declared hready hh _ ih => exact .declared hready hh (ih hlast)
    | waits hwaits _ ih => exact .waits hwaits (ih hlast)

/-- The headers of a program are placed in the order of its text. -/
theorem declareInOrder_eq_ok {p : Program} {waiting : List ClassHeader} :
    outcome (declareInOrder p) c = (.ok waiting, c') ↔ Placed p.headers c waiting c' := by
  induction p generalizing c waiting with
  | nil =>
    rw [declareInOrder, outcome_pure_eq_ok]
    constructor
    · rintro ⟨rfl, rfl⟩
      exact .nil
    · intro h
      cases h
      exact ⟨rfl, rfl⟩
  | cons d ds ih =>
    have hcons : Program.headers (d :: ds) = d.value.header?.toList ++ Program.headers ds := by
      rw [Program.headers, Program.headers, List.filterMap_cons]
      cases d.value.header? <;> rfl
    rw [hcons, placed_append, declareInOrder, outcome_bind_eq_ok]
    constructor
    · rintro ⟨first, mid, hfirst, hrest⟩
      obtain ⟨last, mid', hlast, hpure⟩ := outcome_bind_eq_ok.mp hrest
      obtain ⟨rfl, rfl⟩ := outcome_pure_eq_ok.mp hpure
      exact ⟨first, mid, last, declareType_eq_ok.mp hfirst, ih.mp hlast, rfl⟩
    · rintro ⟨first, mid, last, hfirst, hlast, rfl⟩
      refine ⟨first, mid, declareType_eq_ok.mpr hfirst, outcome_bind_eq_ok.mpr ⟨last, c', ?_, rfl⟩⟩
      exact ih.mpr hlast

-- Classes that wait are moved behind the types of the declarations after them, so from here on the
-- headers are those of the program only up to their order.
theorem Placed.run {hs : List TypeHeader} {waiting : List ClassHeader}
    (h : Placed hs c waiting c') :
    ∃ done, outcome (done.forM declareHeader) c = (.ok (), c') ∧
      (done ++ waiting.map .ofClass).Perm hs := by
  induction h with
  | nil => exact ⟨[], outcome_forM_nil.mpr rfl, .refl _⟩
  | declared _ hh _ ih =>
    obtain ⟨done, hrun, hperm⟩ := ih
    exact ⟨_ :: done, outcome_forM_cons.mpr ⟨_, hh, hrun⟩, hperm.cons _⟩
  | waits _ _ ih =>
    obtain ⟨done, hrun, hperm⟩ := ih
    exact ⟨done, hrun, List.perm_middle.trans (hperm.cons _)⟩

theorem declareReady_eq_ok {cs waiting : List ClassHeader}
    (h : outcome (declareReady cs) c = (.ok waiting, c')) :
    ∃ done : List ClassHeader,
      outcome ((done.map TypeHeader.ofClass).forM declareHeader) c = (.ok (), c') ∧
      (done ++ waiting).Perm cs := by
  induction cs generalizing c waiting with
  | nil =>
    rcases outcome_pure_eq_ok.mp h with ⟨rfl, rfl⟩
    exact ⟨[], outcome_forM_nil.mpr rfl, .refl _⟩
  | cons head cs ih =>
    rcases outcome_bind_eq_ok.mp h with ⟨r, mid, hr, h₁⟩
    rcases outcome_registry_eq_ok.mp hr with ⟨rfl, rfl⟩
    -- A class that is ready is declared now, another one stays with those that wait.
    split at h₁
    · rcases outcome_bind_eq_ok.mp h₁ with ⟨u, mid', hhead, h₂⟩
      rcases ih h₂ with ⟨done, hrun, hperm⟩
      exact ⟨head :: done, outcome_forM_cons.mpr ⟨mid', hhead, hrun⟩, hperm.cons head⟩
    · rcases outcome_bind_eq_ok.mp h₁ with ⟨others, mid', hothers, h₂⟩
      rcases outcome_pure_eq_ok.mp h₂ with ⟨rfl, rfl⟩
      rcases ih hothers with ⟨done, hrun, hperm⟩
      exact ⟨done, hrun, List.perm_middle.trans (hperm.cons head)⟩

theorem declareWaiting_eq_ok {cs : List ClassHeader}
    (h : outcome (declareWaiting cs) c = (.ok (), c')) :
    ∃ done : List ClassHeader,
      outcome ((done.map TypeHeader.ofClass).forM declareHeader) c = (.ok (), c') ∧
      done.Perm cs := by
  -- Along the rounds: a round that declares nothing refuses, so each one leaves fewer classes.
  fun_induction declareWaiting cs generalizing c with
  | case1 =>
    rcases outcome_pure_eq_ok.mp h with ⟨-, rfl⟩
    exact ⟨[], outcome_forM_nil.mpr rfl, .refl _⟩
  | case2 head cs ih =>
    rcases outcome_bind_eq_ok.mp h with ⟨waiting, mid, hready, h₁⟩
    rcases declareReady_eq_ok hready with ⟨done, hrun, hperm⟩
    split at h₁
    · rename_i hless
      rcases ih waiting hless h₁ with ⟨done', hrun', hperm'⟩
      refine ⟨done ++ done', ?_, (hperm'.append_left done).trans hperm⟩
      rw [List.map_append]
      exact outcome_forM_append.mpr ⟨mid, hrun, hrun'⟩
    · simp at h₁

/-- The types of an accepted program are declared one after the other, each of them once. -/
theorem declareTypes_eq_ok {p : Program} (h : outcome (declareTypes p) c = (.ok (), c')) :
    ∃ hs : List TypeHeader, hs.Perm p.headers ∧
      outcome (hs.forM declareHeader) c = (.ok (), c') := by
  rcases outcome_bind_eq_ok.mp h with ⟨waiting, mid, horder, h₁⟩
  rcases (declareInOrder_eq_ok.mp horder).run with ⟨hs, hrun, hperm⟩
  rcases declareWaiting_eq_ok h₁ with ⟨done, hrun', hperm'⟩
  refine ⟨hs ++ done.map .ofClass, ?_, outcome_forM_append.mpr ⟨mid, hrun, hrun'⟩⟩
  exact ((hperm'.map TypeHeader.ofClass).append_left hs).trans hperm

/-! ## The order of members -/

theorem ownerOf_eq_ok {block : Option Ident} {o : Owner} :
    outcome (ownerOf block) c = (.ok o, c') ↔
      (match block with
        | none => o = .main
        | some name => ∃ id, c.registry.lookup? name.value = some id ∧ o = .type id) ∧ c = c' := by
  cases block with
  | none =>
    rw [ownerOf, outcome_pure_eq_ok, eq_comm (a := o)]
  | some name =>
    rw [ownerOf, outcome_bind_eq_ok]
    simp only [resolve_eq_ok, outcome_pure_eq_ok]
    constructor
    · rintro ⟨id, mid, ⟨hid, rfl⟩, rfl, rfl⟩
      exact ⟨⟨id, hid, rfl⟩, rfl⟩
    · rintro ⟨⟨id, hid, rfl⟩, rfl⟩
      exact ⟨id, c, ⟨hid, rfl⟩, rfl, rfl⟩

/-- The name of a block stands for the same type at each of its members. -/
theorem placed_of_block {name : Ident} {id : TypeId} {ms : List Member}
    (hid : c.registry.lookup? name.value = some id)
    (h : outcome (ms.forM (collectMember (.type id))) c = (.ok (), c')) :
    outcome ((ms.map fun m => (⟨some name, m⟩ : PlacedMember)).forM collectPlaced) c =
      (.ok (), c') := by
  -- On the members: the name is looked up once for the block, and again for each placed member.
  induction ms generalizing c with
  | nil => exact h
  | cons m ms ih =>
    rcases outcome_forM_cons.mp h with ⟨mid, hm, hms⟩
    have hgrows : c.registry.Extends mid.registry := by
      have hkeeps := Registry.steadfast_extends.on.keeps_collectMember (.type id) m c
      rw [hm] at hkeeps
      exact hkeeps
    refine outcome_forM_cons.mpr ⟨mid, ?_, ih (hgrows.lookup? hid) hms⟩
    exact outcome_bind_eq_ok.mpr ⟨.type id, c, ownerOf_eq_ok.mpr ⟨⟨id, hid, rfl⟩, rfl⟩, hm⟩

theorem placed_of_main {m : Member} (h : outcome (collectMember .main m) c = (.ok (), c')) :
    outcome ([(⟨none, m⟩ : PlacedMember)].forM collectPlaced) c = (.ok (), c') := by
  refine outcome_forM_cons.mpr ⟨c', ?_, outcome_forM_nil.mpr rfl⟩
  exact outcome_bind_eq_ok.mpr ⟨.main, c, ownerOf_eq_ok.mpr ⟨rfl, rfl⟩, h⟩

theorem forM_map {l : List β} {g : β → α} :
    (l.map g).forM f = l.forM fun b => f (g b) := by
  induction l with
  | nil => rfl
  | cons b l ih =>
    rw [List.map_cons, List.forM_eq_forM, List.forM_eq_forM, List.forM_cons, List.forM_cons]
    rw [List.forM_eq_forM, List.forM_eq_forM] at ih
    rw [ih]

theorem collectDeclaration_eq_ok {d : Declaration}
    (h : outcome (collectDeclaration d) c = (.ok (), c')) :
    outcome (d.members.forM collectPlaced) c = (.ok (), c') := by
  have hmembers {name : Ident} {members : List (Located Member)}
      (h : outcome (collectMembers name members) c = (.ok (), c')) :
      outcome ((members.map fun m => (⟨some name, m.value⟩ : PlacedMember)).forM collectPlaced) c =
        (.ok (), c') := by
    rcases outcome_bind_eq_ok.mp h with ⟨id, mid, hresolve, h₁⟩
    rcases resolve_eq_ok.mp hresolve with ⟨hid, rfl⟩
    have hmembers : outcome ((members.map (·.value)).forM (collectMember (.type id))) c =
        (.ok (), c') := by
      rw [forM_map]
      exact h₁
    have hblock := placed_of_block hid hmembers
    rwa [List.map_map] at hblock
  cases d with
  | classBlock name superclass members => exact hmembers h
  | moduleBlock name members => exact hmembers h
  | libBlock name libname functions =>
    -- The functions of a library are collected as methods.
    rcases outcome_bind_eq_ok.mp h with ⟨id, mid, hresolve, h₁⟩
    rcases resolve_eq_ok.mp hresolve with ⟨hid, rfl⟩
    have hfunctions : outcome ((functions.map fun f => Member.method f.value).forM
        (collectMember (.type id))) c = (.ok (), c') := by
      rw [forM_map]
      exact h₁
    have hblock := placed_of_block hid hfunctions
    rwa [List.map_map] at hblock
  | primitive name superclass repr size => exact h
  | method decl => exact placed_of_main h
  | inclusion module => exact placed_of_main h

/-- The members of an accepted program are collected one after the other. -/
theorem collectDeclarations_eq_ok {p : Program}
    (h : outcome (p.forM fun d => collectDeclaration d.value) c = (.ok (), c')) :
    outcome (p.members.forM collectPlaced) c = (.ok (), c') := by
  induction p generalizing c with
  | nil => exact h
  | cons d ds ih =>
    rcases outcome_forM_cons.mp h with ⟨mid, hd, hds⟩
    have happend : Program.members (d :: ds) = d.value.members ++ Program.members ds :=
      List.flatMap_cons
    rw [happend]
    exact outcome_forM_append.mpr ⟨mid, collectDeclaration_eq_ok hd, ih hds⟩

end Collect

end DeclLang
