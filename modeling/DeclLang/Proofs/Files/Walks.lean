import DeclLang.Proofs.Files.Search
import Mathlib.Data.List.Forall2

/-!
# Walks: following a path one segment at a time

A walk goes from stage to stage, and what comes next does not depend on what was before it
(`Stage.exists_after`). What is reached by its names is therefore what a path of these names leads
to, if it leads to anything (`Reaches.walk`), and the order in which a directory lists its entries
makes no difference (`Stage.Relisted.walk`).
-/

namespace DeclLang

namespace FileTree

/-! ## Following paths -/

theorem child?_of_mem {entries : List (String × FileTree)} (h : Regular (.directory entries))
    {name : String} {node : FileTree} (hmem : (name, node) ∈ entries) :
    child? name entries = some node := by
  induction entries with
  | nil => cases hmem
  | cons entry rest ih =>
    obtain ⟨hother, -, hrest⟩ := h.tail
    unfold child?
    rw [List.lookup_cons]
    rcases List.mem_cons.mp hmem with rfl | hmem
    · simp
    · have hne : (name == entry.1) = false := by simpa using hother _ hmem
      rw [hne]
      exact ih hrest hmem

/-- How far a walk has come: what it stands at, what is above that, and how many links it may still
    follow. -/
structure Stage where
  links : Nat
  here : FileTree
  parents : List FileTree

/-- Goes on by one segment. A link puts segments before those that are left. -/
def Stage.next (top : FileTree) (stage : Stage) (s : String) :
    Except ReadError (Stage × List String) :=
  match stage.here with
  | .file _ | .link _ => .error .notADirectory
  | .directory entries =>
    if s = "" || s = "." then .ok (stage, [])
    else if s = ".." then
      match stage.parents with
      | [] => .ok (stage, [])
      | up :: above => .ok (⟨stage.links, up, above⟩, [])
    else if Path.nameLimit < s.utf8ByteSize then .error .nameTooLong
    else
      match child? s entries with
      | none => .error .notFound
      | some (.link target) =>
        match stage.links with
        | 0 => .error .tooManyLinks
        | links + 1 =>
          let start : Stage :=
            if Path.isAbsolute target then ⟨links, top, []⟩
            else ⟨links, stage.here, stage.parents⟩
          .ok (start, Path.segments target)
      | some node => .ok (⟨stage.links, node, stage.here :: stage.parents⟩, [])

/-- A walk from one stage to its end. -/
def Stage.walk (top : FileTree) (stage : Stage) (segments : List String) :
    Except ReadError FileTree :=
  FileTree.walk top stage.links stage.here stage.parents segments

theorem Stage.walk_cons (top : FileTree) (stage : Stage) (s : String) (rest : List String) :
    stage.walk top (s :: rest) =
      (stage.next top s).bind fun x => x.1.walk top (x.2 ++ rest) := by
  obtain ⟨links, here, parents⟩ := stage
  unfold Stage.walk Stage.next
  dsimp only
  cases here with
  | file => rw [FileTree.walk]; rfl
  | link => rw [FileTree.walk]; rfl
  | directory entries =>
    dsimp only
    rw [FileTree.walk.eq_def]
    dsimp only
    by_cases hstay : (decide (s = "") || decide (s = ".")) = true
    · rw [if_pos hstay, if_pos hstay]
      rfl
    rw [if_neg hstay, if_neg hstay]
    by_cases hup : s = ".."
    · rw [if_pos hup, if_pos hup]
      cases parents <;> rfl
    rw [if_neg hup, if_neg hup]
    by_cases hlong : Path.nameLimit < s.utf8ByteSize
    · rw [if_pos hlong, if_pos hlong]
      rfl
    rw [if_neg hlong, if_neg hlong]
    cases child? s entries with
    | none => rfl
    | some node =>
      cases node with
      | file => rfl
      | directory => rfl
      | link target =>
        cases links with
        | zero => rfl
        | succ links =>
          dsimp only
          split <;> rfl

/-- A link that is followed uses up one of those that may be; nothing else makes a path longer. -/
theorem Stage.next_links {top : FileTree} {stage after : Stage} {s : String} {more : List String}
    (h : stage.next top s = .ok (after, more)) :
    after.links < stage.links ∨ after.links = stage.links ∧ more = [] := by
  unfold Stage.next at h
  split at h
  · cases h
  · cases h
  split at h
  · cases h
    exact .inr ⟨rfl, rfl⟩
  split at h
  · split at h <;> cases h <;> exact .inr ⟨rfl, rfl⟩
  split at h
  · cases h
  split at h
  · cases h
  · split at h
    · cases h
    · rename_i links hlinks
      cases h
      left
      rw [hlinks]
      split <;> exact Nat.lt_succ_self links
  · cases h
    exact .inr ⟨rfl, rfl⟩

/-- Induction on a walk, segment by segment. -/
theorem Stage.induction (top : FileTree) {motive : Stage → List String → Prop}
    (nil : ∀ stage, motive stage [])
    (cons : ∀ stage s rest, (∀ after more, stage.next top s = .ok (after, more) →
      motive after (more ++ rest)) → motive stage (s :: rest))
    (stage : Stage) (segments : List String) : motive stage segments := by
  -- The walk behind a link is longer, but has fewer links to follow.
  generalize hlinks : stage.links = links
  induction links using Nat.strongRecOn generalizing stage segments with
  | ind links ihlinks =>
    induction segments generalizing stage with
    | nil => exact nil stage
    | cons s rest ih =>
      refine cons stage s rest fun after more hnext => ?_
      rcases Stage.next_links hnext with hless | ⟨hsame, rfl⟩
      · exact ihlinks after.links (hlinks ▸ hless) after (more ++ rest) rfl
      · exact ih after (hsame.trans hlinks)

@[simp] theorem Stage.walk_nil (top : FileTree) (stage : Stage) :
    stage.walk top [] = .ok stage.here := by
  unfold Stage.walk
  rw [FileTree.walk]

/-- A name goes down to the entry that has it, unless it is too long. -/
theorem Stage.next_name (top : FileTree) {node : FileTree} {stage : Stage} {name : String}
    {entries : List (String × FileTree)} (hhere : stage.here = .directory entries)
    (hname : Path.IsFileName name) (hchild : child? name entries = some node)
    (hnode : ∀ target, node ≠ .link target) :
    stage.next top name =
      if Path.nameLimit < name.utf8ByteSize then .error .nameTooLong
      else .ok (⟨stage.links, node, stage.here :: stage.parents⟩, []) := by
  unfold Stage.next
  rw [hhere]
  dsimp only
  rw [if_neg (by simp [hname.ne_empty, hname.ne_here]), if_neg hname.ne_parent, hchild]
  cases node with
  | link target => exact absurd rfl (hnode target)
  | file => rfl
  | directory => rfl

theorem Regular.of_mem {entries : List (String × FileTree)} (h : Regular (.directory entries))
    {name : String} {node : FileTree} (hmem : (name, node) ∈ entries) :
    Path.IsFileName name ∧ Regular node := by
  cases h with
  | directory _ hnames hregular => exact ⟨hnames _ hmem, hregular _ hmem⟩

/-- What is reached by its names is what a walk along these names comes to, unless one of them is
    too long. -/
theorem Reaches.walk {node : FileTree} {entries : List (String × FileTree)}
    {directories : List String} {name : String} (h : Reaches entries directories name node)
    (hnode : ∀ target, node ≠ .link target) (hregular : Regular (.directory entries))
    (top : FileTree) (stage : Stage) (hhere : stage.here = .directory entries) :
    stage.walk top (directories ++ [name]) =
      if ∀ s ∈ directories ++ [name], s.utf8ByteSize ≤ Path.nameLimit then .ok node
      else .error .nameTooLong := by
  induction h generalizing stage with
  | here hmem =>
    obtain ⟨hname, -⟩ := hregular.of_mem hmem
    have hnext := stage.next_name top hhere hname (child?_of_mem hregular hmem) hnode
    rw [List.nil_append, Stage.walk_cons, hnext]
    simp only [List.forall_mem_singleton, ← Nat.not_lt, ite_not]
    split
    · rfl
    · exact Stage.walk_nil ..
  | @inside _ _ directory _ _ _ hmem hvisible hinner ih =>
    obtain ⟨hname, hregular'⟩ := hregular.of_mem hmem
    have hnext := stage.next_name top hhere hname (child?_of_mem hregular hmem)
      (fun _ => FileTree.noConfusion)
    rw [List.cons_append, Stage.walk_cons, hnext]
    simp only [List.forall_mem_cons]
    by_cases hlong : Path.nameLimit < directory.utf8ByteSize
    · rw [if_pos hlong, if_neg fun hfits => Nat.not_lt.mpr hfits.1 hlong]
      rfl
    · rw [if_neg hlong]
      simp only [Nat.not_lt.mp hlong, true_and]
      exact ih hnode hregular' ⟨stage.links, _, stage.here :: stage.parents⟩ rfl

/-- The same tree, with the entries of each directory in any order. -/
inductive Relisted : FileTree → FileTree → Prop where
  | file (content : ByteArray) : Relisted (.file content) (.file content)
  | link (target : String) : Relisted (.link target) (.link target)
  | directory {entries entries' : List (String × FileTree)} :
      (entries.map (·.1)).Perm (entries'.map (·.1)) →
      (∀ name node node', (name, node) ∈ entries → (name, node') ∈ entries' →
        Relisted node node') →
      Relisted (.directory entries) (.directory entries')

theorem Relisted.symm {tree tree' : FileTree} (h : Relisted tree tree') : Relisted tree' tree := by
  induction h with
  | file content => exact .file content
  | link target => exact .link target
  | directory hnames _ ih =>
    exact .directory hnames.symm fun name node node' hnode hnode' => ih name node' node hnode' hnode

/-- Each entry is there under its name, wherever it is listed. -/
theorem Relisted.exists_mem {entries entries' : List (String × FileTree)}
    (h : Relisted (.directory entries) (.directory entries')) {name : String} {node : FileTree}
    (hmem : (name, node) ∈ entries) : ∃ node', (name, node') ∈ entries' ∧ Relisted node node' := by
  cases h with
  | directory hnames hnodes =>
    have hname : name ∈ entries'.map (·.1) := hnames.mem_iff.mp (List.mem_map_of_mem hmem)
    obtain ⟨⟨_, node'⟩, hmem', rfl⟩ := List.mem_map.mp hname
    exact ⟨node', hmem', hnodes _ _ _ hmem hmem'⟩

theorem Reaches.relisted {entries entries' : List (String × FileTree)} {directories : List String}
    {name : String} {node : FileTree} (h : Reaches entries directories name node)
    (hrelisted : Relisted (.directory entries) (.directory entries')) :
    ∃ node', Reaches entries' directories name node' ∧ Relisted node node' := by
  induction h generalizing entries' with
  | here hmem =>
    obtain ⟨node', hmem', hnode⟩ := hrelisted.exists_mem hmem
    exact ⟨node', .here hmem', hnode⟩
  | inside hmem hvisible hinner ih =>
    obtain ⟨directory', hmem', hdirectory⟩ := hrelisted.exists_mem hmem
    cases hdirectory with
    | directory hperm hnodes =>
      obtain ⟨node', hreaches, hnode⟩ := ih (.directory hperm hnodes)
      exact ⟨node', .inside hmem' hvisible hreaches, hnode⟩

theorem Enters.relisted {path p : List String} {entries entries' : List (String × FileTree)}
    (h : Enters path entries p)
    (hrelisted : Relisted (.directory entries) (.directory entries')) : Enters path entries' p := by
  obtain ⟨directories, name, inner, hreaches, hvisible, hp⟩ := h
  obtain ⟨node', hreaches', hnode⟩ := hreaches.relisted hrelisted
  cases hnode with
  | directory hnames hnodes => exact ⟨directories, name, _, hreaches', hvisible, hp⟩

/-- Two results that are the same failure, or are related. -/
inductive Alike {α β : Type} (R : α → β → Prop) : Except ReadError α → Except ReadError β → Prop where
  | error (e : ReadError) : Alike R (.error e) (.error e)
  | ok {a : α} {b : β} : R a b → Alike R (.ok a) (.ok b)

/-- The same stage of a walk through the same tree, listed in another order. -/
structure Stage.Relisted (stage stage' : Stage) : Prop where
  links : stage'.links = stage.links
  here : FileTree.Relisted stage.here stage'.here
  parents : List.Forall₂ FileTree.Relisted stage.parents stage'.parents

theorem mem_of_child? {entries : List (String × FileTree)} {name : String} {node : FileTree}
    (h : child? name entries = some node) : (name, node) ∈ entries := by
  obtain ⟨before, behind, rfl, -⟩ := List.lookup_eq_some_iff.mp h
  simp

theorem child?_eq_none_iff {entries : List (String × FileTree)} {name : String} :
    child? name entries = none ↔ name ∉ entries.map (·.1) := by
  unfold child?
  rw [List.lookup_eq_none_iff, List.mem_map]
  constructor
  · rintro h ⟨entry, hmem, rfl⟩
    exact absurd (h entry hmem) (by simp)
  · intro h entry hmem
    rw [bne_iff_ne]
    exact fun heq => h ⟨entry, hmem, heq.symm⟩

theorem Relisted.rel_child? {entries entries' : List (String × FileTree)}
    (h : Relisted (.directory entries) (.directory entries')) (name : String) :
    Option.Rel Relisted (child? name entries) (child? name entries') := by
  cases h with
  | directory hnames hnodes =>
    have hnone : child? name entries = none ↔ child? name entries' = none := by
      rw [child?_eq_none_iff, child?_eq_none_iff, hnames.mem_iff]
    cases hchild : child? name entries with
    | none =>
      rw [hnone.mp hchild]
      exact .none
    | some node =>
      cases hchild' : child? name entries' with
      | none => rw [hnone.mpr hchild'] at hchild; cases hchild
      | some node' => exact .some (hnodes _ _ _ (mem_of_child? hchild) (mem_of_child? hchild'))

theorem Stage.Relisted.next {top top' : FileTree} (htop : FileTree.Relisted top top')
    {stage stage' : Stage} (h : stage.Relisted stage') (s : String) :
    Alike (fun x y => x.1.Relisted y.1 ∧ x.2 = y.2) (stage.next top s) (stage'.next top' s) := by
  obtain ⟨links, here, parents⟩ := stage
  obtain ⟨links', here', parents'⟩ := stage'
  obtain ⟨rfl, hhere, hparents⟩ := h
  dsimp only at hhere hparents
  unfold Stage.next
  dsimp only
  cases hhere with
  | file => exact .error _
  | link => exact .error _
  | @directory entries entries' hnames hnodes =>
    have hhere : FileTree.Relisted (.directory entries) (.directory entries') :=
      .directory hnames hnodes
    dsimp only
    by_cases hstay : (decide (s = "") || decide (s = ".")) = true
    · rw [if_pos hstay, if_pos hstay]
      exact .ok ⟨⟨rfl, hhere, hparents⟩, rfl⟩
    rw [if_neg hstay, if_neg hstay]
    by_cases hup : s = ".."
    · rw [if_pos hup, if_pos hup]
      cases hparents with
      | nil => exact .ok ⟨⟨rfl, hhere, .nil⟩, rfl⟩
      | cons hup habove => exact .ok ⟨⟨rfl, hup, habove⟩, rfl⟩
    rw [if_neg hup, if_neg hup]
    by_cases hlong : Path.nameLimit < s.utf8ByteSize
    · rw [if_pos hlong, if_pos hlong]
      exact .error _
    rw [if_neg hlong, if_neg hlong]
    have hchild := hhere.rel_child? s
    generalize child? s entries = found at hchild ⊢
    generalize child? s entries' = found' at hchild ⊢
    cases hchild with
    | none => exact .error _
    | some hnode =>
      cases hnode with
      | file content => exact .ok ⟨⟨rfl, .file content, .cons hhere hparents⟩, rfl⟩
      | directory hnames hnodes =>
        exact .ok ⟨⟨rfl, .directory hnames hnodes, .cons hhere hparents⟩, rfl⟩
      | link target =>
        dsimp only
        cases links' with
        | zero => exact .error _
        | succ links =>
          dsimp only
          by_cases habsolute : Path.isAbsolute target = true
          · rw [if_pos habsolute, if_pos habsolute]
            exact .ok ⟨⟨rfl, htop, .nil⟩, rfl⟩
          · rw [if_neg habsolute, if_neg habsolute]
            exact .ok ⟨⟨rfl, hhere, hparents⟩, rfl⟩

/-- A walk comes to the same end in whatever order directories are listed. -/
theorem Stage.Relisted.walk {top top' : FileTree} (htop : FileTree.Relisted top top')
    {stage stage' : Stage} (h : stage.Relisted stage') (segments : List String) :
    Alike FileTree.Relisted (stage.walk top segments) (stage'.walk top' segments) := by
  induction stage, segments using Stage.induction top generalizing stage' with
  | nil stage =>
    rw [Stage.walk_nil, Stage.walk_nil]
    exact .ok h.here
  | cons stage s rest ih =>
    have hnext := h.next htop s
    rw [Stage.walk_cons, Stage.walk_cons]
    generalize hfirst : stage.next top s = first at hnext ⊢
    generalize stage'.next top' s = first' at hnext ⊢
    cases hnext with
    | error e => exact .error e
    | @ok x y hxy =>
      obtain ⟨after, more⟩ := x
      obtain ⟨after', more'⟩ := y
      obtain ⟨hafter, rfl⟩ := hxy
      exact ih after more hfirst hafter

end FileTree

end DeclLang
