import DeclLang.Proofs.Files.Search
import DeclLang.Proofs.Library.Poisoning
import DeclLang.Proofs.Registry.Persistence

/-!
# Sequences of files: loading some files, and then others

A load is a fold over its list of files, so a list can be loaded in two parts, one after the other,
and it makes no difference which files fail (`outcome_load_append`). To load everything is to load
what is found by its names, in the order of the paths (`load_names`).
-/

namespace DeclLang

namespace Options

/-- The same load, but of files that are named. -/
def naming (options : Options) (names : List String) : Options :=
  { options with selection := .several names }

/-- The same load, but of all files. -/
def everything (options : Options) : Options :=
  { options with selection := .all }

variable (fs : FileSystem) (places : List String) (options : Options)

theorem files_naming (names : List String) :
    (options.naming names).files fs places =
      (options.findRoot fs places).map fun root => names.map (StandardLibrary.pathFor root) := by
  show (options.findRoot fs places >>= fun root =>
    pure (names.map (StandardLibrary.pathFor root))) = _
  cases options.findRoot fs places <;> rfl

theorem files_everything {root : String} (h : options.findRoot fs places = .ok root) :
    options.everything.files fs places =
      (StandardLibrary.allSources fs root).mapError fun (path, e) => BootstrapError.io path e := by
  show (options.findRoot fs places >>= fun root =>
    (StandardLibrary.allSources fs root).mapError fun (path, e) => BootstrapError.io path e) = _
  rw [h]
  rfl

end Options

/-! ## Two loads in one -/

namespace Loading

variable {σ α : Type}

theorem outcome_forM_append (f : α → Loading σ PUnit) (l₁ l₂ : List α) (x : Registry × σ) :
    outcome ((l₁ ++ l₂).forM f) x =
      match outcome (l₁.forM f) x with
      | (.ok _, y) => outcome (l₂.forM f) y
      | (.error e, y) => (.error e, y) := by
  rw [List.forM_eq_forM, List.forM_append, outcome_bind]
  rcases outcome (forM l₁ f) x with ⟨result, y⟩
  cases result <;> rfl

variable {fs : FileSystem} {ingest : (file source : String) → Loading σ Unit}

/-- A load of named files that may run: the root is found, the files are read in their order, and
    what has failed poisons the registry. -/
theorem outcome_load_naming (places : List String) (options : Options) (names : List String)
    {x : Registry × σ} (hclean : x.1.poisoned = false) :
    outcome (load fs places (options.naming names) ingest) x =
      match options.findRoot fs places with
      | .error e => (.error e, x.1.poison, x.2)
      | .ok root =>
        let files := names.map (StandardLibrary.pathFor root)
        match outcome (files.forM (file fs ingest)) x with
        | (.ok _, y) => (.ok ⟨files, y.1.size - x.1.size⟩, y)
        | (.error e, y) => (.error e, y.1.poison, y.2) := by
  rw [outcome_load, hclean, Options.files_naming, if_neg Bool.false_ne_true, outcome_poisoning]
  cases options.findRoot fs places with
  | error e => rfl
  | ok root =>
    dsimp only [Except.map, load.liftExcept]
    rw [outcome_bind, outcome_pure]
    dsimp only
    rw [outcome_bind]
    generalize outcome ((names.map (StandardLibrary.pathFor root)).forM (file fs ingest)) x = after
    obtain ⟨result, y⟩ := after
    cases result with
    | error e => rfl
    | ok u => rfl

/-- Two lists of files are loaded at once as one after the other, the second only if the first did
    not fail. -/
theorem outcome_load_append (fs : FileSystem) (places : List String) (options : Options)
    (names₁ names₂ : List String)
    (hsize : ∀ path source, Keeps (fun r s => r.size ≤ s.size) (ingest path source))
    (hpoisoned : ∀ path source, Keeps (fun r s => s.poisoned = r.poisoned) (ingest path source))
    (x : Registry × σ) :
    outcome (load fs places (options.naming (names₁ ++ names₂)) ingest) x =
      match outcome (load fs places (options.naming names₁) ingest) x with
      | (.error e, y) => (.error e, y)
      | (.ok first, y) =>
        match outcome (load fs places (options.naming names₂) ingest) y with
        | (.error e, z) => (.error e, z)
        | (.ok second, z) =>
          (.ok ⟨first.files ++ second.files, first.added + second.added⟩, z) := by
  by_cases hx : x.1.poisoned = true
  · rw [outcome_load_of_poisoned hx, outcome_load_of_poisoned hx]
  rw [Bool.not_eq_true] at hx
  rw [outcome_load_naming places options (names₁ ++ names₂) hx,
    outcome_load_naming places options names₁ hx]
  cases hroot : options.findRoot fs places with
  | error e => rfl
  | ok root =>
    dsimp only
    rw [List.map_append, outcome_forM_append]
    have hgrown : Collect.Composable fun r s : Registry => r.size ≤ s.size :=
      ⟨fun _ => Nat.le_refl _, Nat.le_trans⟩
    have hsame := Registry.steadfast_poisoned.toComposable
    -- What the first files leave, from which the second ones go on.
    have hsize₁ := keeps_forM hgrown (l := names₁.map (StandardLibrary.pathFor root))
      (fun path _ => keeps_file hgrown fs hsize path) x
    have hclean₁ := keeps_forM hsame (l := names₁.map (StandardLibrary.pathFor root))
      (fun path _ => keeps_file hsame fs hpoisoned path) x
    generalize outcome ((names₁.map (StandardLibrary.pathFor root)).forM (file fs ingest)) x = first
      at hsize₁ hclean₁ ⊢
    obtain ⟨result, y⟩ := first
    cases result with
    | error e => rfl
    | ok u =>
      dsimp only
      rw [outcome_load_naming places options names₂ (hclean₁.trans hx), hroot]
      dsimp only
      have hsize₂ := keeps_forM hgrown (l := names₂.map (StandardLibrary.pathFor root))
        (fun path _ => keeps_file hgrown fs hsize path) y
      generalize outcome ((names₂.map (StandardLibrary.pathFor root)).forM (file fs ingest)) y =
        second at hsize₂ ⊢
      obtain ⟨result, z⟩ := second
      cases result with
      | error e => rfl
      | ok u =>
        have hadded : z.1.size - x.1.size = y.1.size - x.1.size + (z.1.size - y.1.size) := by
          have h₁ : x.1.size ≤ y.1.size := hsize₁
          have h₂ : y.1.size ≤ z.1.size := hsize₂
          omega
        dsimp only
        rw [hadded]

end Loading

namespace Registry

theorem load_eq (r : Registry) (fs : FileSystem) (places : List String) (options : Options) :
    r.load fs places options =
      ((Loading.outcome (Loading.load fs places options Loading.collect) (r, ())).1,
        (Loading.outcome (Loading.load fs places options Loading.collect) (r, ())).2.1) :=
  rfl

theorem load_append (r : Registry) (fs : FileSystem) (places : List String) (options : Options)
    (names₁ names₂ : List String) :
    r.load fs places (options.naming (names₁ ++ names₂)) =
      match r.load fs places (options.naming names₁) with
      | (.error e, s) => (.error e, s)
      | (.ok first, s) =>
        match s.load fs places (options.naming names₂) with
        | (.error e, t) => (.error e, t)
        | (.ok second, t) =>
          (.ok ⟨first.files ++ second.files, first.added + second.added⟩, t) := by
  have hgrown : Collect.Composable fun r s : Registry => r.size ≤ s.size :=
    ⟨fun _ => Nat.le_refl _, Nat.le_trans⟩
  have hload := Loading.outcome_load_append fs places options names₁ names₂
    (Loading.keeps_collect hgrown fun r p => (persists_collect r p).size_le)
    (Loading.keeps_collect steadfast_poisoned.toComposable poisoned_collect) (r, ())
  rw [load_eq, hload, load_eq]
  generalize Loading.outcome (Loading.load fs places (options.naming names₁) Loading.collect)
    (r, ()) = first
  obtain ⟨result, s, ⟨⟩⟩ := first
  cases result with
  | error e => rfl
  | ok first =>
    dsimp only
    rw [load_eq]
    generalize Loading.outcome (Loading.load fs places (options.naming names₂) Loading.collect)
      (s, ()) = second
    obtain ⟨result, t, ⟨⟩⟩ := second
    cases result with
    | error e => rfl
    | ok second => rfl

end Registry

/-! ## Everything by name -/

namespace StandardLibrary

variable {fs : FileSystem} {root : String} {entries : List (String × FileTree)}

theorem allSources_eq (hroot : fs.resolve root = .ok (.directory entries)) :
    allSources fs root =
      match FileTree.searchEntries (fs.searchBelow isSource root) [] entries with
      | .error (p, e) => .error (Path.join root ("/".intercalate p), e)
      | .ok found =>
        .ok (((found.mergeSort Path.precedes).map ("/".intercalate ·)).map (Path.join root)) := by
  unfold allSources FileSystem.search FileSystem.list
  rw [hroot]
  dsimp only [Except.mapError, bind, Except.bind]
  cases FileTree.searchEntries (fs.searchBelow isSource root) [] entries with
  | error failure => rfl
  | ok found =>
    dsimp only
    rw [List.map_map]
    rfl

/-- The extension of what a search finds is that of its last segment, so none is added to its
    name. -/
theorem pathFor_of_mem_searchEntries {found : List (List String)}
    (hfound : FileTree.searchEntries (fs.searchBelow isSource root) [] entries = .ok found)
    {p : List String} (hp : p ∈ found) :
    pathFor root ("/".intercalate p) = Path.join root ("/".intercalate p) := by
  obtain ⟨directories, last, node, -, rfl, hlast, -⟩ :=
    (FileTree.mem_searchEntries_iff hfound).mp hp
  have hends := (Path.endsIn_join root _).trans (Path.endsIn_intercalate ([] ++ directories) last)
  exact pathFor_of_isSource (isSource_of_endsIn hends hlast)

end StandardLibrary

theorem FileSystem.exists_of_isDirectory {fs : FileSystem} {path : String}
    (h : fs.isDirectory path = true) : ∃ entries, fs.resolve path = .ok (.directory entries) := by
  unfold isDirectory at h
  split at h
  · exact ⟨_, by assumption⟩
  · cases h

theorem Options.isDirectory_of_findRoot {fs : FileSystem} {places : List String}
    {options : Options} {root : String} (h : options.findRoot fs places = .ok root) :
    fs.isDirectory root = true := by
  unfold findRoot at h
  split at h
  · split at h
    · rename_i hroot
      rwa [← Except.ok.inj h]
    · cases h
  · unfold StandardLibrary.locate at h
    cases hfound : places.find? fs.isDirectory with
    | none =>
      rw [hfound] at h
      cases h
    | some found =>
      rw [hfound] at h
      rw [← Except.ok.inj h]
      exact List.find?_some hfound

/-- Named files are loaded in two parts, one after the other, as they are loaded at once: the files
    are put together, what was added is summed up, and of two failures only the first can be met. If
    there is a root, all files below it are those that are named by their paths there, in the order
    of these paths, unless a directory on the way cannot be listed. -/
theorem load_names (r : Registry) (fs : FileSystem) (places : List String) (options : Options) :
    (∀ names₁ names₂, r.load fs places (options.naming (names₁ ++ names₂)) =
      match r.load fs places (options.naming names₁) with
      | (.error e, s) => (.error e, s)
      | (.ok first, s) =>
        match s.load fs places (options.naming names₂) with
        | (.error e, t) => (.error e, t)
        | (.ok second, t) =>
          (.ok ⟨first.files ++ second.files, first.added + second.added⟩, t)) ∧
    ∀ root, options.findRoot fs places = .ok root →
      ∃ entries : List (String × FileTree), fs.resolve root = .ok (.directory entries) ∧
        match FileTree.searchEntries (fs.searchBelow StandardLibrary.isSource root) [] entries with
        | .error (p, e) =>
          options.everything.files fs places = .error (.io (Path.join root ("/".intercalate p)) e)
        | .ok unsorted =>
          ∃ found : List (List String), found.Perm unsorted ∧
            found.Pairwise (fun p q => Path.precedes p q = true) ∧
            let names := found.map ("/".intercalate ·)
            options.everything.files fs places = .ok (names.map (Path.join root)) ∧
              (options.naming names).files fs places = .ok (names.map (Path.join root)) := by
  refine ⟨r.load_append fs places options, fun root hroot => ?_⟩
  obtain ⟨entries, hentries⟩ :=
    FileSystem.exists_of_isDirectory (Options.isDirectory_of_findRoot hroot)
  refine ⟨entries, hentries, ?_⟩
  rw [Options.files_everything fs places options hroot, StandardLibrary.allSources_eq hentries]
  cases hsearch : FileTree.searchEntries (fs.searchBelow StandardLibrary.isSource root) [] entries with
  | error failure => rfl
  | ok unsorted =>
    have hperm := List.mergeSort_perm unsorted Path.precedes
    refine ⟨_, hperm, List.pairwise_mergeSort Path.precedes_trans Path.precedes_total _, rfl, ?_⟩
    have hnames : ∀ name ∈ (unsorted.mergeSort Path.precedes).map ("/".intercalate ·),
        StandardLibrary.pathFor root name = Path.join root name := by
      rw [List.forall_mem_map]
      intro p hp
      exact StandardLibrary.pathFor_of_mem_searchEntries hsearch (hperm.mem_iff.mp hp)
    rw [Options.files_naming, hroot, ← List.map_congr_left hnames]
    rfl

/-- A library with a file in a directory, one beside it and one that is no declaration file. All
    files of it are the two, the one at the top first. -/
theorem load_names_nested :
    let file := FileTree.file ⟨#[]⟩
    let library := [("b", FileTree.directory [("x.qz", file)]), ("c.txt", file), ("a.qz", file)]
    let fs : FileSystem := ⟨.directory [("std", .directory library)], "/"⟩
    let options : Options := ⟨.none, .host64, some "std"⟩
    options.findRoot fs [] = .ok "std" ∧
      options.everything.files fs [] = .ok ["std/a.qz", "std/b/x.qz"] ∧
      ∃ names : List String, names.map (Path.join "std") = ["std/a.qz", "std/b/x.qz"] ∧
        (options.naming names).files fs [] = .ok ["std/a.qz", "std/b/x.qz"] := by
  intro file library fs options
  have hdirectory : fs.resolve "std" = .ok (.directory library) := by
    have hsegments : Path.segments (Path.join "/" "std") = ["", "std"] := by decide +kernel
    have hfits : ("std".isEmpty || "std".toList.contains '\x00') = false ∧
        ¬ Path.lengthLimit < "std".utf8ByteSize ∧ ¬ Path.nameLimit < "std".utf8ByteSize := by
      decide +kernel
    simp [FileSystem.resolve, hsegments, FileTree.walk, FileTree.child?, fs, hfits]
  have hroot : options.findRoot fs [] = .ok "std" := by
    simp only [Options.findRoot, options, FileSystem.isDirectory, hdirectory, if_true]
  have hopens : (fs.searchBelow StandardLibrary.isSource "std").opens ["b"] = .ok () := by
    have hsegments : Path.join "std" "b" = "std/b" ∧
        Path.segments (Path.join "/" "std/b") = ["", "std", "b"] := by decide +kernel
    have hfits : ("std/b".isEmpty || "std/b".toList.contains '\x00') = false ∧
        ¬ Path.lengthLimit < "std/b".utf8ByteSize ∧ ¬ Path.nameLimit < "std".utf8ByteSize ∧
        ¬ Path.nameLimit < "b".utf8ByteSize := by
      decide +kernel
    simp [FileSystem.searchBelow, FileSystem.list, FileSystem.resolve, hsegments, FileTree.walk,
      FileTree.child?, fs, library, hfits, Except.map]
  have hfound : FileTree.searchEntries (fs.searchBelow StandardLibrary.isSource "std") [] library =
      .ok [["b", "x.qz"], ["a.qz"]] := by
    have hnames : StandardLibrary.isSource "x.qz" = true ∧ StandardLibrary.isSource "a.qz" = true ∧
        StandardLibrary.isSource "c.txt" = false ∧ FileTree.isHidden "b" = false := by
      decide +kernel
    simp only [library, file, FileTree.searchEntries, FileTree.searchNode,
      FileSystem.accepts_searchBelow, hnames, List.nil_append, hopens]
    rfl
  have hsorted : [["b", "x.qz"], ["a.qz"]].mergeSort Path.precedes =
      [["a.qz"], ["b", "x.qz"]] := by
    have hbehind : Path.precedes ["b", "x.qz"] ["a.qz"] = false := by decide +kernel
    simp [List.mergeSort, hbehind]
  have hall : options.everything.files fs [] = .ok ["std/a.qz", "std/b/x.qz"] := by
    rw [Options.files_everything fs [] options hroot, StandardLibrary.allSources_eq hdirectory,
      hfound]
    dsimp only
    rw [hsorted]
    exact congrArg Except.ok (by decide +kernel)
  obtain ⟨entries, hentries, hfiles⟩ := (load_names (.initial .host64) fs [] options).2 "std" hroot
  obtain rfl : library = entries :=
    FileTree.directory.inj (Except.ok.inj (hdirectory.symm.trans hentries))
  rw [hfound] at hfiles
  obtain ⟨found, -, -, heverything, hnaming⟩ := hfiles
  have hnames := Except.ok.inj (heverything.symm.trans hall)
  exact ⟨hroot, hall, _, hnames, hnaming.trans (congrArg Except.ok hnames)⟩

end DeclLang
