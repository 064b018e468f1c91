import DeclLang.Command.Run
import DeclLang.Proofs.Library.Ingestion
import DeclLang.Proofs.Source.Positions

/-!
# Manifest: the list of libraries as it is printed

Each library is printed with a line feed behind it, so a name goes over as many lines as it has
itself. The lines that are printed are the libraries as long as no name has a line feed in it, which
a literal of the sources has to write as an escape (`libs_lines_eq_iff`).
-/

namespace DeclLang

namespace Text

/-- The lines of a text, each of which a line feed ends. -/
def lines (text : String) : List String :=
  (linesOf text.toList).dropLast.map String.ofList

/-- The parts of a text between its line feeds. -/
def parts (text : String) : List String :=
  (linesOf text.toList).map String.ofList

theorem lines_unlines (ls : List String) : lines (unlines ls) = ls.flatMap parts := by
  unfold lines
  induction ls with
  | nil => rfl
  | cons l ls ih =>
    have hchars : (unlines (l :: ls)).toList = l.toList ++ '\n' :: (unlines ls).toList := by simp
    have hne : linesOf (unlines ls).toList ≠ [] := List.splitOn_ne_nil _ _
    rw [hchars, linesOf_newline, List.dropLast_append_of_ne_nil hne, List.map_append, ih,
      List.flatMap_cons]
    rfl

theorem newline_not_mem_of_mem_parts {text part : String} (h : part ∈ parts text) :
    '\n' ∉ part.toList := by
  obtain ⟨cs, hcs, rfl⟩ := List.mem_map.mp h
  rw [String.toList_ofList]
  exact newline_not_mem_of_mem_linesOf hcs

theorem parts_eq_singleton {text : String} (h : '\n' ∉ text.toList) : parts text = [text] := by
  rw [parts, linesOf, List.splitOn_eq_singleton h, List.map_singleton, String.ofList_toList]

theorem unlines_parts (text : String) : unlines (parts text) = text ++ "\n" := by
  have hchars (ls : List (List Char)) :
      (unlines (ls.map String.ofList)).toList = ls.flatMap (· ++ ['\n']) := by
    induction ls with
    | nil => rfl
    | cons l ls ih => simp [ih]
  have hjoin (cs : List Char) : (linesOf cs).flatMap (· ++ ['\n']) = cs ++ ['\n'] := by
    induction cs with
    | nil => rfl
    | cons c cs ih =>
      by_cases hc : c = '\n'
      · have hsplit := linesOf_newline [] cs
        rw [List.nil_append] at hsplit
        rw [hc, hsplit, List.flatMap_append, ih]
        rfl
      · rw [linesOf_cons hc]
        cases hlines : linesOf cs with
        | nil => exact absurd hlines (List.splitOn_ne_nil _ _)
        | cons first rest =>
          rw [hlines] at ih
          rw [List.modifyHead_cons, List.flatMap_cons, List.cons_append, List.cons_append,
            List.cons_append, ← ih, List.flatMap_cons]
  apply String.toList_inj.mp
  rw [parts, hchars, hjoin]
  simp

/-- Nothing is left behind the last line of lines that were put together. -/
theorem unlines_lines_unlines (ls : List String) : unlines (lines (unlines ls)) = unlines ls := by
  rw [lines_unlines]
  induction ls with
  | nil => rfl
  | cons l ls ih => rw [List.flatMap_cons, unlines_append, ih, unlines_parts, unlines_cons]

/-- Lines that are put together can be told apart if none has a line feed in it. -/
theorem lines_unlines_eq_iff (ls : List String) :
    lines (unlines ls) = ls ↔ ∀ l ∈ ls, '\n' ∉ l.toList := by
  rw [lines_unlines]
  constructor
  · intro h l hl
    rw [← h, List.mem_flatMap] at hl
    obtain ⟨text, -, hpart⟩ := hl
    exact newline_not_mem_of_mem_parts hpart
  · intro h
    induction ls with
    | nil => rfl
    | cons l ls ih =>
      obtain ⟨hl, hls⟩ := List.forall_mem_cons.mp h
      rw [List.flatMap_cons, parts_eq_singleton hl, ih hls, List.singleton_append]

end Text

/-! ## Names with line feeds -/

/-- No literal of a text stands for a text with a line feed. -/
def WritesNoNewline (source : String) : Prop :=
  ∀ tokens, lex source = .ok tokens →
    ∀ literal ∈ stringLiterals tokens, '\n' ∉ literal.value.toList

theorem mem_linkNames {names : List (Located String)} {name : String} :
    name ∈ linkNames names ↔ name ≠ "" ∧ ∃ literal ∈ names, literal.value = name := by
  rw [linkNames, List.mem_filter, List.mem_map, and_comm]
  simp

theorem forall_linkNames_iff {source : String} {p : Program} (h : Program.ofSource source = .ok p) :
    (∀ name ∈ linkNames p.libnames, '\n' ∉ name.toList) ↔ WritesNoNewline source := by
  obtain ⟨tokens, hlex, hliterals, -⟩ := Program.libnames_of_ofSource h
  constructor
  · intro hnames tokens' hlex' literal hliteral hnewline
    obtain rfl := Except.ok.inj (hlex.symm.trans hlex')
    refine hnames literal.value (mem_linkNames.mpr ⟨?_, literal, hliterals ▸ hliteral, rfl⟩) hnewline
    rintro hempty
    rw [hempty] at hnewline
    cases hnewline
  · intro hnone name hname
    obtain ⟨-, literal, hliteral, rfl⟩ := mem_linkNames.mp hname
    exact hnone tokens hlex literal (hliterals ▸ hliteral)

theorem forall_libraryNames_iff {r s : Registry} (hr : r.libraryNames = [])
    {files : List (String × Program)} (h : r.Ingests files s) :
    (∀ name ∈ s.libraryNames, '\n' ∉ name.toList) ↔
      ∀ source ∈ files.map (·.1), WritesNoNewline source := by
  rw [h.libraryNames, hr, List.nil_append, List.forall_mem_flatMap, List.forall_mem_map]
  exact forall₂_congr fun file hfile => forall_linkNames_iff (h.read file hfile)

/-! ## A library of one file -/

/-- A library that has a single file. -/
def singleFile (source : String) : FileSystem :=
  ⟨.directory [("j.qz", .file source.toUTF8)], "/"⟩

theorem read_singleFile (source : String) : (singleFile source).read "/j.qz" = .ok source := by
  have hsegments : Path.segments (Path.join "/" "/j.qz") = ["", "j.qz"] := by decide
  have hfits : ("/j.qz".isEmpty || "/j.qz".toList.contains '\x00') = false ∧
      ¬ Path.lengthLimit < "/j.qz".utf8ByteSize ∧ ¬ Path.nameLimit < "j.qz".utf8ByteSize := by
    decide
  have htext : String.fromUTF8? source.toByteArray = some source := dif_pos source.isValidUTF8
  simp [FileSystem.read, FileSystem.resolve, hsegments, FileTree.walk, FileTree.child?, singleFile,
    hfits, htext]

theorem files_singleFile (source : String) :
    Options.files (singleFile source) [] ⟨.one "j", .host64, some "/"⟩ = .ok ["/j.qz"] := by
  have hroot : (singleFile source).isDirectory "/" = true := by
    have hsegments : Path.segments (Path.join "/" "/") = ["", ""] := by decide
    have hfits : ("/".isEmpty || "/".toList.contains '\x00') = false ∧
        ¬ Path.lengthLimit < "/".utf8ByteSize := by decide
    simp [FileSystem.isDirectory, FileSystem.resolve, hsegments, FileTree.walk, singleFile, hfits]
  have hpath : StandardLibrary.pathFor "/" "j" = "/j.qz" := by decide
  show (Options.findRoot (singleFile source) [] _ >>= fun root =>
    pure [StandardLibrary.pathFor root "j"]) = _
  simp only [Options.findRoot, hroot, if_true]
  exact congrArg (fun path => Except.ok [path]) hpath

theorem bootstrap_singleFile {source : String} {p : Program} {c : Collection}
    (hparse : Program.ofSource source = .ok p)
    (hcollect : (Registry.initial .host64).collect p = (.ok (), c)) :
    bootstrap (singleFile source) [] ⟨.one "j", .host64, some "/"⟩ = .ok c.registry :=
  bootstrap_eq_ok_iff_ingests.mpr ⟨_, _, [(source, p)],
    Registry.ofTarget_eq_ok_iff.mpr ⟨by decide, rfl⟩, files_singleFile source,
    .cons (read_singleFile source) .nil, .cons hparse hcollect .nil⟩

/-! ## What is printed -/

/-- The list of libraries is printed in whole lines, and each library goes over as many of them as
    there are parts of its name between line feeds. So the lines are the libraries exactly when no
    source that was loaded writes a name with a line feed in it. -/
theorem libs_lines_eq_iff {fs : FileSystem} {places : List String} {options : Options}
    {r : Registry} (h : bootstrap fs places options = .ok r) :
    ∃ text paths sources,
      Invocation.run fs places ⟨.libs, options⟩ = .printed text ∧
      Text.unlines (Text.lines text) = text ∧
      Text.lines text = r.libraryNames.flatMap Text.parts ∧
      options.files fs places = .ok paths ∧ fs.Reads paths sources ∧
      (Text.lines text = r.libraryNames ↔ ∀ source ∈ sources, WritesNoNewline source) := by
  obtain ⟨r₀, paths, files, htarget, hpaths, hreads, hingests⟩ :=
    bootstrap_eq_ok_iff_ingests.mp h
  obtain ⟨-, rfl⟩ := Registry.ofTarget_eq_ok_iff.mp htarget
  refine ⟨_, paths, _, ?_, Text.unlines_lines_unlines r.libraryNames, Text.lines_unlines _, hpaths,
    hreads, ?_⟩
  · unfold Invocation.run
    rw [h]
    rfl
  · rw [Text.lines_unlines_eq_iff]
    exact forall_libraryNames_iff (Registry.libraryNames_initial _) hingests

/-- A library with a name that goes on one line. -/
theorem libs_lines_eq_iff_plain :
    let source := "lib J(\"a b\")\nend\n"
    let options : Options := ⟨.one "j", .host64, some "/"⟩
    ∃ r text, bootstrap (singleFile source) [] options = .ok r ∧
      Invocation.run (singleFile source) [] ⟨.libs, options⟩ = .printed text ∧
      Text.lines text = ["a b"] ∧ r.libraryNames = ["a b"] := by
  intro source options
  let p := (Program.ofSource source).toOption.getD []
  obtain ⟨hok, hok', hnames⟩ : (Program.ofSource source).isOk = true ∧
      ((Registry.initial .host64).collect p).1.isOk = true ∧
      ((Registry.initial .host64).collect p).2.registry.libraryNames = ["a b"] := by
    decide +kernel
  have hparse : Program.ofSource source = .ok p := Registry.ok_of_isOk hok []
  have hcollect : ((Registry.initial .host64).collect p).1 = .ok () :=
    Registry.ok_of_isOk hok' ()
  have hboot := bootstrap_singleFile hparse (Prod.ext hcollect rfl)
  obtain ⟨text, paths, sources, hrun, -, hlines, -⟩ := libs_lines_eq_iff hboot
  refine ⟨_, text, hboot, hrun, ?_, hnames⟩
  rw [hlines, hnames]
  decide

/-- The name of one library can go over two lines. -/
theorem not_libs_lines_libraryNames :
    ¬ ∀ (fs : FileSystem) (places : List String) (options : Options) (r : Registry) (text : String),
      bootstrap fs places options = .ok r →
      Invocation.run fs places ⟨.libs, options⟩ = .printed text →
      Text.lines text = r.libraryNames := by
  intro h
  let source := "lib J(\"a\\nb\")\nend\n"
  let p := (Program.ofSource source).toOption.getD []
  obtain ⟨hok, hok', hnames⟩ : (Program.ofSource source).isOk = true ∧
      ((Registry.initial .host64).collect p).1.isOk = true ∧
      ((Registry.initial .host64).collect p).2.registry.libraryNames = ["a\nb"] := by
    decide +kernel
  have hparse : Program.ofSource source = .ok p := Registry.ok_of_isOk hok []
  have hcollect : ((Registry.initial .host64).collect p).1 = .ok () :=
    Registry.ok_of_isOk hok' ()
  have hboot := bootstrap_singleFile hparse (Prod.ext hcollect rfl)
  have hrun : Invocation.run (singleFile source) [] ⟨.libs, ⟨.one "j", .host64, some "/"⟩⟩ =
      .printed (Text.unlines ["a\nb"]) := by
    rw [← hnames]
    unfold Invocation.run
    rw [hboot]
    rfl
  have hlines := h _ _ _ _ _ hboot hrun
  rw [hnames, Text.lines_unlines_eq_iff] at hlines
  exact hlines "a\nb" List.mem_cons_self (by decide)

end DeclLang
