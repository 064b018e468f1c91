import DeclLang.Proofs.Files.Paths

/-!
# Extensions: what a file of the library may be called

A name that can stand in a directory is the file name of every path that ends in it, so the
extension of the path can be read off the name (`EndsIn.extension?_eq`). The path of a library file
has the extension of declaration files, whether or not the name has it, unless the name leaves
nothing for the extension to be put behind (`pathFor_extension`).
-/

namespace DeclLang

namespace Path

/-! ## Joining -/

/-- Whether a name is absolute is settled by its first character. -/
theorem isAbsolute_append {name : String} (hname : name ≠ "") (more : String) :
    isAbsolute (name ++ more) = isAbsolute name := by
  unfold isAbsolute
  rw [String.toList_append]
  cases hchars : name.toList with
  | nil => exact absurd (String.toList_eq_nil_iff.mp hchars) hname
  | cons c cs => rfl

/-- What comes between a root and a name below it. -/
def separator (root : String) : String :=
  if root.isEmpty || endsInSlash root then "" else "/"

theorem join_eq {name : String} (hname : isAbsolute name = false) (root : String) :
    join root name = root ++ separator root ++ name := by
  unfold join separator
  rw [if_neg (by simp [hname])]
  by_cases hroot : (root.isEmpty || endsInSlash root) = true
  · rw [if_pos hroot, if_pos hroot, String.append_empty]
  · rw [if_neg hroot, if_neg hroot]

/-- More at the end of a name is more at the end of its path. -/
theorem join_append {name more : String} (habsolute : isAbsolute (name ++ more) = isAbsolute name)
    (root : String) : join root (name ++ more) = join root name ++ more := by
  by_cases h : isAbsolute name = true
  · rw [join_of_isAbsolute root h, join_of_isAbsolute root (habsolute.trans h)]
  · rw [Bool.not_eq_true] at h
    rw [join_eq h, join_eq (habsolute.trans h), ← String.append_assoc]

/-! ## File names -/

/-- A name that an entry of a directory can have. -/
structure IsFileName (name : String) : Prop where
  ne_empty : name ≠ ""
  ne_here : name ≠ "."
  ne_parent : name ≠ ".."
  no_slash : '/' ∉ name.toList

theorem IsFileName.fileNameChars? {name : String} (h : IsFileName name) :
    Path.fileNameChars? name.toList = some name.toList := by
  have hne (text : String) (hname : name ≠ text) : name.toList ≠ text.toList :=
    fun hchars => hname (String.toList_inj.mp hchars)
  have htransparent : ¬ isTransparent name.toList = true := by
    have hempty := hne "" h.ne_empty
    have hhere := hne "." h.ne_here
    simp_all [isTransparent]
  unfold Path.fileNameChars?
  rw [segmentChars_of_not_mem h.no_slash, List.reverse_singleton,
    List.dropWhile_cons_of_neg htransparent]
  exact if_neg (hne ".." h.ne_parent)

/-- The extension of a path is that of its file name. -/
theorem EndsIn.extension?_eq {path name : String} (h : EndsIn path name) (hname : IsFileName name) :
    Path.extension? path = (extensionChars? name.toList).map String.ofList := by
  have hfile : Path.fileNameChars? path.toList = some name.toList := by
    obtain rfl | ⟨directory, rfl⟩ := h
    · exact hname.fileNameChars?
    · have hchars : (directory ++ "/" ++ name).toList =
          directory.toList ++ '/' :: name.toList := by simp
      rw [hchars]
      exact fileNameChars?_slash hname.fileNameChars? _
  unfold Path.extension?
  rw [hfile]
  rfl

/-- What an extension is: it comes behind the last dot, and that is not the first character. -/
theorem extensionChars?_eq_some_iff {name extension : List Char} :
    extensionChars? name = some extension ↔
      '.' ∉ extension ∧ ∃ stem, stem ≠ [] ∧ name = stem ++ '.' :: extension := by
  unfold extensionChars?
  dsimp only
  constructor
  · intro h
    have hname := List.takeWhile_append_dropWhile (p := (· != '.')) (l := name.reverse)
    have hdot := List.head?_dropWhile_not (· != '.') name.reverse
    generalize hafter : name.reverse.takeWhile (· != '.') = after at h hname
    have hplain : '.' ∉ after := by
      rw [← hafter]
      intro hmem
      simpa using List.all_eq_true.mp List.all_takeWhile _ hmem
    generalize name.reverse.dropWhile (· != '.') = before at h hname hdot
    rcases before with _ | ⟨d, _ | ⟨c, cs⟩⟩
    · cases h
    · cases h
    · obtain rfl := Option.some.inj h
      have hd : d = '.' := by simpa using hdot
      refine ⟨fun hmem => hplain (List.mem_reverse.mp hmem), (c :: cs).reverse, by simp, ?_⟩
      rw [← List.reverse_reverse name, ← hname, hd]
      simp
  · rintro ⟨hplain, stem, hstem, rfl⟩
    have hafter : ∀ c ∈ extension.reverse, (c != '.') = true := by
      intro c hc
      have hne : c ≠ '.' := by
        rintro rfl
        exact hplain (List.mem_reverse.mp hc)
      simpa using hne
    have hreverse : (stem ++ '.' :: extension).reverse =
        extension.reverse ++ '.' :: stem.reverse := by simp
    rw [hreverse, List.takeWhile_append_of_pos hafter, List.dropWhile_append_of_pos hafter,
      List.takeWhile_cons_of_neg (by decide), List.dropWhile_cons_of_neg (by decide)]
    cases hbefore : stem.reverse with
    | nil => exact absurd (List.reverse_eq_nil_iff.mp hbefore) hstem
    | cons c cs => simp

/-- What stands behind the last slash of a path. -/
theorem exists_endsIn (path : String) : ∃ last, EndsIn path last ∧ '/' ∉ last.toList := by
  by_cases hslash : '/' ∈ path.toList.reverse
  · obtain ⟨last, before, hchars, hlast⟩ := List.eq_append_cons_of_mem hslash
    refine ⟨String.ofList last.reverse, .inr ⟨String.ofList before.reverse, ?_⟩, by simpa⟩
    apply String.toList_inj.mp
    rw [← List.reverse_reverse path.toList, hchars]
    simp
  · exact ⟨path, .inl rfl, fun h => hslash (List.mem_reverse.mpr h)⟩

/-- Nothing stands there if the path is empty or goes on to its last slash. -/
theorem EndsIn.ne_empty_iff {path last : String} (h : EndsIn path last) (hlast : '/' ∉ last.toList) :
    last ≠ "" ↔ path ≠ "" ∧ endsInSlash path = false := by
  have hchars : last = "" ↔ last.toList = [] := String.toList_eq_nil_iff.symm
  have hend : last.toList.getLast? ≠ some '/' := fun h => hlast (List.mem_of_getLast? h)
  unfold endsInSlash
  obtain rfl | ⟨directory, rfl⟩ := h
  · simp [hend]
  · cases hl : last.toList with
    | nil => simp [hchars, hl]
    | cons c cs =>
      rw [hl] at hend
      simp [hchars, hl, hend]

end Path

namespace StandardLibrary

/-- A declaration file has a name before its extension. -/
theorem isSource_iff {path name : String} (h : Path.EndsIn path name)
    (hname : Path.IsFileName name) :
    isSource path = true ↔ ∃ stem, stem ≠ "" ∧ name = stem ++ ".qz" := by
  have hplain : '.' ∉ ("qz" : String).toList := by decide
  have hextension : isSource path = true ↔
      Path.extensionChars? name.toList = some ("qz" : String).toList := by
    unfold isSource
    rw [h.extension?_eq hname, beq_iff_eq, Option.map_eq_some_iff]
    constructor
    · rintro ⟨cs, hcs, hqz⟩
      rw [hcs, ← String.toList_ofList (l := cs), hqz]
      rfl
    · exact fun hcs => ⟨_, hcs, rfl⟩
  rw [hextension, Path.extensionChars?_eq_some_iff]
  constructor
  · rintro ⟨-, stem, hstem, hchars⟩
    refine ⟨String.ofList stem, fun h => hstem ?_, ?_⟩
    · rw [← String.toList_ofList (l := stem), h]
      rfl
    · apply String.toList_inj.mp
      rw [hchars, String.toList_append, String.toList_ofList]
      simp
  · rintro ⟨stem, hstem, rfl⟩
    refine ⟨hplain, stem.toList, fun h => hstem (String.toList_eq_nil_iff.mp h), ?_⟩
    rw [String.toList_append]
    rfl

/-- The extension is put behind the last part of a name. -/
theorem isSource_join_append (root name : String) :
    isSource (Path.join root (name ++ ".qz")) = true ↔
      name ≠ "" ∧ Path.endsInSlash name = false := by
  obtain ⟨last, hends, hlast⟩ := Path.exists_endsIn name
  have hends' : Path.EndsIn (name ++ ".qz") (last ++ ".qz") := by
    obtain rfl | ⟨directory, rfl⟩ := hends
    · exact .inl rfl
    · exact .inr ⟨directory, String.append_assoc⟩
  have hname : Path.IsFileName (last ++ ".qz") := by
    have hne (text : String) (hshort : text.length < 3) : last ++ ".qz" ≠ text := by
      rintro rfl
      simp only [String.length_append] at hshort
      have hqz : (".qz" : String).length = 3 := by decide
      omega
    refine ⟨hne "" (by decide), hne "." (by decide), hne ".." (by decide), ?_⟩
    have hqz : '/' ∉ (".qz" : String).toList := by decide
    rw [String.toList_append, List.mem_append]
    exact not_or.mpr ⟨hlast, hqz⟩
  rw [isSource_iff ((Path.endsIn_join root _).trans hends') hname, ← hends.ne_empty_iff hlast]
  constructor
  · rintro ⟨stem, hstem, heq⟩
    rwa [(String.append_left_inj _).mp heq]
  · exact fun h => ⟨last, h, rfl⟩

theorem join_append_extension (root name : String) :
    Path.join root (name ++ ".qz") = Path.join root name ++ ".qz" := by
  apply Path.join_append
  by_cases hname : name = ""
  · rw [hname]
    decide
  · exact Path.isAbsolute_append hname _

/-- The extension can be put behind the path as well as behind the name. -/
theorem pathFor_eq (root name : String) :
    pathFor root name =
      if isSource (Path.join root name) = true then Path.join root name
      else Path.join root name ++ ".qz" := by
  have hadded : toString name ++ toString "." ++ toString extension = name ++ ".qz" := by
    rw [String.append_assoc]
    rfl
  unfold pathFor
  dsimp only
  rw [hadded, join_append_extension]

/-- The path of a library file has the extension of declaration files exactly if the path of its
    name has it, or the name is not empty and does not end in a slash. These are, without those that
    have the extension already, the names that can be given with the extension or without it. -/
theorem pathFor_extension (root name : String) :
    (isSource (pathFor root name) = true ↔
      isSource (Path.join root name) = true ∨ name ≠ "" ∧ Path.endsInSlash name = false) ∧
    (pathFor root name = pathFor root (name ++ ".qz") ↔
      isSource (Path.join root name) = false ∧ name ≠ "" ∧ Path.endsInSlash name = false) := by
  have hlonger (path more : String) (hmore : 0 < more.length) : path ≠ path ++ more := by
    intro h
    have hlength := congrArg String.length h
    rw [String.length_append] at hlength
    omega
  rw [← isSource_join_append root name, join_append_extension, pathFor_eq root name,
    pathFor_eq root (name ++ ".qz"), join_append_extension]
  generalize Path.join root name = path
  by_cases hsource : isSource path = true
  · rw [if_pos hsource]
    refine ⟨by simp [hsource], ?_⟩
    have hkeeps : ¬ (isSource path = false ∧ isSource (path ++ ".qz") = true) := by simp [hsource]
    by_cases hmore : isSource (path ++ ".qz") = true
    · rw [if_pos hmore]
      exact iff_of_false (hlonger path ".qz" (by decide)) hkeeps
    · rw [if_neg hmore, String.append_assoc]
      exact iff_of_false (hlonger path (".qz" ++ ".qz") (by decide)) hkeeps
  · rw [if_neg hsource]
    refine ⟨by simp [hsource], ?_⟩
    by_cases hmore : isSource (path ++ ".qz") = true
    · rw [if_pos hmore]
      exact iff_of_true rfl ⟨Bool.not_eq_true _ ▸ hsource, hmore⟩
    · rw [if_neg hmore]
      exact iff_of_false (hlonger (path ++ ".qz") ".qz" (by decide)) fun h => hmore h.2

/-- Without a name the extension is a name of its own, which has none: the path is not that of a
    declaration file, and with the extension the name stands for another one. -/
theorem pathFor_nameless :
    isSource (pathFor "/std" "") = false ∧ isSource (Path.join "/std" "") = false ∧
      pathFor "/std" "" = "/std/.qz" ∧ pathFor "/std" ("" ++ ".qz") = "/std/.qz.qz" ∧
      pathFor "/std" "" ≠ pathFor "/std" ("" ++ ".qz") := by
  decide

end StandardLibrary

end DeclLang
