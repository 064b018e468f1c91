import DeclLang.Files.Tree
import DeclLang.Library.Selection

/-!
# Paths of files: extensions of longer paths, and the order of paths

The extension of a path is that of its last segment, so it stays when directories are put before it
(`EndsIn.extension?`). Paths are in a total order, in which the files of a search come
(`precedes_trans`, `precedes_total`).
-/

namespace DeclLang

namespace Path

/-! ## Segments -/

theorem segmentChars_slash (cs ds : List Char) :
    segmentChars (cs ++ '/' :: ds) = segmentChars cs ++ segmentChars ds := by
  induction cs with
  | nil => rfl
  | cons c cs ih =>
    rw [List.cons_append, segmentChars, segmentChars, ih]
    by_cases hc : c = '/'
    · rw [if_pos hc, if_pos hc, List.cons_append]
    · rw [if_neg hc, if_neg hc]
      cases hsegments : segmentChars cs with
      | nil => exact absurd hsegments (segmentChars_ne_nil cs)
      | cons s rest => rfl

/-- What comes before a slash is not looked at if a file is named behind it. -/
theorem fileNameChars?_slash {ds name : List Char} (h : fileNameChars? ds = some name)
    (cs : List Char) : fileNameChars? (cs ++ '/' :: ds) = some name := by
  unfold fileNameChars? at h ⊢
  rw [segmentChars_slash, List.reverse_append]
  cases hlast : (segmentChars ds).reverse.dropWhile isTransparent with
  | nil =>
    rw [hlast] at h
    cases h
  | cons s rest =>
    rw [hlast] at h
    have hne : ((segmentChars ds).reverse.dropWhile isTransparent).isEmpty = false := by
      rw [hlast]
      rfl
    rw [List.dropWhile_append, hne, hlast]
    exact h

/-- One path is the other one, or stands below a directory in it. -/
def EndsIn (path name : String) : Prop :=
  path = name ∨ ∃ directory, path = directory ++ "/" ++ name

theorem EndsIn.trans {path name last : String} (h : EndsIn path name) (h' : EndsIn name last) :
    EndsIn path last := by
  obtain rfl | ⟨directory, rfl⟩ := h
  · exact h'
  obtain rfl | ⟨inner, rfl⟩ := h'
  · exact .inr ⟨directory, rfl⟩
  · refine .inr ⟨directory ++ "/" ++ inner, ?_⟩
    simp only [String.append_assoc]

theorem endsIn_join (root name : String) : EndsIn (join root name) name := by
  unfold join
  by_cases habsolute : isAbsolute name = true
  · rw [if_pos habsolute]
    exact .inl rfl
  rw [if_neg habsolute]
  by_cases hempty : root.isEmpty = true
  · have hroot : root = "" := String.isEmpty_iff.mp hempty
    rw [hroot]
    exact .inl (String.empty_append ..)
  by_cases hslash : endsInSlash root = true
  · rw [if_pos (by rw [hslash, Bool.or_true])]
    have hlast : root.toList.getLast? = some '/' := by simpa [endsInSlash] using hslash
    obtain ⟨directory, hroot⟩ := List.getLast?_eq_some_iff.mp hlast
    refine .inr ⟨String.ofList directory, ?_⟩
    have hchars : root = String.ofList directory ++ "/" := by
      apply String.toList_inj.mp
      rw [hroot, String.toList_append, String.toList_ofList]
      rfl
    rw [hchars]
  · rw [if_neg (by simp [hempty, hslash])]
    exact .inr ⟨root, rfl⟩

theorem endsIn_intercalate (directories : List String) (name : String) :
    EndsIn ("/".intercalate (directories ++ [name])) name := by
  induction directories with
  | nil => exact .inl (String.intercalate_singleton ..)
  | cons d ds ih =>
    have hmore : EndsIn ("/".intercalate (d :: (ds ++ [name])))
        ("/".intercalate (ds ++ [name])) := by
      cases hbelow : ds ++ [name] with
      | nil => simp at hbelow
      | cons s rest => exact .inr ⟨d, String.intercalate_cons_cons⟩
    exact hmore.trans ih

theorem EndsIn.extension? {path name extension : String} (h : EndsIn path name)
    (hname : Path.extension? name = some extension) : Path.extension? path = some extension := by
  obtain rfl | ⟨directory, rfl⟩ := h
  · exact hname
  unfold Path.extension? at hname ⊢
  cases hfile : fileNameChars? name.toList with
  | none =>
    rw [hfile] at hname
    cases hname
  | some file =>
    have hchars : (directory ++ "/" ++ name).toList = directory.toList ++ '/' :: name.toList := by
      simp
    rw [hchars, fileNameChars?_slash hfile]
    rwa [hfile] at hname

/-! ## Order -/

theorem precedes_cons {s t : String} {p q : List String} :
    precedes (s :: p) (t :: q) = true ↔ s < t ∨ s = t ∧ precedes p q = true := by
  simp [precedes]

theorem precedes_trans (p q u : List String) (h : precedes p q = true)
    (h' : precedes q u = true) : precedes p u = true := by
  induction p generalizing q u with
  | nil => rfl
  | cons s p ih =>
    cases q with
    | nil => cases h
    | cons t q =>
      cases u with
      | nil => cases h'
      | cons v u =>
        rw [precedes_cons] at h h' ⊢
        obtain hst | ⟨rfl, hpq⟩ := h
        · obtain htv | ⟨rfl, -⟩ := h'
          · exact .inl (String.lt_trans hst htv)
          · exact .inl hst
        · obtain htv | ⟨rfl, hqu⟩ := h'
          · exact .inl htv
          · exact .inr ⟨rfl, ih q u hpq hqu⟩

theorem precedes_total (p q : List String) : (precedes p q || precedes q p) = true := by
  rw [Bool.or_eq_true]
  induction p generalizing q with
  | nil => exact .inl rfl
  | cons s p ih =>
    cases q with
    | nil => exact .inr rfl
    | cons t q =>
      rw [precedes_cons, precedes_cons]
      by_cases hst : s < t
      · exact .inl (.inl hst)
      by_cases hts : t < s
      · exact .inr (.inl hts)
      have heq : s = t := String.le_antisymm (String.not_lt.mp hts) (String.not_lt.mp hst)
      exact (ih q).imp (fun h => .inr ⟨heq, h⟩) fun h => .inr ⟨heq.symm, h⟩

end Path

namespace StandardLibrary

theorem isSource_of_endsIn {path name : String} (h : Path.EndsIn path name)
    (hname : isSource name = true) : isSource path = true := by
  unfold isSource at hname ⊢
  rw [beq_iff_eq] at hname ⊢
  exact h.extension? hname

/-- The name of a declaration file is not changed before it is looked for. -/
theorem pathFor_of_isSource {root name : String} (h : isSource (Path.join root name) = true) :
    pathFor root name = Path.join root name := by
  unfold pathFor
  exact if_pos h

end StandardLibrary

end DeclLang
