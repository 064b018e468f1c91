import DeclLang.Files.Path

/-!
# File trees: directories, files and symbolic links

A path is followed from the top directory, one segment after the other. A link is followed wherever
it stands in a path, but not without end.
-/

namespace DeclLang

inductive FileTree where
  | file (content : ByteArray)
  | directory (entries : List (String × FileTree))
  /-- A path from the directory that holds the link. -/
  | link (target : String)

/-- Why a file cannot be read. -/
inductive ReadError where
  | notFound
  | notADirectory
  | isADirectory
  /-- The content is no UTF-8. -/
  | invalidText
  | tooManyLinks
  /-- The path is too long, or a name in it is. -/
  | nameTooLong
  /-- A path that can name no file. -/
  | invalidPath
deriving DecidableEq, Repr

namespace FileTree

/-- Links that are followed before a path is given up. -/
def linkLimit : Nat := 40

def child? (name : String) (entries : List (String × FileTree)) : Option FileTree :=
  entries.lookup name

/-- Follows the segments of a path below `here`, whose parents are given nearest first. -/
def walk (top : FileTree) (links : Nat) (here : FileTree) (parents : List FileTree) :
    (segments : List String) → Except ReadError FileTree
  | [] => .ok here
  | s :: rest =>
    match here with
    | .file _ | .link _ => .error .notADirectory
    | .directory entries =>
      if s = "" || s = "." then walk top links here parents rest
      else if s = ".." then
        match parents with
        -- Above the top there is only the top itself.
        | [] => walk top links here [] rest
        | up :: above => walk top links up above rest
      else if Path.nameLimit < s.utf8ByteSize then .error .nameTooLong
      else
        match child? s entries with
        | none => .error .notFound
        | some (.link target) =>
          match links with
          | 0 => .error .tooManyLinks
          | links + 1 =>
            -- The path goes on from where the link leads.
            let segments := Path.segments target ++ rest
            if Path.isAbsolute target then walk top links top [] segments
            else walk top links here parents segments
        | some node => walk top links node (here :: parents) rest
termination_by segments => (links, segments.length)

/-- What stands at a path that names each directory below the top. -/
def node? : FileTree → (path : List String) → Option FileTree
  | here, [] => some here
  | .directory entries, s :: rest => (child? s entries).bind (node? · rest)
  | _, _ :: _ => none

/-- The path below the top that segments lead to from the directory at `here`, whether or not
    anything stands there. -/
def place (top : FileTree) (links : Nat) (here : List String) :
    (segments : List String) → List String
  | [] => here
  | s :: rest =>
    if s = "" || s = "." then place top links here rest
    else if s = ".." then place top links here.dropLast rest
    else
      match top.node? (here ++ [s]) with
      | some (.link target) =>
        match links with
        | 0 => here ++ s :: rest
        | links + 1 =>
          let segments := Path.segments target ++ rest
          place top links (if Path.isAbsolute target then [] else here) segments
      | _ => place top links (here ++ [s]) rest
termination_by segments => (links, segments.length)

/-- Changes what stands at a path, making the directories above it. -/
def update (f : Option FileTree → FileTree) : (segments : List String) → Option FileTree → FileTree
  | [], tree => f tree
  | s :: rest, tree =>
    let entries := match tree with
      | some (.directory entries) => entries
      | _ => []
    .directory (entries.filter (·.1 != s) ++ [(s, update f rest (child? s entries))])

/-- A directory with the entries that it has already. -/
def asDirectory : Option FileTree → FileTree
  | some (.directory entries) => .directory entries
  | _ => .directory []

/-! ## Searching a tree -/

/-- A name that starts with a dot is hidden. -/
def isHidden (name : String) : Bool :=
  name.toList.head? == some '.'

/-- What a search asks about the names and paths below its directory. -/
structure Search where
  /-- Whether a file of this name is looked for. -/
  accepts : String → Bool
  /-- Fails if the directory at a path cannot be listed. -/
  opens : List String → Except ReadError Unit
  /-- Whether a link at a path leads to a directory. -/
  leadsToDirectory : List String → Bool

mutual

/-- The paths of the files below a directory whose names are accepted. Hidden directories are left
    out, and so is a link that leads to a directory. The first directory that cannot be listed ends
    the search. -/
def searchEntries (search : Search) (path : List String) :
    List (String × FileTree) → Except (List String × ReadError) (List (List String))
  | [] => return []
  | (name, node) :: rest => do
    let found ← searchNode search path name node
    let others ← searchEntries search path rest
    return found ++ others

def searchNode (search : Search) (path : List String) (name : String) :
    FileTree → Except (List String × ReadError) (List (List String))
  | .directory entries =>
    if isHidden name then return []
    else do
      let here := path ++ [name]
      (search.opens here).mapError fun e => (here, e)
      searchEntries search here entries
  | .file _ => return if search.accepts name then [path ++ [name]] else []
  | .link _ =>
    let here := path ++ [name]
    return if search.accepts name && !search.leadsToDirectory here then [here] else []

end

end FileTree

/-- A file tree, and the directory in it that relative paths start from. -/
structure FileSystem where
  top : FileTree
  workingDirectory : String

namespace FileSystem

/-- Changes what a path leads to, making the directories above it. -/
def update (fs : FileSystem) (path : String) (f : Option FileTree → FileTree) : FileSystem :=
  let segments := Path.segments (Path.join fs.workingDirectory path)
  let place := FileTree.place fs.top FileTree.linkLimit [] segments
  { fs with top := FileTree.update f place (some fs.top) }

/-- What a path leads to. -/
def resolve (fs : FileSystem) (path : String) : Except ReadError FileTree :=
  if path.isEmpty then .error .notFound
  else if path.toList.contains '\x00' then .error .invalidPath
  else if Path.lengthLimit < path.utf8ByteSize then .error .nameTooLong
  else
    let segments := Path.segments (Path.join fs.workingDirectory path)
    FileTree.walk fs.top FileTree.linkLimit fs.top [] segments

def isDirectory (fs : FileSystem) (path : String) : Bool :=
  match fs.resolve path with
  | .ok (.directory _) => true
  | _ => false

/-- The text of a file. -/
def read (fs : FileSystem) (path : String) : Except ReadError String :=
  match fs.resolve path with
  | .error e => .error e
  | .ok (.file content) =>
    match String.fromUTF8? content with
    | some text => .ok text
    | none => .error .invalidText
  | .ok (.directory _) => .error .isADirectory
  | .ok (.link _) => .error .notFound

/-- The entries of a directory. -/
def list (fs : FileSystem) (path : String) : Except ReadError (List (String × FileTree)) :=
  match fs.resolve path with
  | .error e => .error e
  | .ok (.directory entries) => .ok entries
  | .ok _ => .error .notADirectory

/-- A search for files below a root. Directories are listed, and links followed, by their whole
    paths. -/
def searchBelow (fs : FileSystem) (accepts : String → Bool) (root : String) : FileTree.Search where
  accepts
  opens p := (fs.list (Path.join root ("/".intercalate p))).map fun _ => ()
  leadsToDirectory p := fs.isDirectory (Path.join root ("/".intercalate p))

@[simp] theorem accepts_searchBelow (fs : FileSystem) (accepts : String → Bool) (root : String) :
    (fs.searchBelow accepts root).accepts = accepts :=
  rfl

/-- The files below a directory whose names are accepted, ordered by segments. A failure names the
    directory that could not be listed. -/
def search (fs : FileSystem) (accepts : String → Bool) (root : String) :
    Except (String × ReadError) (List String) := do
  let below (segments : List String) := Path.join root ("/".intercalate segments)
  let entries ← (fs.list root).mapError fun e => (root, e)
  let found ← (FileTree.searchEntries (fs.searchBelow accepts root) [] entries).mapError
    fun (p, e) => (below p, e)
  return (found.mergeSort Path.precedes).map below

end FileSystem

end DeclLang
