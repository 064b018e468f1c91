import DeclLang.Files.Tree
import DeclLang.Vocab.StandardLibrary

/-!
# Selection: which files of the standard library are loaded

Files are named relative to the root of the library, with or without their extension, and are loaded
in the order in which they are named. All files are loaded in the order of their paths.
-/

namespace DeclLang

inductive Selection where
  | none
  | all
  | one (name : String)
  | several (names : List String)
deriving DecidableEq, Repr

namespace Selection

/-- What a list of names on the command line selects. -/
def ofNames : List String → Selection
  | [] => .none
  | [name] =>
    if name = "all" then .all
    else if name = "none" then .none
    else .one name
  | names => .several names

end Selection

namespace StandardLibrary

/-- Declaration files are told by their extension. -/
def isSource (path : String) : Bool :=
  Path.extension? path == some extension

/-- The path of a file of the library, to which the extension is added unless it is there. -/
def pathFor (root name : String) : String :=
  let path := Path.join root name
  if isSource path then path else Path.join root (s!"{name}.{extension}")

/-- Every declaration file below a root. -/
def allSources (fs : FileSystem) (root : String) : Except (String × ReadError) (List String) :=
  fs.search isSource root

/-- Where the library may be: where the environment says, in the working directory, or with the
    program. -/
def candidates (environment : Option String) (installed : List String) : List String :=
  environment.toList ++ directory :: installed

/-- The first place that is a directory. -/
def locate (fs : FileSystem) (places : List String) : Option String :=
  places.find? fs.isDirectory

end StandardLibrary

end DeclLang
