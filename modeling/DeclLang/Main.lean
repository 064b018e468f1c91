import DeclLang.Command.Run

/-!
# The program

Reads the arguments and the part of the file system that they concern, and prints what the command
has to say. Everything else is decided by `Invocation.ofArguments` and `Invocation.run`.
-/

open DeclLang

/-- How the program is called, for those who ask and those who are mistaken. -/
def usage : String :=
  Text.unlines
    ["Inspect the Quartz type registry", "",
      "Usage: quartz [OPTIONS] <COMMAND>", "",
      "Commands:",
      "  types   Dump the type registry (--json for JSON)",
      "  libs    Print the native libraries to link, one per line",
      "  check   Bootstrap and verify the type lattice",
      "  method  Resolve a method: <TYPE> <NAME>", "",
      "Options:",
      "  --std <NAME>            Standard-library files to load: all, none, or file names",
      "  --stdlib-root <DIR>     Standard-library root directory",
      "  --pointer-size <BYTES>  Target pointer size in bytes"]

def versionText : String := "quartz 0.1.0\n"

def usageMessage : UsageError → String
  | .help | .version | .empty => ""
  | .missingCommand => "error: a command is required"
  | .invalidCommand => "error: unrecognized command"
  | .unknownArgument => "error: unexpected argument"
  | .missingArgument => "error: a required argument was not given"
  | .invalidValue => "error: an option needs a value"
  | .malformedValue => "error: an option has an invalid value"
  | .unneededValue => "error: a flag was given a value"
  | .repeated => "error: an option was given more than once"

/-- The file at a path. One that cannot be read is kept as a link that leads nowhere. -/
def captureFile (path name : String) : IO FileTree := do
  try return .file (← IO.FS.readBinFile path)
  catch _ => return .link name

/-- Everything below a directory. A link to a directory is never entered, so that it leads to one is
    all that is kept of it. -/
partial def captureDirectory (path : String) : IO FileTree := do
  let mut entries := #[]
  for entry in ← ((← IO.currentDir) / path).readDir do
    let below := Path.join path entry.fileName
    let node ← match (← entry.path.symlinkMetadata).type with
      | .dir => captureDirectory below
      | .symlink =>
        if ← entry.path.isDir then pure (.link ".") else captureFile below entry.fileName
      | _ => captureFile below entry.fileName
    entries := entries.push (entry.fileName, node)
  return .directory entries.toList

/-- The directories among the places where the library may be. -/
def capturePlaces (fs : FileSystem) (places : List String) : IO FileSystem :=
  places.foldlM
    (fun fs (place : String) => do
      if ← ((← IO.currentDir) / place).isDir then return fs.update place FileTree.asDirectory
      else return fs)
    fs

/-- The files that are going to be loaded. -/
def captureFiles (fs : FileSystem) (files : List String) : IO FileSystem :=
  files.foldlM
    (fun fs (file : String) => do
      if (fs.resolve file).isOk then return fs
      let node ← captureFile file file
      return fs.update file fun _ => node)
    fs

/-- As much of the file system as a load can see. -/
def capture (places : List String) (options : Options) : IO FileSystem := do
  let nothing : FileSystem := ⟨.directory [], (← IO.currentDir).toString⟩
  let fs ← capturePlaces nothing (options.root.toList ++ places)
  let fs ← match options.selection, options.findRoot fs places with
    | .all, .ok root => do
      let node ← captureDirectory root
      pure (fs.update root fun _ => node)
    | _, _ => pure fs
  match options.files fs places with
  | .ok files => captureFiles fs files
  | .error _ => return fs

/-- Where the library may stand beside the program: in its directory or in one of two above. -/
def installedPlaces : IO (List String) := do
  let program ← IO.appPath
  let first := program.parent
  let second := first.bind (·.parent)
  let third := second.bind (·.parent)
  return [first, second, third].filterMap fun directory =>
    directory.map fun path => (path / StandardLibrary.directory).toString

def reportFailure (e : BootstrapError) : IO Unit := do
  IO.eprintln s!"{e.code}: {e.message}"
  for help in e.help do
    IO.eprintln s!"  help: {help}"

def main (args : List String) : IO UInt32 := do
  match Invocation.ofArguments args with
  | .error .help =>
    IO.print usage
    return 0
  | .error .version =>
    IO.print versionText
    return 0
  | .error e =>
    IO.eprintln (usageMessage e)
    IO.eprint usage
    return 2
  | .ok invocation =>
    let environment ← IO.getEnv StandardLibrary.environmentVariable
    let places := StandardLibrary.candidates environment (← installedPlaces)
    let fs ← capture places invocation.options
    match invocation.run fs places with
    | .printed text =>
      IO.print text
      return 0
    | .failed failure =>
      IO.eprintln failure.message
      return 1
    | .notLoaded e =>
      reportFailure e
      return 1
