import DeclLang.Collection.Program
import DeclLang.Library.Error
import DeclLang.Library.Selection
import DeclLang.Registry.Initial
import DeclLang.Registry.Verification
import DeclLang.Syntax.Program

/-!
# Loading: the standard library in a registry

The selected files are read one after the other, and what each declares is collected. The first
failure ends the load and poisons the registry, which then takes nothing more.
-/

namespace DeclLang

/-- How a registry is built. -/
structure Options where
  selection : Selection
  target : Target
  /-- The root of the standard library; it is looked for if none is given. -/
  root : Option String
deriving DecidableEq, Repr

namespace Options

/-- The root of the library among the places where it may be. -/
def findRoot (fs : FileSystem) (places : List String) (options : Options) :
    Except BootstrapError String :=
  match options.root with
  | some root => if fs.isDirectory root then .ok root else .error (.rootMissing root)
  | none => (StandardLibrary.locate fs places).elim (.error .libraryNotFound) .ok

/-- The files that are selected, in order. If nothing is selected, no root is needed. -/
def files (fs : FileSystem) (places : List String) (options : Options) :
    Except BootstrapError (List String) :=
  match options.selection with
  | .none => .ok []
  | .all => do
    let root ← options.findRoot fs places
    (StandardLibrary.allSources fs root).mapError fun (path, e) => .io path e
  | .one name => do
    let root ← options.findRoot fs places
    return [StandardLibrary.pathFor root name]
  | .several names => do
    let root ← options.findRoot fs places
    return names.map (StandardLibrary.pathFor root)

end Options

/-- A load in progress: the registry, and whatever is noted down beside it. A load that fails keeps
    both as they are then. -/
abbrev Loading (σ : Type) := ExceptT BootstrapError (StateM (Registry × σ))

namespace Loading

variable {σ : Type}

def registry : Loading σ Registry :=
  return (← get).1

/-- Runs a load; if it fails, the registry is poisoned. -/
def poisoning {α : Type} (load : Loading σ α) : Loading σ α :=
  tryCatch load fun e => do
    modify fun (r, notes) => (r.poison, notes)
    throw e

/-- Reads a file and hands its text on. -/
def file (fs : FileSystem) (ingest : (file source : String) → Loading σ Unit) (path : String) :
    Loading σ Unit :=
  match fs.read path with
  | .ok source => ingest path source
  | .error e => throw (.io path e)

/-- Parses a file and collects what it declares. -/
def collect (path source : String) : Loading σ Unit := do
  match Program.ofFile path source with
  | .error report => throw (.malformed report)
  | .ok program =>
    let (result, collection) := (← registry).collect program
    -- What was collected before a refusal is kept.
    modify fun (_, notes) => (collection.registry, notes)
    match result with
    | .ok () => return ()
    | .error e => throw (.refused path e)

/-- What a load has come to. -/
structure Summary where
  files : List String
  /-- How many entries were added. -/
  added : Nat
deriving DecidableEq, Repr

/-- Loads the selected files, each by `ingest`. -/
def load (fs : FileSystem) (places : List String) (options : Options)
    (ingest : (file source : String) → Loading σ Unit) : Loading σ Summary := do
  if (← registry).poisoned then throw .poisoned
  let before := (← registry).size
  poisoning do
    let files ← liftExcept (options.files fs places)
    files.forM (file fs ingest)
    return ⟨files, (← registry).size - before⟩
where
  liftExcept {α : Type} : Except BootstrapError α → Loading σ α
    | .ok a => return a
    | .error e => throw e

end Loading

namespace Registry

/-- Whether a registry can be used: no load has failed on it. -/
def ensureUsable (r : Registry) : Except BootstrapError Unit :=
  if r.poisoned then .error .poisoned else .ok ()

/-- Loads the selected files into a registry. -/
def load (r : Registry) (fs : FileSystem) (places : List String) (options : Options) :
    Except BootstrapError Loading.Summary × Registry :=
  let (result, r, ()) := (Loading.load fs places options Loading.collect).run.run (r, ())
  (result, r)

end Registry

/-- A registry with the selected files of the standard library, checked as a whole. -/
def bootstrap (fs : FileSystem) (places : List String) (options : Options) :
    Except BootstrapError Registry := do
  let r ← (Registry.ofTarget options.target).mapError .invariant
  let (result, r) := r.load fs places options
  let _ ← result
  r.verify.mapError .invariant
  return r

end DeclLang
