/-!
# Standard library: how its directory is named, found and laid out
-/

namespace DeclLang.StandardLibrary

/-- The directory that holds the library, unless another is named. -/
def directory : String := "std"

/-- The extension of declaration files, without its dot. -/
def extension : String := "qz"

/-- The environment variable that names another directory. -/
def environmentVariable : String := "QUARTZ_STDLIB"

/-- The module that owns top-level methods and includes. -/
def mainModule : String := "main"

end DeclLang.StandardLibrary
