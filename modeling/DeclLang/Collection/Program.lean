import DeclLang.Collection.Types

/-!
# Programs in a registry: types first, members second
-/

namespace DeclLang

namespace Collect

/-! ## Members -/

def resolveParameter (p : Parameter) : Collect SignatureParameter := do
  return ⟨p.name, ← resolveType p.type⟩

/-- Resolves the types of a method from left to right and adds it to its owner. -/
def defineMethod (owner : Owner) (m : MethodDecl) : Collect Unit := do
  let parameters ← m.parameters.mapM resolveParameter
  let returns ← m.returns.mapM resolveType
  update m.name.span (·.defineMethod owner ⟨m.name.value, parameters, returns⟩)

def mixIn (owner : Owner) (module : Ident) : Collect Unit := do
  let id ← resolve module
  update module.span (·.mixIn owner id)

def collectMember (owner : Owner) : Member → Collect Unit
  | .method decl => defineMethod owner decl
  | .inclusion module => mixIn owner module

def collectMembers (name : Ident) (members : List (Located Member)) : Collect Unit := do
  let id ← resolve name
  members.forM fun m => collectMember (.type id) m.value

def collectFunctions (name : Ident) (functions : List (Located MethodDecl)) : Collect Unit := do
  let id ← resolve name
  functions.forM fun f => defineMethod (.type id) f.value

/-- Adds the members of a declaration to its type. -/
def collectDeclaration : Declaration → Collect Unit
  | .classBlock name _ members => collectMembers name members
  | .moduleBlock name members => collectMembers name members
  | .libBlock name _ functions => collectFunctions name functions
  | .primitive .. => return ()
  | .method decl => defineMethod .main decl
  | .inclusion module => mixIn .main module

/-- Records a program. -/
def program (p : Program) : Collect Unit := do
  declareTypes p
  p.forM fun d => collectDeclaration d.value

end Collect

/-- The outcome of collecting a program into a registry. -/
def Registry.collect (r : Registry) (p : Program) : Except CollectError Unit × Collection :=
  (Collect.program p).run.run ⟨r, 0⟩

end DeclLang
