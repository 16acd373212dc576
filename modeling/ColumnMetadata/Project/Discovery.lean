import ColumnMetadata.Project.Configuration

/-!
# Finding definition files

The definition files that a path asks for. A path that does not begin with the definitions directory
is meant to lie in it. A file is asked for by itself, whatever its extension; a directory stands for
all files below it with the configured extension, in the order of their names at each level.
-/

namespace ColumnMetadata

/-- Why a path asks for nothing. -/
inductive DiscoveryError where
  | notFound (path : String)
  | outsideProject (path : String)
deriving DecidableEq, Repr, Inhabited

def DiscoveryError.message : DiscoveryError → String
  | notFound path => "File Not Found: " ++ path
  | outsideProject path => path ++ " is outside the project root"

namespace Configuration

/-- A path as a path below the root, without `.` components. -/
def belowRoot (c : Configuration) (path : String) : Except DiscoveryError String :=
  let simplify (cs : List Path.Component) := Path.ofComponents (cs.filter (· != .here))
  if Path.isAbsolute path then
    match Path.below? path c.root with
    | some cs => .ok (simplify cs)
    | none => .error (.outsideProject path)
  else .ok (simplify (Path.components path))

/-- A path as a path below the root that lies in the definitions directory. -/
def inDefinitions (c : Configuration) (path : String) : Except DiscoveryError String := do
  let relative ← c.belowRoot path
  .ok (if Path.startsWith relative c.definitionsDir then relative
    else Path.join c.definitionsDir relative)

/-- Whether a file below a directory is a definition file. -/
def isDefinition (c : Configuration) (names : List String) : Bool :=
  (names.getLast?.bind Path.extension?) == some c.extension

/-- The definition files that a path asks for, as paths of the project. -/
def definitionFiles (c : Configuration) (t : FileTree) (path : String) :
    Except DiscoveryError (List String) := do
  let relative ← c.inDefinitions path
  match t.node (c.resolve relative) with
  | .error _ => .error (.notFound (Path.projectForm relative))
  | .ok (.file _) => .ok [Path.projectForm relative]
  | .ok (.directory entries) =>
    let names := (Node.files [] (Node.directory entries).sorted).map Prod.fst
    .ok ((names.filter c.isDefinition).map fun ns =>
      Path.projectForm (ns.foldl Path.join relative))

end Configuration

end ColumnMetadata
