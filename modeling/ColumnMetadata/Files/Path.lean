import ColumnMetadata.Text.Search

/-!
# Paths

Paths are texts with a slash between names. What a path means is its list of components
(`components`): repeated and trailing slashes do not count, and neither does a `.` behind the first
component. Joining, comparing and stripping of prefixes go by components; the text of a joined path
keeps what was written.
-/

namespace ColumnMetadata.Path

/-- A component of a path. -/
inductive Component where
  /-- The slash in front of an absolute path. -/
  | root
  /-- A `.` in front of a relative path. -/
  | here
  /-- A `..`. -/
  | up
  | name (text : String)
deriving DecidableEq, Repr, Inhabited

def isAbsolute (p : String) : Bool := p.toList.head? == some '/'

/-- The names between the slashes of a path, empty ones included. -/
def segments (p : String) : List String :=
  (Text.splitOnChar '/' p.toList).map String.ofList

/-- The component that a segment is, if it counts anywhere in a path. -/
def component? (segment : String) : Option Component :=
  if segment = "" ∨ segment = "." then none
  else if segment = ".." then some .up
  else some (.name segment)

def components (p : String) : List Component :=
  let lead := if isAbsolute p then [Component.root]
    else if (segments p).head? = some "." then [.here] else []
  lead ++ (segments p).filterMap component?

/-- The second path as seen from the first. -/
def join (base path : String) : String :=
  if isAbsolute path then path
  else if base = "" ∨ base.toList.getLast? = some '/' then base ++ path
  else base ++ "/" ++ path

def ofComponents (cs : List Component) : String :=
  cs.foldl (fun p c => join p (match c with
    | .root => "/"
    | .here => "."
    | .up => ".."
    | .name n => n)) ""

/-- What follows the components of a prefix, if the path begins with them. -/
def dropComponents? : List Component → List Component → Option (List Component)
  | [], cs => some cs
  | _ :: _, [] => none
  | b :: base, c :: cs => if b = c then dropComponents? base cs else none

/-- Whether a path lies at or below another one. -/
def startsWith (p base : String) : Bool :=
  (dropComponents? (components base) (components p)).isSome

def below? (p base : String) : Option (List Component) :=
  dropComponents? (components base) (components p)

/-- Segments without those at the end that do not count. -/
def trimSegments (ss : List String) : List String :=
  (ss.reverse.dropWhile fun s => (component? s).isNone).reverse

/-- The path without its last component, as it was written; a root and an empty path have none. -/
def parent? (p : String) : Option String :=
  let cut (lead : String) (ss : List String) : String :=
    lead ++ Text.joinStrings "/" (trimSegments (trimSegments ss).dropLast)
  match isAbsolute p, segments p with
  | true, _ :: body => if (trimSegments body).isEmpty then none else some (cut "/" body)
  | false, "." :: body =>
    if (trimSegments body).isEmpty then some ""
    else
      let below := cut "" body
      some (if below = "" then "." else "./" ++ below)
  | _, body => if (trimSegments body).isEmpty then none else some (cut "" body)

/-- What follows the last point of a file's name, unless the name begins with it. -/
def extension? (fileName : String) : Option String :=
  let parts := Text.splitOnChar '.' fileName.toList
  if fileName = ".." then none
  else
    match parts.getLast?, parts.dropLast with
    | some _, [] => none
    | some _, [[]] => none
    | some ext, _ => some (String.ofList ext)
    | none, _ => none

/-- The form in which the compiler names files: the names and the steps up, with single slashes. -/
def projectForm (p : String) : String :=
  Text.joinStrings "/" ((components p).filterMap fun c =>
    match c with
    | .name n => some n
    | .up => some ".."
    | .root | .here => none)

end ColumnMetadata.Path
