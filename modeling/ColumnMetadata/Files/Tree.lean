import ColumnMetadata.Entries
import ColumnMetadata.Files.Path
import ColumnMetadata.Text.Utf8

/-!
# File trees

A tree of directories and files, and the operations that a run performs on it. A path is followed
step by step from the top or from a working directory: a step through a file fails, and so does a
`.`, a `..` or a slash behind a file. Operations fail with the system's errors, and the system may
refuse to replace files for reasons of its own. Links, permissions and times are left out.
-/

namespace ColumnMetadata

/-- What a file holds. -/
inductive Content where
  /-- A text. -/
  | text (value : String)
  /-- Bytes that are no text. -/
  | bytes (value : List UInt8)
deriving DecidableEq, Repr, Inhabited

namespace Content

def ofBytes (bs : List UInt8) : Content :=
  match Text.ofUtf8? bs with
  | some s => text s
  | none => bytes bs

/-- The content as a text; replacement characters stand for what is none. -/
def lossyText : Content → String
  | text s => s
  | bytes bs => Text.ofUtf8Lossy bs

end Content

/-- A file or a directory. -/
inductive Node where
  | file (content : Content)
  | directory (entries : List (String × Node))
deriving Inhabited

/-- Why the system refuses an operation. -/
inductive FileError where
  | notFound
  | notADirectory
  | isADirectory
  | permissionDenied
  /-- The file was read, but is no text. -/
  | notText
  /-- Something else, such as a full disk. -/
  | other (message : String)
deriving DecidableEq, Repr, Inhabited

def FileError.message : FileError → String
  | notFound => "No such file or directory (os error 2)"
  | notADirectory => "Not a directory (os error 20)"
  | isADirectory => "Is a directory (os error 21)"
  | permissionDenied => "Permission denied (os error 13)"
  | notText => "stream did not contain valid UTF-8"
  | other message => message

/-- The places at which the system refuses to replace a file, each with its error. -/
abbrev Refusals := List String → Option FileError

namespace Node

def empty : Node := .directory []

/-- The node at a list of names below a node. -/
def at? : List String → Node → Option Node
  | [], n => some n
  | name :: names, .directory entries => (Entries.find? name entries).bind (at? names)
  | _ :: _, .file _ => none

/-- Puts a new node at a list of names below a node, making the directories on the way; a file on
the way is replaced. -/
def put (new : Node) : List String → Node → Node
  | [], _ => new
  | name :: names, .directory entries =>
    let below := (Entries.find? name entries).getD empty
    .directory (Entries.insert name (put new names below) entries)
  | name :: names, .file _ => .directory [(name, put new names empty)]

/-- Removes the node at a list of names, if there is one. -/
def remove : List String → Node → Node
  | [], n => n
  | [name], .directory entries => .directory (Entries.erase name entries)
  | name :: names, .directory entries =>
    .directory (Entries.modify name (remove names) entries)
  | _ :: _, .file c => .file c

mutual

/-- All files below a node with their paths, in the order of the names. -/
def files (at_ : List String) : Node → List (List String × Content)
  | .file c => [(at_, c)]
  | .directory entries => entryFiles at_ entries

def entryFiles (at_ : List String) : List (String × Node) → List (List String × Content)
  | [] => []
  | (name, n) :: es => files (at_ ++ [name]) n ++ entryFiles at_ es

end

mutual

/-- The tree with the entries of every directory in the order of their names. -/
def sorted : Node → Node
  | .file c => .file c
  | .directory entries => .directory (Entries.sorted (sortedEntries entries))

def sortedEntries : List (String × Node) → List (String × Node)
  | [] => []
  | (name, n) :: es => (name, sorted n) :: sortedEntries es

end

end Node

/-- A file tree, and the directory in which relative paths begin. -/
structure FileTree where
  top : Node
  workingDirectory : List String

namespace FileTree

/-- What a segment of a path asks for. -/
inductive Step where
  /-- Stay, which only a directory can. -/
  | stay
  | up
  | down (name : String)

/-- The steps of a path. A trailing slash asks for a directory. -/
def steps (p : String) : List Step :=
  (Path.segments p).map fun s =>
    if s = "" ∨ s = "." then .stay else if s = ".." then .up else .down s

/-- Follows steps from a list of names. The names that are reached need not exist if only the last
step leads out of the tree. -/
def follow (top : Node) : List String → List Step → Except FileError (List String)
  | at_, [] => .ok at_
  | at_, s :: steps =>
    match top.at? at_ with
    | none => .error .notFound
    | some (.file _) => .error .notADirectory
    | some (.directory _) =>
      match s with
      | .stay => follow top at_ steps
      | .up => follow top at_.dropLast steps
      | .down name => follow top (at_ ++ [name]) steps

/-- The names that a path leads to. -/
def locate (t : FileTree) (p : String) : Except FileError (List String) :=
  if p = "" then .error .notFound
  else follow t.top (if Path.isAbsolute p then [] else t.workingDirectory) (steps p)

def node (t : FileTree) (p : String) : Except FileError Node := do
  let names ← t.locate p
  match t.top.at? names with
  | some n => .ok n
  | none => .error .notFound

def contains (t : FileTree) (p : String) : Bool := (t.node p).isOk

def isDirectory (t : FileTree) (p : String) : Bool :=
  match t.node p with
  | .ok (.directory _) => true
  | _ => false

def readText (t : FileTree) (p : String) : Except FileError String := do
  match ← t.node p with
  | .directory _ => .error .isADirectory
  | .file (.bytes _) => .error .notText
  | .file (.text s) => .ok s

/-- The names of a file that may be written: its directory has to exist. A path with a slash at its
end asks for a directory, which cannot be written. -/
def writable (t : FileTree) (p : String) : Except FileError (List String) := do
  let slash := p.toList.getLast? == some '/'
  let names ← t.locate (if slash then (Path.parent? p).getD "/" else p)
  match t.top.at? (if slash then names else names.dropLast) with
  | none => .error .notFound
  | some (.file _) => .error .notADirectory
  | some (.directory _) => if slash || names.isEmpty then .error .isADirectory else .ok names

/-- The tree with a text in the place of a file. A directory is not replaced. -/
def writeText (t : FileTree) (p : String) (text : String) : Except FileError FileTree := do
  let names ← t.writable p
  match t.top.at? names with
  | some (.directory _) => .error .isADirectory
  | _ => .ok { t with top := Node.put (.file (.text text)) names t.top }

/-- The tree with a text in the place of a file that is replaced as a whole. The text is written to
a new file in the same directory, which then takes the place. If any step of this is refused, what
stands at the place is left as it is, and the new file is removed. -/
def replaceText (refused : Refusals) (t : FileTree) (p : String) (text : String) :
    Except FileError FileTree := do
  let names ← t.writable p
  match refused names with
  | some cause => .error cause
  | none => t.writeText p text

/-- The absolute path without `.`, `..` and repeated slashes that leads to the same node. -/
def canonical (t : FileTree) (p : String) : Except FileError String := do
  let names ← t.locate p
  match t.top.at? names with
  | some _ => .ok ("/" ++ Text.joinStrings "/" names)
  | none => .error .notFound

end FileTree

end ColumnMetadata
