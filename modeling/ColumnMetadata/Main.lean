import ColumnMetadata.CommandLine.Program

/-!
# Running the program

Takes a picture of the part of the file system that the program looks at, lets the program decide,
and prints what it says.
-/

namespace ColumnMetadata

/-- A directory without its entries, or a file, if there is one under a path. -/
def pictureNode (path : String) : IO (Option Node) := do
  try
    let real ← IO.FS.realPath path
    if ← real.isDir then return some .empty
    return some (.file (.ofBytes (← IO.FS.readBinFile real).toList))
  catch _ => return none

/-- Adds a path to a picture, together with what lies on the way to it. -/
def picturePath (top : Node) (start : List String) (path : String) : IO Node := do
  let mut top := top
  let mut names := if Path.isAbsolute path then [] else start
  for segment in Path.segments path do
    if segment == ".." then names := names.dropLast
    else if segment ≠ "" ∧ segment ≠ "." then names := names ++ [segment]
    if (top.at? names).isNone then
      if let some n ← pictureNode ("/" ++ Text.joinStrings "/" names) then top := n.put names top
  return top

/-- The files that the program looks at when it is asked to do something. -/
def lookedAt (i : CommandLine.Invocation) : List String :=
  i.config.toList ++
    ["", Configuration.fileName, "workflow_settings.yaml", "dataform.json"].map
      (Path.join i.projectDir)

/-- Runs the program in the working directory with the given words. -/
def runProgram (words : List String) : IO UInt32 := do
  let start := (Path.segments (← IO.currentDir).toString).filter (· ≠ "")
  let paths := match CommandLine.parse words with
    | .ok i => lookedAt i
    | .error _ => []
  let mut top := Node.put .empty start .empty
  for path in paths do
    top ← picturePath top start path
  let exit := CommandLine.run ⟨top, start⟩ false words
  IO.print exit.printed.stdout
  IO.eprint exit.printed.stderr
  return UInt32.ofNat exit.status

end ColumnMetadata

def main (args : List String) : IO UInt32 := ColumnMetadata.runProgram args
