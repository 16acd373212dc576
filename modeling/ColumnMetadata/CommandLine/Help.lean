import ColumnMetadata.CommandLine.Arguments
import ColumnMetadata.CommandLine.Summary

/-!
# Help texts

The help about the program and its commands, laid out from what their levels accept: what it is
about, how it is called, and in columns the commands, the bare words and the options.
-/

namespace ColumnMetadata.CommandLine

def programName : String := "dataform-osmosis"

def programVersion : String := "0.1.0"

def Argument.description (level : Topic) : Argument → String
  | config => "Path to config file (default: osmosis.toml in the project directory)"
  | projectDir => "Dataform project directory [default: .]"
  | verbose => "Enable verbose output"
  | output => "Write a JSON run report to this file"
  | reorder => "Reorder columns to match the BigQuery table"
  | strict => "Fail files that have no config block"
  | help => "Print help"
  | version => "Print version"
  | path =>
    if level = .help then "Print help for the subcommand(s)"
    else "File or directory to reconcile (default: the whole definitions directory)"

def Topic.description : Topic → String
  | program => "Dataform Osmosis - fill column metadata in Dataform definition files"
  | valid => "Check that the Dataform CLI and the BigQuery client work"
  | refactor => "Fill column descriptions and policy tags from BigQuery and upstream tables"
  | help => "Print this message or the help of the given subcommand(s)"

def Topic.usage : Topic → String
  | program => programName ++ " [OPTIONS] <COMMAND>"
  | valid => programName ++ " valid [OPTIONS]"
  | refactor => programName ++ " refactor [OPTIONS] [PATH]"
  | help => programName ++ " help [COMMAND]..."

def Argument.forms (a : Argument) : String :=
  (a.short?.map fun c => String.ofList ['-', c, ',', ' ']).getD "    " ++ a.label

/-- A section: a title, and lines in two columns. -/
def helpSection (title : String) (rows : List (String × String)) : String :=
  let width := (rows.map fun r => r.1.length).foldl max 0
  if rows.isEmpty then ""
  else "\n" ++ title ++ ":\n" ++
    String.join (rows.map fun (left, right) => "  " ++ padTo (width + 2) left ++ right ++ "\n")

def commandRows : List (String × String) :=
  [("valid", Topic.valid.description), ("refactor", Topic.refactor.description),
    ("help", Topic.help.description)]

def Level.helpText (l : Level) : String :=
  l.topic.description ++ "\n\nUsage: " ++ l.topic.usage ++ "\n" ++
    helpSection "Commands" (if l.hasCommands then commandRows else []) ++
    helpSection "Arguments" (l.positional.toList.map fun a =>
      (if l.topic = .help then "[COMMAND]..." else a.label, a.description l.topic)) ++
    helpSection "Options" (l.options.map fun a => (a.forms, a.description l.topic))

def Topic.helpText : Topic → String
  | program => Level.program.helpText
  | valid => Level.valid.helpText
  | refactor => Level.refactor.helpText
  | help => Level.helpText ⟨.help, [], some .path, false⟩

end ColumnMetadata.CommandLine
