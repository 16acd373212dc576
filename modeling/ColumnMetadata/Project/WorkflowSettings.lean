import ColumnMetadata.Files.Tree
import ColumnMetadata.Json.Record
import ColumnMetadata.Yaml.Node

/-!
# Workflow settings

The defaults of a Dataform project: from `workflow_settings.yaml`, or from `dataform.json` in
projects that have no such file. Each setting is a text, empty when it is missing, and some settings
have an older name.
-/

namespace ColumnMetadata

/-- The defaults of a project. -/
structure WorkflowSettings where
  defaultProject : String
  defaultLocation : String
  defaultDataset : String
  defaultAssertionDataset : String
deriving DecidableEq, Repr, Inhabited

/-- Why there are no settings. -/
inductive SettingsError where
  | missing (root : String)
  | unreadable (path : String) (cause : FileError)
  | malformed (path : String)
deriving DecidableEq, Repr, Inhabited

def SettingsError.message : SettingsError → String
  | missing root =>
    "workflow_settings.yaml file not found in " ++ root ++ " (no dataform.json either)"
  | unreadable path cause => "Failed to read " ++ path ++ ": " ++ cause.message
  | malformed path => "Failed to parse " ++ path ++ ": not workflow settings"

namespace WorkflowSettings

/-- The names of the settings, each with its older name. -/
def fieldNames : List (List String) :=
  [["defaultProject", "defaultDatabase"], ["defaultLocation"], ["defaultDataset", "defaultSchema"],
    ["defaultAssertionDataset", "assertionSchema"]]

/-- The settings in the order of their names. -/
def ofTexts? : List String → Option WorkflowSettings
  | [project, location, dataset, assertions] => some ⟨project, location, dataset, assertions⟩
  | _ => none

def ofYaml? (text : String) : Option WorkflowSettings := do
  let texts ← Yaml.record? fieldNames text.toList
  ofTexts? (texts.map fun t => t.getD "")

def ofJson? (text : String) : Option WorkflowSettings := do
  let tree ← Json.read? text.toList
  let slots ← tree.record? fieldNames
  let texts ← slots.mapM (Json.Slot.withDefault "" Json.Tree.text?)
  ofTexts? texts

def readFile (t : FileTree) (path : String) (parse : String → Option WorkflowSettings) :
    Except SettingsError WorkflowSettings :=
  match t.readText path with
  | .error cause => .error (.unreadable path cause)
  | .ok text =>
    match parse text with
    | some s => .ok s
    | none => .error (.malformed path)

def load (t : FileTree) (root : String) : Except SettingsError WorkflowSettings :=
  let yaml := Path.join root "workflow_settings.yaml"
  let json := Path.join root "dataform.json"
  if t.contains yaml then readFile t yaml ofYaml?
  else if t.contains json then readFile t json ofJson?
  else .error (.missing root)

end WorkflowSettings

end ColumnMetadata
