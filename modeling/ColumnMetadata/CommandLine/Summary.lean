import ColumnMetadata.Report.Basic

/-!
# Printed summaries

What a run prints: a line for each outcome and the counts to the standard output, a line for each
diagnostic to the error output. Colours are optional; without them a line has the same characters.
-/

namespace ColumnMetadata.CommandLine

/-- What goes to the two outputs. -/
structure Printed where
  stdout : String
  stderr : String
deriving DecidableEq, Repr, Inhabited

/-- A text in a colour of the terminal, given by its code. -/
def paint (color : Bool) (code text : String) : String :=
  if color then "\x1b[" ++ code ++ "m" ++ text ++ "\x1b[0m" else text

/-- The codes of the colours. -/
def red : String := "31"

@[inherit_doc red] def green : String := "32"

@[inherit_doc red] def yellow : String := "33"

@[inherit_doc red] def cyan : String := "36"

def bold (code : String) : String := "1;" ++ code

def padTo (width : Nat) (text : String) : String :=
  text ++ String.ofList (List.replicate (width - text.length) ' ')

/-- The label of a status, ten characters wide. -/
def statusLabel (color : Bool) (s : FileStatus) : String :=
  let text := padTo 10 s.name
  match s with
  | .updated => paint color green text
  | .unchanged => text
  | .skipped => paint color yellow text
  | .failed => paint color red text

/-- The line of an outcome. Files without change are left out unless all are asked for. -/
def outcomeLine? (color verbose : Bool) (o : FileOutcome) : Option String :=
  if o.status = .unchanged ∧ verbose = false then none
  else some ("  " ++ statusLabel color o.status ++ " " ++ o.file ++
    (o.reason.map fun r => " (" ++ r ++ ")").getD "" ++ "\n")

def severitySign (color : Bool) : Severity → String
  | .error => paint color red "✗"
  | .warn => paint color yellow "⚠"

def diagnosticLine (color : Bool) (d : Diagnostic) : String :=
  severitySign color d.severity ++ " [" ++ d.code.name ++ "] " ++
    (d.file.map fun f => f ++ ": ").getD "" ++ d.message ++ "\n"

/-- The line of the counts: red when a file failed, else green. -/
def countsLine (color : Bool) (s : Summary) : String :=
  let text := toString s.updated ++ " updated, " ++ toString s.unchanged ++ " unchanged, " ++
    toString s.skipped ++ " skipped, " ++ toString s.failed ++ " failed"
  "\n" ++ paint color (bold (if 0 < s.failed then red else green)) text ++ "\n"

def printSummary (color verbose : Bool) (r : Report) : Printed where
  stdout := String.join (r.files.filterMap (outcomeLine? color verbose)) ++
    countsLine color r.summary
  stderr := String.join (r.diagnostics.map (diagnosticLine color))

end ColumnMetadata.CommandLine
