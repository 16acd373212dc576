import ColumnMetadata.Compiler.Process
import ColumnMetadata.Shell.Script

/-!
# Running shell scripts

A session runs a command tree in a directory of a file tree. It collects what the commands write to
the two outputs and the seconds that they sleep, and ends with the status of the last command, or
earlier when a command ends the shell. Commands read the tree but do not change it.
-/

namespace ColumnMetadata.Shell

/-- Where written bytes go. -/
inductive Sink where
  | stdout
  | stderr
  | nowhere
deriving DecidableEq, Repr, Inhabited

/-- The outputs of a command, and its input. -/
structure Outputs where
  out : Sink
  err : Sink
  input : List Char

/-- The outputs of a command without redirections. -/
def Outputs.plain : Outputs := ⟨.stdout, .stderr, []⟩

/-- A shell at work. -/
structure Session where
  tree : FileTree
  directory : String
  /-- The name of the script and its arguments. -/
  scriptName : String
  arguments : List String
  bindings : Entries String
  stdout : List UInt8
  stderr : List UInt8
  seconds : Nat
  /-- The status of the last command. -/
  status : Nat
  /-- How the shell ended, if it has. -/
  ended : Option ExitStatus

namespace Session

def write (s : Session) (sink : Sink) (bytes : List UInt8) : Session :=
  match sink with
  | .stdout => { s with stdout := s.stdout ++ bytes }
  | .stderr => { s with stderr := s.stderr ++ bytes }
  | .nowhere => s

def writeText (s : Session) (sink : Sink) (text : String) : Session :=
  s.write sink text.toUTF8.toList

def finish (s : Session) (status : Nat) : Session := { s with status }

/-- Writes a complaint and ends the last command with a status. -/
def complain (s : Session) (outputs : Outputs) (status : Nat) (text : String) : Session :=
  (s.writeText outputs.err (text ++ "\n")).finish status

/-! ## Expansion -/

def parameter (s : Session) (name : String) : String :=
  match name.toNat? with
  | some 0 => s.scriptName
  | some n => (s.arguments[n - 1]?).getD ""
  | none =>
    match name with
    | "#" => toString s.arguments.length
    | "@" | "*" => Text.joinStrings " " s.arguments
    | "?" => toString s.status
    | "$" => "$"
    | "!" => ""
    | "PWD" => s.directory
    | name => (Entries.find? name s.bindings).getD ""

/-- Fields of an expanded word: those that are complete, and the one under way. -/
structure Fields where
  complete : List (List Char)
  current : Option (List Char)

def Fields.add (f : Fields) (cs : List Char) : Fields :=
  { f with current := some (f.current.getD [] ++ cs) }

def Fields.split (f : Fields) : Fields := ⟨f.complete ++ f.current.toList, none⟩

/-- Adds a part of a word. A parameter outside quotes is split at its blanks, and the arguments in
quotes make a field each. -/
def Fields.addPart (s : Session) (f : Fields) : Part → Fields
  | .text cs _ => f.add cs
  | .parameter "@" true =>
    match s.arguments with
    | [] => f
    | a :: as => as.foldl (fun f a => f.split.add a.toList) (f.add a.toList)
  | .parameter name true => f.add (s.parameter name).toList
  | .parameter name false =>
    (s.parameter name).toList.foldl (fun f c =>
      if isSeparator c || c == '\n' then f.split else f.add [c]) f

def expand (s : Session) (w : Word) : List String :=
  ((w.foldl (Fields.addPart s) ⟨[], none⟩).split.complete).map String.ofList

/-- The text of a word where no fields are made. -/
def expandText (s : Session) (w : Word) : List Char :=
  w.flatMap fun
    | .text cs _ => cs
    | .parameter name _ => (s.parameter name).toList

/-- A pattern: characters, of which some may be wildcards. -/
def expandPattern (s : Session) (w : Word) : List (Char × Bool) :=
  w.flatMap fun
    | .text cs quoted => cs.map fun c => (c, !quoted)
    | .parameter name quoted => (s.parameter name).toList.map fun c => (c, !quoted)

end Session

/-- Whether a text matches a pattern, in which `*` and `?` may be wildcards. -/
def globMatches : List (Char × Bool) → List Char → Bool
  | [], cs => cs.isEmpty
  | ('*', true) :: ps, [] => globMatches ps []
  | ('*', true) :: ps, c :: cs => globMatches ps (c :: cs) || globMatches (('*', true) :: ps) cs
  | ('?', true) :: ps, _ :: cs => globMatches ps cs
  | (p, _) :: ps, c :: cs => p == c && globMatches ps cs
  | _ :: _, [] => false
termination_by ps cs => (ps.length, cs.length)

/-! ## Escapes -/

def octalDigit? (c : Char) : Option Nat :=
  if '0' ≤ c ∧ c ≤ '7' then some (c.toNat - '0'.toNat) else none

/-- Up to a number of octal digits at the start of a text: their value, and what follows. -/
def octal : Nat → Nat → List Char → Nat × List Char
  | n + 1, value, c :: cs =>
    match octalDigit? c with
    | some d => octal n (value * 8 + d) cs
    | none => (value, c :: cs)
  | _, value, cs => (value, cs)

/-- The byte that a letter stands for behind a backslash. -/
def escapeLetter? : Char → Option UInt8
  | 'a' => some 7
  | 'b' => some 8
  | 'f' => some 12
  | 'n' => some 10
  | 'r' => some 13
  | 't' => some 9
  | 'v' => some 11
  | '\\' => some 92
  | _ => none

def bytesOf (c : Char) : List UInt8 := (String.singleton c).toUTF8.toList

/-- The bytes of a text with backslash escapes, and whether an escape asked to stop. An octal escape
is written with a leading zero if asked so. The number bounds the steps. -/
def unescape (leadingZero : Bool) : Nat → List Char → List UInt8 × Bool
  | 0, _ => ([], false)
  | _, [] => ([], false)
  | n + 1, '\\' :: c :: cs =>
    if c == 'c' then ([], true)
    else
      match escapeLetter? c with
      | some b =>
        let (bs, stop) := unescape leadingZero n cs
        (b :: bs, stop)
      | none =>
        if leadingZero && c == '0' || !leadingZero && (octalDigit? c).isSome then
          let (value, rest) := octal 3 0 (if leadingZero then cs else c :: cs)
          let (bs, stop) := unescape leadingZero n rest
          (UInt8.ofNat value :: bs, stop)
        else
          let (bs, stop) := unescape leadingZero n (c :: cs)
          (92 :: bs, stop)
  | n + 1, c :: cs =>
    let (bs, stop) := unescape leadingZero n cs
    (bytesOf c ++ bs, stop)

/-- The bytes that a format writes: `%s` and `%b` take an argument, `%d` a number. Gives also the
arguments that are left, and whether to stop. The number bounds the steps. -/
def format : Nat → List Char → List String → List UInt8 × List String × Bool
  | 0, _, args => ([], args, false)
  | _, [], args => ([], args, false)
  | n + 1, '%' :: '%' :: cs, args =>
    let (bs, args, stop) := format n cs args
    (37 :: bs, args, stop)
  | n + 1, '%' :: 'b' :: cs, args =>
    let text := (args.head?.getD "").toList
    let (shown, stop) := unescape true (text.length + 1) text
    if stop then (shown, args.tail, true)
    else
      let (bs, args, stop) := format n cs args.tail
      (shown ++ bs, args, stop)
  | n + 1, '%' :: 's' :: cs, args =>
    let (bs, rest, stop) := format n cs args.tail
    ((args.head?.getD "").toUTF8.toList ++ bs, rest, stop)
  | n + 1, '%' :: 'd' :: cs, args =>
    let (bs, rest, stop) := format n cs args.tail
    ((args.head?.getD "0").toUTF8.toList ++ bs, rest, stop)
  | n + 1, '\\' :: c :: cs, args =>
    if c == 'c' then ([], args, true)
    else
      match escapeLetter? c, octalDigit? c with
      | some b, _ =>
        let (bs, args, stop) := format n cs args
        (b :: bs, args, stop)
      | none, some _ =>
        let (value, rest) := octal 3 0 (c :: cs)
        let (bs, args, stop) := format n rest args
        (UInt8.ofNat value :: bs, args, stop)
      | none, none =>
        let (bs, args, stop) := format n (c :: cs) args
        (92 :: bs, args, stop)
  | n + 1, c :: cs, args =>
    let (bs, args, stop) := format n cs args
    (bytesOf c ++ bs, args, stop)

/-- A format used as often as it takes to use up the arguments. The number bounds the uses. -/
def formatAll : Nat → String → List String → List UInt8
  | 0, _, _ => []
  | n + 1, f, args =>
    let (bs, rest, stop) := format (f.length + 1) f.toList args
    if stop || rest.isEmpty || rest.length == args.length then bs else bs ++ formatAll n f rest

/-! ## Commands -/

/-- Whether a condition holds; `none` when it is not understood. -/
def condition? (s : Session) : List String → Option Bool
  | [] => some false
  | "!" :: rest =>
    match rest with
    | [] => some true
    | [a] => some a.isEmpty
    | [op, a] => (unary? op a).map (!·)
    | [a, op, b] => (binary? a op b).map (!·)
    | _ => none
  | [a] => some !a.isEmpty
  | [op, a] => unary? op a
  | [a, op, b] => binary? a op b
  | _ => none
where
  /-- A test of one operand. -/
  unary? (op a : String) : Option Bool :=
    let path := Path.join s.directory a
    match op with
    | "-n" => some !a.isEmpty
    | "-z" => some a.isEmpty
    | "-e" => some (s.tree.contains path)
    | "-d" => some (s.tree.isDirectory path)
    | "-f" => some (s.tree.contains path && !s.tree.isDirectory path)
    | _ => none
  /-- A test of two operands. -/
  binary? (a op b : String) : Option Bool :=
    match op, a.toInt?, b.toInt? with
    | "=", _, _ => some (a == b)
    | "!=", _, _ => some (a != b)
    | "-eq", some x, some y => some (x == y)
    | "-ne", some x, some y => some (x != y)
    | "-lt", some x, some y => some (x < y)
    | "-le", some x, some y => some (x ≤ y)
    | "-gt", some x, some y => some (x > y)
    | "-ge", some x, some y => some (x ≥ y)
    | _, _, _ => none

def signal? (option : String) : Option Nat :=
  let name := String.ofList (option.toList.drop 1)
  match name.toNat? with
  | some n => some n
  | none => (ExitStatus.signalNames.find? fun (_, long) =>
      long == name || long == "SIG" ++ name).map Prod.fst

namespace Session

def fileBytes (s : Session) (name : String) : Except FileError (List UInt8) := do
  match ← s.tree.node (Path.join s.directory name) with
  | .directory _ => .error .isADirectory
  | .file (.text t) => .ok t.toUTF8.toList
  | .file (.bytes bs) => .ok bs

def refusal : FileError → String
  | .notFound => "No such file or directory"
  | .notADirectory => "Not a directory"
  | .isADirectory => "Is a directory"
  | .permissionDenied => "Permission denied"
  | .notText => "Invalid argument"
  | .other message => message

def catenate (outputs : Outputs) (s : Session) (name : String) : Session :=
  match s.fileBytes name with
  | .ok bs => s.write outputs.out bs
  | .error e => s.complain outputs 1 ("cat: " ++ name ++ ": " ++ refusal e)

def echo (s : Session) (outputs : Outputs) (args : List String) : Session :=
  let (args, line) := match args with
    | "-n" :: args => (args, "")
    | args => (args, "\n")
  let text := Text.joinStrings " " args
  let (bs, stop) := unescape true (text.length + 1) text.toList
  (s.write outputs.out (if stop then bs else bs ++ line.toUTF8.toList)).finish 0

def call (s : Session) (outputs : Outputs) (name : String) (args : List String) : Session :=
  match name, args with
  | ":", _ | "true", _ => s.finish 0
  | "false", _ => s.finish 1
  | "echo", args => s.echo outputs args
  | "printf", f :: args => (s.write outputs.out (formatAll (args.length + 1) f args)).finish 0
  | "cat", [] => (s.writeText outputs.out (String.ofList outputs.input)).finish 0
  | "cat", args => args.foldl (catenate outputs) (s.finish 0)
  | "pwd", _ => (s.writeText outputs.out (s.directory ++ "\n")).finish 0
  | "sleep", [n] => { s.finish 0 with seconds := s.seconds + (n.toNat?).getD 0 }
  | "exit", args =>
    let code := (args.head?.bind String.toNat?).getD s.status
    { s with ended := some (.exited (code % 256)) }
  | "cd", [name] =>
    let directory := Path.join s.directory name
    if s.tree.isDirectory directory then { s.finish 0 with directory }
    else s.complain outputs 2 (s.scriptName ++ ": 1: cd: can't cd to " ++ name)
  | "kill", ["-s", name, "$"] =>
    match signal? ("-" ++ name) with
    | some n => { s with ended := some (.signalled n) }
    | none => s.finish 2
  | "kill", [option, "$"] =>
    match signal? option with
    | some n => { s with ended := some (.signalled n) }
    | none => s.finish 2
  | "kill", ["$"] => { s with ended := some (.signalled 15) }
  | "shift", _ => { s.finish 0 with arguments := s.arguments.tail }
  | "test", args =>
    match condition? s args with
    | some b => s.finish (if b then 0 else 1)
    | none => s.finish 2
  | "[", args =>
    match condition? s args.dropLast with
    | some b => s.finish (if b then 0 else 1)
    | none => s.finish 2
  | name, _ => s.complain outputs 127 (s.scriptName ++ ": 1: " ++ name ++ ": not found")

def redirect (s : Session) (o : Outputs) : Redirection → Outputs
  | .duplicate 1 2 => { o with out := o.err }
  | .duplicate 2 1 => { o with err := o.out }
  | .duplicate _ _ => o
  | .input text => { o with input := text }
  | .toFile 2 name => if s.expandText name = "/dev/stdout".toList then { o with err := o.out }
    else if s.expandText name = "/dev/stderr".toList then o else { o with err := .nowhere }
  | .toFile _ name => if s.expandText name = "/dev/stderr".toList then { o with out := o.err }
    else if s.expandText name = "/dev/stdout".toList then o else { o with out := .nowhere }

/-- The variable and value of an assignment, if a word is one. -/
def assignment? (s : Session) (w : Word) : Option (String × String) :=
  match w.span fun p => p != .text ['='] false with
  | (name, .text ['='] false :: value) =>
    let plain (p : Part) : Option Char :=
      match p with
      | .text [c] false => if isNameChar c then some c else none
      | _ => none
    match name.mapM plain with
    | some (c :: cs) => some (String.ofList (c :: cs), String.ofList (s.expandText value))
    | _ => none
  | _ => none

/-- Carries out leading assignments, and gives the other words. -/
def assign (s : Session) : List Word → Session × List Word
  | [] => (s, [])
  | w :: ws =>
    match s.assignment? w with
    | some (name, value) =>
      assign { s with bindings := Entries.insert name value s.bindings } ws
    | none => (s, w :: ws)

/-- Runs a simple command. A command behind `exec` ends the shell. -/
def simple (s : Session) (words : List Word) (redirections : List Redirection) : Session :=
  let (s, words) := s.assign words
  let outputs := redirections.foldl s.redirect .plain
  match words.flatMap s.expand with
  | [] => s.finish 0
  | ["exec"] => s.finish 0
  | "exec" :: name :: args =>
    let s := s.call outputs name args
    { s with ended := s.ended <|> some (.exited s.status) }
  | name :: args => s.call outputs name args

def run (s : Session) : Command → Session
  | .nothing => s
  | .simple words redirections =>
    if s.ended.isSome then s else s.simple words redirections
  | .sequence a b => (s.run a).run b
  | .andThen a b =>
    let s := s.run a
    if s.status = 0 then s.run b else s
  | .orElse a b =>
    let s := s.run a
    if s.status = 0 then s else s.run b
  | .negate a =>
    let s := s.run a
    s.finish (if s.status = 0 then 1 else 0)
  | .branch condition yes no =>
    let s := s.run condition
    if s.status = 0 then (s.finish 0).run yes else (s.finish 0).run no
  | .choose subject patterns body otherwise =>
    let text := s.expandText subject
    if patterns.any fun p => globMatches (s.expandPattern p) text then (s.finish 0).run body
    else (s.finish 0).run otherwise
  | .forEach name words body =>
    (words.flatMap s.expand).foldl (fun s value =>
      { s with bindings := Entries.insert name value s.bindings }.run body) (s.finish 0)

def output (s : Session) : ProcessOutput :=
  ⟨s.ended.getD (.exited s.status), s.stdout, s.stderr, s.seconds⟩

end Session

/-! ## The shell as a program -/

def runScript (t : FileTree) (directory name : String) (args : List String) (script : String) :
    ProcessOutput :=
  let s : Session := ⟨t, directory, name, args, [], [], [], 0, 0, none⟩
  match read? script with
  | some c => (s.run c).output
  | none =>
    (s.complain .plain 2 (name ++ ": 1: Syntax error")).output

def refuse (text : String) : ProcessOutput :=
  ⟨.exited 2, [], (text ++ "\n").toUTF8.toList, 0⟩

/-- Runs the shell with arguments: the first names the script. -/
def runShell (t : FileTree) (directory : String) : List String → ProcessOutput
  | [] => ⟨.exited 0, [], [], 0⟩
  | name :: args =>
    if name.startsWith "-" then refuse "sh: 0: Illegal option --"
    else
      match t.readText (Path.join directory name) with
      | .ok script => runScript t directory name args script
      | .error _ => refuse ("sh: 0: cannot open " ++ name ++ ": No such file")

/-- Launches the shell, or a command that the shell has itself. A program that is named by a path is
a file without permission to run, if it exists. -/
def launch : Launcher := fun t directory program args =>
  if program = "sh" ∨ program = "/bin/sh" then .ok (runShell t directory args)
  else if program.toList.contains '/' then
    match t.node (Path.join directory program) with
    | .ok _ => .error .permissionDenied
    | .error e => .error e
  else if ["true", "false", "echo", "printf", "cat", "pwd", "sleep", "test"].contains program then
    let s : Session := ⟨t, directory, program, args, [], [], [], 0, 0, none⟩
    .ok (s.call .plain program args).output
  else .error .notFound

end ColumnMetadata.Shell
