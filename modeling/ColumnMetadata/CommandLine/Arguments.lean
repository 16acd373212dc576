/-!
# Arguments of the command line

The words behind the program's name are read level by level: first the program's own options up to
the name of a command, then the command's. An option that takes a value has it in the same word or
in the next one. The value of the next word is only checked when another argument follows or the
level ends (`Reading.settle`), so of two faults the one that is met first in this sense counts.
-/

namespace ColumnMetadata.CommandLine

/-! ## What can be said -/

/-- An argument that a level may have. -/
inductive Argument where
  | config
  | projectDir
  | verbose
  | output
  | reorder
  | strict
  | help
  | version
  | path
deriving DecidableEq, Repr, Inhabited

namespace Argument

def takesValue : Argument → Bool
  | config | projectDir | output | path => true
  | verbose | reorder | strict | help | version => false

/-- The long form of an option, without its dashes. -/
def long? : Argument → Option String
  | config => some "config"
  | projectDir => some "project-dir"
  | verbose => some "verbose"
  | output => some "output"
  | reorder => some "reorder"
  | strict => some "strict"
  | help => some "help"
  | version => some "version"
  | path => none

def short? : Argument → Option Char
  | config => some 'c'
  | projectDir => some 'C'
  | verbose => some 'v'
  | output => some 'o'
  | help => some 'h'
  | version => some 'V'
  | reorder | strict | path => none

/-- The argument as messages show it. -/
def label : Argument → String
  | config => "--config <CONFIG>"
  | projectDir => "--project-dir <PROJECT_DIR>"
  | verbose => "--verbose"
  | output => "--output <OUTPUT>"
  | reorder => "--reorder"
  | strict => "--strict"
  | help => "--help"
  | version => "--version"
  | path => "[PATH]"

end Argument

/-- What there is help about. -/
inductive Topic where
  | program
  | valid
  | refactor
  | help
deriving DecidableEq, Repr, Inhabited

def Topic.ofName? : String → Option Topic
  | "valid" => some .valid
  | "refactor" => some .refactor
  | "help" => some .help
  | _ => none

/-- Why the words ask for no command that could be carried out. -/
inductive Notice where
  /-- Help was asked for. -/
  | help (topic : Topic)
  /-- Nothing was asked for, which also calls for help. -/
  | nothingAsked
  /-- The version was asked for. -/
  | version
  /-- There are options but no command. -/
  | missingCommand
  | unknownCommand (word : String)
  | unexpectedArgument (word : String)
  | missingValue (argument : Argument)
  | repeated (argument : Argument)
  | unexpectedValue (value : String) (argument : Argument)
deriving DecidableEq, Repr, Inhabited

/-- A command with its arguments. -/
inductive Command where
  | valid
  | refactor (path output : Option String) (reorder strict : Bool)
deriving DecidableEq, Repr, Inhabited

/-- What the program is asked to do. -/
structure Invocation where
  config : Option String
  projectDir : String
  verbose : Bool
  command : Command
deriving DecidableEq, Repr, Inhabited

/-! ## Reading a level -/

/-- The options of a level, its place for a bare word, and whether commands follow. -/
structure Level where
  topic : Topic
  options : List Argument
  positional : Option Argument
  hasCommands : Bool
deriving DecidableEq, Repr

namespace Level

def program : Level := ⟨.program, [.config, .projectDir, .verbose, .help, .version], none, true⟩

def valid : Level := ⟨.valid, [.config, .projectDir, .verbose, .help], none, false⟩

def refactor : Level :=
  ⟨.refactor, [.config, .output, .projectDir, .reorder, .strict, .verbose, .help], some .path,
    false⟩

def long? (l : Level) (name : String) : Option Argument :=
  l.options.find? fun a => a.long? == some name

def short? (l : Level) (letter : Char) : Option Argument :=
  l.options.find? fun a => a.short? == some letter

def command? (l : Level) (word : String) : Option Topic :=
  if l.hasCommands then Topic.ofName? word else none

end Level

/-- What has been read of a level. -/
structure Reading where
  /-- The arguments given so far, with their values. -/
  given : List (Argument × Option String)
  /-- An argument whose value is yet to be checked, with the value if it has come. -/
  pending : Option (Argument × Option String)
deriving DecidableEq, Repr

namespace Reading

def start : Reading := ⟨[], none⟩

def has (r : Reading) (a : Argument) : Bool := r.given.any fun g => g.1 == a

def value? (r : Reading) (a : Argument) : Option String := (r.given.lookup a).join

/-- Whether the next bare word is the value of an option. -/
def awaitsValue (r : Reading) : Bool := r.pending.any fun p => p.2.isNone

/-- Takes an argument. A value may not be empty, and no argument comes twice. -/
def take (topic : Topic) (r : Reading) (a : Argument) (value : Option String) :
    Except Notice Reading :=
  if a = .help then .error (.help topic)
  else if a = .version then .error .version
  else if a.takesValue && value.isNone then .error (.missingValue a)
  else if r.has a then .error (.repeated a)
  else if value = some "" then .error (.missingValue a)
  else .ok { r with given := r.given ++ [(a, value)] }

def settle (topic : Topic) (r : Reading) : Except Notice Reading :=
  match r.pending with
  | none => .ok r
  | some (a, value) => take topic { r with pending := none } a value

/-- Takes an argument behind the one that is yet to be checked. -/
def give (topic : Topic) (r : Reading) (a : Argument) (value : Option String) :
    Except Notice Reading := do
  let r ← r.settle topic
  r.take topic a value

def await (topic : Topic) (r : Reading) (a : Argument) (value : Option String) :
    Except Notice Reading := do
  let r ← r.settle topic
  .ok { r with pending := some (a, value) }

/-- Reads an option in its long form, without its dashes. -/
def longOption (l : Level) (r : Reading) (text : List Char) : Except Notice Reading :=
  let name := String.ofList (text.takeWhile (· != '='))
  match l.long? name, text.dropWhile (· != '=') with
  | none, _ => .error (.unexpectedArgument ("--" ++ name))
  | some a, [] => if a.takesValue then r.await l.topic a none else r.give l.topic a none
  | some a, _ :: value =>
    if a.takesValue then r.give l.topic a (some (String.ofList value))
    else .error (.unexpectedValue (String.ofList value) a)

/-- Reads a word of letters behind a dash. The first letter of an option with a value ends them: what
follows it is the value. -/
def shortOptions (l : Level) (r : Reading) : List Char → Except Notice Reading
  | [] => .ok r
  | c :: cs =>
    match l.short? c with
    | none => .error (.unexpectedArgument (String.ofList ['-', c]))
    | some a =>
      if a.takesValue then
        match cs with
        | [] => r.await l.topic a none
        | '=' :: value => r.give l.topic a (some (String.ofList value))
        | value => r.give l.topic a (some (String.ofList value))
      else do
        let r ← r.give l.topic a none
        r.shortOptions l cs

def bareWord (l : Level) (trailing : Bool) (r : Reading) (word : String) :
    Except Notice Reading :=
  match l.positional with
  | some a =>
    if r.has a || r.pending.any (fun p => p.1 == a) then .error (.unexpectedArgument word)
    else r.await l.topic a (some word)
  | none =>
    if l.hasCommands && !trailing then .error (.unknownCommand word)
    else .error (.unexpectedArgument word)

/-- Reads the words of a level, up to the name of a command if commands may follow. Behind a word of
two dashes all words are bare. -/
def words (l : Level) : Bool → Reading → List String →
    Except Notice (Reading × Option (Topic × List String))
  | _, r, [] => .ok (r, none)
  | true, r, w :: ws => do
    let r ← r.bareWord l true w
    words l true r ws
  | false, r, w :: ws =>
    match (if r.awaitsValue then none else l.command? w), w.toList with
    | some topic, _ => .ok (r, some (topic, ws))
    | none, ['-', '-'] => words l true r ws
    | none, '-' :: '-' :: text => do
      let r ← r.longOption l text
      words l false r ws
    | none, '-' :: c :: letters => do
      let r ← r.shortOptions l (c :: letters)
      words l false r ws
    | none, _ =>
      match r.pending with
      | some (a, none) => words l false { r with pending := some (a, some w) } ws
      | _ => do
        let r ← r.bareWord l false w
        words l false r ws

end Reading

/-! ## Reading all words -/

/-- What the words behind `help` ask about. -/
def helpTopic : List String → Notice
  | [] => .help .program
  | [w] =>
    match Topic.ofName? w with
    | some topic => .help topic
    | none => .unknownCommand w
  | w :: next :: _ =>
    match Topic.ofName? w with
    | some _ => .unknownCommand next
    | none => .unknownCommand w

def readCommand (l : Level) (ws : List String) : Except Notice Reading := do
  let (r, _) ← Reading.words l false .start ws
  r.settle l.topic

/-- What the two levels come to; an option may stand on either, and the command's own goes before the
program's. -/
def combine (program command : Reading) (c : Command) : Invocation where
  config := command.value? .config <|> program.value? .config
  projectDir := (command.value? .projectDir <|> program.value? .projectDir).getD "."
  verbose := command.has .verbose || program.has .verbose
  command := c

/-- What the words behind the program's name ask for. -/
def parse (ws : List String) : Except Notice Invocation := do
  match ← Reading.words .program false .start ws with
  | (_, some (.help, ws)) => .error (helpTopic ws)
  | (r, some (.refactor, ws)) => do
    let c ← readCommand .refactor ws
    let r ← r.settle .program
    .ok (combine r c
      (.refactor (c.value? .path) (c.value? .output) (c.has .reorder) (c.has .strict)))
  | (r, some (_, ws)) => do
    let c ← readCommand .valid ws
    let r ← r.settle .program
    .ok (combine r c .valid)
  | (r, none) => do
    let r ← r.settle .program
    .error (if r.given.isEmpty then .nothingAsked else .missingCommand)

end ColumnMetadata.CommandLine
