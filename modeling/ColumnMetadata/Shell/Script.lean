import ColumnMetadata.Text.Search

/-!
# Shell scripts

The scripts that may stand for a compiler in a project: simple commands with quoting, parameters,
redirections to another output and input that stands in the script, put together by sequences, `&&`,
`||`, `!`, `if`, `case`, `for` and braces. A script is read into tokens first and then into a command
tree. Anything beyond this language is refused.
-/

namespace ColumnMetadata.Shell

/-! ## Words -/

/-- A part of a word. -/
inductive Part where
  | text (chars : List Char) (quoted : Bool)
  | parameter (name : String) (quoted : Bool)
deriving DecidableEq, Repr, Inhabited

/-- A word: parts that stand together. -/
abbrev Word := List Part

def isSeparator (c : Char) : Bool := c == ' ' || c == '\t'

def endsWord (c : Char) : Bool := isSeparator c || "\n;&|<>()".toList.contains c

def isNameChar (c : Char) : Bool := c.isAlphanum || c == '_'

/-- The parameter behind a dollar sign, and what follows it. A dollar sign that introduces none
stands for itself. -/
def parameter? (quoted : Bool) : List Char → Option (Part × List Char)
  | '{' :: cs =>
    match (cs.takeWhile (· != '}'), cs.dropWhile (· != '}')) with
    | (name, '}' :: rest) =>
      if name.all isNameChar && !name.isEmpty || name == ['#'] || name == ['@'] || name == ['?'] then
        some (.parameter (String.ofList name) quoted, rest)
      else none
    | _ => none
  | '(' :: _ => none
  | c :: cs =>
    if c.isDigit || "#@*?$!".toList.contains c then
      some (.parameter (String.singleton c) quoted, cs)
    else if isNameChar c then
      some (.parameter (String.ofList ((c :: cs).takeWhile isNameChar)) quoted,
        (c :: cs).dropWhile isNameChar)
    else some (.text ['$'] quoted, c :: cs)
  | [] => some (.text ['$'] quoted, [])

/-- The parts up to a closing double quote. The number bounds the steps. -/
def doubleQuoted? : Nat → List Char → Option (List Part × List Char)
  | 0, _ => none
  | _, [] => none
  | _ + 1, '"' :: cs => some ([], cs)
  | n + 1, '\\' :: c :: cs =>
    let rest := doubleQuoted? n cs
    if c == '\n' then rest
    else
      let chars := if "$`\"\\".toList.contains c then [c] else ['\\', c]
      rest.map fun (ps, cs) => (.text chars true :: ps, cs)
  | n + 1, '$' :: cs => do
    let (p, cs) ← parameter? true cs
    let (ps, cs) ← doubleQuoted? n cs
    some (p :: ps, cs)
  | n + 1, c :: cs =>
    if c == '\x60' then none
    else (doubleQuoted? n cs).map fun (ps, cs) => (.text [c] true :: ps, cs)

/-- The word at the start of a text. The number bounds the steps. -/
def word? : Nat → List Char → Option (Word × List Char)
  | 0, _ => none
  | _, [] => some ([], [])
  | n + 1, '\'' :: cs =>
    match (cs.takeWhile (· != '\''), cs.dropWhile (· != '\'')) with
    | (chars, '\'' :: rest) =>
      (word? n rest).map fun (ps, cs) => (.text chars true :: ps, cs)
    | _ => none
  | n + 1, '"' :: cs => do
    let (quoted, cs) ← doubleQuoted? n cs
    let (ps, cs) ← word? n cs
    some (.text [] true :: quoted ++ ps, cs)
  | n + 1, '\\' :: '\n' :: cs => word? n cs
  | n + 1, '\\' :: c :: cs => (word? n cs).map fun (ps, cs) => (.text [c] true :: ps, cs)
  | n + 1, '$' :: cs => do
    let (p, cs) ← parameter? false cs
    let (ps, cs) ← word? n cs
    some (p :: ps, cs)
  | n + 1, c :: cs =>
    if endsWord c then some ([], c :: cs)
    else if c == '\x60' then none
    else (word? n cs).map fun (ps, cs) => (.text [c] false :: ps, cs)

/-! ## Tokens -/

/-- A token of a script. -/
inductive Token where
  | word (w : Word)
  | newline
  | operator (text : String)
  /-- The first output goes where the second one goes. -/
  | duplicate (output other : Nat)
  /-- An output goes to the file that the next word names. -/
  | toFile (output : Nat)
  /-- The input is a text in the script. -/
  | input (text : List Char)
deriving DecidableEq, Repr, Inhabited

/-- The redirection behind a greater sign. -/
def redirection (output : Nat) : List Char → Token × List Char
  | '&' :: '1' :: cs => (.duplicate output 1, cs)
  | '&' :: '2' :: cs => (.duplicate output 2, cs)
  | '>' :: cs => (.toFile output, cs)
  | cs => (.toFile output, cs)

/-- The lines of a text up to one that is a given line, and what stands behind that line. -/
def linesUpTo? (last : List Char) : List (List Char) → Option (List (List Char) × List (List Char))
  | [] => none
  | l :: ls =>
    if l = last then some ([], ls)
    else (linesUpTo? last ls).map fun (body, rest) => (l :: body, rest)

/-- The input that stands in the script behind the current line: the line, the input and what
follows it. The word that ends the input is quoted if the input may have characters with a meaning. -/
def hereText? (cs : List Char) : Option (List Char × List Char) := do
  let (quoted, cs) := match cs with
    | '\'' :: cs => (true, cs)
    | cs => (false, cs)
  let last := cs.takeWhile isNameChar
  let cs ← match quoted, cs.dropWhile isNameChar with
    | true, '\'' :: cs => some cs
    | true, _ => none
    | false, cs => some cs
  match Text.splitOnChar '\n' cs with
  | line :: lines =>
    let (body, rest) ← linesUpTo? last lines
    let text := body.flatMap fun l => l ++ ['\n']
    if !quoted && text.any (fun c => "$\\".toList.contains c || c == '\x60') then none
    else some (text, Text.join ['\n'] (line :: rest))
  | [] => none

/-- The tokens of a script. The number bounds the steps. -/
def tokens? : Nat → List Char → Option (List Token)
  | 0, _ => none
  | _, [] => some []
  | n + 1, '#' :: cs => tokens? n (cs.dropWhile (· != '\n'))
  | n + 1, '\\' :: '\n' :: cs => tokens? n cs
  | n + 1, '\n' :: cs => (tokens? n cs).map (.newline :: ·)
  | n + 1, ';' :: ';' :: cs => (tokens? n cs).map (.operator ";;" :: ·)
  | n + 1, '&' :: '&' :: cs => (tokens? n cs).map (.operator "&&" :: ·)
  | n + 1, '|' :: '|' :: cs => (tokens? n cs).map (.operator "||" :: ·)
  | n + 1, '<' :: '<' :: cs => do
    let (text, rest) ← hereText? cs
    let ts ← tokens? n rest
    some (.input text :: ts)
  | n + 1, '1' :: '>' :: cs =>
    let (t, cs) := redirection 1 cs
    (tokens? n cs).map (t :: ·)
  | n + 1, '2' :: '>' :: cs =>
    let (t, cs) := redirection 2 cs
    (tokens? n cs).map (t :: ·)
  | n + 1, '>' :: cs =>
    let (t, cs) := redirection 1 cs
    (tokens? n cs).map (t :: ·)
  | n + 1, c :: cs =>
    if isSeparator c then tokens? n cs
    else if endsWord c then (tokens? n cs).map (.operator (String.singleton c) :: ·)
    else do
      let (w, rest) ← word? (cs.length + 2) (c :: cs)
      let ts ← tokens? n rest
      some (.word w :: ts)

/-! ## Commands -/

/-- Where an output goes. -/
inductive Redirection where
  | duplicate (output other : Nat)
  | toFile (output : Nat) (name : Word)
  | input (text : List Char)
deriving DecidableEq, Repr, Inhabited

/-- A command tree. -/
inductive Command where
  | nothing
  | simple (words : List Word) (redirections : List Redirection)
  | sequence (first second : Command)
  | andThen (first second : Command)
  | orElse (first second : Command)
  | negate (command : Command)
  | branch (condition yes no : Command)
  /-- The body if the subject matches a pattern, else the other command. -/
  | choose (subject : Word) (patterns : List Word) (body otherwise : Command)
  /-- The body for each field of the words. -/
  | forEach (name : String) (words : List Word) (body : Command)
deriving Inhabited

/-- The reserved word that a token is, if it is a word without quotes. -/
def Token.plain? : Token → Option String
  | .word ps =>
    let plain (p : Part) : Option (List Char) :=
      match p with
      | .text chars false => some chars
      | _ => none
    (ps.mapM plain).map fun parts => String.ofList parts.flatten
  | _ => none

def Token.is (t : Token) (reserved : String) : Bool := t.plain? == some reserved

def skipNewlines (ts : List Token) : List Token := ts.dropWhile (· == .newline)

def expect? (reserved : String) : List Token → Option (List Token)
  | t :: ts => if t.is reserved then some ts else none
  | [] => none

/-- The words that end a list of commands. -/
def closers : List String := ["then", "elif", "else", "fi", "esac", "do", "done", "\x7d"]

def simple? : List Token → Option (List Word × List Redirection × List Token)
  | .word w :: ts => (simple? ts).map fun (ws, rs, ts) => (w :: ws, rs, ts)
  | .duplicate a b :: ts => (simple? ts).map fun (ws, rs, ts) => (ws, .duplicate a b :: rs, ts)
  | .toFile a :: .word w :: ts => (simple? ts).map fun (ws, rs, ts) => (ws, .toFile a w :: rs, ts)
  | .toFile _ :: _ => none
  | .input text :: ts => (simple? ts).map fun (ws, rs, ts) => (ws, .input text :: rs, ts)
  | ts => some ([], [], ts)

/-- The patterns of a branch of `case`, up to the closing parenthesis. -/
def patterns? : List Token → Option (List Word × List Token)
  | .word w :: .operator "|" :: ts => (patterns? ts).map fun (ws, ts) => (w :: ws, ts)
  | .word w :: .operator ")" :: ts => some ([w], ts)
  | _ => none

mutual

/-- Commands up to a word that closes the list. The number bounds the steps. -/
def list? : Nat → List Token → Option (Command × List Token)
  | 0, _ => none
  | n + 1, ts => do
    match skipNewlines ts with
    | [] => some (.nothing, [])
    | .operator ";;" :: ts => some (.nothing, .operator ";;" :: ts)
    | t :: ts =>
      if closers.any t.is then some (.nothing, t :: ts)
      else
        let (first, ts) ← chain? n (t :: ts)
        match ts with
        | .operator ";" :: ts | .newline :: ts =>
          let (second, ts) ← list? n ts
          some (.sequence first second, ts)
        | [] => some (first, [])
        | .operator ";;" :: _ => some (first, ts)
        | _ => none

/-- Commands joined with `&&` and `||`. -/
def chain? : Nat → List Token → Option (Command × List Token)
  | 0, _ => none
  | n + 1, ts => do
    let (first, ts) ← command? n ts
    chainRest? n first ts

/-- What follows a command in a chain. -/
def chainRest? : Nat → Command → List Token → Option (Command × List Token)
  | 0, _, _ => none
  | n + 1, first, .operator "&&" :: ts => do
    let (second, ts) ← command? n (skipNewlines ts)
    chainRest? n (.andThen first second) ts
  | n + 1, first, .operator "||" :: ts => do
    let (second, ts) ← command? n (skipNewlines ts)
    chainRest? n (.orElse first second) ts
  | _ + 1, first, ts => some (first, ts)

def command? : Nat → List Token → Option (Command × List Token)
  | 0, _ => none
  | _, [] => none
  | n + 1, t :: ts =>
    if t.is "!" then (command? n ts).map fun (c, ts) => (.negate c, ts)
    else if t.is "if" then branch? n ts
    else if t.is "\x7b" then do
      let (c, ts) ← list? n ts
      let ts ← expect? "\x7d" ts
      some (c, ts)
    else if t.is "for" then
      match ts with
      | name :: ts => do
        let name ← name.plain?
        let ts ← expect? "in" (skipNewlines ts)
        let (words, rs, ts) ← simple? ts
        let ts ← match rs, ts with
          | [], .operator ";" :: ts | [], .newline :: ts => expect? "do" (skipNewlines ts)
          | _, _ => none
        let (body, ts) ← list? n ts
        let ts ← expect? "done" ts
        some (.forEach name words body, ts)
      | [] => none
    else if t.is "while" || t.is "until" then none
    else if t.is "case" then
      match ts with
      | .word w :: ts => do
        let ts ← expect? "in" (skipNewlines ts)
        arms? n w ts
      | _ => none
    else
      match simple? (t :: ts) with
      | some ([], [], _) => none
      | some (ws, rs, ts) => some (.simple ws rs, ts)
      | none => none

def branch? : Nat → List Token → Option (Command × List Token)
  | 0, _ => none
  | n + 1, ts => do
    let (condition, ts) ← list? n ts
    let ts ← expect? "then" ts
    let (yes, ts) ← list? n ts
    match ts with
    | t :: ts =>
      if t.is "fi" then some (.branch condition yes .nothing, ts)
      else if t.is "else" then do
        let (no, ts) ← list? n ts
        let ts ← expect? "fi" ts
        some (.branch condition yes no, ts)
      else if t.is "elif" then do
        let (no, ts) ← branch? n ts
        some (.branch condition yes no, ts)
      else none
    | [] => none

/-- The branches of a `case` up to its end. -/
def arms? : Nat → Word → List Token → Option (Command × List Token)
  | 0, _, _ => none
  | n + 1, subject, ts => do
    match skipNewlines ts with
    | [] => none
    | t :: ts =>
      if t.is "esac" then some (.nothing, ts)
      else
        let (patterns, ts) ← patterns? (if t == .operator "(" then ts else t :: ts)
        let (body, ts) ← list? n ts
        match ts with
        | .operator ";;" :: ts => do
          let (otherwise, ts) ← arms? n subject ts
          some (.choose subject patterns body otherwise, ts)
        | t :: ts => if t.is "esac" then some (.choose subject patterns body .nothing, ts) else none
        | [] => none

end

def read? (script : String) : Option Command := do
  let cs := script.toList
  let ts ← tokens? (cs.length + 1) cs
  match list? (4 * ts.length + 4) ts with
  | some (c, []) => some c
  | _ => none

end ColumnMetadata.Shell
