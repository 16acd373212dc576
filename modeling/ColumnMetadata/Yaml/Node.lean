import ColumnMetadata.Yaml.Scan

/-!
# YAML documents

A document is a tree of scalars, sequences and mappings. An alias stands for the node that its
anchor named last before it; anchors are numbered, and an alias keeps the number.
-/

namespace ColumnMetadata.Yaml

/-- A node of a document. -/
inductive Node where
  /-- A scalar, and whether it is written plainly. -/
  | scalar (text : String) (plain : Bool)
  | sequence (items : List Node)
  | mapping (entries : List (Node × Node))
  /-- The node with a number. -/
  | alias (number : Nat)
deriving Inhabited

/-- The anchors of a document. -/
structure Anchors where
  /-- The number that a name stands for. -/
  names : List (List Char × Nat)
  /-- The scalars with a number, latest first; `none` for other nodes. -/
  targets : List (Nat × Option String)

namespace Anchors

/-- The number for a name that is anchored now: the count of names so far. -/
def define (a : Anchors) (name : List Char) (target : Option String) : Anchors :=
  let number := a.names.length
  ⟨(a.names.filter fun p => p.1 ≠ name) ++ [(name, number)], (number, target) :: a.targets⟩

def number? (a : Anchors) (name : List Char) : Option Nat :=
  (a.names.find? fun p => p.1 = name).map Prod.snd

def scalar? (a : Anchors) (number : Nat) : Option String :=
  ((a.targets.find? fun p => p.1 = number).map Prod.snd).join

end Anchors

/-- What reading a node leaves: the anchors and the tokens behind. -/
structure Rest where
  anchors : Anchors
  tokens : List Token

def emptyNode : Node := .scalar "" true

/-- An anchor and a tag in front of a node, in either order. A tag's handle has to be declared. -/
def properties? (handles : List (List Char)) : List Token → Option (Option (List Char) × Bool × List Token)
  | .anchor a :: .tag h :: ts => if handles.contains h then some (some a, true, ts) else none
  | .tag h :: .anchor a :: ts => if handles.contains h then some (some a, true, ts) else none
  | .anchor a :: ts => some (some a, true, ts)
  | .tag h :: ts => if handles.contains h then some (none, true, ts) else none
  | ts => some (none, false, ts)

def note (a : Anchors) (anchor : Option (List Char)) (target : Option String) : Anchors :=
  match anchor with
  | some name => a.define name target
  | none => a

mutual

/-- Reads a node. Block collections may begin only where they are allowed, and a sequence that is
not indented only as the value of a mapping. -/
def node? (handles : List (List Char)) (block indentless : Bool) :
    Nat → Rest → Option (Node × Rest)
  | 0, _ => none
  | _ + 1, ⟨a, .alias name :: ts⟩ => (a.number? name).map fun k => (.alias k, ⟨a, ts⟩)
  | n + 1, ⟨a, ts⟩ => do
    let (anchor, marked, ts) ← properties? handles ts
    match ts with
    | .scalar text plain :: ts =>
      let text := String.ofList text
      some (.scalar text plain, ⟨note a anchor (some text), ts⟩)
    | .blockEntry :: _ =>
      if indentless then do
        let (items, r) ← indentlessItems? handles n ⟨note a anchor none, ts⟩
        some (.sequence items, r)
      else if marked then some (emptyNode, ⟨note a anchor (some ""), ts⟩)
      else none
    | .flowSequenceStart :: ts => do
      let (items, r) ← flowItems? handles true n ⟨note a anchor none, ts⟩
      some (.sequence items, r)
    | .flowMappingStart :: ts => do
      let (entries, r) ← flowEntries? handles true n ⟨note a anchor none, ts⟩
      some (.mapping entries, r)
    | .blockSequenceStart :: rest =>
      if block then do
        let (items, r) ← blockItems? handles n ⟨note a anchor none, rest⟩
        some (.sequence items, r)
      else if marked then some (emptyNode, ⟨note a anchor (some ""), ts⟩)
      else none
    | .blockMappingStart :: rest =>
      if block then do
        let (entries, r) ← blockEntries? handles n ⟨note a anchor none, rest⟩
        some (.mapping entries, r)
      else if marked then some (emptyNode, ⟨note a anchor (some ""), ts⟩)
      else none
    | ts => if marked then some (emptyNode, ⟨note a anchor (some ""), ts⟩) else none

def blockItems? (handles : List (List Char)) : Nat → Rest → Option (List Node × Rest)
  | 0, _ => none
  | _ + 1, ⟨a, .blockEnd :: ts⟩ => some ([], ⟨a, ts⟩)
  | n + 1, ⟨a, .blockEntry :: ts⟩ => do
    let (v, r) ←
      match ts with
      | .blockEntry :: _ => some (emptyNode, ⟨a, ts⟩)
      | .blockEnd :: _ => some (emptyNode, ⟨a, ts⟩)
      | ts => node? handles true false n ⟨a, ts⟩
    let (vs, r) ← blockItems? handles n r
    some (v :: vs, r)
  | _ + 1, _ => none

/-- The entries of a sequence that is not indented; it ends at the first other token. -/
def indentlessItems? (handles : List (List Char)) : Nat → Rest → Option (List Node × Rest)
  | 0, _ => none
  | n + 1, ⟨a, .blockEntry :: ts⟩ => do
    let (v, r) ←
      match ts with
      | .blockEntry :: _ => some (emptyNode, ⟨a, ts⟩)
      | .key :: _ => some (emptyNode, ⟨a, ts⟩)
      | .value :: _ => some (emptyNode, ⟨a, ts⟩)
      | .blockEnd :: _ => some (emptyNode, ⟨a, ts⟩)
      | ts => node? handles true false n ⟨a, ts⟩
    let (vs, r) ← indentlessItems? handles n r
    some (v :: vs, r)
  | _ + 1, r => some ([], r)

/-- A key or a value of a block mapping, which may be empty. -/
def blockPart? (handles : List (List Char)) : Nat → Rest → Option (Node × Rest)
  | 0, _ => none
  | n + 1, ⟨a, ts⟩ =>
    match ts with
    | .key :: _ => some (emptyNode, ⟨a, ts⟩)
    | .value :: _ => some (emptyNode, ⟨a, ts⟩)
    | .blockEnd :: _ => some (emptyNode, ⟨a, ts⟩)
    | ts => node? handles true true n ⟨a, ts⟩

def blockEntries? (handles : List (List Char)) : Nat → Rest → Option (List (Node × Node) × Rest)
  | 0, _ => none
  | _ + 1, ⟨a, .blockEnd :: ts⟩ => some ([], ⟨a, ts⟩)
  | n + 1, ⟨a, .key :: ts⟩ => do
    let (k, r) ← blockPart? handles n ⟨a, ts⟩
    let (v, r) ←
      match r.tokens with
      | .value :: ts => blockPart? handles n ⟨r.anchors, ts⟩
      | _ => some (emptyNode, r)
    let (es, r) ← blockEntries? handles n r
    some ((k, v) :: es, r)
  | _ + 1, _ => none

/-- The items of a flow sequence. An item with a key is a mapping of one entry. -/
def flowItems? (handles : List (List Char)) (first : Bool) :
    Nat → Rest → Option (List Node × Rest)
  | 0, _ => none
  | _ + 1, ⟨a, .flowSequenceEnd :: ts⟩ => some ([], ⟨a, ts⟩)
  | n + 1, ⟨a, ts⟩ => do
    let ts ← if first then some ts else match ts with
      | .flowEntry :: ts => some ts
      | _ => none
    match ts with
    | .flowSequenceEnd :: ts => some ([], ⟨a, ts⟩)
    | .key :: ts => do
      let (k, r) ←
        match ts with
        | .value :: ts => some (emptyNode, Rest.mk a ts)
        | .flowEntry :: ts => some (emptyNode, ⟨a, ts⟩)
        | .flowSequenceEnd :: ts => some (emptyNode, ⟨a, ts⟩)
        | ts => node? handles false false n ⟨a, ts⟩
      let (v, r) ← flowValue? handles .flowSequenceEnd n r
      let (vs, r) ← flowItems? handles false n r
      some (.mapping [(k, v)] :: vs, r)
    | ts => do
      let (v, r) ← node? handles false false n ⟨a, ts⟩
      let (vs, r) ← flowItems? handles false n r
      some (v :: vs, r)

/-- The value behind a key in a flow collection with the given end; it may be missing. -/
def flowValue? (handles : List (List Char)) (closing : Token) :
    Nat → Rest → Option (Node × Rest)
  | 0, _ => none
  | n + 1, ⟨a, .value :: ts⟩ =>
    if ts.head? = some .flowEntry ∨ ts.head? = some closing then some (emptyNode, ⟨a, ts⟩)
    else node? handles false false n ⟨a, ts⟩
  | _ + 1, r => some (emptyNode, r)

/-- The entries of a flow mapping. An entry without the mark of a value has an empty one. -/
def flowEntries? (handles : List (List Char)) (first : Bool) :
    Nat → Rest → Option (List (Node × Node) × Rest)
  | 0, _ => none
  | _ + 1, ⟨a, .flowMappingEnd :: ts⟩ => some ([], ⟨a, ts⟩)
  | n + 1, ⟨a, ts⟩ => do
    let ts ← if first then some ts else match ts with
      | .flowEntry :: ts => some ts
      | _ => none
    match ts with
    | .flowMappingEnd :: ts => some ([], ⟨a, ts⟩)
    | .key :: ts => do
      let (k, r) ←
        match ts with
        | .value :: _ => some (emptyNode, Rest.mk a ts)
        | .flowEntry :: _ => some (emptyNode, ⟨a, ts⟩)
        | .flowMappingEnd :: _ => some (emptyNode, ⟨a, ts⟩)
        | ts => node? handles false false n ⟨a, ts⟩
      let (v, r) ← flowValue? handles .flowMappingEnd n r
      let (es, r) ← flowEntries? handles false n r
      some ((k, v) :: es, r)
    | ts => do
      let (k, r) ← node? handles false false n ⟨a, ts⟩
      let (es, r) ← flowEntries? handles false n r
      some ((k, emptyNode) :: es, r)

end

/-! ## Documents -/

/-- The directives in front of a document: at most one version, 1.1 or 1.2, and each handle once.
Gives the handles, whether there were any directives, and the tokens behind. -/
def directives? : List Token → Bool → List (List Char) →
    Option (List (List Char) × Bool × List Token)
  | .versionDirective major minor :: ts, seen, handles =>
    if seen ∨ major ≠ 1 ∨ (minor ≠ 1 ∧ minor ≠ 2) then none else directives? ts true handles
  | .tagDirective h :: ts, seen, handles =>
    if handles.contains h then none else directives? ts seen (handles ++ [h])
  | ts, seen, handles => some (handles, seen || !handles.isEmpty, ts)

/-- The handles that need no declaration; the empty one belongs to a tag written out. -/
def builtInHandles : List (List Char) := [[], ['!'], ['!', '!']]

/-- Whether nothing but marks of a document's end stands in front of the end. -/
def atEnd (ts : List Token) : Bool := ts.dropWhile (· == .documentEnd) == [.streamEnd]

/-- The one document of a text with its anchors; `some none` for a text without a document. -/
def document? (cs : List Char) : Option (Option (Node × Anchors)) := do
  let ts ← scan? cs
  let none' : Anchors := ⟨[], []⟩
  if ts = [.streamEnd] then some none
  else do
    let (handles, declared, ts) ← directives? ts false []
    let handles := builtInHandles ++ handles
    let steps := 3 * ts.length + 3
    let (v, r) ←
      match ts with
      | .documentStart :: ts =>
        match ts with
        | .documentStart :: _ => some (emptyNode, Rest.mk none' ts)
        | .documentEnd :: _ => some (emptyNode, ⟨none', ts⟩)
        | .streamEnd :: _ => some (emptyNode, ⟨none', ts⟩)
        | .versionDirective _ _ :: _ => some (emptyNode, ⟨none', ts⟩)
        | .tagDirective _ :: _ => some (emptyNode, ⟨none', ts⟩)
        | ts => node? handles true false steps ⟨none', ts⟩
      | ts => if declared then none else node? handles true false steps ⟨none', ts⟩
    if atEnd r.tokens then some (some (v, r.anchors)) else none

/-! ## Records -/

/-- The text of a node that is a scalar, or an alias of one. -/
def Node.text? (a : Anchors) : Node → Option String
  | scalar t _ => some t
  | .alias n => a.scalar? n
  | _ => none

/-- What a text says about the fields of a record, each given by its names: the texts under them.
Every key has to be a text, a field may come once under any of its names, and keys of other names
are passed over. A text without content has no fields. -/
def record? (fields : List (List String)) (cs : List Char) : Option (List (Option String)) := do
  match ← document? cs with
  | none => some (fields.map fun _ => none)
  | some (.scalar "" true, _) => some (fields.map fun _ => none)
  | some (.mapping entries, a) => do
    let keyed ← entries.mapM fun (k, v) => (k.text? a).map fun k => (k, v)
    fields.mapM fun names =>
      match keyed.filter fun e => names.contains e.1 with
      | [] => some none
      | [(_, v)] => (v.text? a).map some
      | _ => none
  | some _ => none

end ColumnMetadata.Yaml
