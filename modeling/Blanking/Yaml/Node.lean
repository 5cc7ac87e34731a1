import Blanking.Yaml.Token

/-! # Nodes of a YAML document

A document is a tree of scalars, sequences and mappings. A reference leads to the node that has the
number of its anchor. -/

namespace Blanking.Yaml

/-- A node. The tag is given in full where there is one. -/
inductive Node where
  | scalar (tag : Option Tag) (style : Style) (text : String)
  | sequence (items : List Node)
  | mapping (entries : List (Node × Node))
  /-- Stands for the node with a number. -/
  | reference (number : Nat)

namespace Node

/-- The node where nothing is written. -/
def blank : Node := .scalar none .plain ""

end Node

/-- What the text so far has given names to. -/
structure Names where
  /-- Handles of tags, and what they stand for. -/
  handles : List (String × Tag)
  /-- Anchors, each of them once, and their numbers. -/
  anchors : List (String × Nat)
  /-- The nodes that have an anchor, and the numbers of those, in the order in which they start. -/
  anchored : Array (Nat × Node)

namespace Names

/-- The handles that every document has. -/
def commonHandles : List (String × Tag) :=
  [("!", .ofString "!"), ("!!", .ofString "tag:yaml.org,2002:")]

/-- The names in front of a document in which lines have explained some handles. -/
def ofHandles (handles : List (String × Tag)) : Names := ⟨handles ++ commonHandles, [], #[]⟩

/-- The full form of a tag. -/
def tag? (names : Names) (handle : String) (suffix : Tag) : Option Tag :=
  if handle.isEmpty then some suffix
  else (names.handles.find? (·.1 == handle)).map (·.2 ++ suffix)

def number? (names : Names) (anchor : String) : Option Nat :=
  (names.anchors.find? (·.1 == anchor)).map (·.2)

/-- Notes that a node with an anchor starts. The number of the anchor is that of the anchors so
far. An anchor that is given again changes its number, but does not count twice, so that the next
new one takes its number over. -/
def enter (names : Names) : (anchor : Option String) → Names
  | none => names
  | some anchor =>
      let number := names.anchors.length
      { names with
        anchors := (anchor, number) :: names.anchors.filter (·.1 != anchor)
        anchored := names.anchored.push (number, .blank) }

/-- Notes a node with an anchor, in the place that it got when it started. -/
def leave (names : Names) (anchor : Option String) (place : Nat) (node : Node) : Names :=
  match anchor with
  | none => names
  | some _ => { names with anchored := names.anchored.modify place fun entry => (entry.1, node) }

end Names

structure Properties where
  anchor : Option String
  tag : Option Tag

namespace Properties

def isEmpty (p : Properties) : Bool := p.anchor.isNone && p.tag.isNone

/-- Reads an anchor and a tag in any order. -/
def read (names : Names) : List Token → Option (Properties × List Token)
  | .anchor name :: .tag handle suffix :: rest
  | .tag handle suffix :: .anchor name :: rest =>
      (names.tag? handle suffix).map fun tag => (⟨some name, some tag⟩, rest)
  | .anchor name :: rest => some (⟨some name, none⟩, rest)
  | .tag handle suffix :: rest =>
      (names.tag? handle suffix).map fun tag => (⟨none, some tag⟩, rest)
  | rest => some (⟨none, none⟩, rest)

end Properties

/-- Where a node stands, which decides what collections it may be. -/
inductive Position where
  /-- Between brackets. -/
  | flow
  /-- In a block. -/
  | block
  /-- In a mapping in a block, where a sequence needs no indentation. -/
  | entry
deriving DecidableEq

/-- Whether a token cannot start the node behind the mark of a key or value in a block. -/
def endsEntry : Token → Bool
  | .key | .value | .blockEnd => true
  | _ => false

/-- Whether a token cannot start the node behind a dash. -/
def endsItem : Token → Bool
  | .blockEntry | .blockEnd => true
  | _ => false

/-- Whether a token cannot start the node behind a dash in a sequence without indentation. -/
def endsPlainItem : Token → Bool
  | .blockEntry | .key | .value | .blockEnd => true
  | _ => false

/-- Whether a token cannot start the node behind the mark of a key between brackets. -/
def endsFlowKey (close : Token) (token : Token) : Bool :=
  token == .value || token == .flowEntry || token == close

/-- Whether a token cannot start the node behind a colon between brackets. -/
def endsFlowValue (close : Token) (token : Token) : Bool := token == .flowEntry || token == close

/-- Whether the next token has a property; the end of the tokens has none. -/
def next (tokens : List Token) (property : Token → Bool) : Bool := tokens.head?.any property

mutual

def node : (fuel : Nat) → Position → Names → List Token → Option (Node × Names × List Token)
  | 0, _, _, _ => none
  | _ + 1, _, names, .alias name :: rest =>
      (names.number? name).map fun number => (.reference number, names, rest)
  | fuel + 1, position, names, tokens => do
      let (properties, tokens) ← Properties.read names tokens
      let place := names.anchored.size
      let names := names.enter properties.anchor
      let (found, names, tokens) ←
        match tokens with
        | .scalar style text :: rest => some (Node.scalar properties.tag style text, names, rest)
        | .flowSequence :: rest => do
            let (items, names, rest) ← flowItems fuel true names rest
            some (Node.sequence items, names, rest)
        | .flowMapping :: rest => do
            let (entries, names, rest) ← flowEntries fuel true names rest
            some (Node.mapping entries, names, rest)
        | .blockSequence :: rest =>
            if position == .flow then none
            else do
              let (items, names, rest) ← blockItems fuel names rest
              some (Node.sequence items, names, rest)
        | .blockMapping :: rest =>
            if position == .flow then none
            else do
              let (entries, names, rest) ← blockEntries fuel names rest
              some (Node.mapping entries, names, rest)
        | .blockEntry :: _ =>
            if position == .entry then do
              let (items, names, rest) ← plainItems fuel names tokens
              some (Node.sequence items, names, rest)
            else if properties.isEmpty then none
            else some (Node.scalar properties.tag .plain "", names, tokens)
        | _ =>
            if properties.isEmpty then none
            else some (Node.scalar properties.tag .plain "", names, tokens)
      return (found, names.leave properties.anchor place found, tokens)

/-- Reads a node, or nothing in front of some tokens. -/
def nodeOrBlank : (fuel : Nat) → Position → (Token → Bool) → Names → List Token →
    Option (Node × Names × List Token)
  | 0, _, _, _, _ => none
  | fuel + 1, position, ends, names, tokens =>
      if next tokens ends then some (.blank, names, tokens) else node fuel position names tokens

/-- Reads the items of an indented sequence, and its end. -/
def blockItems : (fuel : Nat) → Names → List Token → Option (List Node × Names × List Token)
  | 0, _, _ => none
  | fuel + 1, names, .blockEntry :: rest => do
      let (item, names, rest) ← nodeOrBlank fuel .block endsItem names rest
      let (items, names, rest) ← blockItems fuel names rest
      return (item :: items, names, rest)
  | _ + 1, names, .blockEnd :: rest => some ([], names, rest)
  | _ + 1, _, _ => none

/-- Reads the items of a sequence without indentation. -/
def plainItems : (fuel : Nat) → Names → List Token → Option (List Node × Names × List Token)
  | 0, _, _ => none
  | fuel + 1, names, .blockEntry :: rest => do
      let (item, names, rest) ← nodeOrBlank fuel .block endsPlainItem names rest
      let (items, names, rest) ← plainItems fuel names rest
      return (item :: items, names, rest)
  | _ + 1, names, rest => some ([], names, rest)

/-- Reads the entries of a mapping in a block, and its end. A key without a value has nothing for
it. -/
def blockEntries : (fuel : Nat) → Names → List Token →
    Option (List (Node × Node) × Names × List Token)
  | 0, _, _ => none
  | _ + 1, names, .blockEnd :: rest => some ([], names, rest)
  | fuel + 1, names, tokens => do
      let (key, names, rest) ←
        match tokens with
        | .key :: rest => nodeOrBlank fuel .entry endsEntry names rest
        | _ => none
      let (value, names, rest) ←
        match rest with
        | .value :: rest => nodeOrBlank fuel .entry endsEntry names rest
        | _ => some (.blank, names, rest)
      let (entries, names, rest) ← blockEntries fuel names rest
      return ((key, value) :: entries, names, rest)

/-- Reads one key between brackets and its value, if it has one. -/
def flowPair : (fuel : Nat) → (close : Token) → Names → List Token →
    Option ((Node × Node) × Names × List Token)
  | 0, _, _, _ => none
  | fuel + 1, close, names, tokens => do
      let (key, names, rest) ← nodeOrBlank fuel .flow (endsFlowKey close) names tokens
      match rest with
      | .value :: rest =>
          let (value, names, rest) ← nodeOrBlank fuel .flow (endsFlowValue close) names rest
          return ((key, value), names, rest)
      | _ => return ((key, .blank), names, rest)

/-- Reads the items of a sequence in brackets, and its end. -/
def flowItems : (fuel : Nat) → (first : Bool) → Names → List Token →
    Option (List Node × Names × List Token)
  | 0, _, _, _ => none
  | _ + 1, _, names, .flowSequenceEnd :: rest => some ([], names, rest)
  | fuel + 1, first, names, tokens => do
      let tokens ←
        match first, tokens with
        | true, _ => some tokens
        | false, .flowEntry :: rest => some rest
        | false, _ => none
      match tokens with
      | .flowSequenceEnd :: rest => return ([], names, rest)
      | .key :: rest =>
          let (pair, names, rest) ← flowPair fuel .flowSequenceEnd names rest
          let (items, names, rest) ← flowItems fuel false names rest
          return (.mapping [pair] :: items, names, rest)
      | _ =>
          let (item, names, rest) ← node fuel .flow names tokens
          let (items, names, rest) ← flowItems fuel false names rest
          return (item :: items, names, rest)

/-- Reads the entries of a mapping in brackets, and its end. -/
def flowEntries : (fuel : Nat) → (first : Bool) → Names → List Token →
    Option (List (Node × Node) × Names × List Token)
  | 0, _, _, _ => none
  | _ + 1, _, names, .flowMappingEnd :: rest => some ([], names, rest)
  | fuel + 1, first, names, tokens => do
      let tokens ←
        match first, tokens with
        | true, _ => some tokens
        | false, .flowEntry :: rest => some rest
        | false, _ => none
      match tokens with
      | .flowMappingEnd :: rest => return ([], names, rest)
      | .key :: rest =>
          let (pair, names, rest) ← flowPair fuel .flowMappingEnd names rest
          let (entries, names, rest) ← flowEntries fuel false names rest
          return (pair :: entries, names, rest)
      | _ =>
          let (key, names, rest) ← node fuel .flow names tokens
          let (entries, names, rest) ← flowEntries fuel false names rest
          return ((key, .blank) :: entries, names, rest)

end

/-- Whether a token cannot start the content of a document. -/
def endsDocument : Token → Bool
  | .version _ _ | .tagHandle _ _ | .documentStart | .documentEnd => true
  | _ => false

/-- Whether a token is a line in front of a document. -/
def isDirective : Token → Bool
  | .version _ _ | .tagHandle _ _ => true
  | _ => false

/-- The version that a line asks for. -/
def version? : Token → Option (Nat × Nat)
  | .version major minor => some (major, minor)
  | _ => none

/-- The handle that a line explains. -/
def handle? : Token → Option (String × Tag)
  | .tagHandle handle lead => some (handle, lead)
  | _ => none

/-- The handles that the lines in front of a document explain, if no line asks for an unknown
version and nothing is said twice. -/
def directives (lines : List Token) : Option (List (String × Tag)) :=
  let versions := lines.filterMap version?
  let handles := lines.filterMap handle?
  if versions.length ≤ 1 && versions.all (fun version => version == (1, 1) || version == (1, 2)) &&
      (handles.map Prod.fst).Nodup then
    some handles
  else none

/-- A tree of nodes, and the nodes in it that have an anchor. -/
structure Document where
  root : Node
  /-- The numbers of anchors and the nodes that have them, in the order in which those start. -/
  anchored : List (Nat × Node)

namespace Document

/-- The node with a number: the last one that it was given to, also behind a reference to it. -/
def find? (d : Document) (number : Nat) : Option Node :=
  (d.anchored.reverse.find? (·.1 == number)).map (·.2)

def resolve (d : Document) : Node → Option Node
  | .reference number => d.find? number
  | node => some node

end Document

/-- What a text holds. -/
inductive Content where
  /-- Nothing but white space and comments. -/
  | nothing
  | document (document : Document)

/-- Whether only marks for the end of a document are left. -/
def isDone (tokens : List Token) : Bool := tokens.all (· == .documentEnd)

/-- The content of a text, if it is well formed and not more than one document. -/
def content (text : String) : Option Content := do
  let all ← tokens text
  if all.isEmpty then return .nothing
  let fuel := 4 * all.length + 8
  let (root, names, rest) ←
    match all with
    | .version _ _ :: _ | .tagHandle _ _ :: _ | .documentStart :: _ => do
        let handles ← directives (all.takeWhile isDirective)
        match all.dropWhile isDirective with
        | .documentStart :: rest =>
            let names := Names.ofHandles handles
            if rest.isEmpty || next rest endsDocument then pure (Node.blank, names, rest)
            else node fuel .block names rest
        | _ => none
    | _ => node fuel .block (.ofHandles []) all
  if isDone rest then return .document ⟨root, names.anchored.toList⟩ else none

end Blanking.Yaml
