import Blanking.Yaml.Scalar

/-! # Tokens of a YAML text

Indentation and the colon behind a key show in the tokens as borders of collections and as marks
in front of keys. A key is only known as such once its colon is found, so its mark is then put
in front of tokens that are already there. -/

namespace Blanking.Yaml

/-- The bytes of a tag, which need not be those of a text. -/
abbrev Tag : Type := List UInt8

def Tag.ofString (text : String) : Tag := text.toUTF8.toList

inductive Token where
  | version (major minor : Nat)
  | tagHandle (handle : String) (lead : Tag)
  | documentStart
  | documentEnd
  | blockSequence
  | blockMapping
  | blockEnd
  | flowSequence
  | flowSequenceEnd
  | flowMapping
  | flowMappingEnd
  | blockEntry
  | flowEntry
  | key
  | value
  | alias (name : String)
  | anchor (name : String)
  | tag (handle : String) (suffix : Tag)
  | scalar (style : Style) (text : String)
deriving DecidableEq, Repr

/-- A place at which a key may have started. -/
structure KeyPlace where
  /-- Whether there has to be a key. -/
  required : Bool
  /-- Tokens in front of it. -/
  token : Nat
  index : Nat
  line : Nat
  column : Nat

structure Scan where
  cursor : Cursor
  /-- Indentation of the innermost block collection, -1 outside of any. -/
  indentation : Int
  /-- Those of the collections around it. -/
  outer : List Int
  keyAllowed : Bool
  /-- Where a key may have started, the innermost pair of brackets in front. -/
  keys : List (Option KeyPlace)
  tokens : Array Token

namespace Scan

def start (text : List Char) : Scan := ⟨.start text, -1, [], true, [none], #[]⟩

/-- Whether the place is between brackets. -/
def inFlow (s : Scan) : Bool := 1 < s.keys.length

def push (s : Scan) (token : Token) : Scan := { s with tokens := s.tokens.push token }

/-- Appends a token and goes on behind it. -/
def pushAt (s : Scan) (cursor : Cursor) (token : Token) : Scan :=
  { s with cursor := cursor, tokens := s.tokens.push token }

def allowKey (s : Scan) (allowed : Bool) : Scan := { s with keyAllowed := allowed }

/-! ## Keys -/

/-- Forgets a place of which it is clear now that no key started there. -/
def forgetKey (s : Scan) : Option Scan :=
  match s.keys with
  | some place :: outer => if place.required then none else some { s with keys := none :: outer }
  | _ => some s

/-- Remembers the place if a key may start here. -/
def rememberKey (s : Scan) : Option Scan :=
  if !s.keyAllowed then some s
  else do
    let s ← s.forgetKey
    let place : KeyPlace := {
      required := !s.inFlow && s.indentation == s.cursor.column
      token := s.tokens.size
      index := s.cursor.index
      line := s.cursor.line
      column := s.cursor.column }
    return { s with keys := some place :: s.keys.tail }

/-- Whether a place is too far back for a key. -/
def isStale (s : Scan) (place : KeyPlace) : Bool :=
  place.line < s.cursor.line || place.index + 1024 < s.cursor.index

/-- Forgets all places that are too far back. -/
def forgetStale (s : Scan) : Option Scan := do
  let keys ← s.keys.mapM fun key =>
    match key with
    | some place =>
        if s.isStale place then (if place.required then none else some none) else some key
    | none => some none
  return { s with keys := keys }

/-! ## Indentation -/

/-- Closes the block collections that are indented further than a column. -/
def unroll (s : Scan) (column : Int) : Scan :=
  if s.inFlow then s else go s.outer s
where
  go : List Int → Scan → Scan
    | [], s => if column < s.indentation then { s.push .blockEnd with indentation := -1 } else s
    | outer :: rest, s =>
        if column < s.indentation then
          go rest { s.push .blockEnd with indentation := outer, outer := rest }
        else s

/-- Opens a block collection at a column if that is further in, with its token in front of
others. -/
def roll (s : Scan) (column : Nat) (token : Token) (place : Nat) : Scan :=
  if s.inFlow || column ≤ s.indentation then s
  else
    { s with
      indentation := column
      outer := s.indentation :: s.outer
      tokens := s.tokens.insertIdxIfInBounds place token }

/-- Opens a block collection here if that is further in. -/
def rollHere (s : Scan) (token : Token) : Scan := s.roll s.cursor.column token s.tokens.size

/-! ## Single tokens -/

/-- The mark of a border between documents. -/
def border (s : Scan) (token : Token) : Option Scan := do
  let s ← (s.unroll (-1)).forgetKey
  return (s.allowKey false).pushAt (s.cursor.skipMany 3) token

/-- Passes blanks and a comment up to the end of the line. -/
def lineEnd (c : Cursor) : Option Cursor :=
  let c := (c.skipWhile isBlank).skipComment
  if c.atEnd then some c else if c.seesAny isBreak then some c.skipBreak.2 else none

/-- A decimal number of a version. -/
def versionNumber (c : Cursor) : Option (Nat × Cursor) :=
  let digits := c.run Char.isDigit
  if digits.isEmpty || 9 < digits.length then none
  else
    some (digits.foldl (fun value d => 10 * value + (d.toNat - '0'.toNat)) 0,
      c.skipMany digits.length)

def isTagChar (verbatim : Bool) (c : Char) : Bool :=
  isNameChar c || ";/?:@&=+$.!~*()%".toList.contains c || c == '\x27' ||
    (verbatim && (c == ',' || c == '[' || c == ']'))

/-- How many bytes follow the first one of a character. -/
def furtherBytes? (first : UInt8) : Option Nat :=
  if first &&& 0x80 == 0 then some 0
  else if first &&& 0xE0 == 0xC0 then some 1
  else if first &&& 0xF0 == 0xE0 then some 2
  else if first &&& 0xF8 == 0xF0 then some 3
  else none

/-- The bytes of a tag. One that is written as a percent sign and two hexadecimal digits starts a
character, whose further bytes are written in the same way; `left` of them are still to come. -/
def tagBytes : (left : Nat) → List Char → Option Tag
  | 0, [] => some []
  | _ + 1, [] => none
  | left, '%' :: high :: low :: rest => do
      let byte := UInt8.ofNat (← Scalar.hexNumber? [high, low])
      match left with
      | 0 => return byte :: (← tagBytes (← furtherBytes? byte) rest)
      | left + 1 => if byte &&& 0xC0 == 0x80 then return byte :: (← tagBytes left rest) else none
  | 0, c :: rest => if c == '%' then none else (tagBytes 0 rest).map (UInt8.ofNat c.toNat :: ·)
  | _ + 1, _ => none

/-- A part of a tag, which may start with characters that were taken for its handle but for their
exclamation mark. What follows a zero byte is left out. -/
def tagPart (verbatim : Bool) (handle : List Char) (c : Cursor) : Option (Tag × Cursor) := do
  let text := c.run (isTagChar verbatim)
  if handle.isEmpty && text.isEmpty then none
  let bytes ← tagBytes 0 (handle.tail ++ text)
  return (bytes.takeWhile (· != 0), c.skipMany text.length)

/-- The handle in front of a tag: an exclamation mark, and maybe a name and a second one. -/
def handle (c : Cursor) : Option (List Char × Cursor) :=
  if !c.sees '!' then none
  else
    let name := c.skip.run isNameChar
    let next := c.skipMany (1 + name.length)
    if next.sees '!' then some ('!' :: name ++ ['!'], next.skip) else some ('!' :: name, next)

/-- A tag: verbatim between angle brackets, or a handle and what follows it. -/
def tagToken (flow : Bool) (c : Cursor) : Option (Token × Cursor) := do
  let (token, next) ←
    if c.peek 1 == some '<' then do
      let (text, next) ← tagPart true [] (c.skipMany 2)
      if !next.sees '>' then none
      pure (Token.tag "" text, next.skip)
    else do
      let (name, next) ← handle c
      if 2 ≤ name.length && name.getLast? == some '!' then
        let (text, next) ← tagPart false [] next
        pure (Token.tag (String.ofList name) text, next)
      else
        let (text, next) ← tagPart false name next
        pure (if text.isEmpty then Token.tag "" (.ofString "!") else Token.tag "!" text, next)
  if next.gapAt 0 || (flow && next.sees ',') then return (token, next) else none

/-- A line that tells something about the following document. -/
def directive (c : Cursor) : Option (Token × Cursor) := do
  let name := c.skip.run isNameChar
  let next := c.skipMany (1 + name.length)
  if !next.gapAt 0 then none
  let next := next.skipWhile isBlank
  match String.ofList name with
  | "YAML" =>
      let (major, next) ← versionNumber next
      if !next.sees '.' then none
      let (minor, next) ← versionNumber next.skip
      return (.version major minor, ← lineEnd next)
  | "TAG" =>
      let (name, next) ← handle next
      if !(name == ['!'] || name.getLast? == some '!') || !next.seesAny isBlank then none
      let (lead, next) ← tagPart true [] (next.skipWhile isBlank)
      if !next.gapAt 0 then none
      return (.tagHandle (String.ofList name) lead, ← lineEnd next)
  | _ => none

def anchorName (c : Cursor) : Option (String × Cursor) :=
  let name := c.skip.run isNameChar
  let next := c.skipMany (1 + name.length)
  let ends := next.gapAt 0 || next.seesAny fun char => "?:,]%@".toList.contains char ||
    char == '\x7d' || char == '\x60'
  if name.isEmpty || !ends then none else some (String.ofList name, next)

def openFlow (s : Scan) (token : Token) : Option Scan := do
  let s ← s.rememberKey
  return ({ s with keys := none :: s.keys }.allowKey true).pushAt s.cursor.skip token

def closeFlow (s : Scan) (token : Token) : Option Scan := do
  let s ← s.forgetKey
  let keys := if s.inFlow then s.keys.tail else s.keys
  return ({ s with keys := keys }.allowKey false).pushAt s.cursor.skip token

/-- A comma between brackets. -/
def flowEntry (s : Scan) : Option Scan := do
  let s ← s.forgetKey
  return (s.allowKey true).pushAt s.cursor.skip .flowEntry

/-- A dash in front of an item. -/
def blockEntry (s : Scan) : Option Scan := do
  if !s.inFlow && !s.keyAllowed then none
  let s ← (s.rollHere .blockSequence).forgetKey
  return (s.allowKey true).pushAt s.cursor.skip .blockEntry

/-- A question mark in front of a key. -/
def explicitKey (s : Scan) : Option Scan := do
  if !s.inFlow && !s.keyAllowed then none
  let s ← (s.rollHere .blockMapping).forgetKey
  return (s.allowKey !s.inFlow).pushAt s.cursor.skip .key

/-- A colon in front of a value. -/
def value (s : Scan) : Option Scan :=
  match s.keys with
  | some place :: outer =>
      let marked := { s with
        tokens := s.tokens.insertIdxIfInBounds place.token .key
        keys := none :: outer }
      let s := marked.roll place.column .blockMapping place.token
      some ((s.allowKey false).pushAt s.cursor.skip .value)
  | _ =>
      if !s.inFlow && !s.keyAllowed then none
      else
        let s := s.rollHere .blockMapping
        some ((s.allowKey !s.inFlow).pushAt s.cursor.skip .value)

def anchor (s : Scan) (token : String → Token) : Option Scan := do
  let s ← s.rememberKey
  let (name, next) ← anchorName s.cursor
  return (s.allowKey false).pushAt next (token name)

def tag (s : Scan) : Option Scan := do
  let s ← s.rememberKey
  let (token, next) ← tagToken s.inFlow s.cursor
  return (s.allowKey false).pushAt next token

def blockScalar (s : Scan) (literal : Bool) : Option Scan := do
  let s ← s.forgetKey
  let (text, next) ← Scalar.block literal s.indentation s.cursor.skip
  return (s.allowKey true).pushAt next
    (.scalar (if literal then .literal else .folded) (String.ofList text))

def quotedScalar (s : Scan) (double : Bool) : Option Scan := do
  let s ← s.rememberKey
  let (text, next) ← Scalar.quoted double (s.cursor.rest.length + 1) [] s.cursor.skip
  return (s.allowKey false).pushAt next
    (.scalar (if double then .doubleQuoted else .singleQuoted) (String.ofList text))

def plainScalar (s : Scan) : Option Scan := do
  let s ← s.rememberKey
  let (text, broken, next) ←
    Scalar.plain s.inFlow (s.indentation + 1).toNat (s.cursor.rest.length + 1) [] .none s.cursor
  return (s.allowKey broken).pushAt next (.scalar .plain (String.ofList text))

/-! ## Whole texts -/

/-- Passes blanks, comments and line breaks in front of a token. A tab counts as a blank only
where no key may start, and a byte order mark only at the start of a line. -/
def toToken : (fuel : Nat) → Scan → Scan
  | 0, s => s
  | fuel + 1, s =>
      let tabs := s.inFlow || !s.keyAllowed
      let c := if s.cursor.column == 0 && s.cursor.sees '\ufeff' then s.cursor.skip else s.cursor
      let c := (c.skipWhile fun char => char == ' ' || (tabs && char == '\t')).skipComment
      if c.seesAny isBreak then
        toToken fuel { s with cursor := c.skipBreak.2, keyAllowed := s.keyAllowed || !s.inFlow }
      else { s with cursor := c }

/-- Whether a plain scalar starts here. -/
def startsPlain (s : Scan) : Bool :=
  let c := s.cursor
  match c.rest.head? with
  | none => false
  | some char =>
      let special := "-?:,[]#&*!|>%@".toList.contains char || char == '\x7b' || char == '\x7d' ||
        char == '\x27' || char == '\x22' || char == '\x60'
      (!special && !isBlank char) || (char == '-' && !(c.peek 1).any isBlank) ||
        (!s.inFlow && (char == '?' || char == ':') && !c.gapAt 1)

/-- The next token, in front of the end of the text. -/
def token (s : Scan) : Option Scan :=
  let c := s.cursor
  let flow := s.inFlow
  if c.column == 0 && c.sees '%' then do
    let s ← (s.unroll (-1)).forgetKey
    let (token, next) ← directive s.cursor
    return (s.allowKey false).pushAt next token
  else if c.atMark '-' then s.border .documentStart
  else if c.atMark '.' then s.border .documentEnd
  else if c.sees '[' then s.openFlow .flowSequence
  else if c.sees '\x7b' then s.openFlow .flowMapping
  else if c.sees ']' then s.closeFlow .flowSequenceEnd
  else if c.sees '\x7d' then s.closeFlow .flowMappingEnd
  else if c.sees ',' then s.flowEntry
  else if c.sees '-' && c.gapAt 1 then s.blockEntry
  else if c.sees '?' && (flow || c.gapAt 1) then s.explicitKey
  else if c.sees ':' && (flow || c.gapAt 1) then s.value
  else if c.sees '*' then s.anchor .alias
  else if c.sees '&' then s.anchor .anchor
  else if c.sees '!' then s.tag
  else if c.sees '|' && !flow then s.blockScalar true
  else if c.sees '>' && !flow then s.blockScalar false
  else if c.sees '\x27' then s.quotedScalar false
  else if c.sees '\x22' then s.quotedScalar true
  else if s.startsPlain then s.plainScalar
  else none

/-- All tokens from a place on. Each of them takes a character, which bounds their number. -/
def tokensFrom : (fuel : Nat) → Scan → Option (List Token)
  | 0, _ => none
  | fuel + 1, s => do
      let s ← (s.toToken (s.cursor.rest.length + 1)).forgetStale
      if s.cursor.atEnd then
        let s ← (s.unroll (-1)).forgetKey
        return s.tokens.toList
      tokensFrom fuel (← (s.unroll s.cursor.column).token)

end Scan

def tokens (text : String) : Option (List Token) :=
  let chars := text.toList
  if chars.all isPrintable then Scan.tokensFrom (chars.length + 2) (.start chars) else none

end Blanking.Yaml
