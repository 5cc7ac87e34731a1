/-! # Places in a YAML text

The characters that YAML tells apart, and a place in a text that knows its line and column. -/

namespace Blanking.Yaml

/-- Whether a character ends a line. -/
def isBreak (c : Char) : Bool :=
  c == '\n' || c == '\r' || c == '\u0085' || c == '\u2028' || c == '\u2029'

/-- Space and tab. -/
def isBlank (c : Char) : Bool := c == ' ' || c == '\t'

def isNameChar (c : Char) : Bool := c.isAlphanum || c == '_' || c == '-'

/-- Whether a character may stand in a text at all. -/
def isPrintable (c : Char) : Bool :=
  let code := c.toNat
  code == 0x09 || code == 0x0A || code == 0x0D || (0x20 ≤ code && code ≤ 0x7E) || code == 0x85 ||
    (0xA0 ≤ code && code ≤ 0xD7FF) || (0xE000 ≤ code && code ≤ 0xFFFD) ||
    (0x10000 ≤ code && code ≤ 0x10FFFF)

/-- A place in a text. -/
structure Cursor where
  rest : List Char
  /-- Characters in front. -/
  index : Nat
  line : Nat
  column : Nat

namespace Cursor

def start (text : List Char) : Cursor := ⟨text, 0, 0, 0⟩

def atEnd (c : Cursor) : Bool := c.rest.isEmpty

def peek (c : Cursor) (ahead : Nat) : Option Char := c.rest[ahead]?

def sees (c : Cursor) (char : Char) : Bool := c.rest.head? == some char

def seesAny (c : Cursor) (property : Char → Bool) : Bool := c.rest.head?.any property

/-- Whether a blank, a line break or the end is some places ahead. -/
def gapAt (c : Cursor) (ahead : Nat) : Bool :=
  match c.peek ahead with
  | none => true
  | some char => isBlank char || isBreak char

/-- Passes one character, which does not end a line. -/
def skip (c : Cursor) : Cursor := ⟨c.rest.tail, c.index + 1, c.line, c.column + 1⟩

/-- Passes characters, none of which ends a line. -/
def skipMany (c : Cursor) (count : Nat) : Cursor :=
  ⟨c.rest.drop count, c.index + count, c.line, c.column + count⟩

/-- Passes a line break. Also tells what the break stands for. -/
def skipBreak (c : Cursor) : List Char × Cursor :=
  match c.rest with
  | '\r' :: '\n' :: rest => (['\n'], ⟨rest, c.index + 2, c.line + 1, 0⟩)
  | char :: rest =>
      let text := if char == '\u2028' || char == '\u2029' then [char] else ['\n']
      (text, ⟨rest, c.index + 1, c.line + 1, 0⟩)
  | [] => ([], c)

def run (c : Cursor) (property : Char → Bool) : List Char := c.rest.takeWhile property

/-- Passes a run of characters with a property, none of which ends a line. -/
def skipWhile (c : Cursor) (property : Char → Bool) : Cursor :=
  c.skipMany (c.run property).length

/-- Passes the rest of the line, but not its end. -/
def skipLine (c : Cursor) : Cursor := c.skipWhile (!isBreak ·)

/-- Passes a comment if one follows. -/
def skipComment (c : Cursor) : Cursor := if c.sees '#' then c.skipLine else c

/-- Whether three characters at the start of a line mark the border of a document. -/
def atMark (c : Cursor) (char : Char) : Bool :=
  c.column == 0 && c.rest.take 3 == [char, char, char] && c.gapAt 3

/-- Whether the border of a document is here. -/
def atBorder (c : Cursor) : Bool := c.atMark '-' || c.atMark '.'

end Cursor

end Blanking.Yaml
