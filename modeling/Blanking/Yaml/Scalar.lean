import Blanking.Yaml.Cursor

/-! # Scalars

The text of a scalar may go over several lines. White space within it is folded: a single line
break becomes a space, and only further ones are kept. In a block the lines are kept as they
are, or are folded where neither of two lines is indented further. -/

namespace Blanking.Yaml

inductive Style where
  | plain
  | singleQuoted
  | doubleQuoted
  | literal
  | folded
deriving DecidableEq, Repr

/-- White space between two parts of a scalar. -/
structure Gap where
  /-- Blanks in front of the first line break. -/
  blanks : List Char
  /-- Whether there is a line break. -/
  broken : Bool
  first : List Char
  /-- All further line breaks. -/
  others : List Char

namespace Gap

def none : Gap := ⟨[], false, [], []⟩

/-- What the white space stands for. -/
def text (gap : Gap) : List Char :=
  if !gap.broken then gap.blanks
  else if gap.first == ['\n'] then (if gap.others.isEmpty then [' '] else gap.others)
  else gap.first ++ gap.others

/-- Reads white space. Blanks at the start of a line may be tabs only from a column on. -/
def read (column : Nat) : (fuel : Nat) → Gap → Cursor → Option (Gap × Cursor)
  | 0, gap, c => some (gap, c)
  | fuel + 1, gap, c =>
      match c.rest.head? with
      | Option.none => some (gap, c)
      | some char =>
          if isBlank char then
            if gap.broken && c.column < column && char == '\t' then Option.none
            else
              let gap := if gap.broken then gap else { gap with blanks := gap.blanks ++ [char] }
              read column fuel gap c.skip
          else if isBreak char then
            let (text, c) := c.skipBreak
            let gap :=
              if gap.broken then { gap with others := gap.others ++ text }
              else { gap with broken := true, first := text }
            read column fuel gap c
          else some (gap, c)

end Gap

namespace Scalar

/-! ## Plain scalars -/

/-- The characters that end a plain scalar between brackets. -/
def isFlowEnd (c : Char) : Bool :=
  c == ',' || c == '[' || c == ']' || c == '\x7b' || c == '\x7d'

/-- Passes a part of a plain scalar without white space. Between brackets a colon may not be
followed by one of the brackets. -/
def plainPart (flow : Bool) : (fuel : Nat) → List Char → Cursor → Option (List Char × Cursor)
  | 0, text, c => some (text, c)
  | fuel + 1, text, c =>
      match c.rest.head? with
      | none => some (text, c)
      | some char =>
          if isBlank char || isBreak char then some (text, c)
          else if flow && char == ':' && (c.peek 1).any (fun d => isFlowEnd d || d == '?') then none
          else if char == ':' && c.gapAt 1 then some (text, c)
          else if flow && isFlowEnd char then some (text, c)
          else plainPart flow fuel (text ++ [char]) c.skip

/-- Reads a plain scalar, which goes on over lines that are indented at least up to a column.
Also tells whether it ended at the start of a line. -/
def plain (flow : Bool) (column : Nat) :
    (fuel : Nat) → List Char → Gap → Cursor → Option (List Char × Bool × Cursor)
  | 0, _, _, _ => none
  | fuel + 1, text, gap, c => do
      if c.atBorder || c.sees '#' then return (text, gap.broken, c)
      let (part, next) ← plainPart flow c.rest.length [] c
      let (text, gap) := if part.isEmpty then (text, gap) else (text ++ gap.text ++ part, Gap.none)
      if !next.seesAny (fun char => isBlank char || isBreak char) then
        return (text, gap.broken, next)
      let (gap, next) ← Gap.read column next.rest.length gap next
      if !flow && next.column < column then return (text, gap.broken, next)
      plain flow column fuel text gap next

/-! ## Quoted scalars -/

/-- What a character behind a backslash stands for. -/
def escaped? : Char → Option Char
  | '0' => some '\x00'
  | 'a' => some '\x07'
  | 'b' => some '\x08'
  | 't' => some '\t'
  | '\t' => some '\t'
  | 'n' => some '\n'
  | 'v' => some '\x0b'
  | 'f' => some '\x0c'
  | 'r' => some '\r'
  | 'e' => some '\x1b'
  | ' ' => some ' '
  | '\x22' => some '\x22'
  | '/' => some '/'
  | '\\' => some '\\'
  | 'N' => some '\u0085'
  | '_' => some '\u00a0'
  | 'L' => some '\u2028'
  | 'P' => some '\u2029'
  | _ => none

/-- How many hexadecimal digits follow a character behind a backslash. -/
def escapeDigits? : Char → Option Nat
  | 'x' => some 2
  | 'u' => some 4
  | 'U' => some 8
  | _ => none

def hexValue? (c : Char) : Option Nat :=
  if c.isDigit then some (c.toNat - '0'.toNat)
  else if 'a' ≤ c && c ≤ 'f' then some (c.toNat - 'a'.toNat + 10)
  else if 'A' ≤ c && c ≤ 'F' then some (c.toNat - 'A'.toNat + 10)
  else none

def hexNumber? (digits : List Char) : Option Nat :=
  digits.foldlM (fun value c => (hexValue? c).map (16 * value + ·)) 0

/-- The character of a code, which may not be half of a pair. -/
def charOf? (code : Nat) : Option Char := if code.isValidChar then some (Char.ofNat code) else none

/-- The character that a backslash and what follows it stand for. -/
def escape (c : Cursor) : Option (Char × Cursor) := do
  let kind ← c.peek 1
  match escapeDigits? kind with
  | some count =>
      let digits := (c.rest.drop 2).take count
      if digits.length < count then none
      let char ← (← hexNumber? digits) |> charOf?
      return (char, c.skipMany (2 + count))
  | none => return (← escaped? kind, c.skipMany 2)

/-- Passes a part of a quoted scalar without white space. A break behind a backslash ends the
part too, and counts for nothing. -/
def quotedPart (double : Bool) :
    (fuel : Nat) → List Char → Cursor → Option (List Char × Gap × Cursor)
  | 0, text, c => some (text, .none, c)
  | fuel + 1, text, c =>
      match c.rest with
      | [] => some (text, .none, c)
      | char :: rest =>
          if isBlank char || isBreak char then some (text, .none, c)
          else if !double && char == '\x27' && rest.head? == some '\x27' then
            quotedPart double fuel (text ++ ['\x27']) (c.skipMany 2)
          else if char == (if double then '\x22' else '\x27') then some (text, .none, c)
          else if double && char == '\\' && rest.head?.any isBreak then
            some (text, { Gap.none with broken := true }, c.skip.skipBreak.2)
          else if double && char == '\\' then
            match escape c with
            | none => none
            | some (char, c) => quotedPart double fuel (text ++ [char]) c
          else quotedPart double fuel (text ++ [char]) c.skip

/-- Reads what is between two quotes, and the second of them. -/
def quoted (double : Bool) : (fuel : Nat) → List Char → Cursor → Option (List Char × Cursor)
  | 0, _, _ => none
  | fuel + 1, text, c => do
      if c.atBorder || c.atEnd then none
      let (part, gap, next) ← quotedPart double c.rest.length [] c
      let text := text ++ part
      if !gap.broken && next.sees (if double then '\x22' else '\x27') then
        return (text, next.skip)
      let (gap, next) ← Gap.read 0 next.rest.length gap next
      quoted double fuel (text ++ gap.text) next

/-! ## Block scalars -/

/-- What happens to the line breaks at the end of a block. -/
inductive Chomping where
  /-- None is left. -/
  | strip
  /-- The first one is left. -/
  | clip
  /-- All are left. -/
  | keep
deriving DecidableEq, Repr

def chomping? (c : Cursor) : Option Chomping :=
  if c.sees '+' then some .keep else if c.sees '-' then some .strip else none

/-- The indentation that the head of a block asks for, if the next character is a digit; zero is
not allowed. -/
def indentation? (c : Cursor) : Option Nat :=
  (c.rest.head?.filter Char.isDigit).map fun digit => digit.toNat - '0'.toNat

/-- The head of a block: chomping and indentation in any order, neither being needed. -/
def blockHead (c : Cursor) : Option (Chomping × Option Nat × Cursor) :=
  match chomping? c with
  | some chomping =>
      match indentation? c.skip with
      | some 0 => none
      | some indentation => some (chomping, some indentation, c.skipMany 2)
      | none => some (chomping, none, c.skip)
  | none =>
      match indentation? c with
      | some 0 => none
      | some indentation =>
          match chomping? c.skip with
          | some chomping => some (chomping, some indentation, c.skipMany 2)
          | none => some (.clip, some indentation, c.skip)
      | none => some (.clip, none, c)

/-- Passes blank lines in front of a line of a block. The indentation may still be unknown; then
the widest line counts. -/
def blankLines (indentation : Option Nat) :
    (fuel : Nat) → (widest : Nat) → List Char → Cursor → Option (Nat × List Char × Cursor)
  | 0, widest, breaks, c => some (widest, breaks, c)
  | fuel + 1, widest, breaks, c =>
      let spaces := (c.run (· == ' ')).length
      let c := c.skipMany (match indentation with
        | some indentation => min spaces (indentation - c.column)
        | none => spaces)
      let widest := max widest c.column
      let free : Bool := match indentation with
        | some indentation => c.column < indentation
        | none => true
      if free && c.sees '\t' then none
      else if c.seesAny isBreak then
        let (text, c) := c.skipBreak
        blankLines indentation fuel widest (breaks ++ text) c
      else some (widest, breaks, c)

/-- What was read of a block. -/
structure Block where
  text : List Char
  /-- Break at the end of the last line. -/
  last : List Char
  /-- Breaks of blank lines behind that. -/
  blankLines : List Char
  /-- Whether the last line started with a blank. -/
  indented : Bool

def blockLines (literal : Bool) (indentation : Nat) :
    (fuel : Nat) → Block → Cursor → Option (Block × Cursor)
  | 0, block, c => some (block, c)
  | fuel + 1, block, c =>
      if c.column != indentation || c.atEnd then some (block, c)
      else
        let indented := c.seesAny isBlank
        let joined :=
          if !literal && block.last == ['\n'] && !block.indented && !indented then
            if block.blankLines.isEmpty then [' '] else []
          else block.last
        let line := c.run (!isBreak ·)
        let (last, next) := c.skipLine.skipBreak
        match blankLines (some indentation) next.rest.length 0 [] next with
        | none => none
        | some (_, breaks, next) =>
            blockLines literal indentation fuel
              ⟨block.text ++ joined ++ block.blankLines ++ line, last, breaks, indented⟩ next

/-- Reads a block behind its first character, within a collection of a given indentation. -/
def block (literal : Bool) (outer : Int) (c : Cursor) : Option (List Char × Cursor) := do
  let (chomping, asked, c) ← blockHead c
  let c := (c.skipWhile isBlank).skipComment
  if !c.gapAt 0 then none
  let c := c.skipBreak.2
  let known := asked.map fun indentation => outer.toNat + indentation
  let (widest, breaks, c) ← blankLines known c.rest.length 0 [] c
  let indentation := known.getD (max widest (max (outer + 1).toNat 1))
  let (block, c) ← blockLines literal indentation c.rest.length ⟨[], [], breaks, false⟩ c
  let tail := match chomping with
    | .strip => []
    | .clip => block.last
    | .keep => block.last ++ block.blankLines
  return (block.text ++ tail, c)

end Scalar

end Blanking.Yaml
