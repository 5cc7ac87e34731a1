import Blanking.Number.Hex
import Blanking.Output.Time
import Blanking.Record

/-! # Decoded lines as YAML

Each field pair with data becomes one document. Its data are hexadecimal text, which is quoted
where it would otherwise be taken for a number or for nothing. -/

namespace Blanking.Document

/-- Whether all characters are decimal digits, of which there is at least one. -/
def isDecimal (text : List Char) : Bool := !text.isEmpty && text.all Char.isDigit

/-- The number that decimal digits stand for. -/
def decimalValue (digits : List Char) : Nat :=
  digits.foldl (fun value c => 10 * value + (c.toNat - '0'.toNat)) 0

/-- The first magnitude that a double rounds to infinity. -/
def doubleLimit : Nat := (1 <<< 1024) - (1 <<< 970)

/-- Whether a number in powers of ten is finite as a double. -/
def isFinite (mantissa exponent : Nat) : Bool :=
  mantissa == 0 || (exponent < 400 && mantissa * Nat.pow 10 exponent < doubleLimit)

/-- Whether text is a decimal number with an exponent, not beyond the range of doubles. -/
def isExponential (text : List Char) : Bool :=
  let mantissa := text.takeWhile (· != 'e')
  let exponent := text.drop (mantissa.length + 1)
  isDecimal mantissa && isDecimal exponent &&
    isFinite (decimalValue mantissa) (decimalValue exponent)

/-- Whether text is a number in base two, marked as such and below `2 ^ 128`. -/
def isBinary : List Char → Bool
  | '0' :: 'b' :: digits =>
      !digits.isEmpty && digits.all (fun c => c == '0' || c == '1') &&
        digits.foldl (fun value c => 2 * value + (c.toNat - '0'.toNat)) 0 < 1 <<< 128
  | _ => false

/-- Whether lower case hexadecimal text has to be quoted. -/
def needsQuotes (text : List Char) : Bool :=
  text.isEmpty || isDecimal text || isExponential text || isBinary text

def scalar (bytes : List UInt8) : String :=
  let text := Hex.ofBytes bytes
  if needsQuotes text.toList then "'" ++ text ++ "'" else text

/-- One decoded line as an item of a list. -/
def item (record : Record) : String :=
  "- line: " ++ toString record.line ++ "\n" ++
    "  service: " ++ (record.service?.map Service.name).getD "unknown" ++ "\n" ++
    "  data: " ++ scalar record.payload ++ "\n"

/-- The document of a field pair. Without data there is none. -/
def ofFrame (lines frame : Nat) (records : List Record) : String :=
  if records.isEmpty then ""
  else
    "---\nframe: " ++ toString frame ++ "\ntime: " ++ frameTime frame lines ++ "\nlines:\n" ++
      String.join (records.map item)

end Blanking.Document
