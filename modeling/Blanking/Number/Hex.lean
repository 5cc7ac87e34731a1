/-! # Hexadecimal text

Lower case digits throughout: bytes take two digits each, and a number that stands alone is
marked by a leading `0x`. -/

namespace Blanking.Hex

/-- The digit of a value below sixteen. -/
def digit (value : Nat) : Char := Nat.digitChar value

/-- A byte as two digits. -/
def ofByte (byte : UInt8) : List Char :=
  [digit (byte.toNat / 16), digit (byte.toNat % 16)]

/-- Bytes without separators. -/
def ofBytes (bytes : List UInt8) : String :=
  String.ofList (bytes.flatMap ofByte)

/-- A number with the least digits that hold it, after its mark. -/
def marked (value : Nat) : String :=
  "0x" ++ String.ofList (Nat.toDigits 16 value)

end Blanking.Hex
