/-! # Payload checks

Two services are framed so weakly that noise may pass for them. WSS of 525 lines ends in a
cyclic redundancy check, and the first group of WSS 625 has odd parity. -/

namespace Blanking.Check

/-- Register of the cyclic redundancy check with the generator `x ^ 6 + x + 1`. -/
abbrev Crc := BitVec 6

/-- The register starts with all bits set. -/
def preset : Crc := 0x3F

/-- Shifts one bit of the message into the register. -/
def step (crc : Crc) (bit : Bool) : Crc :=
  if (crc.msb ^^ bit) then (crc <<< 1) ^^^ 3 else crc <<< 1

/-- The lowest bits of a number, highest first. -/
def bitsOf (value : Nat) : (count : Nat) → List Bool
  | 0 => []
  | count + 1 => value.testBit count :: bitsOf value count

/-- The check of the lowest bits of a number, highest first. -/
def crc (value count : Nat) : Crc := (bitsOf value count).foldl step preset

/-- Bits in front of the check in a CPR-1204 payload. -/
def dataBits : Nat := 14

/-- The word of 20 bits in the first three bytes of a payload, the last four bits of which are
at the low end of the third byte. -/
def cpr1204Word? : List UInt8 → Option Nat
  | a :: b :: c :: _ => some (a.toNat * 0x1000 + b.toNat * 0x10 + c.toNat % 0x10)
  | _ => none

/-- Whether a CPR-1204 payload carries the check of its data. -/
def cpr1204Ok (data : List UInt8) : Bool :=
  match cpr1204Word? data with
  | some word => (crc (word / 0x40) dataBits).toNat == word % 0x40
  | none => false

/-- The CPR-1204 payload of the lowest 14 bits of a number. -/
def cpr1204Encode (value : Nat) : List UInt8 :=
  let data := value % 0x4000
  let word := data * 0x40 + (crc data dataBits).toNat
  [UInt8.ofNat (word / 0x1000), UInt8.ofNat (word / 0x10), UInt8.ofNat (word % 0x10)]

/-- Whether the lowest 32 bits of a number have an odd sum. -/
def oddParity (value : Nat) : Bool := ((bitsOf value 32).filter id).length % 2 == 1

/-- Whether the first group of a WSS 625 payload, the aspect ratio, has odd parity. -/
def wss625Ok : List UInt8 → Bool
  | group :: _ => oddParity (group.toNat % 0x10)
  | [] => false

end Blanking.Check
