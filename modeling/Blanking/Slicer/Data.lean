import Blanking.Slicer.Search

/-! # Framing code and payload

Behind the clock run-in the signal is sampled once per bit, between two samples where the bit
falls between them. The bits of the framing code have to be the expected ones; those of the
payload are put together to bytes as they arrive. -/

namespace Blanking

/-- The last `count` bits as they arrive in a shift register of 32 bits. -/
def wordOfBits (bits : List Bool) : UInt32 := bits.foldl shiftIn 0

namespace Packing

/-- One octet, its first bit lowest. -/
def octetLow (bits : List Bool) : UInt8 :=
  bits.foldr (fun bit rest => rest <<< 1 ||| (if bit then 1 else 0)) 0

/-- One octet, its first bit highest. -/
def octetHigh (bits : List Bool) : UInt8 :=
  bits.foldl (fun octet bit => octet <<< 1 ||| (if bit then 1 else 0)) 0

/-- The octets of a whole number of them. -/
def octets (octet : List Bool → UInt8) (bits : List Bool) : (count : Nat) → List UInt8
  | 0 => []
  | count + 1 => octet (bits.take 8) :: octets octet (bits.drop 8) count

/-- Bits that enter a register at bit 7 and leave it as a byte after every eighth; the tail is
moved down to the low end of the last byte. -/
def bitsLow (register : UInt32) (filled : Nat) : List Bool → List UInt8
  | [] => [(register >>> UInt32.ofNat (8 - filled)).toUInt8]
  | bit :: rest =>
      let register := register >>> 1 ||| (if bit then 0x80 else 0)
      if filled = 7 then register.toUInt8 :: bitsLow register 0 rest
      else bitsLow register (filled + 1) rest

/-- Bits that enter a register at bit 0 and leave it as a byte after every eighth; the tail is
all that is left of the last byte. -/
def bitsHigh (register : UInt32) (filled : Nat) : List Bool → List UInt8
  | [] => [(register &&& lowBits filled).toUInt8]
  | bit :: rest =>
      let register := shiftIn register bit
      if filled = 7 then register.toUInt8 :: bitsHigh register 0 rest
      else bitsHigh register (filled + 1) rest

def bytes (packing : Packing) (bits : List Bool) : List UInt8 :=
  match packing with
  | .octetLsb => octets octetLow bits (bits.length / 8)
  | .octetMsb => octets octetHigh bits (bits.length / 8)
  | .bitwiseLsb => bitsLow 0 0 bits
  | .bitwiseMsb => bitsHigh 0 0 bits

end Packing

/-- Framing code and payload as they were found on a line. -/
structure Reception where
  /-- The decisions about both, in the order of transmission. -/
  points : List Point
  payload : List UInt8
deriving DecidableEq, Repr

namespace SlicerConfig

/-- The decision at a position of the line. -/
def pointAt (level : Nat → Nat) (slice : Int) (kind : PointKind) (position : Nat) : Point :=
  let index := position / 256
  let part := position % 256
  ⟨kind, position, level index * (256 - part) + level (index + 1) * part, slice * 256⟩

/-- The decisions at `count` positions that are a step apart. -/
def points (c : SlicerConfig) (level : Nat → Nat) (slice : Int) (kind : PointKind) :
    (count position : Nat) → List Point
  | 0, _ => []
  | count + 1, position =>
      pointAt level slice kind position :: c.points level slice kind count (position + c.step)

/-- Position of the first bit behind the run-in. -/
def firstBit (c : SlicerConfig) (lock : Lock) : Nat := lock.position + c.phaseShift

/-- Whether all bits behind the run-in lie on the line. A position that is no word cannot be
compared; `InWords.receive` checks that first. -/
def fits (c : SlicerConfig) (lock : Lock) : Bool :=
  let bits := c.frcBits + c.payloadBits
  bits == 0 || (c.firstBit lock + (bits - 1) * c.step) / 256 + 1 < c.samplesPerLine

/-- The decisions about the framing code, none if not all bits behind the run-in lie on the
line. -/
def frcPoints (c : SlicerConfig) (level : Nat → Nat) (lock : Lock) : List Point :=
  if c.fits lock then c.points level lock.slice .frc c.frcBits (c.firstBit lock) else []

/-- The decisions about the payload. -/
def payloadPoints (c : SlicerConfig) (level : Nat → Nat) (lock : Lock) : List Point :=
  c.points level lock.slice .payload c.payloadBits (c.firstBit lock + c.frcBits * c.step)

/-- Reads what follows a clock run-in, if it fits on the line behind the right framing code. -/
def receive (c : SlicerConfig) (level : Nat → Nat) (lock : Lock) : Option Reception :=
  let frc := c.frcPoints level lock
  if !c.fits lock || wordOfBits (frc.map Point.bit) != c.frc then none
  else
    let payload := c.payloadPoints level lock
    some ⟨frc ++ payload, c.packing.bytes (payload.map Point.bit)⟩

end SlicerConfig

end Blanking
