import Blanking.Record

/-! # Decoded lines as a binary stream

A stream starts with a mark, a version and the number of lines of the scanning. Each field pair
follows with its number, the number of its records, and the records in full. All numbers have
their low byte first. The stream can be read back without loss. -/

namespace Blanking.Stream

/-- The records of a field pair. -/
structure Frame where
  number : Nat
  records : List Record
deriving DecidableEq

/-- The lowest bytes of a number, low byte first. -/
def littleEndian : (width value : Nat) → List UInt8
  | 0, _ => []
  | width + 1, value => UInt8.ofNat value :: littleEndian width (value / 256)

def mark : List UInt8 := [0x56, 0x42, 0x49, 0x53]

def version : Nat := 1

def header (lines : Nat) : List UInt8 := mark ++ littleEndian 2 version ++ littleEndian 2 lines

def ofRecord (record : Record) : List UInt8 :=
  littleEndian 4 record.id.bits.toNat ++ littleEndian 4 record.line ++ record.data.toList

def ofFrame (frame : Frame) : List UInt8 :=
  littleEndian 8 frame.number ++ littleEndian 4 frame.records.length ++
    frame.records.flatMap ofRecord

/-- The stream of some field pairs. -/
def ofFrames (lines : Nat) (frames : List Frame) : List UInt8 :=
  header lines ++ frames.flatMap ofFrame

/-! ## Reading -/

/-- The number in bytes of which the low one comes first. -/
def numberOf (bytes : List UInt8) : Nat :=
  bytes.foldr (fun byte rest => byte.toNat + 256 * rest) 0

/-- Takes a number of some bytes from the front. -/
def readNumber (width : Nat) (bytes : List UInt8) : Option (Nat × List UInt8) :=
  if bytes.length < width then none else some (numberOf (bytes.take width), bytes.drop width)

/-- Takes a record from the front. -/
def readRecord (bytes : List UInt8) : Option (Record × List UInt8) := do
  let (id, bytes) ← readNumber 4 bytes
  let (line, bytes) ← readNumber 4 bytes
  if h : recordBytes ≤ bytes.length then
    let data := Vector.ofFn fun i : Fin recordBytes => bytes[i.val]
    some (⟨⟨UInt32.ofNat id⟩, line, data⟩, bytes.drop recordBytes)
  else none

/-- Takes some records from the front. -/
def readRecords : (count : Nat) → List UInt8 → Option (List Record × List UInt8)
  | 0, bytes => some ([], bytes)
  | count + 1, bytes => do
      let (record, bytes) ← readRecord bytes
      let (records, bytes) ← readRecords count bytes
      return (record :: records, bytes)

/-- Takes a field pair from the front. -/
def readFrame (bytes : List UInt8) : Option (Frame × List UInt8) := do
  let (number, bytes) ← readNumber 8 bytes
  let (count, bytes) ← readNumber 4 bytes
  let (records, bytes) ← readRecords count bytes
  return (⟨number, records⟩, bytes)

/-- Takes field pairs until nothing is left. None takes no bytes, so their number bounds that of
the field pairs. -/
def readFrames : (fuel : Nat) → List UInt8 → Option (List Frame)
  | _, [] => some []
  | 0, _ => none
  | fuel + 1, bytes => do
      let (frame, bytes) ← readFrame bytes
      let frames ← readFrames fuel bytes
      return frame :: frames

/-- Reads a stream: the lines of its scanning, and its field pairs. -/
def read (bytes : List UInt8) : Option (Nat × List Frame) := do
  if bytes.take 4 ≠ mark then none
  let (found, bytes) ← readNumber 2 (bytes.drop 4)
  if found ≠ version then none
  let (lines, bytes) ← readNumber 2 bytes
  let frames ← readFrames bytes.length bytes
  return (lines, frames)

end Blanking.Stream
