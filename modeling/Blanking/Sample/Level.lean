import Blanking.Sample.Format

/-! # Signal levels of samples

Reading takes the signal component of one sample of a row and leaves it at its place in the
byte or word; writing stores a level of eight bits there, cut down to the width of the
component. -/

namespace Blanking

/-- A byte of a row as a number, zero past its end. -/
def byteAt (row : ByteArray) (position : Nat) : Nat :=
  if h : position < row.size then row[position].toNat else 0

/-- Overwrites one byte of a row; a position past its end changes nothing. -/
def putByte (row : ByteArray) (position : Nat) (byte : UInt8) : ByteArray :=
  if h : position < row.size then row.set position byte h else row

/-- Overwrites the bytes of a row from a position on. -/
def putBytes (row : ByteArray) (position : Nat) : List UInt8 → ByteArray
  | [] => row
  | byte :: rest => putBytes (putByte row position byte) (position + 1) rest

namespace Layout

/-- Signal level of one sample of a row. -/
def level (layout : Layout) (row : ByteArray) (index : Nat) : Nat :=
  match layout.storage with
  | .byte stride skip _ => byteAt row (index * stride + skip)
  | .littleWord =>
      (byteAt row (index * 2) + 256 * byteAt row (index * 2 + 1)) &&& layout.mask
  | .bigWord =>
      (256 * byteAt row (index * 2) + byteAt row (index * 2 + 1)) &&& layout.mask
  | .packed => byteAt row index &&& layout.mask

/-- An eight bit level in the steps and at the place of the signal component. -/
def quantise (layout : Layout) (level : UInt8) : Nat :=
  (level.toNat <<< (layout.lsb + layout.width)) / 256 &&& layout.mask

/-- The bytes of a sample with this signal level and all other components neutral. -/
def encode (layout : Layout) (level : UInt8) : List UInt8 :=
  let value := layout.quantise level
  match layout.storage with
  | .byte stride skip neutral => (List.replicate stride neutral).set skip (UInt8.ofNat value)
  | .littleWord => [UInt8.ofNat value, UInt8.ofNat (value / 256)]
  | .bigWord => [UInt8.ofNat (value / 256), UInt8.ofNat value]
  | .packed => [UInt8.ofNat value]

/-- Draws one sample of a row. -/
def write (layout : Layout) (row : ByteArray) (index : Nat) (level : UInt8) : ByteArray :=
  putBytes row (index * layout.storage.stride) (layout.encode level)

def flatRow (layout : Layout) (samples : Nat) (level : UInt8) : ByteArray :=
  ⟨((List.replicate samples (layout.encode level)).flatten).toArray⟩

end Layout

end Blanking
