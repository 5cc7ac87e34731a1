import Blanking.Service.Basic

/-! # Payload bytes and bits

A payload is a row of bits in the order of transmission. Eight bits make a byte, packed from
either end of it. A tail of fewer bits takes the low end of the last byte, in the same order. -/

namespace Blanking.Payload

/-- Why bytes do not hold a payload: it has more bits than they do. -/
structure TooShort where
  bits : Nat
  available : Nat
deriving DecidableEq, Repr

/-- Bytes that hold this many bits. -/
def bytesFor (bits : Nat) : Nat := (bits + 7) / 8

def TooShort.message (short : TooShort) : String :=
  s!"payload of {short.bits} bits needs {bytesFor short.bits} bytes, got {short.available}"

/-- The lowest bits of a byte in the order of transmission. -/
def bitsOfByte (msbFirst : Bool) (count : Nat) (byte : UInt8) : List Bool :=
  let rising := (List.range count).map byte.toNat.testBit
  if msbFirst then rising.reverse else rising

/-- The number whose digits in base two, highest first, are these bits. -/
def numberOfBits (bits : List Bool) : Nat :=
  bits.foldl (fun number bit => 2 * number + bit.toNat) 0

/-- The byte with these lowest bits, given in the order of transmission, and zeros above. -/
def byteOfBits (msbFirst : Bool) (bits : List Bool) : UInt8 :=
  UInt8.ofNat (numberOfBits (if msbFirst then bits else bits.reverse))

/-- The bits of bytes, of which there are enough. -/
def unpack (msbFirst : Bool) : (bits : Nat) → List UInt8 → List Bool
  | 0, _ => []
  | _, [] => []
  | bits + 1, byte :: rest =>
      if bits + 1 < 8 then bitsOfByte msbFirst (bits + 1) byte
      else bitsOfByte msbFirst 8 byte ++ unpack msbFirst (bits + 1 - 8) rest

/-- The first bits of a payload in the order of transmission. -/
def toBits (data : List UInt8) (bits : Nat) (modulation : Modulation) :
    Except TooShort (List Bool) :=
  if data.length < bytesFor bits then .error ⟨bits, data.length⟩
  else .ok (unpack modulation.isMsbFirst bits data)

/-- Packs bits given in the order of transmission. -/
def pack (msbFirst : Bool) (bits : List Bool) : List UInt8 :=
  if h : bits = [] then []
  else
    have : (bits.drop 8).length < bits.length := by
      have := List.length_pos_iff.mpr h
      simp only [List.length_drop]
      omega
    byteOfBits msbFirst (bits.take 8) :: pack msbFirst (bits.drop 8)
termination_by bits.length

/-- The bytes of a payload given in the order of transmission. -/
def ofBits (bits : List Bool) (modulation : Modulation) : List UInt8 :=
  pack modulation.isMsbFirst bits

end Blanking.Payload
