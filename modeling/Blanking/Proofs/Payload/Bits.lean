import Mathlib.Data.List.Induction
import Blanking.Proofs.Slicer.Packing

/-! # Bits of a payload and its bytes

The bytes of a payload say which bits it consists of: reading as many bits as were packed gives
them back, whatever their number and order. -/

namespace Blanking.Payload

/-- The digits of the number of some bits, lowest first. -/
theorem map_testBit_numberOfBits (bits : List Bool) :
    (List.range bits.length).map (numberOfBits bits).testBit = bits.reverse := by
  induction bits using List.reverseRecOn with
  | nil => rfl
  | append_singleton bits bit ih =>
      have hhalf : (numberOfBits (bits ++ [bit])) / 2 = numberOfBits bits := by
        have hle := bit.toNat_le
        rw [numberOfBits_append]
        omega
      have hlowest : (numberOfBits (bits ++ [bit])).testBit 0 = bit := by
        rw [numberOfBits_append, Nat.testBit_zero]
        cases bit <;> simp
      have hrest : (numberOfBits (bits ++ [bit])).testBit ∘ Nat.succ =
          (numberOfBits bits).testBit := by
        funext i
        rw [Function.comp_apply, Nat.testBit_succ, hhalf]
      rw [List.length_append, List.length_singleton, List.range_succ_eq_map, List.map_cons,
        List.map_map, hlowest, hrest, ih, List.reverse_append, List.reverse_singleton,
        List.singleton_append]

theorem bitsOfByte_byteOfBits (msbFirst : Bool) {bits : List Bool} (hlength : bits.length ≤ 8) :
    bitsOfByte msbFirst bits.length (byteOfBits msbFirst bits) = bits := by
  have hbyte {digits : List Bool} (hdigits : digits.length ≤ 8) :
      (UInt8.ofNat (numberOfBits digits)).toNat = numberOfBits digits := by
    have hlt := numberOfBits_lt digits
    have hle : 2 ^ digits.length ≤ 2 ^ 8 := Nat.pow_le_pow_right (by decide) hdigits
    rw [UInt8.toNat_ofNat']
    omega
  cases msbFirst with
  | false =>
      have hrising := map_testBit_numberOfBits bits.reverse
      rw [List.length_reverse, List.reverse_reverse] at hrising
      simp only [bitsOfByte, byteOfBits, Bool.false_eq_true, if_false]
      rw [hbyte (by rwa [List.length_reverse]), hrising]
  | true =>
      simp only [bitsOfByte, byteOfBits, if_true]
      rw [hbyte hlength, map_testBit_numberOfBits, List.reverse_reverse]

theorem unpack_cons (msbFirst : Bool) {bits : Nat} (hpos : 0 < bits) (byte : UInt8)
    (rest : List UInt8) :
    unpack msbFirst bits (byte :: rest) =
      if bits < 8 then bitsOfByte msbFirst bits byte
      else bitsOfByte msbFirst 8 byte ++ unpack msbFirst (bits - 8) rest := by
  cases bits with
  | zero => exact absurd hpos (Nat.lt_irrefl 0)
  | succ bits => rfl

/-- What was packed is found again. -/
theorem unpack_pack (msbFirst : Bool) (bits : List Bool) :
    unpack msbFirst bits.length (pack msbFirst bits) = bits := by
  fun_induction pack msbFirst bits with
  | case1 => rfl
  | case2 bits hne _ ih =>
      rw [unpack_cons msbFirst (List.length_pos_iff.mpr hne), ← List.length_drop]
      split
      next htail =>
        have htake : bits.take 8 = bits := List.take_of_length_le (by omega)
        rw [htake, bitsOfByte_byteOfBits msbFirst (by omega)]
      next hwhole =>
        have hfront : (bits.take 8).length = 8 := by
          rw [List.length_take]
          omega
        have hoctet := bitsOfByte_byteOfBits msbFirst (Nat.le_of_eq hfront)
        rw [hfront] at hoctet
        rw [hoctet, ih, List.take_append_drop]

theorem length_ofBits (bits : List Bool) (modulation : Modulation) :
    (ofBits bits modulation).length = bytesFor bits.length := length_pack _ bits

theorem toBits_ofBits (bits : List Bool) (modulation : Modulation) :
    toBits (ofBits bits modulation) bits.length modulation = .ok bits := by
  rw [toBits, if_neg (by rw [length_ofBits]; omega), ofBits, unpack_pack]

end Blanking.Payload
