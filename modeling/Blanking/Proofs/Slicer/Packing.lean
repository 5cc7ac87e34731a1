import Mathlib.Data.List.Induction
import Mathlib.Tactic.Ring
import Blanking.Payload.Bits
import Blanking.Slicer.Data

/-! # Payload bytes as they are received

A slicer puts bytes together while the bits arrive, in one of four ways that depend on their
number and order. Each of them gives the bytes of the payload that consists of these bits. -/

namespace Blanking

/-! ## Shift registers -/

theorem two_mul_or_bit (number : Nat) (bit : Bool) :
    2 * number ||| bit.toNat = 2 * number + bit.toNat := by
  have hlt : bit.toNat < 2 ^ 1 := by cases bit <;> simp
  simpa [Nat.shiftLeft_eq, Nat.mul_comm] using
    (Nat.shiftLeft_add_eq_or_of_lt hlt number).symm

theorem toNat_shiftIn (word : UInt32) (bit : Bool) :
    (shiftIn word bit).toNat = (2 * word.toNat + bit.toNat) % 2 ^ 32 := by
  have hshift : (word <<< 1).toNat = 2 * (word.toNat % 2 ^ 31) := by
    rw [UInt32.toNat_shiftLeft, UInt32.toNat_one, Nat.shiftLeft_eq,
      show 1 % 32 = 1 from rfl]
    omega
  have hbit : (if bit then (1 : UInt32) else 0).toNat = bit.toNat := by cases bit <;> rfl
  have hle := bit.toNat_le
  rw [shiftIn, UInt32.toNat_or, hshift, hbit, two_mul_or_bit]
  omega

theorem toNat_lowBits {count : Nat} (hcount : count ≤ 32) :
    (lowBits count).toNat = 2 ^ count - 1 := by
  unfold lowBits
  split
  next hall =>
    obtain rfl := Nat.le_antisymm hcount hall
    rfl
  next hsome =>
    have hmod : (UInt32.ofNat count).toNat % 32 = count := by
      rw [UInt32.toNat_ofNat']
      omega
    have hlt : 2 ^ count < 2 ^ 32 := Nat.pow_lt_pow_right (by decide) (by omega)
    have hshift : ((1 : UInt32) <<< UInt32.ofNat count).toNat = 2 ^ count := by
      rw [UInt32.toNat_shiftLeft, hmod, UInt32.toNat_one, Nat.shiftLeft_eq, Nat.one_mul,
        Nat.mod_eq_of_lt hlt]
    have hle : (1 : UInt32) ≤ 1 <<< UInt32.ofNat count := by
      rw [UInt32.le_iff_toNat_le, hshift]
      exact Nat.one_le_two_pow
    rw [UInt32.toNat_sub_of_le _ _ hle, hshift, UInt32.toNat_one]

theorem toNat_and_lowBits (word : UInt32) {count : Nat} (hcount : count ≤ 32) :
    (word &&& lowBits count).toNat = word.toNat % 2 ^ count := by
  rw [UInt32.toNat_and, toNat_lowBits hcount, Nat.and_two_pow_sub_one_eq_mod]

namespace Payload

theorem numberOfBits_append (bits : List Bool) (bit : Bool) :
    numberOfBits (bits ++ [bit]) = 2 * numberOfBits bits + bit.toNat := by
  simp [numberOfBits]

theorem foldl_numberOfBits (bits : List Bool) (number : Nat) :
    bits.foldl (fun number bit => 2 * number + bit.toNat) number =
      number * 2 ^ bits.length + numberOfBits bits := by
  induction bits generalizing number with
  | nil => simp [numberOfBits]
  | cons bit rest ih =>
      rw [List.foldl_cons, ih, numberOfBits.eq_def (bit :: rest), List.foldl_cons, ih,
        List.length_cons, pow_succ]
      ring

theorem numberOfBits_cons (bit : Bool) (bits : List Bool) :
    numberOfBits (bit :: bits) = bit.toNat * 2 ^ bits.length + numberOfBits bits := by
  rw [numberOfBits, List.foldl_cons, foldl_numberOfBits]
  ring

theorem numberOfBits_lt (bits : List Bool) : numberOfBits bits < 2 ^ bits.length := by
  induction bits with
  | nil => simp [numberOfBits]
  | cons bit rest ih =>
      rw [numberOfBits_cons, List.length_cons, pow_succ]
      cases bit <;> simp <;> omega

end Payload

/-- The number in a register is that of the last bits that were shifted in. -/
theorem toNat_wordOfBits (bits : List Bool) :
    (wordOfBits bits).toNat = Payload.numberOfBits bits % 2 ^ 32 := by
  induction bits using List.reverseRecOn with
  | nil => rfl
  | append_singleton bits bit ih =>
      have hword : wordOfBits (bits ++ [bit]) = shiftIn (wordOfBits bits) bit := by
        simp [wordOfBits]
      rw [hword, toNat_shiftIn, ih, Payload.numberOfBits_append]
      omega

namespace Packing

open Payload

/-! ## Octets -/

theorem shiftLeft_or_bit (octet : UInt8) (bit : Bool) :
    octet <<< 1 ||| (if bit then 1 else 0) = 2 * octet + UInt8.ofNat bit.toNat := by
  have hshift : (octet <<< 1).toNat = 2 * (octet.toNat % 2 ^ 7) := by
    rw [UInt8.toNat_shiftLeft, UInt8.toNat_one, Nat.shiftLeft_eq, show 1 % 8 = 1 from rfl]
    omega
  have hbit : (if bit then (1 : UInt8) else 0).toNat = bit.toNat := by cases bit <;> rfl
  have hle := bit.toNat_le
  apply UInt8.toNat_inj.mp
  rw [UInt8.toNat_or, hshift, hbit, two_mul_or_bit, UInt8.toNat_add, UInt8.toNat_mul,
    UInt8.toNat_ofNat']
  simp
  omega

theorem octetHigh_eq (bits : List Bool) :
    octetHigh bits = UInt8.ofNat (numberOfBits bits) := by
  induction bits using List.reverseRecOn with
  | nil => rfl
  | append_singleton bits bit ih =>
      have hoctet : octetHigh (bits ++ [bit]) =
          octetHigh bits <<< 1 ||| (if bit then 1 else 0) := by simp [octetHigh]
      rw [hoctet, shiftLeft_or_bit, ih, numberOfBits_append, UInt8.ofNat_add, UInt8.ofNat_mul]
      rfl

theorem octetLow_eq (bits : List Bool) :
    octetLow bits = UInt8.ofNat (numberOfBits bits.reverse) := by
  induction bits with
  | nil => rfl
  | cons bit rest ih =>
      have hoctet : octetLow (bit :: rest) = octetLow rest <<< 1 ||| (if bit then 1 else 0) := rfl
      rw [hoctet, shiftLeft_or_bit, ih, List.reverse_cons, numberOfBits_append, UInt8.ofNat_add,
        UInt8.ofNat_mul]
      rfl

@[simp]
theorem pack_nil (msbFirst : Bool) : pack msbFirst [] = [] := by
  rw [pack, dif_pos rfl]

theorem pack_of_ne_nil {bits : List Bool} (msbFirst : Bool) (hne : bits ≠ []) :
    pack msbFirst bits = byteOfBits msbFirst (bits.take 8) :: pack msbFirst (bits.drop 8) := by
  rw [pack, dif_neg hne]

theorem octets_eq_pack {octet : List Bool → UInt8} {msbFirst : Bool}
    (hoctet : ∀ bits, octet bits = byteOfBits msbFirst bits) (bits : List Bool) (count : Nat)
    (hlength : bits.length = 8 * count) : octets octet bits count = pack msbFirst bits := by
  induction count generalizing bits with
  | zero =>
      obtain rfl : bits = [] := List.eq_nil_of_length_eq_zero (by omega)
      simp [octets]
  | succ count ih =>
      have hne : bits ≠ [] := by rintro rfl; simp at hlength
      rw [octets, pack_of_ne_nil msbFirst hne, hoctet, ih _ (by rw [List.length_drop]; omega)]

/-! ## Bitwise packing -/

theorem pack_of_length_le {bits : List Bool} {msbFirst : Bool} (hne : bits ≠ [])
    (hlength : bits.length ≤ 8) : pack msbFirst bits = [byteOfBits msbFirst bits] := by
  rw [pack_of_ne_nil msbFirst hne, List.take_of_length_le hlength,
    List.drop_eq_nil_of_le hlength, pack_nil]

theorem pack_append {front rest : List Bool} {msbFirst : Bool} (hlength : front.length = 8) :
    pack msbFirst (front ++ rest) = byteOfBits msbFirst front :: pack msbFirst rest := by
  have hne : front ++ rest ≠ [] := by
    rintro hnil
    simp [List.append_eq_nil_iff.mp hnil] at hlength
  rw [pack_of_ne_nil msbFirst hne, ← hlength, List.take_left, List.drop_left]

theorem toNat_shiftRight_or_bit {register : UInt32} (hregister : register.toNat < 256)
    (bit : Bool) : (register >>> 1 ||| (if bit then 0x80 else 0)).toNat =
      2 ^ 7 * bit.toNat + register.toNat / 2 := by
  have hbit : (if bit then (0x80 : UInt32) else 0).toNat = 2 ^ 7 * bit.toNat := by
    cases bit <;> rfl
  have hshift : (register >>> 1).toNat = register.toNat / 2 := by
    rw [UInt32.toNat_shiftRight, UInt32.toNat_one, Nat.shiftRight_eq_div_pow,
      show 1 % 32 = 1 from rfl, pow_one]
  rw [UInt32.toNat_or, hbit, hshift, Nat.or_comm, Nat.two_pow_add_eq_or_of_lt]
  omega

theorem numberOfBits_reverse_append (front : List Bool) (bit : Bool) :
    numberOfBits (front ++ [bit]).reverse =
      2 ^ front.length * bit.toNat + numberOfBits front.reverse := by
  rw [List.reverse_append, List.reverse_singleton, List.singleton_append, numberOfBits_cons,
    List.length_reverse, Nat.mul_comm]

theorem toUInt8_eq_ofNat (word : UInt32) : word.toUInt8 = UInt8.ofNat word.toNat := by
  apply UInt8.toNat_inj.mp
  rw [UInt32.toNat_toUInt8, UInt8.toNat_ofNat']

/-- The bits that are in the register so far take its upper end. Below them are those of the
byte before. -/
theorem bitsLow_eq (register : UInt32) (front rest : List Bool) (hfront : front.length < 8)
    (hregister : register.toNat < 256)
    (hvalue : register.toNat / 2 ^ (8 - front.length) = numberOfBits front.reverse)
    (htail : (front ++ rest).length % 8 ≠ 0) :
    bitsLow register front.length rest = pack false (front ++ rest) := by
  induction rest generalizing register front with
  | nil =>
      rw [List.append_nil] at htail ⊢
      have hne : front ≠ [] := by rintro rfl; simp at htail
      have hshift : (UInt32.ofNat (8 - front.length)).toNat % 32 = 8 - front.length := by
        rw [UInt32.toNat_ofNat']
        omega
      rw [bitsLow, pack_of_length_le hne (Nat.le_of_lt hfront), byteOfBits, if_neg (by simp),
        ← hvalue, toUInt8_eq_ofNat, UInt32.toNat_shiftRight, hshift, Nat.shiftRight_eq_div_pow]
  | cons bit rest ih =>
      have hnext := toNat_shiftRight_or_bit hregister bit
      have hle := bit.toNat_le
      rw [List.append_cons] at htail ⊢
      rw [bitsLow]
      set next := register >>> 1 ||| (if bit then 0x80 else 0)
      split
      next hfull =>
        have hlength : (front ++ [bit]).length = 8 := by simp [hfull]
        have hbyte : next.toNat = numberOfBits (front ++ [bit]).reverse := by
          rw [numberOfBits_reverse_append, ← hvalue, hfull, hnext, pow_one]
        have hrest := ih next [] (by simp) (by omega) (by simp [numberOfBits]; omega)
          (by rw [List.length_append, hlength] at htail; simpa using htail)
        rw [List.length_nil, List.nil_append] at hrest
        rw [pack_append hlength, hrest, toUInt8_eq_ofNat, hbyte, byteOfBits, if_neg (by simp)]
      next hfree =>
        have hshorter : front.length < 7 := by omega
        have hlength : (front ++ [bit]).length = front.length + 1 := by simp
        -- The new bit goes on top, and all others move down by one.
        have hbits : next.toNat / 2 ^ (8 - (front.length + 1)) =
            2 ^ front.length * bit.toNat + numberOfBits front.reverse := by
          have hpow : 2 ^ 7 = 2 ^ (7 - front.length) * 2 ^ front.length := by
            rw [← pow_add]
            congr 1
            omega
          have hhalves : register.toNat / 2 / 2 ^ (7 - front.length) =
              register.toNat / 2 ^ (8 - front.length) := by
            rw [Nat.div_div_eq_div_mul, ← pow_succ', show 8 - front.length =
              7 - front.length + 1 by omega]
          rw [hnext, hpow, Nat.succ_sub_succ, Nat.mul_assoc,
            Nat.mul_add_div (Nat.two_pow_pos _), hhalves, hvalue]
        rw [← hlength]
        refine ih next (front ++ [bit]) (by omega) (by omega) ?_ htail
        rw [hlength, hbits, numberOfBits_reverse_append]

/-- The bits that are in the register so far are its lowest ones. Above them are those of the
byte before. -/
theorem bitsHigh_eq (register : UInt32) (front rest : List Bool) (hfront : front.length < 8)
    (hvalue : register.toNat % 2 ^ front.length = numberOfBits front)
    (htail : (front ++ rest).length % 8 ≠ 0) :
    bitsHigh register front.length rest = pack true (front ++ rest) := by
  induction rest generalizing register front with
  | nil =>
      rw [List.append_nil] at htail ⊢
      have hne : front ≠ [] := by rintro rfl; simp at htail
      have hmask := toNat_and_lowBits register (show front.length ≤ 32 by omega)
      rw [bitsHigh, pack_of_length_le hne (Nat.le_of_lt hfront), byteOfBits, if_pos rfl,
        ← hvalue, toUInt8_eq_ofNat, hmask]
  | cons bit rest ih =>
      have hnext := toNat_shiftIn register bit
      have hle := bit.toNat_le
      have hbits : (shiftIn register bit).toNat % 2 ^ (front.length + 1) =
          numberOfBits (front ++ [bit]) := by
        -- Bits that leave the register at its top are not among the lowest ones.
        have hdvd : 2 ^ (front.length + 1) ∣ 2 ^ 32 := pow_dvd_pow 2 (by omega)
        have hsplit : 2 * register.toNat + bit.toNat = 2 ^ (front.length + 1) *
            (register.toNat / 2 ^ front.length) +
              (2 * (register.toNat % 2 ^ front.length) + bit.toNat) := by
          have hdivmod := Nat.div_add_mod register.toNat (2 ^ front.length)
          rw [pow_succ', Nat.mul_assoc]
          omega
        have hlt : 2 * (register.toNat % 2 ^ front.length) + bit.toNat <
            2 ^ (front.length + 1) := by
          have hmod := Nat.mod_lt register.toNat (Nat.two_pow_pos front.length)
          rw [pow_succ']
          omega
        rw [hnext, Nat.mod_mod_of_dvd _ hdvd, hsplit, Nat.mul_add_mod, Nat.mod_eq_of_lt hlt,
          numberOfBits_append, hvalue]
      rw [List.append_cons] at htail ⊢
      rw [bitsHigh]
      split
      next hfull =>
        have hlength : (front ++ [bit]).length = 8 := by simp [hfull]
        have hrest := ih (shiftIn register bit) [] (by simp) (by simp [numberOfBits, Nat.mod_one])
          (by rw [List.length_append, hlength] at htail; simpa using htail)
        rw [List.length_nil, List.nil_append] at hrest
        rw [pack_append hlength, hrest, toUInt8_eq_ofNat, byteOfBits, if_pos rfl, ← hbits]
        apply congrArg (· :: _)
        apply UInt8.toNat_inj.mp
        rw [UInt8.toNat_ofNat', UInt8.toNat_ofNat', hfull]
        omega
      next hfree =>
        have hlength : (front ++ [bit]).length = front.length + 1 := by simp
        rw [← hlength]
        refine ih (shiftIn register bit) (front ++ [bit]) (by omega) ?_ htail
        rw [hlength, hbits]

/-! ## All packings -/

/-- However a slicer packs the bits that it finds, the bytes are those of the payload. -/
theorem bytes_of (bits : List Bool) (modulation : Modulation) :
    (Packing.of bits.length modulation).bytes bits = ofBits bits modulation := by
  have hbyte (bits : List Bool) : octetLow bits = byteOfBits false bits := by
    rw [octetLow_eq, byteOfBits, if_neg (by simp)]
  have hbyte' (bits : List Bool) : octetHigh bits = byteOfBits true bits := by
    rw [octetHigh_eq, byteOfBits, if_pos rfl]
  unfold Packing.of ofBits
  by_cases hwhole : bits.length % 8 = 0
  · have hlength : bits.length = 8 * (bits.length / 8) := by omega
    cases modulation.isMsbFirst <;> simp only [hwhole, beq_self_eq_true, bytes]
    · exact octets_eq_pack hbyte bits _ hlength
    · exact octets_eq_pack hbyte' bits _ hlength
  · cases modulation.isMsbFirst <;> simp only [beq_eq_false_iff_ne.mpr hwhole, bytes]
    · exact bitsLow_eq 0 [] bits (by simp) (by simp) (by simp [numberOfBits]) hwhole
    · exact bitsHigh_eq 0 [] bits (by simp) (by simp [numberOfBits]) hwhole

end Packing

theorem Payload.length_pack (msbFirst : Bool) (bits : List Bool) :
    (Payload.pack msbFirst bits).length = Payload.bytesFor bits.length := by
  fun_induction Payload.pack msbFirst bits with
  | case1 => rfl
  | case2 bits hne _ ih =>
      have hpos := List.length_pos_iff.mpr hne
      rw [List.length_cons, ih, List.length_drop, Payload.bytesFor, Payload.bytesFor]
      omega

end Blanking
