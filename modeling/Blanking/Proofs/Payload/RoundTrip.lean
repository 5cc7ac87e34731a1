import Blanking.Proofs.Payload.Bits

/-! # Bytes of a payload and its bits

The bits of a payload say which bytes they came from: packing them gives the bytes back, up to those
bits of the last byte that are not of the payload. -/

namespace Blanking.Payload

/-- A byte without all but its lowest bits. -/
def lowest (count : Nat) (byte : UInt8) : UInt8 := UInt8.ofNat (byte.toNat % 2 ^ count)

/-- The bytes that hold a payload, with nothing in the last one but what is of the payload. -/
def kept (count : Nat) (data : List UInt8) : List UInt8 :=
  if count % 8 = 0 then data.take (bytesFor count)
  else (data.take (bytesFor count)).modify (count / 8) (lowest (count % 8))

/-! ## Single bytes -/

@[simp]
theorem length_bitsOfByte (msbFirst : Bool) (count : Nat) (byte : UInt8) :
    (bitsOfByte msbFirst count byte).length = count := by
  cases msbFirst <;> simp [bitsOfByte]

theorem numberOfBits_testBit (number count : Nat) :
    numberOfBits ((List.range count).map number.testBit).reverse = number % 2 ^ count := by
  induction count with
  | zero => simp [numberOfBits, Nat.mod_one]
  | succ count ih =>
      rw [List.range_succ, List.map_append, List.reverse_append, List.map_singleton,
        List.reverse_singleton, List.singleton_append, numberOfBits_cons, ih,
        List.length_reverse, List.length_map, List.length_range, Nat.toNat_testBit,
        Nat.mod_pow_succ]
      ring

theorem byteOfBits_bitsOfByte (msbFirst : Bool) (count : Nat) (byte : UInt8) :
    byteOfBits msbFirst (bitsOfByte msbFirst count byte) = lowest count byte := by
  rw [lowest, ← numberOfBits_testBit]
  cases msbFirst <;> simp [byteOfBits, bitsOfByte]

theorem lowest_eight (byte : UInt8) : lowest 8 byte = byte := by
  rw [lowest, Nat.mod_eq_of_lt byte.toNat_lt, UInt8.ofNat_toNat]

/-! ## All bytes -/

@[simp]
theorem bytesFor_zero : bytesFor 0 = 0 := rfl

theorem bytesFor_of_lt {count : Nat} (hpos : 0 < count) (hcount : count < 8) :
    bytesFor count = 1 := by
  rw [bytesFor]
  omega

@[simp]
theorem bytesFor_add_eight (count : Nat) : bytesFor (count + 8) = bytesFor count + 1 := by
  rw [bytesFor, bytesFor]
  omega

/-- A payload is empty, or a tail in one byte, or a byte in front of another payload. -/
theorem bytes_induction
    {motive : (count : Nat) → (data : List UInt8) → bytesFor count ≤ data.length → Prop}
    (none : ∀ data hlong, motive 0 data hlong)
    (tail : ∀ count byte rest hlong, 0 < count → count < 8 → motive count (byte :: rest) hlong)
    (whole : ∀ count byte rest hlong hrest,
      motive count rest hrest → motive (count + 8) (byte :: rest) hlong)
    (count : Nat) (data : List UInt8) (hlong : bytesFor count ≤ data.length) :
    motive count data hlong := by
  induction data generalizing count with
  | nil =>
      obtain rfl : count = 0 := by
        simp [bytesFor] at hlong
        omega
      exact none [] hlong
  | cons byte rest ih =>
      rcases Nat.eq_zero_or_pos count with rfl | hpos
      · exact none _ hlong
      · by_cases htail : count < 8
        · exact tail count byte rest hlong hpos htail
        · obtain ⟨count, rfl⟩ := Nat.exists_eq_add_of_le' (Nat.le_of_not_lt htail)
          rw [bytesFor_add_eight, List.length_cons] at hlong
          have hrest := Nat.le_of_succ_le_succ hlong
          exact whole count byte rest _ hrest (ih count hrest)

theorem unpack_of_lt (msbFirst : Bool) {count : Nat} (hpos : 0 < count) (hcount : count < 8)
    (byte : UInt8) (rest : List UInt8) :
    unpack msbFirst count (byte :: rest) = bitsOfByte msbFirst count byte := by
  rw [unpack_cons msbFirst hpos, if_pos hcount]

theorem unpack_add_eight (msbFirst : Bool) (count : Nat) (byte : UInt8) (rest : List UInt8) :
    unpack msbFirst (count + 8) (byte :: rest) =
      bitsOfByte msbFirst 8 byte ++ unpack msbFirst count rest := by
  have hpos : 0 < count + 8 := Nat.add_pos_right count (by decide)
  rw [unpack_cons msbFirst hpos, if_neg (Nat.not_lt_of_le (Nat.le_add_left 8 count)),
    Nat.add_sub_cancel]

theorem kept_of_lt {count : Nat} (hpos : 0 < count) (hcount : count < 8) (byte : UInt8)
    (rest : List UInt8) : kept count (byte :: rest) = [lowest count byte] := by
  rw [kept, Nat.mod_eq_of_lt hcount, if_neg (Nat.ne_of_gt hpos), bytesFor_of_lt hpos hcount,
    List.take_succ_cons, List.take_zero, Nat.div_eq_of_lt hcount, List.modify_zero_cons]

theorem kept_add_eight (count : Nat) (byte : UInt8) (rest : List UInt8) :
    kept (count + 8) (byte :: rest) = byte :: kept count rest := by
  rw [kept, kept, Nat.add_mod_right, bytesFor_add_eight, List.take_succ_cons,
    Nat.add_div_right count (by decide), List.modify_succ_cons]
  split <;> rfl

theorem length_unpack (msbFirst : Bool) {count : Nat} {data : List UInt8}
    (hlong : bytesFor count ≤ data.length) : (unpack msbFirst count data).length = count := by
  induction count, data, hlong using bytes_induction with
  | none data => cases data <;> rfl
  | tail count byte rest _ hpos hcount =>
      rw [unpack_of_lt msbFirst hpos hcount, length_bitsOfByte]
  | whole count byte rest _ _ ih =>
      rw [unpack_add_eight, List.length_append, length_bitsOfByte, ih, Nat.add_comm]

/-- Bytes behind those of a payload do not matter. -/
theorem unpack_take (msbFirst : Bool) {count : Nat} {data : List UInt8}
    (hlong : bytesFor count ≤ data.length) :
    unpack msbFirst count (data.take (bytesFor count)) = unpack msbFirst count data := by
  induction count, data, hlong using bytes_induction with
  | none data => cases data <;> rfl
  | tail count byte rest _ hpos hcount =>
      rw [bytesFor_of_lt hpos hcount, List.take_succ_cons, unpack_of_lt msbFirst hpos hcount,
        unpack_of_lt msbFirst hpos hcount]
  | whole count byte rest _ _ ih =>
      rw [bytesFor_add_eight, List.take_succ_cons, unpack_add_eight, unpack_add_eight, ih]

/-- What was unpacked is packed to the bytes that it came from. -/
theorem pack_unpack (msbFirst : Bool) {count : Nat} {data : List UInt8}
    (hlong : bytesFor count ≤ data.length) :
    pack msbFirst (unpack msbFirst count data) = kept count data := by
  induction count, data, hlong using bytes_induction with
  | none data => simp [unpack, kept]
  | tail count byte rest _ hpos hcount =>
      have hlength := length_bitsOfByte msbFirst count byte
      have hne : bitsOfByte msbFirst count byte ≠ [] := List.ne_nil_of_length_pos (by omega)
      rw [unpack_of_lt msbFirst hpos hcount, Packing.pack_of_length_le hne (by omega),
        byteOfBits_bitsOfByte, kept_of_lt hpos hcount]
  | whole count byte rest _ _ ih =>
      rw [unpack_add_eight, Packing.pack_append (length_bitsOfByte msbFirst 8 byte),
        byteOfBits_bitsOfByte, lowest_eight, ih, kept_add_eight]

end Blanking.Payload
